import PathRules.Proofs.Outcome.Places
import PathRules.Proofs.Run.Coherence

/-!
# Asking for a reported place

After a run that rejected a value a leaf is asked for with the segments of the place that it
reports.  It is found unless its innermost step stays in place: a question that is used up ends at
such a step, although the place of the leaf does not show it.
-/

namespace PathRules

variable {g : ObjectGraph}

namespace Trace

theorem place_of_trail {t : Trace} (failed : t.passed = false) {trail : Trail}
    (member : trail ∈ t.tree.trails) : trail.chain.map (·.segment) = trail.leaf.place := by
  rw [Trail.segments_chain (Node.unguarded_of_solid t.tree (t.solid_tree failed) trail member)]
  exact (Node.place_eq_of_trail [] _ trail member).symm

/-- Asking for a place finds the leaves whose trails arrive there. -/
theorem errorsAt_tree {t : Trace} (failed : t.passed = false) (p : DataPath) :
    t.tree.errorsAt g false (p.map .segment) =
      (t.tree.trails.filter (·.arrivesAt g p)).map (·.leaf) := by
  rw [Node.errorsAt_eq_found, Node.found_exactly]
  refine congrArg _ (List.filter_congr fun trail member => ?_)
  rw [Trail.consistsOf_segments, place_of_trail failed member, Trail.arrivesAt]

end Trace

namespace Validation

/-- What a rejected outcome answers when asked for a place.  The place of a leaf shows the steps
above it that lead somewhere else, and all leaves are found that report an equal place but those
whose innermost step stays in place.  If there are none of these, the answer consists of the
leaves that report the place, in their order, and if the reported segments serve as keys, it is
the group of the place. -/
theorem errorsAt_reported {validation : Validation} (made : validation.MadeOf .any) {run : Run}
    (book : run.rulebook.MadeOf .any) (fresh : run.stack = {}) {v : Value} {root : Node Placed}
    {after : Run} (returned : (validation.validate v).runOn g run = (.ok (.rejected root), after))
    (p : DataPath) :
    (∀ t ∈ root.trails, t.chain.map (·.segment) = t.leaf.place) ∧
    root.errorsAt g false (p.map .segment) =
      (root.trails.filter (·.arrivesAt g p)).map (·.leaf) ∧
    ((∀ t ∈ root.trails, DataPath.eqBy (Segment.eq g) p t.leaf.place = true →
        t.endsMoving = true) →
      root.errorsAt g false (p.map .segment) =
          root.leaves.filter (fun q => DataPath.eqBy (Segment.eq g) p q.place) ∧
        (Segment.ServeAsKeys g (root.leaves.flatMap (·.place)) → p ∈ root.leaves.map (·.place) →
          Outcome.groupAt g ((Outcome.rejected root).grouped g) p =
            some (root.errorsAt g false (p.map .segment)))) := by
  have served := book.served (g := g) Material.any_holdsFields
  have outcome := (validate_eq_outcome made served fresh v).1
  rw [returned] at outcome
  rcases traced : (validation.trace (run.rulebook.rules g) v).runOn g run.store with
    ⟨fault | t, store⟩ <;> rw [traced] at outcome
  · cases outcome
  have rejected : t.outcome v = .rejected root := (Except.ok.inj outcome).symm
  have failed := t.isAccepted_outcome v
  rw [rejected] at failed
  rw [t.outcome_of_failed v failed.symm] at rejected
  cases rejected
  have answered := t.errorsAt_tree (g := g) failed.symm p
  refine ⟨fun trail member => t.place_of_trail failed.symm member, answered, fun moving => ?_⟩
  have found : t.tree.errorsAt g false (p.map .segment) =
      t.tree.leaves.filter fun q => DataPath.eqBy (Segment.eq g) p q.place := by
    rw [answered, ← Node.leaf_trails, List.filter_map]
    refine congrArg _ (List.filter_congr fun trail member => ?_)
    have arrived := moving trail member
    rw [Trail.arrivesAt, Function.comp_apply]
    cases here : DataPath.eqBy (Segment.eq g) p trail.leaf.place with
    | false => rw [Bool.and_false]
    | true => rw [arrived here, Bool.and_true]
  refine ⟨found, fun keys reported => ?_⟩
  obtain ⟨q, member, rfl⟩ := List.mem_map.mp reported
  rw [found]
  exact Outcome.groupAt_grouped keys member

/-- Both failures of `requiredTwice` are at one place, and one of them is reported there. -/
theorem errorsAt_reported_of_requiredTwice :
    ∃ root after, (requiredTwice.validate .null).runOn {} {} = (.ok (.rejected root), after) ∧
      root.errorsAt {} false [.segment (.property "name" Extract.nothing)] =
        [⟨Leaf.required, [.property "name" Extract.nothing]⟩] ∧
      Outcome.groupAt {} ((Outcome.rejected root).grouped {}) [.property "name" Extract.nothing] =
        some [⟨Leaf.required, [.property "name" Extract.nothing]⟩] := by
  obtain ⟨made, book, after, returned⟩ := runOn_requiredTwice
  obtain ⟨-, -, answer⟩ := errorsAt_reported made book rfl returned [.property "name" Extract.nothing]
  have trails : missedTwice.tree.trails = [⟨[.this, ⟨.property "name" Extract.nothing, []⟩],
      ⟨Leaf.required, [.property "name" Extract.nothing]⟩⟩] := rfl
  have leaves : missedTwice.tree.leaves =
      [⟨Leaf.required, [.property "name" Extract.nothing]⟩] := rfl
  obtain ⟨found, group⟩ := answer fun t member _ => by
    rw [trails, List.mem_singleton] at member
    rw [member]
    rfl
  have keys : Segment.ServeAsKeys {} (missedTwice.tree.leaves.flatMap (·.place)) := by
    refine Segment.serveAsKeys_of_label fun s member => ?_
    rw [leaves] at member
    rw [List.mem_singleton.mp member]
    rfl
  have answered : missedTwice.tree.errorsAt {} false [.segment (.property "name" Extract.nothing)] =
      [⟨Leaf.required, [.property "name" Extract.nothing]⟩] := by
    refine found.trans ?_
    rw [leaves]
    rfl
  refine ⟨_, _, returned, answered, (group keys ?_).trans (congrArg some answered)⟩
  rw [leaves]
  exact List.mem_cons_self

/-- A part that is required by a step that stays at it. -/
def requiredInPlace : Validation :=
  .step .undefined [] (.property "name" Extract.nothing)
    (.step .required [] .this (.object [] [] false false))

theorem traceWith_requiredInPlace (g : ObjectGraph) (expand : TraceModel) (store : Store) :
    (requiredInPlace.traceWith expand .null).runOn g store =
      (.ok (.step (.property "name" Extract.nothing) .null (.missing .this)), store) :=
  rfl

/-- A leaf whose innermost step stays in place is grouped under the place that it reports and is
not found there. -/
theorem errorsAt_requiredInPlace :
    ∃ root after, (requiredInPlace.validate .null).runOn {} {} = (.ok (.rejected root), after) ∧
      root.leaves = [⟨Leaf.required, [.property "name" Extract.nothing]⟩] ∧
      Outcome.groupAt {} ((Outcome.rejected root).grouped {}) [.property "name" Extract.nothing] =
        some [⟨Leaf.required, [.property "name" Extract.nothing]⟩] ∧
      root.errorsAt {} false [.segment (.property "name" Extract.nothing)] = [] := by
  have made : requiredInPlace.MadeOf .any := by
    simp [requiredInPlace, MadeOf, AllMadeOf, GuardsMadeOf, Material.any]
  have book : ({} : Run).rulebook.MadeOf .any := by simp [Rulebook.MadeOf]
  have ran := (@validate_eq_outcome {} _ made {} (book.served Material.any_holdsFields) rfl .null).1
  rw [runOn_trace, traceWith_requiredInPlace] at ran
  have returned := (Prod.eta ((requiredInPlace.validate .null).runOn {} {})).symm
  rw [ran] at returned
  exact ⟨_, _, returned, rfl, rfl, rfl⟩

end Validation

end PathRules
