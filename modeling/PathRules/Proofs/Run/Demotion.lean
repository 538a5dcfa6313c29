import PathRules.Proofs.Run.Coherence
import PathRules.Proofs.Run.ShortCircuit
import PathRules.Proofs.Trace.Demoted

/-!
# Turning errors into warnings rejects no more

Constraints outside guards are turned into warnings.  A run of the validation is compared with a
run of the changed one on the same value.  A group that was left early for an error may make more
checks now, so that all of them have to answer.
-/

namespace PathRules

variable {g : ObjectGraph}

@[simp] theorem Constraint.test_demoted (c : Constraint) (chosen : Bool) :
    (c.demoted chosen).test = c.test := by
  cases chosen <;> rfl

namespace Validation

variable {m : Material} {A : Store → Store → Prop} {models : Prop}

mutual

/-- Warnings are made of the same material if it is a matter of tests only. -/
theorem madeOf_demoted (same : ∀ c, m.constraint c → ∀ chosen, m.constraint (c.demoted chosen))
    (chosen : Choice) : (validation : Validation) → validation.MadeOf m →
      (validation.demoted chosen).MadeOf m
  | .object constraints subs _ _, h => by
    refine ⟨fun c member => ?_, allMadeOf_demoted same chosen.within subs h.2⟩
    obtain ⟨i, inside, rfl⟩ := List.mem_mapIdx.mp member
    exact same _ (h.1 _ (List.getElem_mem inside)) (chosen [] i)
  | .step _ _ _ inner, h => ⟨h.1, h.2.1, madeOf_demoted same chosen inner h.2.2⟩
  | .elements _ inner, h => madeOf_demoted same chosen inner h
  | .script .., h => h
  | .model .., h => h
termination_by structural validation => validation

theorem allMadeOf_demoted (same : ∀ c, m.constraint c → ∀ chosen, m.constraint (c.demoted chosen))
    (chosen : Nat → Choice) : (subs : List Validation) → AllMadeOf m subs →
      AllMadeOf m (allDemoted chosen subs)
  | [], h => h
  | sub :: subs, h => ⟨madeOf_demoted same (chosen 0) sub h.1,
      allMadeOf_demoted same (fun i => chosen (i + 1)) subs h.2⟩
termination_by structural subs => subs

end

mutual

theorem keeps_demoted (chosen : Choice) : (validation : Validation) → validation.Keeps g A models →
    (validation.demoted chosen).Keeps g A models
  | .object constraints subs _ _, h => by
    refine ⟨fun c member v => ?_, allKeep_demoted chosen.within subs h.2⟩
    obtain ⟨i, inside, rfl⟩ := List.mem_mapIdx.mp member
    rw [Constraint.test_demoted]
    exact h.1 _ (List.getElem_mem inside) v
  | .step _ _ _ inner, h => ⟨h.1, h.2.1, keeps_demoted chosen inner h.2.2⟩
  | .elements _ inner, h => keeps_demoted chosen inner h
  | .script .., h => h
  | .model .., h => h
termination_by structural validation => validation

theorem allKeep_demoted (chosen : Nat → Choice) : (subs : List Validation) →
    AllKeep g A models subs → AllKeep g A models (allDemoted chosen subs)
  | [], h => h
  | sub :: subs, h => ⟨keeps_demoted (chosen 0) sub h.1,
      allKeep_demoted (fun i => chosen (i + 1)) subs h.2⟩
termination_by structural subs => subs

end

mutual

theorem thorough_demoted (chosen : Choice) : (validation : Validation) →
    (validation.demoted chosen).thorough = validation.thorough.demoted chosen
  | .object constraints subs _ _ => by
    rw [demoted, thorough, thorough, demoted, allThorough_demoted chosen.within subs]
  | .step _ _ _ inner => by
    rw [demoted, thorough, thorough, demoted, thorough_demoted chosen inner]
  | .elements _ inner => by
    rw [demoted, thorough, thorough, demoted, thorough_demoted chosen inner]
  | .script .. | .model .. => rfl
termination_by structural validation => validation

theorem allThorough_demoted (chosen : Nat → Choice) : (subs : List Validation) →
    allThorough (allDemoted chosen subs) = allDemoted chosen (allThorough subs)
  | [] => rfl
  | sub :: subs => by
    rw [allDemoted, allThorough, allThorough, allDemoted, thorough_demoted (chosen 0) sub,
      allThorough_demoted (fun i => chosen (i + 1)) subs]
termination_by structural subs => subs

end

mutual

theorem unhurried_thorough : (validation : Validation) → validation.thorough.Unhurried
  | .object _ subs _ _ => ⟨rfl, unhurried_allThorough subs⟩
  | .step _ _ _ inner => unhurried_thorough inner
  | .elements _ inner => unhurried_thorough inner
  | .script .. | .model .. => trivial
termination_by structural validation => validation

theorem unhurried_allThorough : (subs : List Validation) →
    EachGroupIn (fun _ _ _ short => short = false) (allThorough subs)
  | [] => trivial
  | sub :: subs => ⟨unhurried_thorough sub, unhurried_allThorough subs⟩
termination_by structural subs => subs

end

/-- A trace in which errors are warnings is what the thorough validation answers after they were
turned into warnings; and what is answered without leaving groups early has the same verdict. -/
theorem demoted_shadows {validation : Validation} (made : validation.MadeOf (.unaware g))
    (free : validation.ModelFree g) (chosen : Choice) (expand : TraceModel) (v : Value) :
    ((validation.demoted chosen).traceWith expand v).Shadows g
      (validation.thorough.traceWith expand v)
      fun t all => t.passed = (all.demoted chosen).passed := by
  have unaware := madeOf_demoted (m := .unaware g) (fun c h chosen v => by
    rw [Constraint.test_demoted]; exact h v) chosen validation made
  have shadows : ((validation.demoted chosen).traceWith expand v).Shadows g
      ((validation.demoted chosen).thorough.traceWith expand v) (Trace.Shortened False) :=
    shadows_traceWith _ unaware (keeps_demoted chosen _ free) False (fun exactly => exactly.elim) v
  rw [thorough_demoted, traceWith_demoted chosen _ (unhurried_thorough validation)
    (keeps_thorough _ free) v] at shadows
  intro store store' dry dry' all after' ran
  have ran' : (Trace.demoted chosen <$> validation.thorough.traceWith expand v).runOn g store' =
      (.ok (all.demoted chosen), after') := by
    rw [map_eq_pure_bind, Check.runOn_bind, ran]
    rfl
  obtain ⟨left, t, after, answered, dry, shortened⟩ :=
    shadows store store' dry dry' _ after' ran'
  exact ⟨left, t, after, answered, dry, shortened.passed⟩

/-- The outcome of the changed validation where no group is left early, read off the trace of the
validation. -/
theorem validate_demoted_eq_trace {validation : Validation} (made : validation.MadeOf .any)
    (free : validation.ModelFree g) (unhurried : validation.Unhurried) (chosen : Choice) {run : Run}
    (fresh : run.stack = {}) (v : Value) :
    (((validation.demoted chosen).validate v).runOn g run).1 =
      ((validation.trace (({} : Rulebook).rules g) v).runOn g run.store).1.map fun t =>
        (t.demoted chosen).outcome v := by
  have same := madeOf_demoted (m := .any) (fun _ _ _ => trivial) chosen validation made
  rw [validate_eq_trace same (keeps_demoted chosen validation free) fresh, runOn_trace, runOn_trace,
    traceWith_demoted chosen validation unhurried free, map_eq_pure_bind, Check.runOn_bind]
  rcases (validation.traceWith _ v).runOn g run.store with ⟨fault | t, after⟩ <;> rfl

/-- Turning errors outside guards into warnings rejects no more.  The validation holds no model,
its tests and extractors take no notice of the store, and there are no one-shot sources.  If it
accepts a value on which all its checks can be made, also those that a group left early does not
make, then it accepts the value afterwards.  If all groups need all their checks and none is left
early, both runs raise the same fault, or they record the same leaves in the same order, of which
those of chosen constraints, and no others, are warnings afterwards. -/
theorem demotion_rejects_no_more {validation : Validation} (made : validation.MadeOf (.unaware g))
    (free : validation.ModelFree g) {run : Run} (fresh : run.stack = {})
    (dry : run.store.sources = []) (chosen : Choice) (v : Value) :
    let plain := ((validation.validate v).runOn g run).1
    let softened := (((validation.demoted chosen).validate v).runOn g run).1
    (∀ outcome all, plain = .ok outcome → outcome.isAccepted = true →
      validation.MakesAll g run v all →
        ∃ outcome', softened = .ok outcome' ∧ outcome'.isAccepted = true) ∧
    (validation.AllGroups → validation.Unhurried →
      (∃ fault, plain = .error fault ∧ softened = .error fault) ∨
      ∃ t outcome outcome', ((validation.trace (({} : Rulebook).rules g) v).runOn g run.store).1 =
          .ok t ∧ plain = .ok outcome ∧ softened = .ok outcome' ∧
        outcome.recorded = (t.marked chosen).map Prod.snd ∧
        outcome'.recorded = (t.marked chosen).map fun marked => marked.2.demoted marked.1) := by
  have demoted := madeOf_demoted (m := .any) (fun _ _ _ => trivial) chosen validation (made.any _)
  have soft := validate_eq_trace demoted (keeps_demoted chosen validation free) fresh v
  have plain := validate_eq_trace (made.any _) free fresh v
  refine ⟨fun outcome all returned accepted whole => ?_, fun groups unhurried => ?_⟩
  · have thorough := validate_eq_trace ((madeOf_thorough validation made).any _)
      (keeps_thorough validation free) fresh v
    rw [MakesAll, thorough, runOn_trace] at whole
    rw [plain, runOn_trace] at returned
    rw [soft, runOn_trace]
    rcases ran : (validation.thorough.traceWith (traceModel (({} : Rulebook).rules g)
      (g.expansions v run.store.sources)) v).runOn g run.store with ⟨fault | u, after⟩ <;>
      rw [ran] at whole <;> cases whole
    obtain ⟨-, t, _, answered, -, shortened⟩ :=
      shadows_traceWith validation made free False (fun exactly => exactly.elim) v run.store
        run.store dry dry u after ran
    obtain ⟨-, t', _, answered', -, verdict⟩ :=
      demoted_shadows made free chosen _ v run.store run.store dry dry u after ran
    rw [answered] at returned
    cases returned
    rw [t.isAccepted_outcome, shortened.passed] at accepted
    refine ⟨t'.outcome v, by rw [answered']; rfl, ?_⟩
    rw [t'.isAccepted_outcome, verdict]
    exact u.passed_demoted chosen accepted
  · have traces : (validation.trace (({} : Rulebook).rules g) v).Ensures g Trace.AllGroups := by
      refine ensures_allGroups_trace (fun registry cls rule found => ?_) groups v
      cases (rules_of_unregistered g registry cls).symm.trans found
      exact ⟨rfl, trivial⟩
    have plainGroups := traces run.store
    rw [validate_demoted_eq_trace (made.any _) free unhurried chosen fresh v, plain]
    rcases traced : (validation.trace (({} : Rulebook).rules g) v).runOn g run.store with
      ⟨fault | t, after⟩ <;> rw [traced] at plainGroups
    · exact .inl ⟨fault, rfl, rfl⟩
    · refine .inr ⟨t, _, _, rfl, rfl, rfl, ?_, ?_⟩
      · rw [t.recorded_outcome, t.map_snd_marked]
      · rw [(t.demoted chosen).recorded_outcome, t.leaves_demoted chosen plainGroups]

/-- A value may be accepted although two constraints fail. -/
def failsTwiceOrPasses : Validation :=
  .object [] [failsTwice, .object [] [] false false] true true

theorem traceWith_failsTwiceOrPasses (g : ObjectGraph) (expand : TraceModel) (store : Store) :
    (failsTwiceOrPasses.traceWith expand .null).runOn g store =
        (.ok (.group .any [] [.group .all [some ⟨.error, "a", .null⟩] [], .group .all [] []]),
          store) ∧
      (failsTwiceOrPasses.thorough.traceWith expand .null).runOn g store =
        (.ok (.group .any [] [.group .all [some ⟨.error, "a", .null⟩, some ⟨.error, "b", .null⟩] [],
          .group .all [] []]), store) := ⟨rfl, rfl⟩

/-- The first constraint becomes a warning: the second one is tested then, and the value is still
accepted.  If both are tested anyhow, their leaves differ by the severity of the first. -/
theorem demotion_rejects_no_more_of_failsTwice :
    (∃ outcome, (((failsTwiceOrPasses.demoted fun _ i => i == 0).validate .null).runOn {} {}).1 =
      .ok outcome ∧ outcome.isAccepted = true) ∧
    ∃ outcome, (((failsTwice.thorough.demoted fun _ i => i == 0).validate .null).runOn {} {}).1 =
      .ok outcome ∧ outcome.recorded =
        [⟨⟨.warning, "a", .null⟩, []⟩, ⟨⟨.error, "b", .null⟩, []⟩] := by
  obtain ⟨made, free⟩ := failsTwice_plain
  have madeEither : failsTwiceOrPasses.MadeOf (.unaware {}) :=
    ⟨by simp, made, ⟨by simp, trivial⟩, trivial⟩
  have freeEither : failsTwiceOrPasses.ModelFree {} := ⟨by simp, free, ⟨by simp, trivial⟩, trivial⟩
  have fresh : ({} : Run).stack = {} := rfl
  have accepted := validate_eq_trace (madeEither.any _) freeEither fresh .null
  have whole := validate_eq_trace ((madeOf_thorough _ madeEither).any _)
    (keeps_thorough _ freeEither) fresh .null
  rw [runOn_trace, (traceWith_failsTwiceOrPasses ..).1] at accepted
  rw [runOn_trace, (traceWith_failsTwiceOrPasses ..).2] at whole
  refine ⟨(demotion_rejects_no_more madeEither freeEither fresh rfl (fun _ i => i == 0) .null).1 _ _
    accepted rfl whole, ?_⟩
  have tested := fun rules => runOn_trace (g := {}) rules failsTwice.thorough .null {}
  simp only [traceWith_thorough_failsTwice] at tested
  rcases (demotion_rejects_no_more (madeOf_thorough _ made) (keeps_thorough _ free) fresh rfl
      (fun _ i => i == 0) .null).2 ⟨rfl, trivial⟩ ⟨rfl, trivial⟩ with
    ⟨fault, plain, -⟩ | ⟨t, outcome, outcome', traced, -, softened, -, recorded⟩
  · rw [validate_eq_trace ((madeOf_thorough _ made).any _) (keeps_thorough _ free) fresh,
      tested] at plain
    cases plain
  · rw [tested] at traced
    cases traced
    exact ⟨outcome', softened, recorded⟩

/-- A group that is left at its failing constraint, before the elements of the value are visited;
another validation may pass instead. -/
def leftEarly : Validation :=
  .object [] [.object [{ hint := "c", test := fun _ => pure false }]
    [.elements (.iterated []) (.object [] [] false false)] false true,
      .object [] [] false false] true true

/-- A number is accepted.  It is not once the constraint is a warning, for then its elements are
visited. -/
theorem demoted_leftEarly : leftEarly.MadeOf (.unaware {}) ∧ leftEarly.ModelFree {} ∧
    ((leftEarly.validate (.int 5)).runOn {} {}).1 = .ok (.accepted (.int 5) []) ∧
    (((leftEarly.demoted fun _ _ => true).validate (.int 5)).runOn {} {}).1 =
      .error .wrongType := by
  refine ⟨⟨by simp, ⟨fun c declared v => ?_, ⟨by simp, trivial⟩, trivial⟩, ⟨by simp, trivial⟩,
      trivial⟩,
    ⟨by simp, ⟨fun _ _ _ => .any _, ⟨by simp, trivial⟩, trivial⟩, ⟨by simp, trivial⟩, trivial⟩,
    rfl, rfl⟩
  rw [List.mem_singleton.mp declared]
  exact .of_pure false

/-- Without leaving the group early, its elements are visited as it stands. -/
example : ((leftEarly.thorough.validate (.int 5)).runOn {} {}).1 = .error .wrongType := rfl

end Validation

end PathRules
