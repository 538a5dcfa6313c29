import PathRules.Proofs.Run.Meaning
import PathRules.Proofs.Trace.Grounded

/-!
# Reported places

Every leaf that a run reports, of a rejection or among the warnings of an accepted value, names
the way to the value it was recorded for: its place, followed from the value that was validated,
raises nothing and ends in that value.
-/

namespace PathRules

namespace Validation

variable {g : ObjectGraph} {validation : Validation} {run : Run} {v : Value} {outcome : Outcome}

/-- Every move that the run makes can be made again. -/
def RepeatsMoves (g : ObjectGraph) (run : Run) (validation : Validation) (v : Value) : Prop :=
  ∀ t, ((validation.trace (run.rulebook.rules g) v).runOn g run.store).1 = .ok t →
    ∀ move ∈ t.moves v, move.CanRepeat g

/-- A reported place leads to the reported value. -/
theorem recorded_reached (made : validation.MadeOf (.steady g))
    (book : run.rulebook.MadeOf (.steady g)) (fresh : run.stack = {})
    (repeats : RepeatsMoves g run validation v)
    (returned : ((validation.validate v).runOn g run).1 = .ok outcome) :
    ∀ p ∈ outcome.recorded, (p.place.walk v).Answers g p.leaf.value := by
  have served := book.served (g := g) Material.steady_holdsFields
  have grounds := ensures_trace served made v run.store
  rw [(validate_eq_outcome made.any
    (fun registry cls rule found => (served registry cls rule found).any) fresh v).1] at returned
  rcases traced : (validation.trace (run.rulebook.rules g) v).runOn g run.store with
    ⟨fault | t, store⟩ <;> rw [traced] at returned grounds <;> cases returned
  rw [Trace.recorded_outcome]
  exact t.reached_of_grounded v grounds (repeats t (by rw [traced]))

/-- Requires of each entry a part that is never there. -/
def eachEntry : Validation :=
  elements (.entries []) (.step .required [] (.property "name" Extract.nothing)
    (object [] [] false false))

/-- The trace of `eachEntry` on a value of one entry. -/
def missingOf (g : ObjectGraph) (v key value : Value) : Trace :=
  .elements (.entries []) v
    [.step (.ofKey g key) (.entry key value) (.missing (.property "name" Extract.nothing))]

theorem eachEntry_madeOf (g : ObjectGraph) : eachEntry.MadeOf (.steady g) := by
  refine ⟨trivial, ?_, by simp, trivial⟩
  rintro _ ⟨⟩ v -
  exact Check.IsSteady.of_pure _

theorem validate_eachEntry {key value : Value}
    (traced : ((eachEntry.trace (({} : Rulebook).rules g) v).runOn g {}).1 =
      .ok (missingOf g v key value)) :
    ((eachEntry.validate v).runOn g {}).1 = .ok ((missingOf g v key value).outcome v) := by
  have book : ({} : Rulebook).MadeOf .any := by simp [Rulebook.MadeOf]
  rw [(validate_eq_outcome (eachEntry_madeOf g).any (book.served Material.any_holdsFields)
    rfl v).1]
  exact congrArg (Except.map (Trace.outcome v)) traced

/-- What is missing of an entry of a map is reported at the key of the entry. -/
theorem recorded_reached_in_map :
    ∃ outcome, ((eachEntry.validate (.map [(.str "a", .int 1)])).runOn {} {}).1 = .ok outcome ∧
      outcome.recorded.map (·.leaf) = [Leaf.required] ∧
      ∀ p ∈ outcome.recorded,
        (p.place.walk (.map [(.str "a", .int 1)])).Answers {} p.leaf.value := by
  have returned := @validate_eachEntry {} (.map [(.str "a", .int 1)]) (.str "a") (.int 1) rfl
  have repeats : RepeatsMoves {} {} eachEntry (.map [(.str "a", .int 1)]) := by
    rintro t ⟨⟩
    have mapping : Value.Mapping {} [(.str "a", .int 1)] := ⟨by simp; rfl, by simp⟩
    simpa [Trace.moves, Trace.movesOf, Move.CanRepeat, Value.isSource, Elements.Suits]
  have book : ({} : Run).rulebook.MadeOf (.steady {}) := by simp [Rulebook.MadeOf]
  refine ⟨_, returned, ?_, recorded_reached (eachEntry_madeOf {}) book rfl repeats returned⟩
  rw [Trace.recorded_outcome]
  rfl

/-- An object that is no map, but has a method `items`. -/
def rows : ObjectGraph where
  objects := #[⟨"Rows", false, [], [("items", .list [.tuple [.str "a", .int 1]])]⟩]

/-- What has a method `items` and no keys is reported at places that lead nowhere.  The
extractors are steady, and the run reads no source and nothing by position. -/
theorem recorded_not_reached_in_rows :
    eachEntry.MadeOf (.steady rows) ∧
      ((eachEntry.trace (({} : Rulebook).rules rows) (.object 0)).runOn rows {}).1.map
          (·.moves (.object 0)) =
        .ok [.elements (.object 0) (.entries []), .step (.object 0),
          .step (.entry (.str "a") (.int 1))] ∧
      ∃ outcome, ((eachEntry.validate (.object 0)).runOn rows {}).1 = .ok outcome ∧
        ∃ p ∈ outcome.recorded,
          ((p.place.walk (.object 0)).runOn rows {}).1 = .error .wrongType := by
  have returned := @validate_eachEntry rows (.object 0) (.str "a") (.int 1) rfl
  refine ⟨eachEntry_madeOf rows, rfl, _, returned, ?_⟩
  rw [Trace.recorded_outcome]
  exact ⟨_, List.mem_singleton.mpr rfl, rfl⟩

end Validation

end PathRules
