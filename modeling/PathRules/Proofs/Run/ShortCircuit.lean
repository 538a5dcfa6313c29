import PathRules.Proofs.Run.Lockstep
import PathRules.Proofs.Run.Meaning
import PathRules.Proofs.Trace.Thorough

/-!
# Leaving groups early changes no verdict

A run of a validation is compared with a run of the thorough one on the same value.  Neither looks
up rules, as the validation holds no model, so that the rulebook does not matter.
-/

namespace PathRules

variable {g : ObjectGraph}

namespace Trace

theorem failures_outcome (v : Value) (t : Trace) :
    (t.outcome v).failures = if t.passed then [] else t.leaves := by
  unfold outcome Validation.outcomeOf
  split <;> simp [Outcome.failures]

theorem warnings_outcome {t : Trace} (v : Value) (h : t.passed = true) :
    (t.outcome v).warnings = t.leaves := by
  have recorded := t.recorded_outcome v
  unfold outcome Validation.outcomeOf at recorded ⊢
  rw [h, if_pos rfl] at recorded ⊢
  exact recorded

end Trace

namespace Validation

variable {m : Material} {A : Store → Store → Prop} {models : Prop}

mutual

/-- Making all checks takes no other material. -/
theorem madeOf_thorough : (validation : Validation) → validation.MadeOf m →
    validation.thorough.MadeOf m
  | .object _ subs _ _, h => ⟨h.1, allMadeOf_thorough subs h.2⟩
  | .step _ guards _ inner, h => ⟨guardsMadeOf_thorough guards h.1, h.2.1, madeOf_thorough inner h.2.2⟩
  | .elements _ inner, h => madeOf_thorough inner h
  | .script .., h => h
  | .model .., h => h
termination_by structural validation => validation

theorem allMadeOf_thorough : (subs : List Validation) → AllMadeOf m subs →
    AllMadeOf m (allThorough subs)
  | [], h => h
  | sub :: subs, h => ⟨madeOf_thorough sub h.1, allMadeOf_thorough subs h.2⟩
termination_by structural subs => subs

theorem guardsMadeOf_thorough : (guards : List Guard) → GuardsMadeOf m guards →
    GuardsMadeOf m (guardsThorough guards)
  | [], h => h
  | .mk _ condition :: guards, h => ⟨madeOf_thorough condition h.1, guardsMadeOf_thorough guards h.2⟩
termination_by structural guards => guards

end

mutual

/-- Making all checks changes the store in no other way and meets no other model. -/
theorem keeps_thorough : (validation : Validation) → validation.Keeps g A models →
    validation.thorough.Keeps g A models
  | .object _ subs _ _, h => ⟨h.1, allKeep_thorough subs h.2⟩
  | .step _ guards _ inner, h => ⟨guardsKeep_thorough guards h.1, h.2.1, keeps_thorough inner h.2.2⟩
  | .elements _ inner, h => keeps_thorough inner h
  | .script .., h => h
  | .model .., h => h
termination_by structural validation => validation

theorem allKeep_thorough : (subs : List Validation) → AllKeep g A models subs →
    AllKeep g A models (allThorough subs)
  | [], h => h
  | sub :: subs, h => ⟨keeps_thorough sub h.1, allKeep_thorough subs h.2⟩
termination_by structural subs => subs

theorem guardsKeep_thorough : (guards : List Guard) → GuardsKeep g A models guards →
    GuardsKeep g A models (guardsThorough guards)
  | [], h => h
  | .mk _ condition :: guards, h => ⟨keeps_thorough condition h.1, guardsKeep_thorough guards h.2⟩
termination_by structural guards => guards

end

/-- A run and the same run with nothing registered. -/
theorem congruence_unregistered : Congruence (fun _ _ => True) fun run run' =>
    run' = { run with rulebook := {} } :=
  .of_rulebook (fun related => by rw [related]) fun related _ _ _ => by rw [related]

/-- The validation holds no model. -/
def ModelFree (g : ObjectGraph) (validation : Validation) : Prop :=
  validation.Keeps g (fun _ _ => True) False

/-- Without models it does not matter what is registered. -/
theorem validate_unregistered {validation : Validation} (free : validation.ModelFree g) (v : Value)
    (run : Run) : ((validation.validate v).runOn g run).1 =
      ((validation.validate v).runOn g { run with rulebook := {} }).1 := by
  have checked : Lockstep g (fun run run' => run' = { run with rulebook := {} })
      (validation.check v) (validation.check v) := by
    refine Lockstep.of_read (.of_get congruence_unregistered (fun _ _ _ _ => rfl) fun run _ _ => ?_)
    exact evaluate_lockstep congruence_unregistered .any (fun none => none.elim) validation free v
  exact (reporting_lockstep congruence_unregistered .any checked validation v run _ rfl).1

/-- What a run returns of a validation without models, read off its trace. -/
theorem validate_eq_trace {validation : Validation} (made : validation.MadeOf .any)
    (free : validation.ModelFree g) {run : Run} (fresh : run.stack = {}) (v : Value) :
    ((validation.validate v).runOn g run).1 =
      ((validation.trace (({} : Rulebook).rules g) v).runOn g run.store).1.map
        (Trace.outcome v) := by
  have book : ({} : Rulebook).MadeOf .any := by simp [Rulebook.MadeOf]
  rw [validate_unregistered free]
  exact (@validate_eq_outcome g _ made { run with rulebook := {} }
    (book.served Material.any_holdsFields) fresh v).1

/-- Making all checks of a validation, also those that a group left early does not make, raises
nothing and comes to `outcome`.  More is asked than that no test and no extractor raises: behind a
group that is left early, the elements of a value that is no collection may be asked for, which
raises `Fault.wrongType` (see `demoted_leftEarly`). -/
def MakesAll (g : ObjectGraph) (run : Run) (validation : Validation) (v : Value)
    (outcome : Outcome) : Prop :=
  ((validation.thorough.validate v).runOn g run).1 = .ok outcome

/-- Leaving groups early changes no verdict.  The validation holds no model, its tests and
extractors take no notice of the store, and there are no one-shot sources.  If making all its
checks comes to an outcome, so does the validation.  Both accept the value or both reject it,
and what is reported of a rejected value is part of what is reported otherwise, in the same order.
The warnings of an accepted value are the same, and if no group is left early of which all checks
have to pass, so are the failures. -/
theorem short_circuit_keeps_verdict {validation : Validation}
    (made : validation.MadeOf (.unaware g)) (free : validation.ModelFree g) {run : Run}
    (fresh : run.stack = {}) (dry : run.store.sources = []) {v : Value} {outcome' : Outcome}
    (returned : validation.MakesAll g run v outcome') :
    ∃ outcome, ((validation.validate v).runOn g run).1 = .ok outcome ∧
      outcome.isAccepted = outcome'.isAccepted ∧
      outcome.failures.Sublist outcome'.failures ∧
      (outcome.isAccepted = true → outcome.warnings = outcome'.warnings) ∧
      (validation.EachGroup .runsOn → outcome.failures = outcome'.failures) := by
  have thorough := madeOf_thorough validation made
  rw [MakesAll, validate_eq_trace (thorough.any _) (keeps_thorough validation free) fresh, runOn_trace]
    at returned
  rw [validate_eq_trace (made.any _) free fresh, runOn_trace]
  have shadows : (validation.traceWith (traceModel (({} : Rulebook).rules g)
      (g.expansions v run.store.sources)) v).Shadows g _
        (Trace.Shortened (validation.EachGroup .runsOn)) :=
    shadows_traceWith validation made free (validation.EachGroup .runsOn) id v
  rcases ran : (validation.thorough.traceWith (traceModel (({} : Rulebook).rules g)
    (g.expansions v run.store.sources)) v).runOn g run.store with ⟨fault | t', after'⟩ <;>
    rw [ran] at returned <;> cases returned
  obtain ⟨-, t, after, answered, -, shortened⟩ := shadows run.store run.store dry dry t' after' ran
  rw [answered]
  refine ⟨t.outcome v, rfl, ?_, ?_, fun accepted => ?_, fun runsOn => ?_⟩
  · rw [t.isAccepted_outcome, t'.isAccepted_outcome, shortened.passed]
  · rw [t.failures_outcome, t'.failures_outcome, shortened.passed]
    split
    · exact .refl _
    · exact shortened.leaves
  · rw [t.isAccepted_outcome] at accepted
    have accepted' := shortened.passed.symm.trans accepted
    rw [t.warnings_outcome v accepted, t'.warnings_outcome v accepted']
    exact shortened.same (.inl accepted')
  · rw [t.failures_outcome, t'.failures_outcome, shortened.passed, shortened.same (.inr runsOn)]

/-- Two constraints that always fail, of which the first one ends the group. -/
def failsTwice : Validation :=
  .object [{ hint := "a", test := fun _ => pure false },
    { hint := "b", test := fun _ => pure false }] [] false true

theorem failsTwice_plain : failsTwice.MadeOf (.unaware {}) ∧ failsTwice.ModelFree {} := by
  refine ⟨⟨fun c declared v => ?_, trivial⟩, ⟨fun _ _ _ => .any _, trivial⟩⟩
  rcases List.mem_cons.mp declared with rfl | later
  · exact .of_pure false
  · rw [List.mem_singleton.mp later]
    exact .of_pure false

theorem traceWith_failsTwice (g : ObjectGraph) (expand : TraceModel) (store : Store) :
    (failsTwice.traceWith expand .null).runOn g store =
      (.ok (.group .all [some ⟨.error, "a", .null⟩] []), store) := rfl

theorem traceWith_thorough_failsTwice (g : ObjectGraph) (expand : TraceModel) (store : Store) :
    (failsTwice.thorough.traceWith expand .null).runOn g store =
      (.ok (.group .all [some ⟨.error, "a", .null⟩, some ⟨.error, "b", .null⟩] []), store) := rfl

/-- The second failure is not reported, and the value is rejected all the same. -/
theorem short_circuit_keeps_verdict_of_failsTwice :
    ∃ outcome outcome', ((failsTwice.validate .null).runOn {} {}).1 = .ok outcome ∧
      ((failsTwice.thorough.validate .null).runOn {} {}).1 = .ok outcome' ∧
      outcome.isAccepted = outcome'.isAccepted ∧ outcome.failures.Sublist outcome'.failures ∧
      outcome.failures.length = 1 ∧ outcome'.failures.length = 2 := by
  obtain ⟨made, free⟩ := failsTwice_plain
  have thorough := validate_eq_trace ((madeOf_thorough _ made).any _) (keeps_thorough _ free)
    (rfl : ({} : Run).stack = {}) .null
  rw [runOn_trace, traceWith_thorough_failsTwice] at thorough
  obtain ⟨outcome, ran, verdict, part, -⟩ := short_circuit_keeps_verdict made free rfl rfl thorough
  have early := validate_eq_trace (made.any _) free (rfl : ({} : Run).stack = {}) .null
  rw [runOn_trace, traceWith_failsTwice, ran] at early
  cases early
  exact ⟨_, _, ran, thorough, verdict, part, rfl, rfl⟩

end Validation

end PathRules
