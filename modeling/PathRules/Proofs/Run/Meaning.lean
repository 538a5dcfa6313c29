import PathRules.Proofs.Model.Material
import PathRules.Proofs.Run.Simulation
import PathRules.Proofs.Trace.Leaves

/-!
# What a run means

A run that starts on an empty stack ends in the outcome of its trace: the verdict and the leaves
of the outcome are those that `Validation.meaning` finds without a stack, and the entries of the
store are left as it leaves them.
-/

namespace PathRules

variable {g : ObjectGraph}

@[simp] theorem Validation.isAccepted_outcomeOf (v : Value) (passed : Bool) (root : Node Placed) :
    (outcomeOf v passed root).isAccepted = passed := by
  cases passed <;> rfl

namespace Trace

/-- The tree of a run, in which everything is attached to the root. -/
def tree (t : Trace) : Node Placed := (Node.path .this t.node).placed []

/-- The outcome of a run on `v`. -/
def outcome (v : Value) (t : Trace) : Outcome := Validation.outcomeOf v t.passed t.tree

@[simp] theorem leaves_tree (t : Trace) : t.tree.leaves = t.leaves := by
  have placed := leaves_node [] t
  rw [← Node.leavesBelow_placedBelow] at placed
  have unmoved : Placed.below [] = id := rfl
  rw [tree, Node.placed, Node.leaves]
  simpa [DataPath.snoc, Via.this, Segment.isThis, unmoved] using placed

@[simp] theorem isAccepted_outcome (v : Value) (t : Trace) :
    (t.outcome v).isAccepted = t.passed :=
  Validation.isAccepted_outcomeOf v t.passed t.tree

/-- An outcome records every leaf of its trace: what an accepted value keeps are warnings. -/
@[simp] theorem recorded_outcome (v : Value) (t : Trace) : (t.outcome v).recorded = t.leaves := by
  unfold outcome Validation.outcomeOf
  cases h : t.passed with
  | true =>
    simp only [if_true, Outcome.recorded, leaves_tree, List.filter_eq_self]
    exact leaves_isWarning t h
  | false => simp [Outcome.recorded]

end Trace

namespace Event

/-- The event that opens a run. -/
def ofStart (origin : String) (validation : Validation) (v : Value) : Event where
  type := .started
  origin := origin
  data := [("value", v), ("validation", .str validation.className)]

/-- The event that ends a run. -/
def ofEnd (origin : String) (validation : Validation) (v : Value) (outcome : Outcome) : Event where
  type := .completed
  origin := origin
  data := validation.completion v outcome
  outcome := some outcome

end Event

namespace Validation

/-- The verdict on a value and the leaves to report, found without a stack of open nodes. -/
def meaning (rules : Rules) (validation : Validation) (v : Value) :
    Check (Bool × List Placed) := do
  let t ← validation.trace rules v
  pure (t.passed, t.leaves)

theorem runOn_trace (rules : Rules) (validation : Validation) (v : Value) (store : Store) :
    (validation.trace rules v).runOn g store =
      (validation.traceWith (traceModel rules (g.expansions v store.sources)) v).runOn g store := by
  simp [trace, Check.runOn_bind]

/-- What is reported of an evaluation that starts on an empty stack is the outcome of its trace; the
events of the trace are sent between the one that opens the run and the one that ends it. -/
theorem reporting_follows {evaluation : RunM Bool} {traced : Check Trace} {run : Run}
    (told : Told g (run.rulebook.rules g) evaluation traced) (validation : Validation)
    (fresh : run.stack = {}) (v : Value) :
    Follows g (validation.reporting v evaluation) run traced
      fun outcome t after => outcome = t.outcome v ∧ after.stack = { root := t.node } ∧
        after.events = run.events ++ if run.observed then
          .ofStart run.origin validation v ::
            (t.events run.origin [] ++ [.ofEnd run.origin validation v outcome]) else [] := by
  apply Follows.before (RunM.runOn_emit .started _ run) rfl
  rw [← bind_pure traced]
  refine (told { run with events := run.events ++ _ } ?_ rfl).bind
    fun passed t mid ⟨agree, advanced⟩ => ?_
  · rw [fresh]
    rfl
  subst agree
  have stack : mid.stack = { root := t.node } := by
    rw [advanced.stack_eq, fresh, Stack.receive_empty]
  have sent := advanced.events_eq
  have observed := advanced.observed_eq
  have origin := advanced.origin_eq
  have finished : RunM.finish.runOn g mid = (.ok mid.stack.tree, mid) := by
    simp [RunM.finish, RunM.runOn_bind, stack]
  have outcome_eq : outcomeOf v t.passed (mid.stack.tree.placed []) = t.outcome v := by
    rw [stack]
    rfl
  apply Follows.before finished rfl
  rw [outcome_eq]
  refine Follows.before (RunM.runOn_modify _ mid) ?_ (Follows.of_pure ⟨rfl, ?_, ?_⟩)
  · split <;> rfl
  · split <;> exact stack
  · rw [fresh] at sent
    cases h : run.observed with
    | true => simp_all [Event.ofStart, Event.ofEnd, Stack.place, Stack.placeOf]
    | false => simp_all

/-- A run ends in the outcome of its trace, on an empty stack, and has sent the events of its
trace between the one that opens it and the one that ends it. -/
theorem validate_follows {validation : Validation} (made : validation.MadeOf .any) {run : Run}
    (served : ∀ registry cls rule, run.rulebook.rules g registry cls = some rule →
      rule.MadeOf .any) (fresh : run.stack = {}) (v : Value) :
    Follows g (validation.validate v) run (validation.trace (run.rulebook.rules g) v)
      fun outcome t after => outcome = t.outcome v ∧ after.stack = { root := t.node } ∧
        after.events = run.events ++ if run.observed then
          .ofStart run.origin validation v ::
            (t.events run.origin [] ++ [.ofEnd run.origin validation v outcome]) else [] :=
  reporting_follows (check_told served made v) validation fresh v

/-- What a run returns and the store that it leaves, read off its trace. -/
theorem validate_eq_outcome {validation : Validation} (made : validation.MadeOf .any) {run : Run}
    (served : ∀ registry cls rule, run.rulebook.rules g registry cls = some rule →
      rule.MadeOf .any) (fresh : run.stack = {}) (v : Value) :
    let traced := (validation.trace (run.rulebook.rules g) v).runOn g run.store
    ((validation.validate v).runOn g run).1 = traced.1.map (Trace.outcome v) ∧
      ((validation.validate v).runOn g run).2.store = traced.2 :=
  (validate_follows made served fresh v).runOn_eq fun _ _ _ related => related.1

/-- Recording failures on a stack of open nodes, attaching and discarding them, comes to the
meaning of the validation: verdict, leaves and store agree, and so does the fault if there is
one. -/
theorem validate_eq_meaning {validation : Validation} (made : validation.MadeOf .any) {run : Run}
    (book : run.rulebook.MadeOf .any) (fresh : run.stack = {}) (v : Value) :
    (validation.meaning (run.rulebook.rules g) v).runOn g run.store =
      (((validation.validate v).runOn g run).1.map fun outcome =>
          (outcome.isAccepted, outcome.recorded),
        ((validation.validate v).runOn g run).2.store) := by
  have served := book.served (g := g) Material.any_holdsFields
  obtain ⟨returned, left⟩ := validate_eq_outcome made served fresh v
  rw [returned, left]
  unfold meaning
  rw [Check.runOn_bind]
  rcases (validation.trace (run.rulebook.rules g) v).runOn g run.store with ⟨fault | t, store⟩
  · rfl
  · simp [Except.map]

/-- A guest without a name. -/
def guests : ObjectGraph where
  objects := #[⟨"Guest", true, [("name", .null)], []⟩]

/-- A guest must have a name. -/
def guestBook : Rulebook where
  schema := [⟨"Guest", ["Guest"], [("name", .plain "str")], by decide⟩]
  registries := [("main", { classRules :=
    [("Guest", [.step .required [] (.ofName "name") (.object [] [] false false)])] })]

/-- A list must be empty or short, and its guests must be in order. -/
def guestList : Validation :=
  .object [{ hint := "is long", test := fun _ => pure false, isError := false }]
    [.object [{ hint := "is not empty", test := fun _ => pure false }]
        [.object [{ hint := "is not short", test := fun _ => pure false }] [] false false] true false,
      .elements (.iterated []) (.model "main" "Guest")] false false

/-- What a guest list leaves of one guest who is on it twice: a warning, the failures of the group
of which neither check passes, the missing name, and that the guest is met again. -/
theorem validate_eq_meaning_of_guests :
    ∃ outcome after, (guestList.validate (.list [.object 0, .object 0])).runOn guests
        { rulebook := guestBook } = (.ok outcome, after) ∧ outcome.isAccepted = false ∧
      outcome.recorded.map (fun p => (p.leaf.severity, p.place.text, p.leaf.message)) =
        [(.warning, "this", "is long"), (.error, "this", "is not empty"),
          (.error, "this", "is not short"), (.error, "this[0].name", "is required"),
          (.error, "this[1]", "already validated")] := by
  have made : guestList.MadeOf .any := by simp [guestList, MadeOf, AllMadeOf, Material.any]
  have book : guestBook.MadeOf .any := by
    intro entry registered
    obtain rfl := List.mem_singleton.mp registered
    exact ⟨by simp [MadeOf, AllMadeOf, GuardsMadeOf, Material.any], by simp, by simp⟩
  have agree := congrArg Prod.fst <| @validate_eq_meaning guests _ made
    { rulebook := guestBook } book rfl (.list [.object 0, .object 0])
  have told : ((guestList.meaning (guestBook.rules guests)
      (.list [.object 0, .object 0])).runOn guests {}).1.toOption.map (fun told =>
        (told.1, told.2.map fun p => (p.leaf.severity, p.place.text, p.leaf.message))) =
      some (false, [(.warning, "this", "is long"), (.error, "this", "is not empty"),
        (.error, "this", "is not short"), (.error, "this[0].name", "is required"),
        (.error, "this[1]", "already validated")]) := by decide +kernel
  rcases returned : (guestList.validate (.list [.object 0, .object 0])).runOn guests
      { rulebook := guestBook } with ⟨fault | outcome, after⟩ <;> rw [returned] at agree
  · rw [agree] at told
    cases told
  · rw [agree] at told
    obtain ⟨verdict, leaves⟩ := Prod.ext_iff.mp (Option.some.inj told)
    exact ⟨outcome, after, rfl, verdict, leaves⟩

end Validation

end PathRules
