import PathRules.Proofs.Outcome.Shape
import PathRules.Proofs.Run.Simulation

/-!
# What every step of a run upholds

A property of runs that the operations on the stack, the store, the events and the rulebook
preserve holds after an evaluation if it held before, whatever the evaluation answers.  Steps
behind guards are recorded by their segments alone: no step in the tree of a run carries the
guards that it stood behind.
-/

namespace PathRules

variable {α β : Type} {g : ObjectGraph} {I : Run → Prop}

/-- What may be done to the stack: a group is opened, or a step without guards; a leaf is
recorded; the current node is closed, and attached or not. -/
inductive Stack.Moves (stack : Stack) : Stack → Prop
  | openGroup (sign : Sign) (attached : Bool) : Moves stack (stack.push (.group sign attached []))
  | openPath (segment : Segment) : Moves stack (stack.push (.path ⟨segment, []⟩ none))
  | record (leaf : Leaf) {after : Stack} : stack.record leaf = .ok after → Moves stack after
  | discard {frame : Frame} {below : Stack} : stack.pop? = some (frame, below) → Moves stack below
  | attach {frame : Frame} {below after : Stack} : stack.pop? = some (frame, below) →
      below.add frame.node = .ok after → Moves stack after

/-- The run that a guard starts with: nothing is open, and nobody observes it. -/
def Run.alone (run : Run) : Run := { run with stack := {}, observed := false }

/-- A run once a guard has left `after`: the stack and the observers are those from before. -/
def Run.resumed (run after : Run) : Run :=
  { after with stack := run.stack, observed := run.observed }

/-- A property of runs that the primitive operations preserve. -/
structure Run.Invariant (g : ObjectGraph) (I : Run → Prop) : Prop where
  store {run : Run} (store : Store) : I run → I { run with store }
  compiled {run : Run} (registry cls : String) : I run →
    I { run with rulebook := (run.rulebook.compiled g registry cls).2 }
  told {run : Run} (event : Event) : I run → run.observed = true →
    I { run with events := run.events ++ [event] }
  moved {run : Run} {stack : Stack} : I run → run.stack.Moves stack → I { run with stack }
  alone {run : Run} : I run → I run.alone
  resumed {run after : Run} : I run → I after → I (run.resumed after)

namespace RunM

theorem runOn_throw (fault : Fault) (run : Run) :
    (throw fault : RunM α).runOn g run = (.error fault, run) := rfl

/-- The computation leaves a run with the property if it starts in one, whatever it answers. -/
def Upholds (g : ObjectGraph) (I : Run → Prop) (m : RunM α) : Prop :=
  ∀ run, I run → I (m.runOn g run).2

namespace Upholds

theorem of_pure (a : α) : (pure a : RunM α).Upholds g I := fun _ holds => holds

theorem of_throw (fault : Fault) : (throw fault : RunM α).Upholds g I := fun _ holds => holds

theorem bind {m : RunM α} {f : α → RunM β} (h : m.Upholds g I) (hf : ∀ a, (f a).Upholds g I) :
    (m >>= f).Upholds g I := by
  intro run holds
  have first := h run holds
  rw [runOn_bind]
  rcases ran : m.runOn g run with ⟨fault | a, after⟩ <;> rw [ran] at first
  · exact first
  · exact hf a after first

theorem map {m : RunM α} (f : α → β) (h : m.Upholds g I) : (f <$> m).Upholds g I := by
  rw [map_eq_pure_bind]
  exact h.bind fun a => of_pure (f a)

theorem of_ite {c : Prop} [Decidable c] {m m' : RunM α} (h : m.Upholds g I)
    (h' : m'.Upholds g I) : (if c then m else m').Upholds g I := by
  split
  · exact h
  · exact h'

theorem of_read {k : ObjectGraph → RunM α} (h : (k g).Upholds g I) : (read >>= k).Upholds g I := h

theorem of_get {k : Run → RunM α} (h : ∀ run, (k run).Upholds g I) :
    (get >>= k).Upholds g I := fun run => h run run

variable (inv : Run.Invariant g I)

include inv

theorem of_check (check : Check α) : (ofCheck check).Upholds g I :=
  fun _ holds => inv.store _ holds

theorem of_emit (type : EventType) (data : List (String × Value)) :
    (emit type data).Upholds g I := by
  intro run holds
  cases observed : run.observed with
  | true => simpa [emit, observed] using inv.told ⟨type, run.origin, data, none⟩ holds observed
  | false => simpa [emit, observed] using holds

theorem of_openGroup (sign : Sign) (attached : Bool) :
    (modifyStack (·.push (.group sign attached []))).Upholds g I :=
  fun _ holds => inv.moved holds (.openGroup sign attached)

theorem of_openPath (segment : Segment) : (openPath ⟨segment, []⟩).Upholds g I :=
  fun _ holds => inv.moved holds (.openPath segment)

theorem of_record (leaf : Leaf) : (record leaf).Upholds g I := by
  refine bind (fun run holds => ?_) fun _ => of_get fun _ => of_emit inv _ _
  cases recorded : run.stack.record leaf with
  | error fault =>
    rw [runOn_changeStack_error _ _ recorded]
    exact holds
  | ok stack =>
    rw [runOn_changeStack _ _ recorded]
    exact inv.moved holds (.record leaf recorded)

theorem of_discard : discard.Upholds g I := by
  intro run holds
  cases popped : run.stack.pop? with
  | none => simpa [discard, runOn_bind, runOn_throw, popped] using holds
  | some result =>
    simpa [discard, runOn_bind, runOn_map, popped] using inv.moved holds (.discard popped)

theorem of_attach : attach.Upholds g I := by
  intro run holds
  cases popped : run.stack.pop? with
  | none => simpa [attach, discard, runOn_bind, runOn_throw, popped] using holds
  | some result =>
    obtain ⟨frame, below⟩ := result
    have left := inv.moved holds (.discard popped)
    have discarded : discard.runOn g run = (.ok frame, { run with stack := below }) := by
      simp [discard, runOn_bind, runOn_map, popped]
    rw [attach, runOn_bind, discarded]
    dsimp only
    split
    · rw [runOn_bind]
      cases added : below.add frame.node with
      | error fault =>
        rw [runOn_changeStack_error _ _ added]
        exact left
      | ok stack =>
        rw [runOn_changeStack (·.add frame.node) _ added]
        have moved : I { run with stack } := inv.moved holds (.attach popped added)
        exact moved
    · exact left

theorem of_close (valid keepWarnings : Bool) : (close valid keepWarnings).Upholds g I :=
  of_get fun _ => of_ite ((of_attach inv).bind fun _ => of_pure valid)
    ((of_discard inv).bind fun _ => of_pure valid)

omit inv in
theorem of_finish : finish.Upholds g I := of_get fun _ => of_ite (of_pure _) (of_throw _)

theorem apart {m : RunM α} (h : m.Upholds g I) : (RunM.apart m).Upholds g I := by
  intro run holds
  rw [runOn_apart]
  exact inv.resumed holds (h run.alone (inv.alone holds))

end Upholds

end RunM

/-- A script opens steps without guards only. -/
def Action.Plain : Action → Prop
  | .openPath via => via.guards = []
  | _ => True

open RunM in
theorem Action.upholds (inv : Run.Invariant g I) {action : Action} (plain : action.Plain)
    (v : Value) : (action.perform v).Upholds g I := by
  have silent {m : RunM Unit} (h : m.Upholds g I) : (do m; pure Reply.none).Upholds g I :=
    h.bind fun _ => .of_pure _
  have checked (check : Check Value) : (do pure (Reply.value (← ofCheck check))).Upholds g I :=
    (Upholds.of_check inv check).bind fun _ => .of_pure _
  cases action with
  | openGroup sign attached => exact silent (.of_openGroup inv sign attached)
  | openPath via =>
    obtain ⟨segment, guards⟩ := via
    obtain rfl : guards = [] := plain
    exact silent (.of_openPath inv segment)
  | record => exact silent (.of_record inv _)
  | discard => exact (Upholds.of_discard inv).bind fun _ => .of_pure _
  | attach => exact (Upholds.of_attach inv).bind fun _ => .of_pure _
  | close => exact (Upholds.of_close inv _ _).bind fun _ => .of_pure _
  | note => exact silent (.of_get fun _ => .of_check inv _)
  | put | erase | update | clear => exact silent (.of_check inv _)
  | lookup | lookupD | setDefault | takeFirst => exact checked _
  | has | count | entries | describe => exact .of_get fun _ => .of_pure _
  | emit => exact silent (.of_emit inv _ _)
  | finish | outcome => exact Upholds.of_finish.bind fun _ => .of_pure _
  | derive => exact .of_pure _

namespace Validation

mutual

/-- Scripts, wherever they occur, open steps without guards only. -/
def Plain : Validation → Prop
  | .object _ subs _ _ => AllPlain subs
  | .step _ guards _ inner => GuardsPlain guards ∧ Plain inner
  | .elements _ inner => Plain inner
  | .script steps _ => StepsPlain steps
  | .model .. => True
termination_by structural validation => validation

def AllPlain : List Validation → Prop
  | [] => True
  | sub :: subs => Plain sub ∧ AllPlain subs
termination_by structural validations => validations

def GuardsPlain : List Guard → Prop
  | [] => True
  | .mk _ condition :: guards => Plain condition ∧ GuardsPlain guards
termination_by structural guards => guards

def StepsPlain : List Step → Prop
  | [] => True
  | .act action :: steps => action.Plain ∧ StepsPlain steps
  | .fail _ :: steps => StepsPlain steps
  | .evaluate validation :: steps => Plain validation ∧ StepsPlain steps
termination_by structural steps => steps

end

mutual

/-- A validation without scripts. -/
theorem MadeOf.plain {m : Material} : (validation : Validation) → validation.MadeOf m →
    validation.Plain
  | .object _ subs _ _, h => AllMadeOf.plain subs h.2
  | .step _ guards _ inner, h => ⟨GuardsMadeOf.plain guards h.1, MadeOf.plain inner h.2.2⟩
  | .elements _ inner, h => MadeOf.plain inner h
  | .model .., _ => trivial
termination_by structural validation => validation

theorem AllMadeOf.plain {m : Material} : (subs : List Validation) → AllMadeOf m subs →
    AllPlain subs
  | [], _ => trivial
  | sub :: subs, h => ⟨MadeOf.plain sub h.1, AllMadeOf.plain subs h.2⟩
termination_by structural subs => subs

theorem GuardsMadeOf.plain {m : Material} : (guards : List Guard) → GuardsMadeOf m guards →
    GuardsPlain guards
  | [], _ => trivial
  | .mk _ condition :: guards, h => ⟨MadeOf.plain condition h.1, GuardsMadeOf.plain guards h.2⟩
termination_by structural guards => guards

end

open RunM

variable {expand : Expand} (inv : Run.Invariant g I)

include inv

theorem recordFailure_upholds (c : Constraint) (v : Value) :
    (recordFailure c v).Upholds g I :=
  (Upholds.of_check inv _).bind fun _ => .of_record inv _

theorem allConstraints_upholds (short : Bool) (v : Value) (constraints : List Constraint) :
    (allConstraints short v constraints).Upholds g I := by
  induction constraints with
  | nil => exact .of_pure _
  | cons c cs ih =>
    unfold allConstraints
    refine (Upholds.of_check inv _).bind fun passed => .of_ite ih ?_
    refine (recordFailure_upholds inv c v).bind fun _ => .of_ite (.of_pure _) ?_
    exact ih.bind fun _ => .of_pure _

theorem anyConstraint_upholds (short : Bool) (v : Value) (constraints : List Constraint) :
    (anyConstraint short v constraints).Upholds g I := by
  induction constraints with
  | nil => exact .of_pure _
  | cons c cs ih =>
    unfold anyConstraint
    refine (Upholds.of_check inv _).bind fun passed => .of_ite ?_ ?_
    · exact .of_ite (.of_pure _) (ih.bind fun _ => .of_pure _)
    · exact (recordFailure_upholds inv c v).bind fun _ => ih

theorem descend_upholds {check : Value → RunM Bool} (target : Segment) {part : Value}
    (h : (check part).Upholds g I) : (descend check target part).Upholds g I :=
  (Upholds.of_openPath inv target).bind fun _ => h.bind fun valid => .of_close inv valid true

theorem recordMissing_upholds (target : Segment) : (recordMissing target).Upholds g I := by
  refine (Upholds.of_openPath inv target).bind fun _ => ?_
  refine (Upholds.of_openGroup inv .all true).bind fun _ => ?_
  refine (Upholds.of_record inv _).bind fun _ => ?_
  exact (Upholds.of_attach inv).bind fun _ => (Upholds.of_attach inv).bind fun _ => .of_pure _

omit inv in
theorem eachOf_upholds {check : α → RunM Bool} (h : ∀ a, (check a).Upholds g I) (items : List α) :
    (eachOf check items).Upholds g I := by
  induction items with
  | nil => exact .of_pure true
  | cons a items ih => exact (h a).bind fun valid => ih.bind fun others => .of_pure _

theorem eachFromSource_upholds {check : Nat × Value → RunM Bool}
    (h : ∀ a, (check a).Upholds g I) (number fuel index : Nat) :
    (eachFromSource check number fuel index).Upholds g I := by
  induction fuel generalizing index with
  | zero => exact .of_pure true
  | succ fuel ih =>
    rw [eachFromSource_succ]
    refine (Upholds.of_check inv _).bind fun next => ?_
    cases next with
    | none => exact .of_pure true
    | some v => exact (h (index, v)).bind fun valid => (ih (index + 1)).map _

theorem eachElement_upholds {check : Value → RunM Bool} (h : ∀ a, (check a).Upholds g I)
    (v : Value) (kind : Elements) : (eachElement check v kind).Upholds g I := by
  have entered (target : Segment) (part : Value) := descend_upholds inv target (h part)
  cases kind with
  | iterated indices =>
    by_cases source : ∃ number, v = .source number
    · obtain ⟨number, rfl⟩ := source
      refine Upholds.of_read (.of_get fun run => ?_)
      exact eachFromSource_upholds inv (fun _ => .of_ite (entered _ _) (.of_pure true)) _ _ _
    · rw [eachElement_iterated check indices (not_exists.mp source)]
      refine Upholds.of_read ?_
      cases v.items? g with
      | none => exact .of_throw _
      | some items => exact eachOf_upholds (fun _ => .of_ite (entered _ _) (.of_pure true)) _
  | positions indices =>
    refine Upholds.of_read ?_
    cases v.size? with
    | none => exact .of_throw _
    | some size =>
      refine eachOf_upholds (fun index => .of_ite ?_ (.of_pure true)) _
      exact (Upholds.of_check inv _).bind fun element => entered _ element
  | entries keys =>
    refine Upholds.of_read ((Upholds.of_check inv _).bind fun pairs => ?_)
    exact eachOf_upholds (fun pair => .of_ite (entered _ _) (.of_pure true)) _

theorem group_upholds (sign : Sign) (empty : Bool) {tests : RunM (Option Bool)}
    {subs : RunM Bool} (h : tests.Upholds g I) (h' : subs.Upholds g I) :
    (groupOf sign empty tests subs).Upholds g I := by
  refine (Upholds.of_openGroup inv sign true).bind fun _ => ?_
  refine Upholds.bind (h.bind fun answer => ?_) fun valid => .of_close inv valid _
  cases answer with
  | none => exact .of_pure _
  | some passed => exact h'.map _

omit inv in
theorem allOf_upholds (short : Bool) (v : Value) (subs : List Validation)
    (h : ∀ sub ∈ subs, (evaluate expand sub v).Upholds g I) :
    (allOf? expand short subs v).Upholds g I := by
  induction subs with
  | nil => exact .of_pure true
  | cons sub subs ih =>
    have rest := ih fun other member => h other (List.mem_cons_of_mem sub member)
    rw [allOf?]
    refine (h sub List.mem_cons_self).bind fun _ => .of_ite rest (.of_ite (.of_pure _) ?_)
    exact rest.bind fun _ => .of_pure false

omit inv in
theorem anyOf_upholds (short : Bool) (v : Value) (subs : List Validation)
    (h : ∀ sub ∈ subs, (evaluate expand sub v).Upholds g I) :
    (anyOf? expand short subs v).Upholds g I := by
  induction subs with
  | nil => exact .of_pure false
  | cons sub subs ih =>
    have rest := ih fun other member => h other (List.mem_cons_of_mem sub member)
    rw [anyOf?]
    refine (h sub List.mem_cons_self).bind fun _ => .of_ite (.of_ite (.of_pure _) ?_) rest
    exact rest.bind fun _ => .of_pure true

/-- What a step does once its guards have answered. -/
theorem step_upholds {guards : List Guard} {inner : Validation} {v : Value} (presence : Presence)
    (target : Segment) (asked : (guardsPass expand target guards v).Upholds g I)
    (h : ∀ part, (evaluate expand inner part).Upholds g I) :
    (evaluate expand (.step presence guards target inner) v).Upholds g I := by
  rw [evaluate]
  refine asked.bind fun held => .of_ite ((Upholds.of_check inv _).bind fun part => ?_)
    (.of_pure true)
  have entered := descend_upholds inv target (h part)
  have missing := recordMissing_upholds inv target
  cases presence with
  | undefined => exact entered
  | optional =>
    cases part with
    | null => exact .of_pure true
    | _ => exact entered
  | required =>
    cases part with
    | null => exact missing
    | _ => exact entered

omit inv in
/-- One step of a script that evaluates what is no script itself. -/
theorem performEvaluate_upholds {validation : Validation} {steps : List Step} {v : Value}
    {last : Reply} (unscripted : ∀ inner answer, validation ≠ .script inner answer)
    (h : (evaluate expand validation v).Upholds g I)
    (rest : ∀ last, (performAll expand steps v last).Upholds g I) :
    (performAll expand (.evaluate validation :: steps) v last).Upholds g I := by
  rw [performAll.eq_5 _ _ _ _ _ unscripted]
  exact h.bind fun valid => rest _

omit inv

mutual

/-- An invariant holds after every evaluation that started in it. -/
theorem evaluate_upholds (inv : Run.Invariant g I)
    (expands : ∀ registry cls v, (expand registry cls v).Upholds g I) :
    (validation : Validation) → validation.Plain → ∀ v, (evaluate expand validation v).Upholds g I
  | .object constraints subs false short, plain, v => by
    rw [evaluate_all]
    exact group_upholds inv .all _ (allConstraints_upholds inv short v constraints)
      (allOf_upholds short v subs fun sub member => all_upholds inv expands subs plain sub member v)
  | .object constraints subs true short, plain, v => by
    rw [evaluate_any]
    exact group_upholds inv .any _ (anyConstraint_upholds inv short v constraints)
      (anyOf_upholds short v subs fun sub member => all_upholds inv expands subs plain sub member v)
  | .step presence guards target inner, plain, v =>
    step_upholds inv presence target (guardsPass_upholds inv expands target guards plain.1 v)
      (evaluate_upholds inv expands inner plain.2)
  | .elements kind inner, plain, v => by
    rw [evaluate]
    refine (Upholds.of_openGroup inv .all true).bind fun _ => ?_
    have each := evaluate_upholds inv expands inner plain
    refine (eachElement_upholds inv each v kind).bind fun valid => ?_
    exact .of_close inv valid true
  | .script steps answer, plain, v => by
    rw [evaluate]
    exact (performAll_upholds inv expands steps plain v .none).bind fun _ => .of_pure _
  | .model registry cls, _, v => expands registry cls v
termination_by structural validation => validation

theorem all_upholds (inv : Run.Invariant g I)
    (expands : ∀ registry cls v, (expand registry cls v).Upholds g I) :
    (subs : List Validation) → AllPlain subs → ∀ sub ∈ subs, ∀ v,
      (evaluate expand sub v).Upholds g I
  | [], _, _, member, _ => nomatch member
  | sub :: subs, plain, other, member, v => by
    rcases List.mem_cons.mp member with same | later
    · rw [same]
      exact evaluate_upholds inv expands sub plain.1 v
    · exact all_upholds inv expands subs plain.2 other later v
termination_by structural subs => subs

theorem guardsPass_upholds (inv : Run.Invariant g I)
    (expands : ∀ registry cls v, (expand registry cls v).Upholds g I) (target : Segment) :
    (guards : List Guard) → GuardsPlain guards → ∀ v,
      (guardsPass expand target guards v).Upholds g I
  | [], _, _ => .of_pure true
  | .mk _ condition :: guards, plain, v => by
    rw [guardsPass]
    refine Upholds.bind (.apart inv ?_) fun passed =>
      .of_ite (guardsPass_upholds inv expands target guards plain.2 v) ?_
    · exact (evaluate_upholds inv expands condition plain.1 v).bind fun passed =>
        Upholds.of_finish.bind fun _ => .of_pure passed
    · exact .of_get fun _ => (Upholds.of_emit inv _ _).bind fun _ => .of_pure false
termination_by structural guards => guards

theorem performAll_upholds (inv : Run.Invariant g I)
    (expands : ∀ registry cls v, (expand registry cls v).Upholds g I) :
    (steps : List Step) → StepsPlain steps → ∀ v last, (performAll expand steps v last).Upholds g I
  | [], _, _, last => .of_pure last
  | .act action :: steps, plain, v, _ => by
    rw [performAll]
    exact (Action.upholds inv plain.1 v).bind fun reply =>
      performAll_upholds inv expands steps plain.2 v reply
  | .fail fault :: _, _, _, _ => .of_throw fault
  | .evaluate (.script inner answer) :: steps, plain, v, _ => by
    rw [performAll]
    exact (performAll_upholds inv expands inner plain.1 v .none).bind fun reply =>
      performAll_upholds inv expands steps plain.2 v _
  | .evaluate (.object constraints subs anyOf short) :: steps, plain, v, _ =>
    performEvaluate_upholds (fun _ _ => nofun)
      (evaluate_upholds inv expands (.object constraints subs anyOf short) plain.1 v)
      (performAll_upholds inv expands steps plain.2 v)
  | .evaluate (.step presence guards target inner) :: steps, plain, v, _ =>
    performEvaluate_upholds (fun _ _ => nofun)
      (evaluate_upholds inv expands (.step presence guards target inner) plain.1 v)
      (performAll_upholds inv expands steps plain.2 v)
  | .evaluate (.elements kind inner) :: steps, plain, v, _ =>
    performEvaluate_upholds (fun _ _ => nofun)
      (evaluate_upholds inv expands (.elements kind inner) plain.1 v)
      (performAll_upholds inv expands steps plain.2 v)
  | .evaluate (.model registry cls) :: steps, plain, v, _ =>
    performEvaluate_upholds (fun _ _ => nofun)
      (evaluate_upholds inv expands (.model registry cls) plain.1 v)
      (performAll_upholds inv expands steps plain.2 v)
termination_by structural steps => steps

end

end Validation

open RunM in
/-- Expanding a model upholds an invariant under which the rules that are found are plain. -/
theorem expandModel_upholds (inv : Run.Invariant g I)
    (served : ∀ run, I run → ∀ registry cls rule, run.rulebook.rules g registry cls = some rule →
      rule.Plain) (fuel : Nat) (registry cls : String) (v : Value) :
    (expandModel fuel registry cls v).Upholds g I := by
  induction fuel generalizing registry cls v with
  | zero => exact .of_throw .endless
  | succ fuel ih =>
    refine (Upholds.of_check inv _).bind fun first => ?_
    cases first with
    | false =>
      refine (Upholds.of_openGroup inv .all true).bind fun _ => ?_
      exact (Upholds.of_record inv _).bind fun _ =>
        (Upholds.of_attach inv).bind fun _ => .of_pure false
    | true =>
      intro run holds
      have found : (lookUpRules registry cls).runOn g run =
          (.ok (run.rulebook.rules g registry cls),
            { run with rulebook := (run.rulebook.compiled g registry cls).2 }) := by
        rw [← Rulebook.compiled_fst]
        rfl
      have kept := inv.compiled registry cls holds
      rw [expandMet, if_pos rfl, runOn_bind, found]
      cases rules : run.rulebook.rules g registry cls with
      | none => exact kept
      | some rule =>
        exact rule.evaluate_upholds inv ih (served run holds registry cls rule rules) v _ kept

end PathRules
