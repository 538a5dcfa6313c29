import PathRules.Proofs.Run.Gathers

/-!
# The parts of an evaluation

What a validation does on a run apart from its recursion: constraints record their failures in
the group that is open, steps and elements are taken and left.  Each follows its counterpart
among traces.
-/

namespace PathRules

variable {α β : Type} {g : ObjectGraph} {rules : Rules} {sign : Sign}

namespace Sign

/-- How the answers of two checks of a group combine. -/
def join : Sign → Bool → Bool → Bool
  | .all => and
  | .any => or

theorem join_all (a : Bool) : Sign.all.join a = fun b => a && b := rfl

theorem join_any (a : Bool) : Sign.any.join a = fun b => a || b := rfl

/-- Whether a group passes whose checks answered as given. -/
def total : Sign → List Bool → Bool
  | .all, answers => answers.all id
  | .any, answers => answers.any id

@[simp] theorem total_cons (sign : Sign) (answer : Bool) (answers : List Bool) :
    sign.total (answer :: answers) = sign.join answer (sign.total answers) := by
  cases sign <;> simp [total, join]

/-- A check that decides a group answers for it. -/
theorem total_of_decidedBy {sign : Sign} {answer : Bool} (h : sign.decidedBy answer = true) :
    sign.total [answer] = answer := by
  cases sign <;> cases answer <;> simp_all [total, decidedBy]

end Sign

namespace RunM

/-- Tests a value and records the failure. -/
def probe (v : Value) (c : Constraint) : RunM (Option Leaf) := do
  if ← ofCheck (c.test v) then pure none
  else
    let message ← ofCheck (c.render v)
    let leaf : Leaf := ⟨if c.isError then .error else .warning, message, v⟩
    record leaf
    pure (some leaf)

/-- What a test records is gathered by its group. -/
theorem probe_gathers (v : Value) (c : Constraint) :
    Gathers g rules sign (probe v c) (c.tested v)
      (fun a b => a = b ∧ ∀ leaf ∈ a, leaf.severity = if c.isError then .error else .warning)
      .test := by
  refine Gathers.after_check fun passed => ?_
  cases passed with
  | true => exact Gathers.of_pure ⟨rfl, by simp⟩ rfl fun _ _ => rfl
  | false =>
    refine Gathers.after_check fun message => ?_
    intro run below children hstack _
    obtain ⟨after, recorded, same, advanced⟩ := runOn_record (g := g)
      ⟨if c.isError then .error else .warning, message, v⟩ hstack
    refine Follows.before recorded same (Follows.of_pure ⟨⟨rfl, ?_⟩, advanced⟩)
    rintro leaf ⟨⟩
    rfl

end RunM

namespace Validation

theorem allConstraints_cons (short : Bool) (v : Value) (c : Constraint) (cs : List Constraint) :
    allConstraints short v (c :: cs) = RunM.probe v c >>= fun
      | none => allConstraints short v cs
      | some _ =>
          if c.isError && short then pure none
          else Option.map (!c.isError && ·) <$> allConstraints short v cs := by
  simp only [allConstraints, RunM.probe, recordFailure, bind_assoc]
  congr
  funext passed
  cases passed <;> simp

theorem anyConstraint_cons (short : Bool) (v : Value) (c : Constraint) (cs : List Constraint) :
    anyConstraint short v (c :: cs) = RunM.probe v c >>= fun
      | none =>
          if short then pure none
          else Option.map (fun _ => true) <$> anyConstraint short v cs
      | some _ => anyConstraint short v cs := by
  simp only [anyConstraint, RunM.probe, recordFailure, bind_assoc]
  congr
  funext passed
  cases passed <;> simp

/-- What the constraints of a group answer, told from their tests: none if one of them decided
the group. -/
def TotalsTests (sign : Sign) (short : Bool) (cs : List Constraint) (answer : Option Bool)
    (tests : List (Option Leaf)) : Prop :=
  (answer = if tests.any (fun test => short && sign.decidedBy (sign.counts test)) then none
    else some (sign.total (tests.map sign.counts))) ∧ tests.isEmpty = cs.isEmpty

theorem TotalsTests.cons {short : Bool} {c : Constraint} {cs : List Constraint}
    {answer : Option Bool} {test : Option Leaf} {tests : List (Option Leaf)}
    (h : TotalsTests sign short cs answer tests)
    (continues : (short && sign.decidedBy (sign.counts test)) = false) :
    TotalsTests sign short (c :: cs) (answer.map (sign.join (sign.counts test)))
      (test :: tests) := by
  obtain ⟨rfl, -⟩ := h
  refine ⟨?_, rfl⟩
  rw [List.any_cons, continues, Bool.false_or, List.map_cons, Sign.total_cons]
  split <;> rfl

/-- A computation gathers the failures of constraints. -/
def GathersTests (g : ObjectGraph) (rules : Rules) (sign : Sign) (short : Bool) (v : Value)
    (cs : List Constraint) (m : RunM (Option Bool)) : Prop :=
  Gathers g rules sign m
    (Check.inTurn (fun test => short && sign.decidedBy (sign.counts test)) (cs.map (·.tested v)))
    (TotalsTests sign short cs) Yield.test.list

theorem allConstraints_gathers (short : Bool) (v : Value) (cs : List Constraint) :
    GathersTests g rules .all short v cs (allConstraints short v cs) := by
  induction cs with
  | nil => exact Gathers.of_pure ⟨rfl, rfl⟩ rfl fun _ _ => rfl
  | cons c cs ih =>
    unfold GathersTests
    rw [allConstraints_cons, List.map_cons]
    have counted : ∀ leaf : Leaf, leaf.severity = (if c.isError then .error else .warning) →
        Sign.all.counts (some leaf) = !c.isError := by
      intro leaf severity
      cases h : c.isError <;> simp [Sign.counts, severity, h]
    refine (RunM.probe_gathers v c).turn ih ?ended ?continued
    case ended =>
      rintro (_ | leaf) _ ⟨rfl, severity⟩ ends
      · simp [Sign.decidedBy, Sign.counts] at ends
      · have decided : (c.isError && short) = true := by
          rwa [counted leaf (severity leaf rfl), Sign.decidedBy, Bool.not_not, Bool.and_comm]
            at ends
        exact ⟨none, by simp [decided], by simp [TotalsTests, ends]⟩
    case continued =>
      rintro (_ | leaf) _ ⟨rfl, severity⟩ continues
      all_goals refine ⟨_, ?_, fun answer tests h => h.cons continues⟩
      · simp [Sign.counts, Sign.join_all]
      · have agree := counted leaf (severity leaf rfl)
        have undecided : (c.isError && short) = false := by
          rwa [agree, Sign.decidedBy, Bool.not_not, Bool.and_comm] at continues
        simp [undecided, agree, Sign.join_all]

theorem anyConstraint_gathers (short : Bool) (v : Value) (cs : List Constraint) :
    GathersTests g rules .any short v cs (anyConstraint short v cs) := by
  induction cs with
  | nil => exact Gathers.of_pure ⟨rfl, rfl⟩ rfl fun _ _ => rfl
  | cons c cs ih =>
    unfold GathersTests
    rw [anyConstraint_cons, List.map_cons]
    refine (RunM.probe_gathers v c).turn ih ?ended ?continued
    case ended =>
      rintro (_ | leaf) _ ⟨rfl, -⟩ ends
      · have decided : short = true := by simpa [Sign.decidedBy, Sign.counts] using ends
        exact ⟨none, by simp [decided], by simp [TotalsTests, ends]⟩
      · simp [Sign.decidedBy, Sign.counts] at ends
    case continued =>
      rintro (_ | leaf) _ ⟨rfl, -⟩ continues
      all_goals refine ⟨_, ?_, fun answer tests h => h.cons continues⟩
      · have undecided : short = false := by simpa [Sign.decidedBy, Sign.counts] using continues
        simp [undecided, Sign.counts, Sign.join_any]
      · simp [Sign.counts, Sign.join_any]

/-- A part is validated under a step of its own. -/
theorem descend_told {check : Value → RunM Bool} {visit : Value → Check Trace} {part : Value}
    (h : Told g rules (check part) (visit part)) (target : Segment) :
    Told g rules (descend check target part)
      (do let inner ← visit part; pure (.step target part inner)) := by
  intro run isOpen hrules
  apply Follows.before (RunM.runOn_modifyStack (·.openPath ⟨target, []⟩) run) rfl
  refine (h { run with stack := run.stack.openPath ⟨target, []⟩ } rfl hrules).bind
    fun passed t after ⟨agree, advanced⟩ => ?_
  subst agree
  have onTop := advanced.stack_eq
  rw [Stack.openPath, Stack.receive_push_path] at onTop
  refine Follows.answer (RunM.runOn_close_keeping t.passed onTop rfl isOpen) rfl
    ⟨rfl, rfl, ?_, advanced.observed_eq, advanced.origin_eq, advanced.rules_eq⟩
  exact advanced.events_eq

theorem recordMissing_eq (target : Segment) :
    recordMissing target = (do
      RunM.openPath ⟨target, []⟩
      RunM.recordAlone Leaf.required
      let _ ← RunM.attach
      pure false) := by
  simp [recordMissing, RunM.recordAlone, Leaf.required]

theorem recordMissing_told (target : Segment) :
    Told g rules (recordMissing target) (pure (.missing target)) := by
  intro run isOpen hrules
  have onStep : { run with stack := run.stack.openPath ⟨target, []⟩ }.stack.isOpen = true := rfl
  obtain ⟨after, recorded, same, advanced⟩ :=
    RunM.runOn_recordAlone (g := g) Leaf.required onStep
  have onTop := advanced.stack_eq
  rw [Stack.openPath, Stack.receive_push_path] at onTop
  rw [recordMissing_eq]
  apply Follows.before (RunM.runOn_modifyStack (·.openPath ⟨target, []⟩) run) rfl
  apply Follows.before recorded same
  refine Follows.before (RunM.runOn_attach onTop rfl isOpen) rfl (Follows.of_pure ⟨rfl, ?_⟩)
  exact ⟨rfl, advanced.events_eq, advanced.observed_eq, advanced.origin_eq, advanced.rules_eq⟩

/-- A computation gathers what visits leave, and passes if they all do. -/
def GathersVisits (g : ObjectGraph) (rules : Rules) (m : RunM Bool) (check : Check (List Trace)) :
    Prop :=
  Gathers g rules .all m check (fun passed ts => passed = ts.all Trace.passed)
    (Yield.trace .all).list

theorem eachOf_gathers {ι : Type} {check : ι → RunM Bool} {trace : ι → Check Trace}
    (h : ∀ a, Told g rules (check a) (trace a)) (items : List ι) :
    GathersVisits g rules (eachOf check items)
      (Check.inTurn (fun _ => false) (items.map trace)) := by
  induction items with
  | nil => exact Gathers.of_pure rfl rfl fun _ _ => rfl
  | cons a rest ih =>
    refine (h a).gathers.turn ih (fun _ _ _ ends => nomatch ends) ?_
    rintro valid t rfl -
    refine ⟨(t.passed && ·), by simp, ?_⟩
    rintro others ts rfl
    rfl

/-- Only the selected elements count. -/
theorem eachOf_filter {ι : Type} (select : ι → Bool) (check : ι → RunM Bool) (items : List ι) :
    eachOf (fun a => if select a then check a else pure true) items =
      eachOf check (items.filter select) := by
  induction items with
  | nil => rfl
  | cons a rest ih =>
    have unchanged : Bool.and true = id := rfl
    cases h : select a <;> simp [eachOf, h, ih, unchanged]

/-- Visiting the selected parts of a value. -/
theorem parts_gathers {ι : Type} {visit : Value → Check Trace} {select : ι → Bool}
    {check : ι → RunM Bool} {part : ι → Segment × Check Value}
    (h : ∀ a, Told g rules (check a) (Trace.ofPart visit (part a))) (items : List ι) :
    GathersVisits g rules (eachOf (fun a => if select a then check a else pure true) items)
      (Check.inTurn (fun _ => false)
        (((items.filter select).map part).map (Trace.ofPart visit))) := by
  rw [eachOf_filter, List.map_map]
  exact eachOf_gathers h _

/-- A run takes the next value from a source as a check does. -/
theorem eachFromSource_succ (check : Nat × Value → RunM Bool) (number fuel index : Nat) :
    eachFromSource check number (fuel + 1) index =
      RunM.ofCheck (Check.takeNext number) >>= fun
        | none => pure true
        | some v => check (index, v) >>= fun valid =>
            (valid && ·) <$> eachFromSource check number fuel (index + 1) := by
  rw [eachFromSource]
  simp only [bind_pure_comp]
  rfl

/-- What a one-shot source yields is visited as it is taken. -/
theorem eachFromSource_gathers {check : Value → RunM Bool} {visit : Value → Check Trace}
    (h : ∀ v, Told g rules (check v) (visit v)) (indices : List Value)
    (number fuel index : Nat) :
    GathersVisits g rules
      (eachFromSource (fun (index, element) =>
        if selected g indices (.int index) then descend check (.ofIndex index) element
        else pure true) number fuel index)
      (Trace.ofSource visit g indices number fuel index) := by
  induction fuel generalizing index with
  | zero => exact Gathers.of_pure rfl rfl fun _ _ => rfl
  | succ fuel ih =>
    rw [eachFromSource_succ, Trace.ofSource]
    refine Gathers.after_check fun next => ?_
    cases next with
    | none => exact Gathers.of_pure rfl rfl fun _ _ => rfl
    | some v =>
      dsimp only
      cases chosen : selected g indices (.int index) with
      | false =>
        simp only [Bool.false_eq_true, if_false, pure_bind, Bool.true_and, id_map']
        exact ih (index + 1)
      | true =>
        simp only [if_true]
        refine (descend_told (h v) (.ofIndex index)).gathers.cons fun valid t agree => ?_
        subst agree
        apply (ih (index + 1)).fmap
        rintro others ts rfl
        rfl

/-- The elements of a value that is no one-shot source. -/
theorem eachItem_gathers {check : Value → RunM Bool} {visit : Value → Check Trace}
    (h : ∀ v, Told g rules (check v) (visit v)) (indices : List Value) (v : Value) :
    GathersVisits g rules
      (match v.items? g with
        | some items => eachOf (fun (index, element) =>
            if selected g indices (.int index) then descend check (.ofIndex index) element
            else pure true) (numbered items)
        | none => throw .wrongType)
      ((Elements.iterated indices).parts g v >>= fun parts =>
        Check.inTurn (fun _ => false) (parts.map (Trace.ofPart visit))) := by
  unfold Elements.parts
  cases v.items? g with
  | none => exact Gathers.of_throw _
  | some items =>
    exact parts_gathers (fun (index, element) => descend_told (h element) (.ofIndex index)) _

/-- The rule for a value that is no one-shot source, in both evaluations. -/
theorem eachElement_iterated (check : Value → RunM Bool) (indices : List Value) {v : Value}
    (listed : ∀ number, v ≠ .source number) :
    eachElement check v (.iterated indices) = read >>= fun g =>
      match v.items? g with
      | some items => eachOf (fun (index, element) =>
          if selected g indices (.int index) then descend check (.ofIndex index) element
          else pure true) (numbered items)
      | none => throw .wrongType := by
  cases v with
  | source number => exact absurd rfl (listed number)
  | _ => rfl

theorem ofElements_iterated (visit : Value → Check Trace) (indices : List Value) {v : Value}
    (listed : ∀ number, v ≠ .source number) :
    Trace.ofElements visit v (.iterated indices) = read >>= fun g =>
      (Elements.iterated indices).parts g v >>= fun parts =>
        Check.inTurn (fun _ => false) (parts.map (Trace.ofPart visit)) := by
  cases v with
  | source number => exact absurd rfl (listed number)
  | _ => rfl

/-- Elements are visited in the group that is open. -/
theorem eachElement_gathers {check : Value → RunM Bool} {visit : Value → Check Trace}
    (h : ∀ v, Told g rules (check v) (visit v)) (kind : Elements) (v : Value) :
    GathersVisits g rules (eachElement check v kind) (Trace.ofElements visit v kind) := by
  cases kind with
  | iterated indices =>
    by_cases source : ∃ number, v = .source number
    · obtain ⟨number, rfl⟩ := source
      apply Gathers.after_read
      refine Gathers.after_get
        (f := fun store => eachFromSource _ number (store.remaining number).length 0) ?_
      exact fun store => eachFromSource_gathers h indices number _ 0
    · have listed : ∀ number, v ≠ .source number := not_exists.mp source
      rw [eachElement_iterated check indices listed, ofElements_iterated visit indices listed]
      exact Gathers.after_read (eachItem_gathers h indices v)
  | positions indices =>
    apply Gathers.after_read
    dsimp only [Elements.parts]
    cases v.size? with
    | none => exact Gathers.of_throw _
    | some size =>
      refine parts_gathers (fun (index : Nat) => ?_) _
      exact Told.after_check fun element => descend_told (h element) (.ofIndex index)
  | entries keys =>
    apply Gathers.after_read
    dsimp only [Elements.parts]
    rw [bind_assoc]
    refine Gathers.after_check fun pairs => ?_
    exact parts_gathers (fun (key, value) => descend_told (h (.entry key value)) (.ofKey g key)) _

end Validation

end PathRules
