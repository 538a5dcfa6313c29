import PathRules.Declaration.Perform
import PathRules.Proofs.Run.Discipline
import PathRules.Proofs.Run.Operations

/-!
# Rules for the instances of a type

Rules can be narrowed to the instances of a type in two ways, each of which is encoded in one way
where all checks have to pass and in another where any may.  On a value that is no instance the
narrowed rules are not evaluated: the evaluation is the same whatever rules stand in their place.
On an instance their verdict decides.
-/

namespace PathRules

variable {α β : Type} {g : ObjectGraph} {expand : Expand} {typeName : String} {x : Value}

inductive Narrowing
  /-- Values of other types pass. -/
  | ifType
  /-- Values of other types fail. -/
  | requireType
deriving DecidableEq

namespace Narrowing

def group (typeName : String) : Narrowing → Group
  | ifType => .ifType typeName
  | requireType => .requireType typeName

/-- What stands among the validations of a draft of a kind for rules that were narrowed to a type.
Where any check may pass, the test of `ifType` stands among the constraints of the draft itself. -/
def encoding (typeName : String) (typed : Validation) : Narrowing → (anyOf : Bool) → Validation
  | ifType, false => .object [notOfType typeName] [.object [] [typed] false false] true true
  | ifType, true => typed
  | requireType, false => .object [.isInstance [typeName]] [typed] false true
  | requireType, true =>
      .object [.isInstance [typeName]] [.object [] [typed] true true] false true

end Narrowing

/-- All that a group consists of besides one of its validations. -/
structure Surroundings where
  constraints : List Constraint := []
  before : List Validation := []
  after : List Validation := []
  anyOf : Bool
  shortCircuit : Bool

namespace Surroundings

def around (s : Surroundings) (sub : Validation) : Validation :=
  .object s.constraints (s.before ++ sub :: s.after) s.anyOf s.shortCircuit

/-- Where any check may pass, the test of `ifType` decides only a group that stops early. -/
def Shield (s : Surroundings) (typeName : String) (n : Narrowing) : Prop :=
  n = .ifType → s.anyOf = true → notOfType typeName ∈ s.constraints ∧ s.shortCircuit = true

/-- A draft on which nothing but narrowed rules was declared. -/
def only (typeName : String) (n : Narrowing) (anyOf shortCircuit : Bool) : Surroundings where
  constraints := if n = .ifType ∧ anyOf = true then [notOfType typeName] else []
  anyOf := anyOf
  shortCircuit := shortCircuit

theorem shield_only {n : Narrowing} {anyOf short : Bool}
    (stops : n = .ifType → anyOf = true → short = true) :
    (only typeName n anyOf short).Shield typeName n :=
  fun is any => ⟨by simp [only, is, show anyOf = true from any], stops is any⟩

end Surroundings

/-- A text without the first character of what is to be replaced stays as it is. -/
theorem Text.replaceAll_of_notMem {first : Char} {rest : List Char} {replacement s : String}
    (absent : first ∉ s.toList) :
    Text.replaceAll (String.ofList (first :: rest)) replacement s = s := by
  have same (cs : List Char) (absent : first ∉ cs) :
      Text.replaceChars (first :: rest) replacement.toList 0 cs = cs := by
    induction cs with
    | nil => rfl
    | cons c cs ih =>
      obtain ⟨apart, absent⟩ := not_or.mp (List.mem_cons.not.mp absent)
      rw [Text.replaceChars, if_neg (by simp [List.isPrefixOf, apart]), ih absent]
  rw [Text.replaceAll, String.toList_ofList, same s.toList absent, String.ofList_toList]

/-- Only a node that has its child already takes no other. -/
theorem Stack.isState_of_add {stack : Stack} {node : Node Leaf} {fault : Fault}
    (h : stack.add node = .error fault) : fault.isState = true := by
  rcases stack with ⟨_ | ⟨_ | ⟨via, _ | child⟩, frames⟩, _ | tree⟩ <;> cases h <;> rfl

namespace Validation

open RunM

/-- One validation of a group stands for another that does the same. -/
theorem around_congr {sub sub' : Validation}
    (same : (sub.evaluate expand x).runOn g = (sub'.evaluate expand x).runOn g) (s : Surroundings) :
    ((s.around sub).evaluate expand x).runOn g = ((s.around sub').evaluate expand x).runOn g := by
  obtain ⟨constraints, before, after, anyOf, short⟩ := s
  have filled (sub : Validation) : (before ++ sub :: after).isEmpty = false := by
    cases before <;> rfl
  cases anyOf with
  | false =>
    simp only [Surroundings.around, evaluate_all, filled]
    exact groupOf_congr .all _ _
      (allOf_append_congr short before (runOn_bind_congr same fun _ => rfl))
  | true =>
    simp only [Surroundings.around, evaluate_any, filled]
    exact groupOf_congr .any _ _
      (anyOf_append_congr short before (runOn_bind_congr same fun _ => rfl))

/-- A group that its constraints decide, if they do not fault, never gets to its validations. -/
theorem groupOf_decided {sign : Sign} {tests : RunM (Option Bool)}
    (decided : ∀ run passed after, tests.runOn g run ≠ (.ok (some passed), after))
    (empty empty' : Bool) (subs subs' : RunM Bool) :
    (groupOf sign empty tests subs).runOn g = (groupOf sign empty' tests subs').runOn g := by
  refine runOn_bind_congr rfl fun _ => runOn_bind_congr ?_ fun _ => rfl
  funext run
  rw [runOn_bind, runOn_bind]
  rcases ran : tests.runOn g run with ⟨fault | _ | passed, after⟩
  · rfl
  · rfl
  · exact absurd ran (decided run passed after)

section Other

variable (other : x.isInstanceOf g typeName = false)

include other

theorem runOn_notOfType (run : Run) :
    (ofCheck ((notOfType typeName).test x)).runOn g run = (.ok true, run) := by
  have passes : ((notOfType typeName).test x).runOn g run.store = (.ok true, run.store) := by
    change (Except.ok (!x.isInstanceOf g typeName), run.store) = _
    rw [other]
    rfl
  rw [runOn_ofCheck, passes]

theorem runOn_isInstance (run : Run) :
    (ofCheck ((Constraint.isInstance [typeName]).test x)).runOn g run = (.ok false, run) := by
  have fails : ((Constraint.isInstance [typeName]).test x).runOn g run.store =
      (.ok false, run.store) := by
    change (Except.ok ([typeName].any (x.isInstanceOf g)), run.store) = _
    simp [other]
  rw [runOn_ofCheck, fails]

/-- The test for other types, wherever it stands, ends a group that stops early. -/
theorem anyConstraint_decided {constraints : List Constraint}
    (member : notOfType typeName ∈ constraints) (run : Run) (passed : Bool) (after : Run) :
    (anyConstraint true x constraints).runOn g run ≠ (.ok (some passed), after) := by
  induction constraints generalizing run with
  | nil => cases member
  | cons c constraints ih =>
    rw [anyConstraint, runOn_bind]
    rcases tested : (ofCheck (c.test x)).runOn g run with ⟨fault | _ | _, mid⟩
    · rintro ⟨⟩
    · rcases List.mem_cons.mp member with rfl | later
      · rw [runOn_notOfType other] at tested
        cases tested
      · dsimp only
        rw [if_neg Bool.false_ne_true, runOn_bind]
        rcases (recordFailure c x).runOn g mid with ⟨fault | recorded, mid⟩
        · rintro ⟨⟩
        · exact ih later mid
    · rintro ⟨⟩

theorem allConstraints_decided (run : Run) (passed : Bool) (after : Run) :
    (allConstraints true x [.isInstance [typeName]]).runOn g run ≠ (.ok (some passed), after) := by
  rw [allConstraints, runOn_bind, runOn_isInstance other]
  dsimp only
  rw [if_neg Bool.false_ne_true, runOn_bind]
  rcases (recordFailure (.isInstance [typeName]) x).runOn g run with ⟨fault | recorded, mid⟩
  · rintro ⟨⟩
  · rintro ⟨⟩

/-- What is narrowed where all checks have to pass, or to instances that are required, protects
itself. -/
theorem encoding_protects {n : Narrowing} {anyOf : Bool} (closed : n = .ifType → anyOf = false)
    (typed typed' : Validation) :
    ((n.encoding typeName typed anyOf).evaluate expand x).runOn g =
      ((n.encoding typeName typed' anyOf).evaluate expand x).runOn g := by
  rcases n with _ | _ <;> rcases anyOf with _ | _
  · simp only [Narrowing.encoding, evaluate_any]
    exact groupOf_decided (anyConstraint_decided other List.mem_cons_self) _ _ _ _
  · exact absurd (closed rfl) nofun
  · simp only [Narrowing.encoding, evaluate_all]
    exact groupOf_decided (allConstraints_decided other) _ _ _ _
  · simp only [Narrowing.encoding, evaluate_all]
    exact groupOf_decided (allConstraints_decided other) _ _ _ _

/-- On a value of another type an evaluation is the same whatever rules were narrowed. -/
theorem narrowed_protects {n : Narrowing} {s : Surroundings} (shield : s.Shield typeName n)
    (typed typed' : Validation) :
    ((s.around (n.encoding typeName typed s.anyOf)).evaluate expand x).runOn g =
      ((s.around (n.encoding typeName typed' s.anyOf)).evaluate expand x).runOn g := by
  by_cases shared : n = .ifType ∧ s.anyOf = true
  · obtain ⟨rfl, any⟩ := shared
    obtain ⟨member, stops⟩ := shield rfl any
    simp only [Surroundings.around, any, stops, evaluate_any]
    exact groupOf_decided (anyConstraint_decided other member) _ _ _ _
  · refine around_congr (encoding_protects other (fun is => ?_) typed typed') s
    exact Bool.eq_false_iff.mpr fun any => shared ⟨is, any⟩

end Other

/-- What is left of reporting depends on nothing but what the evaluation does. -/
theorem reporting_congr {evaluation evaluation' : RunM Bool}
    (same : evaluation.runOn g = evaluation'.runOn g) (validation : Validation) (v : Value) :
    (validation.reporting v evaluation).runOn g = (validation.reporting v evaluation').runOn g :=
  runOn_bind_congr rfl fun _ => runOn_bind_congr same fun _ => rfl

section Deferring

/-- Up to what is recorded the runs are the same to a check. -/
structure SameTo (g : ObjectGraph) (run inside : Run) : Prop where
  store_eq : inside.store = run.store
  rules_eq : inside.rulebook.rules g = run.rulebook.rules g

/-- A computation answers as a check does that it makes on the way, and faults as it does, unless
the check leaves open nodes in disorder, so that they can not be closed. -/
def Defers (g : ObjectGraph) (m check : RunM Bool) (run : Run) : Prop :=
  ∃ inside, SameTo g run inside ∧
    ((m.runOn g run).1 = (check.runOn g inside).1 ∨
      ∃ fault, fault.isState = true ∧ (m.runOn g run).1 = .error fault)

theorem attach_answers (run : Run) :
    (∃ frame, (attach.runOn g run).1 = .ok frame) ∨
      ∃ fault, fault.isState = true ∧ (attach.runOn g run).1 = .error fault := by
  cases open_ : run.stack.frames with
  | nil => exact .inr ⟨.nothingOpen, rfl, by rw [RunM.runOn_attach_nothing open_]⟩
  | cons frame frames =>
    have onTop : run.stack = Stack.push ⟨frames, run.stack.root⟩ frame := by
      rw [Stack.push, ← open_]
    cases parent : frame.hasParent with
    | false =>
      refine .inr ⟨.noParent, rfl, ?_⟩
      rw [attach, runOn_bind, runOn_discard onTop]
      simp only [parent, Bool.false_eq_true, if_false]
      rfl
    | true =>
      rw [runOn_attach_add onTop parent]
      cases added : Stack.add ⟨frames, run.stack.root⟩ frame.node with
      | ok stack => exact .inl ⟨frame, rfl⟩
      | error fault => exact .inr ⟨fault, Stack.isState_of_add added, rfl⟩

theorem discard_answers (run : Run) :
    (∃ frame, (RunM.discard.runOn g run).1 = .ok frame) ∨
      ∃ fault, fault.isState = true ∧ (RunM.discard.runOn g run).1 = .error fault := by
  cases open_ : run.stack.frames with
  | nil => exact .inr ⟨.nothingOpen, rfl, by rw [RunM.runOn_discard_nothing open_]⟩
  | cons frame frames =>
    have onTop : run.stack = Stack.push ⟨frames, run.stack.root⟩ frame := by
      rw [Stack.push, ← open_]
    exact .inl ⟨frame, by rw [runOn_discard onTop]⟩

theorem close_answers (valid keepWarnings : Bool) (run : Run) :
    ((close valid keepWarnings).runOn g run).1 = .ok valid ∨
      ∃ fault, fault.isState = true ∧
        ((close valid keepWarnings).runOn g run).1 = .error fault := by
  have answers {m : RunM Frame} (h : (∃ frame, (m.runOn g run).1 = .ok frame) ∨
      ∃ fault, fault.isState = true ∧ (m.runOn g run).1 = .error fault) :
      ((do let _ ← m; pure valid : RunM Bool).runOn g run).1 = .ok valid ∨
        ∃ fault, fault.isState = true ∧
          ((do let _ ← m; pure valid : RunM Bool).runOn g run).1 = .error fault := by
    rw [runOn_bind]
    rcases ran : m.runOn g run with ⟨fault | frame, after⟩ <;> rw [ran] at h
    · obtain ⟨_, state, is⟩ := h.resolve_left fun ⟨_, is⟩ => nomatch is
      cases is
      exact .inr ⟨fault, state, rfl⟩
    · exact .inl rfl
  rw [close, runOn_bind, runOn_get]
  dsimp only
  split <;> split
  · exact answers (attach_answers run)
  · exact answers (discard_answers run)
  · exact answers (attach_answers run)
  · exact answers (discard_answers run)

/-- A node is opened for the check and closed with its verdict. -/
theorem defers_within {check inner : RunM Bool} {opening : RunM Unit} {run opened : Run}
    (opens : opening.runOn g run = (.ok (), opened)) (same : SameTo g run opened)
    (h : Defers g inner check opened) (keepWarnings : Bool) :
    Defers g (do opening; let valid ← inner; close valid keepWarnings) check run := by
  obtain ⟨inside, ⟨store, rules⟩, answers⟩ := h
  refine ⟨inside, ⟨store.trans same.store_eq, rules.trans same.rules_eq⟩, ?_⟩
  rw [runOn_bind, opens]
  dsimp only
  rw [runOn_bind]
  rcases ran : inner.runOn g opened with ⟨fault | valid, after⟩ <;> rw [ran] at answers
  · exact answers
  · rcases answers with answers | ⟨fault, -, answers⟩
    · rw [← answers]
      exact close_answers valid keepWarnings after
    · cases answers

theorem Defers.of_check (check : RunM Bool) (run : Run) : Defers g check check run :=
  ⟨run, ⟨rfl, rfl⟩, .inl rfl⟩

/-- A group whose constraints leave the verdict to its validations. -/
theorem defers_group {sign : Sign} {empty passed : Bool} {tests : RunM (Option Bool)}
    {subs check : RunM Bool} {run mid : Run}
    (tested : tests.runOn g { run with stack := run.stack.openGroup sign } =
      (.ok (some passed), mid))
    (same : SameTo g run mid) (undecided : ∀ others, conclude sign empty passed others = others)
    (h : Defers g subs check mid) : Defers g (groupOf sign empty tests subs) check run := by
  obtain ⟨inside, ⟨store, rules⟩, answers⟩ := h
  refine ⟨inside, ⟨store.trans same.store_eq, rules.trans same.rules_eq⟩, ?_⟩
  have opens : (openGroup sign).runOn g run =
      (.ok (), { run with stack := run.stack.openGroup sign }) := rfl
  rw [groupOf, runOn_bind, opens]
  dsimp only
  rw [runOn_bind, runOn_bind, tested]
  dsimp only
  rw [runOn_map]
  rcases ran : subs.runOn g mid with ⟨fault | others, after⟩ <;> rw [ran] at answers
  · exact answers
  · dsimp only
    rw [undecided]
    rcases answers with answers | ⟨fault, -, answers⟩
    · rw [← answers]
      exact close_answers others _ after
    · cases answers

theorem defers_allOf {check : RunM Bool} {sub : Validation} {run : Run} (short : Bool)
    (h : Defers g (sub.evaluate expand x) check run) :
    Defers g (allOf? expand short [sub] x) check run := by
  obtain ⟨inside, same, answers⟩ := h
  refine ⟨inside, same, ?_⟩
  rw [allOf?, runOn_bind]
  rcases ran : (sub.evaluate expand x).runOn g run with ⟨fault | _ | _, after⟩ <;>
    rw [ran] at answers <;> cases short <;> exact answers

theorem defers_anyOf {check : RunM Bool} {sub : Validation} {run : Run} (short : Bool)
    (h : Defers g (sub.evaluate expand x) check run) :
    Defers g (anyOf? expand short [sub] x) check run := by
  obtain ⟨inside, same, answers⟩ := h
  refine ⟨inside, same, ?_⟩
  rw [anyOf?, runOn_bind]
  rcases ran : (sub.evaluate expand x).runOn g run with ⟨fault | _ | _, after⟩ <;>
    rw [ran] at answers <;> cases short <;> exact answers

end Deferring

section Encoded

variable {inner : Validation} {run : Run}

theorem evaluate_typed (inner : Validation) :
    ((typeKey typeName).wrap inner).evaluate expand x =
      descend (inner.evaluate expand) (.ofType typeName) x := by
  have stays : (Segment.ofType typeName).get x = pure x := rfl
  simp only [typeKey, StepKey.wrap, guarded, evaluate, guardsPass, stays]
  rfl

variable (g expand x typeName) in
theorem defers_typed (inner : Validation) (run : Run) :
    Defers g (((typeKey typeName).wrap inner).evaluate expand x) (inner.evaluate expand x) run := by
  rw [evaluate_typed]
  have opens : (openPath ⟨.ofType typeName, []⟩).runOn g run =
      (.ok (), { run with stack := run.stack.openPath ⟨.ofType typeName, []⟩ }) := rfl
  exact defers_within opens ⟨rfl, rfl⟩ (.of_check _ _) true

variable (is : x.isInstanceOf g typeName = true)

include is

theorem runOn_allConstraints_instance (run : Run) :
    (allConstraints true x [.isInstance [typeName]]).runOn g run = (.ok (some true), run) := by
  have passes : ((Constraint.isInstance [typeName]).test x).runOn g run.store =
      (.ok true, run.store) := by
    change (Except.ok ([typeName].any (x.isInstanceOf g)), run.store) = _
    simp [is]
  rw [allConstraints, runOn_bind, runOn_ofCheck, passes]
  rfl

theorem runOn_anyConstraint_instance (written : (x.shown? g).isSome = true) (short : Bool)
    (run : Run) :
    ∃ mid, (anyConstraint short x [notOfType typeName]).runOn g
        { run with stack := run.stack.openGroup .any } = (.ok (some false), mid) ∧
      SameTo g run mid := by
  let opened : Run := { run with stack := run.stack.openGroup .any }
  have fails : (ofCheck ((notOfType typeName).test x)).runOn g opened = (.ok false, opened) := by
    have fails : ((notOfType typeName).test x).runOn g run.store = (.ok false, run.store) := by
      change (Except.ok (!x.isInstanceOf g typeName), run.store) = _
      rw [is]
      rfl
    rw [runOn_ofCheck, fails]
  obtain ⟨shown, written⟩ := Option.isSome_iff_exists.mp written
  have rendered : (ofCheck ((notOfType typeName).render x)).runOn g opened =
      (.ok ((notOfType typeName).fill shown), opened) := by
    have rendered : ((notOfType typeName).render x).runOn g run.store =
        (.ok ((notOfType typeName).fill shown), run.store) := by
      simp [Constraint.render, Check.runOn_bind, written]
    rw [runOn_ofCheck, rendered]
  have onTop : opened.stack = run.stack.push (.group .any true []) := rfl
  obtain ⟨mid, recorded, store, advanced⟩ := runOn_record (g := g)
    ⟨.error, (notOfType typeName).fill shown, x⟩ onTop
  refine ⟨mid, ?_, store, advanced.rules_eq⟩
  have failed : (recordFailure (notOfType typeName) x).runOn g opened = (.ok (), mid) := by
    rw [recordFailure, runOn_bind, rendered]
    exact recorded
  rw [anyConstraint, runOn_bind, fails]
  dsimp only
  rw [if_neg Bool.false_ne_true, runOn_bind, failed]
  rfl

section Groups

variable {sub : Validation} {check : RunM Bool}
  (h : ∀ run, Defers g (sub.evaluate expand x) check run)

omit is

theorem sameTo_opened (sign : Sign) (run : Run) :
    SameTo g run { run with stack := run.stack.openGroup sign } := ⟨rfl, rfl⟩

theorem conclude_all (others : Bool) : conclude .all false true others = others := by
  cases others <;> rfl

theorem conclude_any (others : Bool) : conclude .any false false others = others := by
  cases others <;> rfl

include h

theorem defers_single (anyOf short : Bool) (run : Run) :
    Defers g (Validation.evaluate expand (.object [] [sub] anyOf short) x) check run := by
  cases anyOf with
  | false =>
    rw [evaluate_all]
    exact defers_group rfl (sameTo_opened .all run) conclude_all (defers_allOf short (h _))
  | true =>
    rw [evaluate_any]
    exact defers_group rfl (sameTo_opened .any run) conclude_any (defers_anyOf short (h _))

include is

theorem defers_required (run : Run) :
    Defers g (Validation.evaluate expand (.object [.isInstance [typeName]] [sub] false true) x)
      check run := by
  rw [evaluate_all]
  exact defers_group (runOn_allConstraints_instance is _) (sameTo_opened .all run) conclude_all
    (defers_allOf true (h _))

theorem defers_doubted (written : (x.shown? g).isSome = true) (short : Bool) (run : Run) :
    Defers g (Validation.evaluate expand (.object [notOfType typeName] [sub] true short) x)
      check run := by
  rw [evaluate_any]
  obtain ⟨mid, tested, same⟩ := runOn_anyConstraint_instance is written short run
  exact defers_group tested same conclude_any (defers_anyOf short (h _))

end Groups

/-- On an instance a draft with nothing but narrowed rules answers as the rules do, whatever they
are, at the place where they are evaluated. -/
theorem narrowed_defers {n : Narrowing} (written : n = .ifType → (x.shown? g).isSome = true)
    (anyOf short : Bool) (inner : Validation) (run : Run) :
    Defers g (((Surroundings.only typeName n anyOf short).around
      (n.encoding typeName ((typeKey typeName).wrap inner) anyOf)).evaluate expand x)
      (inner.evaluate expand x) run := by
  have typed := defers_typed g expand typeName x inner
  rcases n with _ | _ <;> rcases anyOf with _ | _
  · exact defers_single (defers_doubted is (defers_single typed false false) (written rfl) true)
      false short run
  · exact defers_doubted is typed (written rfl) short run
  · exact defers_single (defers_required is typed) false short run
  · exact defers_single (defers_required is (defers_single typed true true)) true short run

end Encoded

section Traced

variable {traced : TraceModel} {store : Store}

theorem runOn_tested_notOfType (other : x.isInstanceOf g typeName = false) :
    ((notOfType typeName).tested x).runOn g store = (.ok none, store) := by
  have passes : ((notOfType typeName).test x).runOn g store = (.ok true, store) := by
    change (Except.ok (!x.isInstanceOf g typeName), store) = _
    rw [other]
    rfl
  rw [Constraint.tested, Check.runOn_bind, passes]
  rfl

theorem trace_ifType (other : x.isInstanceOf g typeName = false) {anyOf short : Bool}
    (stops : anyOf = true → short = true) (typed : Validation) :
    ∃ t : Trace, t.passed = true ∧ t.leaves = [] ∧ ∀ store,
      (((Surroundings.only typeName .ifType anyOf short).around
        (Narrowing.ifType.encoding typeName typed anyOf)).traceWith traced x).runOn g store =
          (.ok t, store) := by
  cases anyOf with
  | false =>
    refine ⟨.group .all [] [.group .any [none] []], rfl, rfl, fun store => ?_⟩
    simp [Surroundings.only, Surroundings.around, Narrowing.encoding, traceWith, tracesWith,
      Trace.ofGroup, Check.inTurn, Check.runOn_bind, runOn_tested_notOfType other, Sign.counts,
      Sign.decidedBy]
  | true =>
    obtain rfl := stops rfl
    refine ⟨.group .any [none] [], rfl, rfl, fun store => ?_⟩
    simp [Surroundings.only, Surroundings.around, Narrowing.encoding, traceWith,
      Trace.ofGroup, Check.inTurn, Check.runOn_bind, runOn_tested_notOfType other, Sign.counts,
      Sign.decidedBy]

/-- The one leaf of a value that is required to be of another type. -/
def wrongType (x : Value) : Placed := ⟨⟨.error, "must be of the correct type", x⟩, []⟩

theorem runOn_tested_isInstance (other : x.isInstanceOf g typeName = false)
    (written : (x.shown? g).isSome = true) :
    ((Constraint.isInstance [typeName]).tested x).runOn g store =
      (.ok (some (wrongType x).leaf), store) := by
  have fails : ((Constraint.isInstance [typeName]).test x).runOn g store = (.ok false, store) := by
    change (Except.ok ([typeName].any (x.isInstanceOf g)), store) = _
    simp [other]
  obtain ⟨shown, is⟩ := Option.isSome_iff_exists.mp written
  have absent : '\x7b' ∉ "must be of the correct type".toList := by decide
  have plain : (Constraint.isInstance [typeName]).fill shown = "must be of the correct type" :=
    Text.replaceAll_of_notMem absent
  rw [Constraint.tested, Check.runOn_bind, fails]
  simp [Constraint.render, Check.runOn_bind, is, plain, wrongType]
  rfl

theorem trace_requireType (other : x.isInstanceOf g typeName = false)
    (written : (x.shown? g).isSome = true) (anyOf short : Bool) (typed : Validation) :
    ∃ t : Trace, t.passed = false ∧ t.leaves = [wrongType x] ∧ ∀ store,
      (((Surroundings.only typeName .requireType anyOf short).around
        (Narrowing.requireType.encoding typeName typed anyOf)).traceWith traced x).runOn g store =
          (.ok t, store) := by
  cases anyOf with
  | false =>
    refine ⟨.group .all [] [.group .all [some (wrongType x).leaf] []], rfl, rfl, fun store => ?_⟩
    simp [Surroundings.only, Surroundings.around, Narrowing.encoding, traceWith, tracesWith,
      Trace.ofGroup, Check.inTurn, Check.runOn_bind, runOn_tested_isInstance other written,
      Sign.counts, Sign.decidedBy, wrongType]
  | true =>
    refine ⟨.group .any [] [.group .all [some (wrongType x).leaf] []], rfl, rfl, fun store => ?_⟩
    simp [Surroundings.only, Surroundings.around, Narrowing.encoding, traceWith, tracesWith,
      Trace.ofGroup, Check.inTurn, Check.runOn_bind, runOn_tested_isInstance other written,
      Sign.counts, Sign.decidedBy, wrongType]

theorem runOn_tested_of_instance (is : x.isInstanceOf g typeName = true) (store : Store) :
    ((Constraint.isInstance [typeName]).tested x).runOn g store = (.ok none, store) := by
  have passes : ((Constraint.isInstance [typeName]).test x).runOn g store = (.ok true, store) := by
    change (Except.ok ([typeName].any (x.isInstanceOf g)), store) = _
    simp [is]
  rw [Constraint.tested, Check.runOn_bind, passes]
  rfl

theorem runOn_tested_notOfType_of_instance (is : x.isInstanceOf g typeName = true)
    (written : (x.shown? g).isSome = true) :
    ∃ leaf, ∀ store, ((notOfType typeName).tested x).runOn g store = (.ok (some leaf), store) := by
  obtain ⟨shown, written⟩ := Option.isSome_iff_exists.mp written
  refine ⟨⟨.error, (notOfType typeName).fill shown, x⟩, fun store => ?_⟩
  have fails : ((notOfType typeName).test x).runOn g store = (.ok false, store) := by
    change (Except.ok (!x.isInstanceOf g typeName), store) = _
    rw [is]
    rfl
  rw [Constraint.tested, Check.runOn_bind, fails]
  simp [Constraint.render, Check.runOn_bind, written]
  rfl

theorem runOn_inTurn_single {ends : α → Bool} {check : Check α} {a : α}
    (answered : check.runOn g store = (.ok a, store)) :
    (Check.inTurn ends [check]).runOn g store = (.ok [a], store) := by
  rw [Check.inTurn, Check.runOn_bind, answered]
  cases h : ends a <;> simp [Check.inTurn, h]

/-- A group of one validation, which its constraints leave undecided. -/
theorem runOn_ofGroup_single {sign : Sign} {short : Bool} {tests : List (Check (Option Leaf))}
    {told : List (Option Leaf)} {check : Check Trace} {wrap : Trace → Trace}
    (undecided : told.any (fun test => short && sign.decidedBy (sign.counts test)) = false)
    (tested : (Check.inTurn (fun test => short && sign.decidedBy (sign.counts test)) tests).runOn g
      store = (.ok told, store)) {answer : Except Fault Trace} {after : Store}
    (ran : check.runOn g store = (answer.map wrap, after)) :
    (Trace.ofGroup sign short tests [check]).runOn g store =
      (answer.map fun t => .group sign told [wrap t], after) := by
  rw [Trace.ofGroup, Check.runOn_bind, tested]
  dsimp only
  rw [undecided]
  simp only [Bool.false_eq_true, if_false, Check.inTurn, Check.runOn_bind, ran]
  cases answer with
  | error fault => rfl
  | ok t => simp [Except.map]

theorem traceWith_typed (inner : Validation) :
    ((typeKey typeName).wrap inner).traceWith traced x = (do
      let t ← inner.traceWith traced x
      pure (.step (.ofType typeName) x t)) := by
  simp [typeKey, StepKey.wrap, guarded, traceWith, guardsHold, Segment.get, Segment.ofType,
    Extract.itself]

/-- On an instance the verdict is that of the narrowed rules, and so is a fault. -/
theorem trace_instance {n : Narrowing} (is : x.isInstanceOf g typeName = true)
    (written : n = .ifType → (x.shown? g).isSome = true) (anyOf short : Bool) (inner : Validation) :
    ∃ enclose : Trace → Trace, (∀ t, (enclose t).passed = t.passed) ∧ ∀ store,
      (((Surroundings.only typeName n anyOf short).around
        (n.encoding typeName ((typeKey typeName).wrap inner) anyOf)).traceWith traced x).runOn g
          store =
          (((inner.traceWith traced x).runOn g store).1.map enclose,
            ((inner.traceWith traced x).runOn g store).2) := by
  have typed (store : Store) : (((typeKey typeName).wrap inner).traceWith traced x).runOn g store =
      (((inner.traceWith traced x).runOn g store).1.map (.step (.ofType typeName) x),
        ((inner.traceWith traced x).runOn g store).2) := by
    rw [traceWith_typed, Check.runOn_bind]
    rcases (inner.traceWith traced x).runOn g store with ⟨fault | t, after⟩ <;> rfl
  cases n with
  | ifType =>
    obtain ⟨leaf, refused⟩ := runOn_tested_notOfType_of_instance (g := g) is (written rfl)
    cases anyOf with
    | false =>
      refine ⟨fun t => .group .all [] [.group .any [some leaf] [.group .all []
        [.step (.ofType typeName) x t]]], fun t => by simp [Trace.passed, Sign.counts],
        fun store => ?_⟩
      exact runOn_ofGroup_single rfl rfl (runOn_ofGroup_single rfl
        (runOn_inTurn_single (refused store)) (runOn_ofGroup_single rfl rfl (typed store)))
    | true =>
      refine ⟨fun t => .group .any [some leaf] [.step (.ofType typeName) x t],
        fun t => by simp [Trace.passed, Sign.counts], fun store => ?_⟩
      exact runOn_ofGroup_single (by cases short <;> rfl) (runOn_inTurn_single (refused store))
        (typed store)
  | requireType =>
    have accepted := runOn_tested_of_instance (g := g) is
    cases anyOf with
    | false =>
      refine ⟨fun t => .group .all [] [.group .all [none] [.step (.ofType typeName) x t]],
        fun t => by simp [Trace.passed, Sign.counts], fun store => ?_⟩
      exact runOn_ofGroup_single rfl rfl (runOn_ofGroup_single rfl
        (runOn_inTurn_single (accepted store)) (typed store))
    | true =>
      refine ⟨fun t => .group .any [] [.group .all [none] [.group .any []
        [.step (.ofType typeName) x t]]], fun t => by simp [Trace.passed, Sign.counts],
        fun store => ?_⟩
      exact runOn_ofGroup_single rfl rfl (runOn_ofGroup_single rfl
        (runOn_inTurn_single (accepted store)) (runOn_ofGroup_single rfl rfl (typed store)))

end Traced

section Outcome

variable {n : Narrowing} {anyOf short : Bool} {run : Run}

/-- The validation of a draft on which nothing but narrowed rules was declared. -/
abbrev narrowed (n : Narrowing) (typeName : String) (anyOf short : Bool) (inner : Validation) :
    Validation :=
  (Surroundings.only typeName n anyOf short).around
    (n.encoding typeName ((typeKey typeName).wrap inner) anyOf)

theorem narrowed_madeOf {inner : Validation} (made : inner.MadeOf .any) :
    (narrowed n typeName anyOf short inner).MadeOf .any := by
  have typed : ((typeKey typeName).wrap inner).MadeOf .any := ⟨trivial, trivial, made⟩
  refine ⟨fun _ _ => trivial, ?_, trivial⟩
  rcases n with _ | _ <;> rcases anyOf with _ | _
  · exact ⟨fun _ _ => trivial, ⟨nofun, typed, trivial⟩, trivial⟩
  · exact typed
  · exact ⟨fun _ _ => trivial, typed, trivial⟩
  · exact ⟨fun _ _ => trivial, ⟨nofun, typed, trivial⟩, trivial⟩

/-- On a value of another type a run ends in the outcome of a trace that is the same for all rules,
and the store stays as it was. -/
theorem validate_of_other (other : x.isInstanceOf g typeName = false)
    (stops : n = .ifType → anyOf = true → short = true) (inner : Validation) {t : Trace}
    (traced : ∀ store, ((narrowed n typeName anyOf short (.object [] [] false false)).traceWith
      (fun _ _ _ => throw .endless) x).runOn g store = (.ok t, store)) (fresh : run.stack = {}) :
    (((narrowed n typeName anyOf short inner).validate x).runOn g run).1 = .ok (t.outcome x) ∧
      (((narrowed n typeName anyOf short inner).validate x).runOn g run).2.store = run.store := by
  let empty := narrowed n typeName anyOf short (.object [] [] false false)
  have made : empty.MadeOf .any := narrowed_madeOf ⟨nofun, trivial⟩
  have modelless (expand expand' : Expand) :
      empty.evaluate expand x = empty.evaluate expand' x := by
    rcases n with _ | _ <;> rcases anyOf with _ | _ <;> rfl
  have same : ((narrowed n typeName anyOf short inner).check x).runOn g =
      (empty.evaluate (fun _ _ _ => throw .endless) x).runOn g := by
    funext run
    rw [runOn_check, modelless _ (expandModel (g.expansions x run.store.sources))]
    exact congrFun (narrowed_protects other (Surroundings.shield_only stops) _ _) run
  have told : Told g (run.rulebook.rules g) (empty.evaluate (fun _ _ _ => throw .endless) x)
      (empty.traceWith (fun _ _ _ => throw .endless) x) :=
    empty.evaluate_told (fun _ _ _ _ _ _ => Follows.of_throw .endless) made x
  have follows := reporting_follows told (narrowed n typeName anyOf short inner) fresh x
  have ends := follows.runOn_eq fun _ _ _ related => related.1
  rw [traced] at ends
  rw [validate, reporting_congr same]
  exact ends

theorem ifType_accepts (other : x.isInstanceOf g typeName = false)
    (stops : anyOf = true → short = true) (inner : Validation) (fresh : run.stack = {}) :
    (((narrowed .ifType typeName anyOf short inner).validate x).runOn g run).1 =
        .ok (.accepted x []) ∧
      (((narrowed .ifType typeName anyOf short inner).validate x).runOn g run).2.store =
        run.store := by
  obtain ⟨t, passed, none, traced⟩ :=
    trace_ifType other stops ((typeKey typeName).wrap (.object [] [] false false))
  have ends := validate_of_other (n := .ifType) other (fun _ => stops) inner traced fresh
  have accepted : t.outcome x = .accepted x [] := by
    rw [Trace.outcome, outcomeOf, if_pos passed, Trace.leaves_tree, none]
    rfl
  rwa [accepted] at ends

theorem requireType_rejects (other : x.isInstanceOf g typeName = false)
    (written : (x.shown? g).isSome = true) (inner : Validation) (fresh : run.stack = {}) :
    (∃ root, (((narrowed .requireType typeName anyOf short inner).validate x).runOn g run).1 =
        .ok (.rejected root) ∧ root.leaves = [wrongType x]) ∧
      (((narrowed .requireType typeName anyOf short inner).validate x).runOn g run).2.store =
        run.store := by
  obtain ⟨t, failed, alone, traced⟩ := trace_requireType other written anyOf short
    ((typeKey typeName).wrap (.object [] [] false false))
  obtain ⟨ends, store⟩ :=
    validate_of_other (n := .requireType) other (fun is => nomatch is) inner traced fresh
  refine ⟨⟨t.tree, ends.trans ?_, by rw [Trace.leaves_tree, alone]⟩, store⟩
  rw [Trace.outcome, outcomeOf, if_neg (by simp [failed])]

/-- An instance is accepted if the narrowed rules accept it, and rejected if they reject it; what
faults is the same. -/
theorem instance_as_declared (is : x.isInstanceOf g typeName = true)
    (written : n = .ifType → (x.shown? g).isSome = true) {inner : Validation}
    (made : inner.MadeOf .any) (book : run.rulebook.MadeOf .any) (fresh : run.stack = {}) :
    (((narrowed n typeName anyOf short inner).validate x).runOn g run).1.map Outcome.isAccepted =
        ((inner.validate x).runOn g run).1.map Outcome.isAccepted ∧
      (((narrowed n typeName anyOf short inner).validate x).runOn g run).2.store =
        ((inner.validate x).runOn g run).2.store := by
  have served := book.served (g := g) Material.any_holdsFields
  obtain ⟨ends, store⟩ := validate_eq_outcome (narrowed_madeOf made) served fresh x
  obtain ⟨ends', store'⟩ := validate_eq_outcome made served fresh x
  obtain ⟨enclose, passed, traced⟩ := trace_instance is written anyOf short inner
  rw [ends, store, ends', store', runOn_trace, runOn_trace, traced]
  refine ⟨?_, rfl⟩
  rcases (inner.traceWith _ x).runOn g run.store with ⟨fault | t, after⟩
  · rfl
  · simp [Except.map, passed]

end Outcome

end Validation

end PathRules
