import PathRules.Proofs.Run.Gathering
import PathRules.Proofs.Trace.Groups

/-!
# Evaluation tells its trace

A run that evaluates a validation without scripts follows `Validation.trace`.  The proof goes by
recursion on the validation; models are expanded by recursion on the depth of their nesting.
-/

namespace PathRules

variable {g : ObjectGraph} {rules : Rules} {sign : Sign}

namespace Validation

variable {expand : Expand} {traced : TraceModel}

/-- The answer of further validations, told from their traces. -/
def TotalsSubs (sign : Sign) (checks : List (Check Trace)) (answer : Bool) (ts : List Trace) :
    Prop :=
  answer = sign.total (ts.map Trace.passed) ∧ ts.isEmpty = checks.isEmpty

/-- A computation gathers what further validations leave. -/
def GathersSubs (g : ObjectGraph) (rules : Rules) (sign : Sign) (short : Bool) (m : RunM Bool)
    (checks : List (Check Trace)) : Prop :=
  Gathers g rules sign m (Check.inTurn (fun t => short && sign.decidedBy t.passed) checks)
    (TotalsSubs sign checks) (Yield.trace sign).list

theorem GathersSubs.cons {short : Bool} {first rest : RunM Bool} {check : Check Trace}
    {checks : List (Check Trace)} (h : Told g rules first check)
    (later : GathersSubs g rules sign short rest checks) :
    GathersSubs g rules sign short
      (first >>= fun passed =>
        if short && sign.decidedBy passed then pure passed else sign.join passed <$> rest)
      (check :: checks) := by
  refine h.gathers.turn later ?ended ?continued
  case ended =>
    rintro passed t rfl ends
    refine ⟨t.passed, by rw [if_pos ends], ?_, rfl⟩
    exact (Sign.total_of_decidedBy (Bool.and_eq_true_iff.mp ends).2).symm
  case continued =>
    rintro passed t rfl continues
    refine ⟨sign.join t.passed, by rw [if_neg (by simp [continues])], ?_⟩
    rintro answer ts ⟨rfl, -⟩
    exact ⟨by rw [List.map_cons, Sign.total_cons], rfl⟩

theorem allOf_cons (short : Bool) (sub : Validation) (subs : List Validation) (v : Value) :
    allOf? expand short (sub :: subs) v = sub.evaluate expand v >>= fun passed =>
      if short && Sign.all.decidedBy passed then pure passed
      else Sign.all.join passed <$> allOf? expand short subs v := by
  rw [allOf?]
  refine bind_congr fun passed => ?_
  cases passed <;> cases short <;> simp [Sign.decidedBy, Sign.join_all]

theorem anyOf_cons (short : Bool) (sub : Validation) (subs : List Validation) (v : Value) :
    anyOf? expand short (sub :: subs) v = sub.evaluate expand v >>= fun passed =>
      if short && Sign.any.decidedBy passed then pure passed
      else Sign.any.join passed <$> anyOf? expand short subs v := by
  rw [anyOf?]
  refine bind_congr fun passed => ?_
  cases passed <;> cases short <;> simp [Sign.decidedBy, Sign.join_any]

/-- The answer of a group from that of its constraints and that of its further validations. -/
def conclude (sign : Sign) (empty passed others : Bool) : Bool :=
  match sign with
  | .all => passed && others
  | .any => passed || others || empty

/-- A group is opened, its constraints and then its further validations are asked, and it is
closed.  A constraint may have decided it. -/
def groupOf (sign : Sign) (empty : Bool) (tests : RunM (Option Bool)) (subs : RunM Bool) :
    RunM Bool := do
  RunM.openGroup sign
  let valid ← tests >>= fun
    | none => pure (sign == .any)
    | some passed => conclude sign empty passed <$> subs
  RunM.close valid (sign == .all)

theorem evaluate_all (constraints : List Constraint) (subs : List Validation) (short : Bool)
    (v : Value) :
    (object constraints subs false short).evaluate expand v =
      groupOf .all (constraints.isEmpty && subs.isEmpty) (allConstraints short v constraints)
        (allOf? expand short subs v) := by
  simp only [evaluate, groupOf, Bool.false_eq_true, if_false, bind_assoc]
  refine bind_congr fun _ => bind_congr fun answer => ?_
  cases answer with
  | none => rfl
  | some passed =>
    simp only [bind_map_left, pure_bind]
    rfl

theorem evaluate_any (constraints : List Constraint) (subs : List Validation) (short : Bool)
    (v : Value) :
    (object constraints subs true short).evaluate expand v =
      groupOf .any (constraints.isEmpty && subs.isEmpty) (anyConstraint short v constraints)
        (anyOf? expand short subs v) := by
  simp only [evaluate, groupOf, if_true, bind_assoc]
  refine bind_congr fun _ => bind_congr fun answer => ?_
  cases answer with
  | none => rfl
  | some passed =>
    simp only [bind_map_left, pure_bind]
    rfl

section Congruence

open RunM

variable {v : Value} {rest rest' : List Validation}

/-- What comes after some validations may be exchanged for what does the same. -/
theorem allOf_append_congr (short : Bool) (before : List Validation)
    (same : (allOf? expand short rest v).runOn g = (allOf? expand short rest' v).runOn g) :
    (allOf? expand short (before ++ rest) v).runOn g =
      (allOf? expand short (before ++ rest') v).runOn g := by
  induction before with
  | nil => exact same
  | cons first before ih =>
    refine runOn_bind_congr rfl fun passed => ?_
    cases passed with
    | true => exact ih
    | false =>
      cases short with
      | true => rfl
      | false => exact runOn_bind_congr ih fun _ => rfl

theorem anyOf_append_congr (short : Bool) (before : List Validation)
    (same : (anyOf? expand short rest v).runOn g = (anyOf? expand short rest' v).runOn g) :
    (anyOf? expand short (before ++ rest) v).runOn g =
      (anyOf? expand short (before ++ rest') v).runOn g := by
  induction before with
  | nil => exact same
  | cons first before ih =>
    refine runOn_bind_congr rfl fun passed => ?_
    cases passed with
    | false => exact ih
    | true =>
      cases short with
      | true => rfl
      | false => exact runOn_bind_congr ih fun _ => rfl

theorem groupOf_congr (sign : Sign) (empty : Bool) (tests : RunM (Option Bool))
    {subs subs' : RunM Bool} (same : subs.runOn g = subs'.runOn g) :
    (groupOf sign empty tests subs).runOn g = (groupOf sign empty tests subs').runOn g := by
  refine runOn_bind_congr rfl fun _ => runOn_bind_congr ?_ fun _ => rfl
  refine runOn_bind_congr rfl fun answer => ?_
  cases answer with
  | none => rfl
  | some passed =>
    dsimp only
    rw [map_eq_pure_bind, map_eq_pure_bind]
    exact runOn_bind_congr same fun _ => rfl

end Congruence

/-- A group that a constraint decided answers as its trace. -/
theorem passed_of_decided {short : Bool} {tests : List (Option Leaf)}
    (h : tests.any (fun test => short && sign.decidedBy (sign.counts test)) = true) :
    (sign == .any) = (Trace.group sign tests []).passed := by
  obtain ⟨test, member, decides⟩ := List.any_eq_true.mp h
  have decided := (Bool.and_eq_true_iff.mp decides).2
  cases sign with
  | all =>
    have failed : Sign.all.counts test = false := by simpa [Sign.decidedBy] using decided
    have rejected : tests.all Sign.all.counts = false :=
      List.all_eq_false.mpr ⟨test, member, by simp [failed]⟩
    simp [Trace.passed, rejected]
  | any =>
    have accepted : tests.any Sign.any.counts = true :=
      List.any_eq_true.mpr ⟨test, member, decided⟩
    simp [Trace.passed, accepted]

/-- A group whose checks were all made answers as its trace. -/
theorem conclude_eq_passed (tests : List (Option Leaf)) (ts : List Trace) :
    conclude sign (tests.isEmpty && ts.isEmpty) (sign.total (tests.map sign.counts))
      (sign.total (ts.map Trace.passed)) = (Trace.group sign tests ts).passed := by
  cases sign with
  | all => simp [conclude, Sign.total, Trace.passed, List.all_map]
  | any =>
    simp only [conclude, Sign.total, Trace.passed, List.any_map, Trace.anyPassed_eq_any]
    rw [Bool.or_comm, ← Bool.or_assoc]
    rfl

theorem node_group (tests : List (Option Leaf)) (ts : List Trace) :
    (Trace.group sign tests ts).node =
      if sign == .all then
        (Node.group sign (Trace.failureNodes tests ++ Trace.nodesIn sign ts)).kept
          (Trace.group sign tests ts).passed
      else if (Trace.group sign tests ts).passed then none
      else some (.group sign (Trace.failureNodes tests ++ Trace.nodesIn sign ts)) := by
  cases sign <;> rfl

/-- A group leaves the node of its trace. -/
theorem group_told {short : Bool} {v : Value} {constraints : List Constraint}
    {checks : List (Check Trace)} {tests : RunM (Option Bool)} {subs : RunM Bool}
    (first : GathersTests g rules sign short v constraints tests)
    (later : GathersSubs g rules sign short subs checks) :
    Told g rules (groupOf sign (constraints.isEmpty && checks.isEmpty) tests subs)
      (Trace.ofGroup sign short (constraints.map (·.tested v)) checks) := by
  have gathered : Gathers g rules sign
      (tests >>= fun
        | none => pure (sign == .any)
        | some passed => conclude sign (constraints.isEmpty && checks.isEmpty) passed <$> subs)
      (groupChecks sign short (constraints.map (·.tested v)) checks)
      (fun passed b => passed = (Trace.group sign b.1 b.2).passed)
      (Yield.test.list.pair (Yield.trace sign).list) := by
    refine first.seq (k := fun tests =>
      if tests.any fun test => short && sign.decidedBy (sign.counts test) then pure []
      else Check.inTurn (fun t => short && sign.decidedBy t.passed) checks) ?_
    rintro answer tests ⟨rfl, sameLength⟩
    cases decided : tests.any fun test => short && sign.decidedBy (sign.counts test) with
    | true => exact Gathers.of_pure (passed_of_decided decided) rfl fun _ _ => rfl
    | false =>
      apply later.fmap
      rintro others ts ⟨rfl, sameLength'⟩
      rw [← sameLength, ← sameLength']
      exact conclude_eq_passed tests ts
  rw [ofGroup_eq]
  refine Gathers.told (sign == .all) gathered (fun b => ?_) fun origin place b => ?_
  · rw [node_group]
    simp only [Yield.pair, Yield.nodes_tests, Yield.nodes_traces]
  · simp only [Yield.pair, Yield.events_tests, Yield.events_traces]
    rfl

/-- The elements of a value are visited in a group of their own. -/
theorem elements_told {check : Value → RunM Bool} {visit : Value → Check Trace}
    (h : ∀ v, Told g rules (check v) (visit v)) (kind : Elements) (v : Value) :
    Told g rules
      (do RunM.openGroup .all; let valid ← eachElement check v kind; RunM.close valid true)
      (do let visits ← Trace.ofElements visit v kind; pure (.elements kind v visits)) := by
  have gathered : Gathers g rules .all (eachElement check v kind) (Trace.ofElements visit v kind)
      (fun passed ts => passed = (Trace.elements kind v ts).passed) (Yield.trace .all).list := by
    simp only [Trace.passed, Trace.allPassed_eq_all]
    exact eachElement_gathers h kind v
  refine Gathers.told true gathered (fun ts => ?_) fun origin place ts => ?_
  · rw [if_pos rfl, Yield.nodes_traces]
    rfl
  · rw [Yield.events_traces]
    rfl

/-- A guard is asked on a stack of its own, without observers. -/
theorem apart_follows {m : RunM Bool} {check : Check Trace} (h : Told g rules m check) {run : Run}
    (hrules : run.rulebook.rules g = rules) :
    Follows g
      (RunM.apart do
        let passed ← m
        let _ ← RunM.finish
        pure passed)
      run check fun passed t after =>
        passed = t.passed ∧ Advances g run run.stack [] after := by
  have inner : Follows g (do let passed ← m; let _ ← RunM.finish; pure passed)
      { run with stack := {}, observed := false } check fun passed t after =>
        passed = t.passed ∧ after.events = run.events ∧ after.origin = run.origin ∧
          after.rulebook.rules g = run.rulebook.rules g := by
    rw [← bind_pure check]
    refine (h { run with stack := {}, observed := false } rfl hrules).bind
      fun passed t after ⟨agree, advanced⟩ => ?_
    have closed : after.stack.frames = [] := by
      rw [advanced.stack_eq]
      rfl
    have finished : RunM.finish.runOn g after = (.ok after.stack.tree, after) := by
      simp [RunM.finish, RunM.runOn_bind, closed]
    refine Follows.before finished rfl (Follows.of_pure ⟨agree, ?_, advanced.origin_eq,
      advanced.rules_eq⟩)
    rw [advanced.events_eq]
    simp
  unfold Follows at inner ⊢
  rw [RunM.runOn_apart]
  revert inner
  generalize RunM.runOn _ g { run with stack := {}, observed := false } = result
  rcases check.runOn g run.store with ⟨_ | t, store⟩ <;> rcases result with ⟨_ | passed, after⟩
  · exact id
  · exact id
  · exact id
  · rintro ⟨same, agree, events, origin, served⟩
    exact ⟨same, agree, rfl, by simp [events], rfl, origin, served⟩

/-- What a step does once its guards have accepted the value. -/
theorem taken_told {check : Value → RunM Bool} {visit : Value → Check Trace}
    (h : ∀ v, Told g rules (check v) (visit v)) (presence : Presence) (target : Segment)
    (v : Value) :
    Told g rules
      (RunM.ofCheck (target.get v) >>= fun part =>
        match presence, part with
        | .optional, .null => pure true
        | .required, .null => recordMissing target
        | _, part => descend check target part)
      (target.get v >>= fun part =>
        match presence, part with
        | .optional, .null => pure (.absent target)
        | .required, .null => pure (.missing target)
        | _, part => do
            let inner ← visit part
            pure (.step target part inner)) := by
  refine Told.after_check fun part => ?_
  have entered : Told g rules (descend check target part)
      (do let inner ← visit part; pure (.step target part inner)) := descend_told (h part) target
  cases presence with
  | undefined => exact entered
  | optional =>
    cases part with
    | null => exact fun run _ _ => Follows.of_pure ⟨rfl, by
      simpa [Trace.node, Trace.events] using Advances.refl run⟩
    | _ => exact entered
  | required =>
    cases part with
    | null => exact recordMissing_told target
    | _ => exact entered

/-- Guards follow their counterpart; only a skipped step is told to observers. -/
def GuardsFollow (g : ObjectGraph) (rules : Rules) (m : RunM Bool) (check : Check Bool)
    (target : Segment) (v : Value) : Prop :=
  ∀ run : Run, run.rulebook.rules g = rules →
    Follows g m run check fun passed held after => passed = held ∧
      Advances g run run.stack
        (if held then [] else [Event.ofSkip run.origin run.stack.place target v]) after

/-- The first guard to reject the value is told to observers, and no other is asked. -/
theorem guard_follows {m rest : RunM Bool} {check : Check Trace} {others : Check Bool}
    {target : Segment} {v : Value} (h : Told g rules m check)
    (later : GuardsFollow g rules rest others target v) :
    GuardsFollow g rules
      (do
        let passed ← RunM.apart do
          let passed ← m
          let _ ← RunM.finish
          pure passed
        if passed then rest
        else
          RunM.emit .pathSkipped
            [("path", .str target.name), ("data_path", .str (← get).stack.place.text), ("value", v)]
          pure false)
      (do
        let t ← check
        if t.passed then others else pure false) target v := by
  intro run hrules
  refine (apart_follows h hrules).bind fun passed t mid ⟨agree, advanced⟩ => ?_
  subst agree
  have stack := advanced.stack_eq
  have origin := advanced.origin_eq
  cases t.passed with
  | true =>
    refine (later mid (advanced.rules_eq.trans hrules)).mono
      fun passed held after ⟨agree, advanced'⟩ => ⟨agree, ?_⟩
    rw [stack, origin] at advanced'
    exact advanced.trans advanced'
  | false =>
    apply Follows.before (RunM.runOn_get mid) rfl
    refine Follows.before (RunM.runOn_emit _ _ mid) rfl (Follows.of_pure ⟨rfl, ?_⟩)
    refine ⟨stack, ?_, advanced.observed_eq, origin, advanced.rules_eq⟩
    have sent := advanced.events_eq
    simp only [ite_self, List.append_nil] at sent
    simp only [sent, advanced.observed_eq, stack, origin]
    rfl

theorem step_told {check : Value → RunM Bool} {visit : Value → Check Trace} {guards : RunM Bool}
    {held : Check Bool} (h : ∀ v, Told g rules (check v) (visit v)) (presence : Presence)
    (target : Segment) (v : Value) (hguards : GuardsFollow g rules guards held target v) :
    Told g rules
      (do
        if ← guards then
          let part ← RunM.ofCheck (target.get v)
          match presence, part with
          | .optional, .null => pure true
          | .required, .null => recordMissing target
          | _, part => descend check target part
        else pure true)
      (do
        if ← held then
          let part ← target.get v
          match presence, part with
          | .optional, .null => pure (.absent target)
          | .required, .null => pure (.missing target)
          | _, part =>
              let inner ← visit part
              pure (.step target part inner)
        else pure (.skipped target v)) := by
  intro run isOpen hrules
  refine (hguards run hrules).bind fun passed held mid guarded => ?_
  obtain ⟨rfl, advanced⟩ := guarded
  have stack := advanced.stack_eq
  cases passed with
  | false => exact Follows.of_pure ⟨rfl, by simpa [Trace.node, Trace.events] using advanced⟩
  | true =>
    have isOpen' : mid.stack.isOpen = true := by rwa [stack]
    have taken := taken_told h presence target v mid isOpen' (advanced.rules_eq.trans hrules)
    refine taken.mono fun passed t after related => ?_
    obtain ⟨agree, advanced'⟩ := related
    rw [stack, advanced.origin_eq] at advanced'
    exact ⟨agree, advanced.trans advanced'⟩

mutual

/-- Evaluating a validation without scripts tells its trace. -/
theorem evaluate_told (h : ∀ registry cls v, Told g rules (expand registry cls v)
    (traced registry cls v)) : (validation : Validation) → validation.MadeOf .any → ∀ v : Value,
    Told g rules (validation.evaluate expand v) (validation.traceWith traced v)
  | .object constraints subs false short, made, v => by
    rw [evaluate_all, traceWith, ← isEmpty_tracesWith subs v]
    have tests := @allConstraints_gathers g rules short v constraints
    exact group_told tests (allOf_gathers h subs made.2 short v)
  | .object constraints subs true short, made, v => by
    rw [evaluate_any, traceWith, ← isEmpty_tracesWith subs v]
    have tests := @anyConstraint_gathers g rules short v constraints
    exact group_told tests (anyOf_gathers h subs made.2 short v)
  | .step presence guards target inner, made, v => by
    rw [evaluate, traceWith]
    exact step_told (evaluate_told h inner made.2.2) presence target v
      (guardsPass_follows h guards made.1 target v)
  | .elements kind inner, made, v => by
    rw [evaluate, traceWith]
    exact elements_told (evaluate_told h inner made) kind v
  | .model registry cls, _, v => h registry cls v
termination_by structural validation => validation

theorem allOf_gathers (h : ∀ registry cls v, Told g rules (expand registry cls v)
    (traced registry cls v)) : (subs : List Validation) → AllMadeOf .any subs → ∀ (short : Bool)
    (v : Value),
    GathersSubs g rules .all short (allOf? expand short subs v) (tracesWith traced subs v)
  | [], _, _, _ => Gathers.of_pure ⟨rfl, rfl⟩ rfl fun _ _ => rfl
  | sub :: subs, made, short, v => by
    rw [allOf_cons]
    exact .cons (evaluate_told h sub made.1 v) (allOf_gathers h subs made.2 short v)
termination_by structural subs => subs

theorem anyOf_gathers (h : ∀ registry cls v, Told g rules (expand registry cls v)
    (traced registry cls v)) : (subs : List Validation) → AllMadeOf .any subs → ∀ (short : Bool)
    (v : Value),
    GathersSubs g rules .any short (anyOf? expand short subs v) (tracesWith traced subs v)
  | [], _, _, _ => Gathers.of_pure ⟨rfl, rfl⟩ rfl fun _ _ => rfl
  | sub :: subs, made, short, v => by
    rw [anyOf_cons]
    exact .cons (evaluate_told h sub made.1 v) (anyOf_gathers h subs made.2 short v)
termination_by structural subs => subs

theorem guardsPass_follows (h : ∀ registry cls v, Told g rules (expand registry cls v)
    (traced registry cls v)) : (guards : List Guard) → GuardsMadeOf .any guards →
    ∀ (target : Segment) (v : Value),
    GuardsFollow g rules (guardsPass expand target guards v) (guardsHold traced guards v) target v
  | [], _, _, _ => fun run _ => Follows.of_pure ⟨rfl, Advances.refl run⟩
  | .mk _ condition :: guards, made, target, v => by
    rw [guardsPass, guardsHold]
    exact guard_follows (evaluate_told h condition made.1 v)
      (guardsPass_follows h guards made.2 target v)
termination_by structural guards => guards

end

end Validation

/-- A model that was met before is told by a leaf in a group of its own. -/
theorem repeated_told (v : Value) :
    Told g rules
      (do
        RunM.openGroup .all
        RunM.record (Leaf.repeated v)
        let _ ← RunM.attach
        pure false)
      (pure (.repeated v)) := by
  intro run isOpen _
  obtain ⟨after, recorded, same, advanced⟩ :=
    RunM.runOn_recordAlone (g := g) (Leaf.repeated v) isOpen
  have alone : (do
      RunM.openGroup .all
      RunM.record (Leaf.repeated v)
      let _ ← RunM.attach
      pure false) = RunM.recordAlone (Leaf.repeated v) >>= fun _ => pure false := by
    simp [RunM.recordAlone]
  rw [alone]
  exact Follows.before recorded same (Follows.of_pure ⟨rfl, advanced⟩)

/-- Rules are looked up without changing what the rulebook serves. -/
theorem lookUpRules_told {registry cls : String} {f : Option Validation → RunM Bool}
    {check : Check Trace} (h : Told g rules (f (rules registry cls)) check) :
    Told g rules (lookUpRules registry cls >>= f) check := by
  intro run isOpen hrules
  have found : (lookUpRules registry cls).runOn g run =
      (.ok (rules registry cls),
        { run with rulebook := (run.rulebook.compiled g registry cls).2 }) := by
    rw [← hrules, ← Rulebook.compiled_fst]
    rfl
  have served : (run.rulebook.compiled g registry cls).2.rules g = run.rulebook.rules g :=
    Rulebook.rules_compiled run.rulebook registry cls
  apply Follows.before found rfl
  refine (h { run with rulebook := (run.rulebook.compiled g registry cls).2 } isOpen
    (served.trans hrules)).mono fun passed t after ⟨agree, advanced⟩ => ⟨agree, ?_⟩
  exact ⟨advanced.stack_eq, advanced.events_eq, advanced.observed_eq, advanced.origin_eq,
    advanced.rules_eq.trans served⟩

/-- The trace of the rules is told as that of the model. -/
theorem Told.expanded {m : RunM Bool} {check : Check Trace} (h : Told g rules m check)
    (registry cls : String) (v : Value) :
    Told g rules m (do let t ← check; pure (.expanded registry cls v t)) := by
  intro run isOpen hrules
  rw [← bind_pure m]
  exact (h run isOpen hrules).map fun passed t after related => related

/-- Expanding models tells their traces, to every depth. -/
theorem expandModel_told
    (served : ∀ registry cls rule, rules registry cls = some rule → rule.MadeOf .any)
    (fuel : Nat) (registry cls : String) (v : Value) :
    Told g rules (expandModel fuel registry cls v)
      (Validation.traceModel rules fuel registry cls v) := by
  induction fuel generalizing registry cls v with
  | zero => exact fun run _ _ => Follows.of_throw .endless
  | succ fuel ih =>
    refine Told.after_check fun first => ?_
    cases first with
    | false => exact repeated_told v
    | true =>
      apply lookUpRules_told
      cases found : rules registry cls with
      | none =>
        exact fun run _ _ => Follows.of_pure ⟨rfl, by
          simpa [Trace.node, Trace.events] using Advances.refl run⟩
      | some rule =>
        exact (rule.evaluate_told ih (served registry cls rule found) v).expanded registry cls v

theorem Validation.runOn_check (validation : Validation) (v : Value) (run : Run) :
    (validation.check v).runOn g run =
      (validation.evaluate (expandModel (g.expansions v run.store.sources)) v).runOn g run := by
  have reads : (read : RunM ObjectGraph).runOn g run = (.ok g, run) := rfl
  rw [check, checkBy, RunM.runOn_bind, reads]
  dsimp only
  rw [RunM.runOn_bind, RunM.runOn_get]
  rfl

/-- A run of a validation tells its trace, given what its rulebook serves. -/
theorem Validation.check_told
    (served : ∀ registry cls rule, rules registry cls = some rule → rule.MadeOf .any)
    {validation : Validation} (made : validation.MadeOf .any) (v : Value) :
    Told g rules (validation.check v) (validation.trace rules v) :=
  Told.after_read (Told.after_get fun _ => validation.evaluate_told (expandModel_told served _) made v)

end PathRules
