import PathRules.Proofs.Run.Lockstep
import PathRules.Proofs.Run.Upholds

/-!
# Steps behind guards

Guards are asked one after the other about the value that a step starts from, each on a stack of
its own and without observers, and the first that rejects it ends the asking.  They share with the
run its store and the compiled rules.  A step whose guards accept is the step without guards on the
store that they leave; a step that a guard rejects accepts its value without taking it anywhere.
-/

namespace PathRules

variable {g : ObjectGraph} {expand : Expand} {run : Run}

/-- No step in the tree carries guards. -/
def Node.Unguarded (node : Node Leaf) : Prop :=
  ∀ via child, .path via child ∈ node.subtrees → via.guards = []

/-- No step that is open, and none that was recorded, carries guards. -/
structure Stack.Unguarded (stack : Stack) : Prop where
  frames : ∀ frame ∈ stack.frames, frame.node.Unguarded
  root : ∀ node ∈ stack.root, node.Unguarded

namespace Node

theorem unguarded_group {sign : Sign} {children : List (Node Leaf)} :
    (group sign children).Unguarded ↔ ∀ child ∈ children, child.Unguarded := by
  simp only [Unguarded, subtrees, List.mem_cons, reduceCtorEq, false_or, mem_subtreesOf]
  constructor
  · exact fun h node member via child found => h via child ⟨node, member, found⟩
  · rintro h via child ⟨node, member, found⟩
    exact h node member via child found

theorem unguarded_path {via : Via} {child : Option (Node Leaf)} :
    (path via child).Unguarded ↔ via.guards = [] ∧ ∀ node ∈ child, node.Unguarded := by
  cases child with
  | none => simp [Unguarded, subtrees, subtreesBelow]
  | some node =>
    simp only [Unguarded, subtrees, subtreesBelow, List.mem_cons, path.injEq, Option.mem_def,
      Option.some.injEq, forall_eq']
    exact ⟨fun h => ⟨h via node (.inl ⟨rfl, rfl⟩), fun v c found => h v c (.inr found)⟩,
      fun h v c found => found.elim (fun same => same.1 ▸ h.1) (h.2 v c)⟩

theorem unguarded_leaf (leaf : Leaf) : (Node.leaf leaf).Unguarded := by
  simp [Unguarded, subtrees]

/-- What a node adds to a group is as unguarded as the node. -/
theorem Unguarded.spliced {node child : Node Leaf} {sign : Sign} (h : node.Unguarded)
    (spliced : child ∈ node.splicedInto sign) : child.Unguarded :=
  fun via below found => h via below (mem_subtrees_of_splicedInto spliced found)

end Node

namespace Stack.Unguarded

variable {stack after : Stack}

theorem empty : ({} : Stack).Unguarded := ⟨nofun, nofun⟩

theorem push (h : stack.Unguarded) {frame : Frame} (hframe : frame.node.Unguarded) :
    (stack.push frame).Unguarded :=
  ⟨List.forall_mem_cons.mpr ⟨hframe, h.frames⟩, h.root⟩

theorem record (h : stack.Unguarded) {leaf : Leaf} (recorded : stack.record leaf = .ok after) :
    after.Unguarded := by
  obtain ⟨frames, root⟩ := stack
  unfold Stack.record at recorded
  split at recorded
  · next sign attached children below same =>
    obtain rfl : frames = .group sign attached children :: below := same
    cases recorded
    obtain ⟨top, rest⟩ := List.forall_mem_cons.mp h.frames
    refine ⟨List.forall_mem_cons.mpr ⟨?_, rest⟩, h.root⟩
    have own := Node.unguarded_group.mp top
    refine Node.unguarded_group.mpr fun child member => ?_
    rcases List.mem_append.mp member with old | new
    · exact own child old
    · rw [List.mem_singleton.mp new]
      exact Node.unguarded_leaf leaf
  · cases recorded

theorem popped (h : stack.Unguarded) {frame : Frame}
    (popped : stack.pop? = some (frame, after)) : frame.node.Unguarded ∧ after.Unguarded := by
  obtain ⟨_ | ⟨top, below⟩, root⟩ := stack
  · cases popped
  · cases popped
    obtain ⟨top, rest⟩ := List.forall_mem_cons.mp h.frames
    exact ⟨top, rest, h.root⟩

theorem of_frame_add {frame grown : Frame} {node : Node Leaf} (h : frame.node.Unguarded)
    (hnode : node.Unguarded) (added : frame.add node = .ok grown) : grown.node.Unguarded := by
  cases frame with
  | group sign attached children =>
    cases added
    have own := Node.unguarded_group.mp h
    refine Node.unguarded_group.mpr fun child member => ?_
    exact (List.mem_append.mp member).elim (own child) hnode.spliced
  | path via child =>
    cases child with
    | some child => cases added
    | none =>
      cases added
      refine Node.unguarded_path.mpr ⟨(Node.unguarded_path.mp h).1, ?_⟩
      rintro _ ⟨⟩
      exact hnode

theorem add (h : stack.Unguarded) {node : Node Leaf} (hnode : node.Unguarded)
    (added : stack.add node = .ok after) : after.Unguarded := by
  obtain ⟨_ | ⟨frame, below⟩, root⟩ := stack
  · cases root with
    | some root => cases added
    | none =>
      cases added
      refine ⟨nofun, ?_⟩
      rintro _ ⟨⟩
      exact hnode
  · obtain ⟨top, rest⟩ := List.forall_mem_cons.mp h.frames
    simp only [Stack.add] at added
    cases grown : frame.add node with
    | error fault =>
      rw [grown] at added
      cases added
    | ok frame' =>
      rw [grown] at added
      cases added
      exact ⟨List.forall_mem_cons.mpr ⟨of_frame_add top hnode grown, rest⟩, h.root⟩

theorem moves (h : stack.Unguarded) (moved : stack.Moves after) : after.Unguarded := by
  cases moved with
  | openGroup sign attached => exact h.push (Node.unguarded_group.mpr nofun)
  | openPath segment => exact h.push (Node.unguarded_path.mpr ⟨rfl, nofun⟩)
  | record leaf recorded => exact h.record recorded
  | discard popped => exact (h.popped popped).2
  | attach popped added => exact (h.popped popped).2.add (h.popped popped).1 added

/-- Nothing that a run does puts guards into its tree. -/
theorem invariant (g : ObjectGraph) (rules : Rules) :
    Run.Invariant g fun run => run.stack.Unguarded ∧ run.rulebook.rules g = rules where
  store _ holds := holds
  compiled registry cls := fun ⟨clean, served⟩ =>
    ⟨clean, (Rulebook.rules_compiled _ registry cls).trans served⟩
  told _ holds _ := holds
  moved := fun ⟨clean, served⟩ moved => ⟨clean.moves moved, served⟩
  alone := fun ⟨_, served⟩ => ⟨empty, served⟩
  resumed := fun ⟨clean, _⟩ ⟨_, served⟩ => ⟨clean, served⟩

end Stack.Unguarded

/-- A run that nobody observes sends no events and serves the same rules throughout. -/
theorem Run.Invariant.unobserved (g : ObjectGraph) (before : Run) :
    Run.Invariant g fun run => run.observed = false ∧ run.events = before.events ∧
      run.origin = before.origin ∧ run.rulebook.rules g = before.rulebook.rules g where
  store _ holds := holds
  compiled registry cls := fun ⟨quiet, events, origin, served⟩ =>
    ⟨quiet, events, origin, (Rulebook.rules_compiled _ registry cls).trans served⟩
  told _ holds observed := nomatch holds.1.symm.trans observed
  moved holds _ := holds
  alone := fun ⟨_, rest⟩ => ⟨rfl, rest⟩
  resumed := fun ⟨quiet, _⟩ ⟨_, rest⟩ => ⟨quiet, rest⟩

/-- Only what guards share with a run has changed: the store, and the rulebook, which may have
compiled rules but serves the same ones. -/
structure Run.Shares (g : ObjectGraph) (before after : Run) : Prop where
  agree : after = { before with store := after.store, rulebook := after.rulebook }
  rules_eq : after.rulebook.rules g = before.rulebook.rules g

namespace Run.Shares

theorem refl (run : Run) : run.Shares g run := ⟨rfl, rfl⟩

theorem trans {a b c : Run} (first : a.Shares g b) (second : b.Shares g c) : a.Shares g c where
  agree := by
    rw [second.agree, first.agree]
  rules_eq := second.rules_eq.trans first.rules_eq

end Run.Shares

namespace Validation

/-- Guards are asked about a value, one after the other up to the first that does not accept it.
Each starts alone on the store that the one before it left. -/
inductive Asked (g : ObjectGraph) (expand : Expand) (v : Value) :
    List Guard → Run → Except Fault Bool → Run → Prop
  | nobody (run : Run) : Asked g expand v [] run (.ok true) run
  | accepts {number : Nat} {condition : Validation} {guards : List Guard} {run mid after : Run}
      {answer : Except Fault Bool} :
      (condition.evaluate expand v).runOn g run.alone = (.ok true, mid) →
      Asked g expand v guards (run.resumed mid) answer after →
      Asked g expand v (.mk number condition :: guards) run answer after
  | rejects {number : Nat} {condition : Validation} {guards : List Guard} {run mid : Run} :
      (condition.evaluate expand v).runOn g run.alone = (.ok false, mid) →
      Asked g expand v (.mk number condition :: guards) run (.ok false) (run.resumed mid)
  | fails {number : Nat} {condition : Validation} {guards : List Guard} {run mid : Run}
      {fault : Fault} :
      (condition.evaluate expand v).runOn g run.alone = (.error fault, mid) →
      Asked g expand v (.mk number condition :: guards) run (.error fault) (run.resumed mid)

/-- What the asking comes to in the run that asks. -/
def afterAsking (target : Segment) (v : Value) (after : Run) :
    Except Fault Bool → Except Fault Bool × Run
  | .ok true => (.ok true, after)
  | .ok false => (.ok false, { after with
      events := after.events ++
        if after.observed then [Event.ofSkip after.origin after.stack.place target v] else [] })
  | .error fault => (.error fault, after)

/-- A guard whose stack can be finished answers as its condition does. -/
theorem runOn_apart_finish {condition : RunM Bool} {answer : Except Fault Bool} {mid : Run}
    (ran : condition.runOn g run.alone = (answer, mid))
    (finished : ∀ passed, answer = .ok passed →
      RunM.finish.runOn g mid = (.ok mid.stack.tree, mid)) :
    (RunM.apart do
        let passed ← condition
        let _ ← RunM.finish
        pure passed).runOn g run = (answer, run.resumed mid) := by
  have inner : (do
      let passed ← condition
      let _ ← RunM.finish
      pure passed : RunM Bool).runOn g run.alone = (answer, mid) := by
    rw [RunM.runOn_bind, ran]
    cases answer with
    | error fault => rfl
    | ok passed =>
      dsimp only
      rw [RunM.runOn_bind, finished passed rfl]
      rfl
  rw [RunM.runOn_apart]
  change (_, run.resumed (RunM.runOn _ g run.alone).2) = _
  rw [inner]
  exact congrArg (·, run.resumed mid) (congrArg Prod.fst inner)

/-- What the first guard answers decides whether the others are asked. -/
theorem guardsPass_cons {condition : Validation} {v : Value} {answer : Except Fault Bool}
    {after : Run} (number : Nat) (guards : List Guard) (target : Segment) :
    (RunM.apart do
        let passed ← condition.evaluate expand v
        let _ ← RunM.finish
        pure passed).runOn g run = (answer, after) →
      (guardsPass expand target (.mk number condition :: guards) v).runOn g run =
        match answer with
        | .ok true => (guardsPass expand target guards v).runOn g after
        | answer => afterAsking target v after answer := by
  intro answered
  rw [guardsPass, RunM.runOn_bind, answered]
  rcases answer with fault | _ | _
  · rfl
  · simp only [Bool.false_eq_true, if_false, RunM.runOn_bind, RunM.runOn_get, RunM.runOn_emit]
    rfl
  · rfl

section Asking

variable {rules : Rules} {traced : TraceModel}
  (told : ∀ registry cls v, Told g rules (expand registry cls v) (traced registry cls v))
  (kept : ∀ (I : Run → Prop), Run.Invariant g I → (∀ run, I run → run.rulebook.rules g = rules) →
    ∀ registry cls v, (expand registry cls v).Upholds g I)

include told kept

/-- A guard leaves the run that asks as it was, but for what is shared, and what it opened on its
own stack it has closed. -/
theorem condition_alone {condition : Validation} (made : condition.MadeOf .any) (v : Value)
    (served : run.rulebook.rules g = rules) {answer : Except Fault Bool} {mid : Run}
    (ran : (condition.evaluate expand v).runOn g run.alone = (answer, mid)) :
    run.Shares g (run.resumed mid) ∧
      ∀ passed, answer = .ok passed → RunM.finish.runOn g mid = (.ok mid.stack.tree, mid) := by
  have quiet := Run.Invariant.unobserved g run
  obtain ⟨-, events, origin, same⟩ := condition.evaluate_upholds quiet
    (kept _ quiet fun _ holds => holds.2.2.2.trans served) (made.plain condition) v run.alone
    ⟨rfl, rfl, rfl, rfl⟩
  rw [ran] at events origin same
  refine ⟨⟨?_, same⟩, ?_⟩
  · obtain ⟨stack, store, rulebook, sent, observed, source⟩ := mid
    obtain rfl : sent = run.events := events
    obtain rfl : source = run.origin := origin
    rfl
  · rintro passed rfl
    have followed := condition.evaluate_told told made v run.alone rfl served
    unfold Follows at followed
    rw [ran] at followed
    rcases asked : (condition.traceWith traced v).runOn g run.alone.store with ⟨fault | t, store⟩ <;>
      rw [asked] at followed
    · exact followed.elim
    · obtain ⟨-, -, advanced⟩ := followed
      have closed : mid.stack.frames = [] := by
        rw [advanced.stack_eq]
        rfl
      simp [RunM.finish, RunM.runOn_bind, closed]

/-- Guards are asked as `Asked` says. -/
theorem guardsPass_asked {guards : List Guard} (made : GuardsMadeOf .any guards) (v : Value)
    (served : run.rulebook.rules g = rules) :
    ∃ answer after, Asked g expand v guards run answer after ∧ run.Shares g after ∧
      ∀ target, (guardsPass expand target guards v).runOn g run =
        afterAsking target v after answer := by
  induction guards generalizing run with
  | nil => exact ⟨.ok true, run, .nobody run, .refl run, fun target => rfl⟩
  | cons guard guards ih =>
    obtain ⟨number, condition⟩ := guard
    rcases ran : (condition.evaluate expand v).runOn g run.alone with ⟨answer, mid⟩
    obtain ⟨shares, finished⟩ := condition_alone told kept made.1 v served ran
    have answered := runOn_apart_finish ran finished
    have proceeds (target : Segment) := guardsPass_cons number guards target answered
    rcases answer with fault | _ | _
    · exact ⟨_, _, .fails ran, shares, proceeds⟩
    · exact ⟨_, _, .rejects ran, shares, proceeds⟩
    · have still : (run.resumed mid).rulebook.rules g = rules := shares.rules_eq.trans served
      obtain ⟨answer, after, asked, shares', told⟩ := ih made.2 still
      exact ⟨answer, after, .accepts ran asked, shares.trans shares', fun target =>
        (proceeds target).trans (told target)⟩

end Asking

end Validation

/-- Two runs differ in the rulebook only, which serves the same rules. -/
structure Run.ServedAlike (g : ObjectGraph) (run run' : Run) : Prop where
  agree : run' = { run with rulebook := run'.rulebook }
  rules_eq : run'.rulebook.rules g = run.rulebook.rules g

namespace Run.ServedAlike

theorem congruence : Congruence (fun _ _ => True) (ServedAlike g) := by
  refine .of_rulebook (fun related => related.agree) ?_
  rintro run run' after ⟨-, same⟩ - - rulebook
  exact ⟨rfl, by rw [rulebook]; exact same⟩

theorem lookUp_lockstep (registry cls : String) :
    Lockstep g (ServedAlike g) (lookUpRules registry cls) (lookUpRules registry cls) := by
  rintro run run' ⟨agree, same⟩
  have found :
      (run'.rulebook.compiled g registry cls).1 = (run.rulebook.compiled g registry cls).1 := by
    rw [Rulebook.compiled_fst, Rulebook.compiled_fst, same]
  refine ⟨congrArg Except.ok found.symm, ?_, ?_⟩
  · rw [agree]
    rfl
  · exact (Rulebook.rules_compiled run'.rulebook registry cls).trans
      (same.trans (Rulebook.rules_compiled run.rulebook registry cls).symm)

/-- What is compiled already makes no difference to an evaluation. -/
theorem evaluate_lockstep (fuel : Nat) (validation : Validation) (v : Value) :
    Lockstep g (ServedAlike g) (validation.evaluate (expandModel fuel) v)
      (validation.evaluate (expandModel fuel) v) :=
  have permits := Store.Permits.any
  Validation.evaluate_lockstep congruence permits
    (fun _ => expandBy_lockstep congruence permits (fun v => .any (visit v))
      lookUp_lockstep (fun _ _ rules _ _ _ _ => rules.keeps_any) fuel) validation
    validation.keeps_any v

end Run.ServedAlike

namespace Validation

/-- A step behind guards without scripts.  The guards are asked as `Asked` says, and of the run
only what they share with it changes.  A fault of a guard is the fault of the step.  A guard that
rejects the value makes the step accept it: nothing is recorded, the target is not even asked for
the part, and observers are told once that the step was not taken.  If all guards accept, the step
does what it does without guards, with the store that they leave; the rulebook may keep more
compiled rules.  And no step in the tree of a run ever carries the guards that it stood behind. -/
theorem step_behind_guards (fuel : Nat) (presence : Presence) {guards : List Guard}
    (made : GuardsMadeOf .any guards) (target : Segment) (inner : Validation) (v : Value)
    (book : run.rulebook.MadeOf .any) :
    let guarded := ((step presence guards target inner).evaluate (expandModel fuel) v).runOn g run
    ∃ answer after, Asked g (expandModel fuel) v guards run answer after ∧ run.Shares g after ∧
      (∀ fault, answer = .error fault → guarded = (.error fault, after)) ∧
      (answer = .ok false → ∀ presence' target' inner', target'.name = target.name →
        ((step presence' guards target' inner').evaluate (expandModel fuel) v).runOn g run =
          (.ok true, { after with
            events := run.events ++
              if run.observed then [.ofSkip run.origin run.stack.place target v] else [] })) ∧
      (answer = .ok true →
        guarded = ((step presence [] target inner).evaluate (expandModel fuel) v).runOn g after ∧
        let plain := ((step presence [] target inner).evaluate (expandModel fuel) v).runOn g
          { run with store := after.store }
        guarded.1 = plain.1 ∧ guarded.2 = { plain.2 with rulebook := guarded.2.rulebook }) ∧
      (inner.Plain → run.stack.Unguarded → guarded.2.stack.Unguarded) := by
  intro guarded
  have served := book.served (g := g) Material.any_holdsFields
  have kept (I : Run → Prop) (inv : Run.Invariant g I)
      (same : ∀ run', I run' → run'.rulebook.rules g = run.rulebook.rules g) :=
    expandModel_upholds inv (fun run' holds registry cls rule found =>
      (served registry cls rule (same run' holds ▸ found)).plain rule) fuel
  obtain ⟨answer, after, asked, shares, told⟩ :=
    guardsPass_asked (expandModel_told served fuel) kept made v rfl
  have taken (presence' : Presence) (target' : Segment) (inner' : Validation) :
      ((step presence' guards target' inner').evaluate (expandModel fuel) v).runOn g run =
        match afterAsking target' v after answer with
        | (.ok true, after) =>
            ((step presence' [] target' inner').evaluate (expandModel fuel) v).runOn g after
        | (.ok false, after) => (.ok true, after)
        | (.error fault, after) => (.error fault, after) := by
    rw [evaluate, RunM.runOn_bind, told target']
    rcases answer with fault | _ | _ <;> rfl
  refine ⟨answer, after, asked, shares, ?_, ?_, ?_, fun plain clean => ?_⟩
  · rintro fault rfl
    exact taken presence target inner
  · rintro rfl presence' target' inner' same
    rw [taken presence' target' inner', afterAsking]
    rw [shares.agree]
    simp only [Event.ofSkip, same]
  · rintro rfl
    have whole : guarded =
        ((step presence [] target inner).evaluate (expandModel fuel) v).runOn g after :=
      taken presence target inner
    refine ⟨whole, ?_⟩
    have alike : Run.ServedAlike g { run with store := after.store } after :=
      ⟨shares.agree, shares.rules_eq⟩
    obtain ⟨same, left⟩ := Run.ServedAlike.evaluate_lockstep fuel
      (step presence [] target inner) v _ _ alike
    rw [whole]
    exact ⟨same.symm, left.agree⟩
  · have inv := Stack.Unguarded.invariant g (run.rulebook.rules g)
    exact ((step presence guards target inner).evaluate_upholds inv
      (kept _ inv fun _ holds => holds.2) ⟨made.plain guards, plain⟩ v run ⟨clean, rfl⟩).1

/-- Makes a note that it was asked and fails. -/
def unmeetable : Constraint where
  hint := "refused"
  test := fun _ => do
    Check.put "asked" (.bool true)
    pure false

/-- A guard that accepts every value, and one that refuses. -/
def secondRefuses : List Guard :=
  [.mk 0 (.object [] [] false false), .mk 1 (.object [unmeetable] [] false false)]

/-- The second of two guards refuses, and the step to a required part that is missing is not
taken: the note of the guard stays, its leaf does not. -/
theorem step_behind_guards_of_refusal :
    ∃ after, ((step .required secondRefuses (.property "name" Extract.nothing)
        (.object [] [] false false)).evaluate (expandModel 0) .null).runOn {} { observed := true } =
          (.ok true, after) ∧
      after.store.entries = [("asked", .bool true)] ∧ after.stack.root.isNone ∧
      after.events.map (·.type) = [.pathSkipped] := by
  have made : GuardsMadeOf .any secondRefuses :=
    ⟨⟨nofun, trivial⟩, ⟨fun _ _ => trivial, trivial⟩, trivial⟩
  have book : ({ observed := true } : Run).rulebook.MadeOf .any := by simp [Rulebook.MadeOf]
  obtain ⟨answer, after, asked, shares, -, rejected, -⟩ :=
    step_behind_guards (g := {}) 0 .required made (.property "name" Extract.nothing)
      (.object [] [] false false) .null book
  have refused : answer = .ok false ∧ after.store.entries = [("asked", .bool true)] := by
    unfold secondRefuses at asked
    cases asked with
    | rejects ran => cases ran
    | fails ran => cases ran
    | accepts ran rest =>
      cases ran
      cases rest with
      | accepts ran rest => cases ran
      | fails ran => cases ran
      | rejects ran =>
        cases ran
        exact ⟨rfl, rfl⟩
  obtain ⟨rfl, noted⟩ := refused
  refine ⟨_, rejected rfl _ _ _ rfl, noted, ?_, rfl⟩
  rw [shares.agree]
  rfl

end Validation

end PathRules
