import PathRules.Proofs.Model.Compiled
import PathRules.Proofs.Model.Relations
import PathRules.Proofs.Run.Turns

/-!
# Evaluations that explore

`Discovers` says of an evaluation that it carries out an exploration: it attaches what was found
to the current node and notes whom it met.  Explorations compose as evaluations do, along groups,
steps and elements.
-/

namespace PathRules

variable {g : ObjectGraph}

/-- What was found in an exploration: the meetings, what came of the rules, the node that was
attached and the values that were seen by then. -/
structure Findings where
  met : List Meeting := []
  applied : List Applied := []
  node : Option (Node Leaf) := none
  seen : List Value

namespace Findings

/-- What a group of all receives. -/
def received (f : Findings) : List (Node Leaf) := f.node.toList.flatMap (·.splicedInto .all)

/-- What was found first and then. -/
def append (first second : Findings) : Findings where
  met := first.met ++ second.met
  applied := first.applied ++ second.applied
  node := some (.group .all (first.received ++ second.received))
  seen := second.seen

end Findings

/-- A run in the course of an exploration; its store satisfies `I`. -/
structure Ready (g : ObjectGraph) (book : Rulebook) (I : Store → Prop) (seen : List Value)
    (run : Run) : Prop where
  tracks : run.store.Tracks seen
  holds : I run.store
  extended : book.Extends g run.rulebook

/-- An evaluation has explored along some tasks.  It has attached the leaves that rules left and
one leaf for each repeat.  It passed if all rules did, as long as there was no repeat.  What came of
each rule satisfies `P`. -/
structure Explored (g : ObjectGraph) (book : Rulebook) (name : String) (I : Store → Prop)
    (P : Applied → Prop) (seen : List Value) (todo : List Task) (before : Run) (passed : Bool)
    (f : Findings) (after : Run) : Prop where
  explores : Explores name (g.tasks book.schema (book.registry name)) seen todo f.met f.applied
    f.seen
  ready : Ready g book I f.seen after
  stack_eq : after.stack = before.stack.receive f.node
  leaves : (Node.leavesOf f.node.toList).Perm
    (f.applied.flatMap (·.leaves) ++ (Meeting.repeats f.met).map fun m => .repeated m.value)
  applied : ∀ a ∈ f.applied, P a
  passed_iff : passed = true ↔
    (∀ a ∈ f.applied, a.passed = true) ∧ Meeting.repeats f.met = []

/-- From any stack as said, and with fewer than `fuel` objects unseen, an evaluation explores along
some tasks. -/
def Discovers (g : ObjectGraph) (book : Rulebook) (name : String) (I : Store → Prop)
    (P : Applied → Prop) (S : Stack → Prop) (fuel : Nat) (todo : List Task) (m : RunM Bool) :
    Prop :=
  ∀ run seen, S run.stack → Ready g book I seen run → g.unseen seen < fuel →
    ∃ passed f after, m.runOn g run = (.ok passed, after) ∧
      Explored g book name I P seen todo run passed f after

theorem Discovers.inGroup {book : Rulebook} {name : String} {I : Store → Prop} {P : Applied → Prop}
    {fuel : Nat} {todo : List Task} {m : RunM Bool}
    (h : Discovers g book name I P (·.isOpen = true) fuel todo m) :
    Discovers g book name I P Stack.InGroup fuel todo m :=
  fun run seen inGroup => h run seen inGroup.isOpen

section Steps

variable {book : Rulebook} {name : String} {I : Store → Prop} {P : Applied → Prop}
  {seen : List Value} {todo more : List Task} {fuel : Nat}

theorem leavesOf_received (sign : Sign) (node : Option (Node Leaf)) :
    Node.leavesOf (node.toList.flatMap (·.splicedInto sign)) = Node.leavesOf node.toList := by
  cases node with
  | none => rfl
  | some node => simp [Node.leavesOf]

namespace Explored

variable {before middle after : Run} {passed passed' : Bool} {f f' : Findings}

theorem unseen_le (h : Explored g book name I P seen todo before passed f after) :
    g.unseen f.seen ≤ g.unseen seen :=
  h.explores.after_eq ▸ g.unseen_append_le seen _

/-- One exploration after the other, in an open group. -/
theorem append (h : Explored g book name I P seen todo before passed f middle)
    (h' : Explored g book name I P f.seen more middle passed' f' after)
    (inGroup : before.stack.InGroup) :
    Explored g book name I P seen (todo ++ more) before (passed && passed') (f.append f')
      after where
  explores := h.explores.append h'.explores
  ready := h'.ready
  stack_eq := by
    obtain ⟨below, children, onTop⟩ := inGroup
    rw [h'.stack_eq, h.stack_eq, onTop]
    simp [Findings.append, Findings.received, Node.splicedInto]
  leaves := by
    have both := h.leaves.append h'.leaves
    rw [← leavesOf_received .all f.node, ← leavesOf_received .all f'.node] at both
    simp only [Findings.append, Findings.received, Option.toList_some, Node.leavesOf, Node.leaves,
      List.append_nil, Node.leavesOf_append, Meeting.repeats_append, List.map_append,
      List.flatMap_append]
    refine both.trans ?_
    rw [List.append_assoc, List.append_assoc]
    refine List.Perm.append_left _ ?_
    exact List.perm_append_comm_assoc ..
  applied a member := (List.mem_append.mp member).elim (h.applied a) (h'.applied a)
  passed_iff := by
    rw [Bool.and_eq_true, h.passed_iff, h'.passed_iff]
    simp only [Findings.append, Meeting.repeats_append, List.append_eq_nil_iff,
      List.forall_mem_append]
    exact and_and_and_comm

end Explored

/-- The stacks do not matter, but for what they receive. -/
theorem Explored.restack {before after : Run} {passed : Bool} {f : Findings}
    (h : Explored g book name I P seen todo before passed f after) (stack : Stack) :
    Explored g book name I P seen todo { before with stack } passed f
      { after with stack := stack.receive f.node } where
  explores := h.explores
  ready := ⟨h.ready.tracks, h.ready.holds, h.ready.extended⟩
  stack_eq := rfl
  leaves := h.leaves
  applied := h.applied
  passed_iff := h.passed_iff

theorem Explored.idle {run : Run} (ready : Ready g book I seen run) :
    Explored g book name I P seen [] run true { seen } run :=
  ⟨.done seen, ready, by simp, .nil, nofun, by simp [Meeting.repeats]⟩

section Turns

variable {expand : Expand} {turns : List Turn} {run after : Run} {ending : Ending}

/-- Turns that each explore along one task are all taken, and explore along the tasks together. -/
theorem Turns.explored (h : Turns g expand turns run ending after)
    (each : List.Forall₂ (fun task turn => Discovers g book name I P Stack.InGroup fuel [task]
      (turn.rule.evaluate expand turn.value)) todo turns)
    (ready : Ready g book I seen run) (few : g.unseen seen < fuel) :
    ∃ passed leaves f, ending = .complete passed leaves ∧
      leaves.map (·.leaf) = Node.leavesOf f.node.toList ∧
      ∀ stack : Stack, stack.InGroup →
        Explored g book name I P seen todo { run with stack } passed f
          { after with stack := stack.receive f.node } := by
  induction h generalizing todo seen with
  | done run stack =>
    cases each
    have idle (stack : Stack) : Ready g book I seen { run with stack } :=
      ⟨ready.tracks, ready.holds, ready.extended⟩
    exact ⟨true, [], { seen }, rfl, rfl, fun stack _ => (Explored.idle (idle stack)).restack stack⟩
  | @taken turn turns run mid after below children nodes passed ending at_ ran rest ih =>
    obtain _ | ⟨here, later⟩ := each
    obtain ⟨_, f, _, answered, explored⟩ := here
      { run with stack := below.push (.group .all true children) } seen ⟨below, children, rfl⟩
      ⟨ready.tracks, ready.holds, ready.extended⟩ few
    cases ran.symm.trans answered
    have attached : nodes = f.received := by
      have stack := explored.stack_eq
      rw [Stack.receive_push_group] at stack
      simpa [Stack.push, Findings.received] using stack
    obtain ⟨passed', leaves, f', rfl, left, rest⟩ := ih later
      ⟨explored.ready.tracks, explored.ready.holds, explored.ready.extended⟩
      (Nat.lt_of_le_of_lt explored.unseen_le few)
    refine ⟨passed && passed', _, f.append f', rfl, ?_, fun stack inGroup => ?_⟩
    · simp only [List.map_append, left, Node.leavesAt, Node.leavesOf_placedAll, attached,
        Findings.append, Option.toList_some, Node.leavesOf, Node.leaves, Node.leavesOf_append,
        List.append_nil, Findings.received, leavesOf_received]
    · have both := (explored.restack stack).append (rest _ (inGroup.receive f.node)) inGroup
      rwa [inGroup.receive_receive] at both
  | @raised turn turns run after below children fault at_ ran =>
    obtain _ | ⟨here, later⟩ := each
    obtain ⟨_, _, _, answered, -⟩ := here
      { run with stack := below.push (.group .all true children) } seen ⟨below, children, rfl⟩
      ⟨ready.tracks, ready.holds, ready.extended⟩ few
    cases ran.symm.trans answered
  | @disordered turn turns run after below children passed at_ ran disordered =>
    obtain _ | ⟨here, later⟩ := each
    obtain ⟨_, f, _, answered, explored⟩ := here
      { run with stack := below.push (.group .all true children) } seen ⟨below, children, rfl⟩
      ⟨ready.tracks, ready.holds, ready.extended⟩ few
    cases ran.symm.trans answered
    exact absurd explored.stack_eq (disordered f.received)

/-- An evaluation explores along the tasks of its turns. -/
theorem TakesTurns.discovers {S : Stack → Prop} {turns : DataPath → List Turn} {m : RunM Bool}
    (h : TakesTurns g expand S turns m)
    (each : ∀ place, List.Forall₂ (fun task turn => Discovers g book name I P Stack.InGroup fuel
      [task] (turn.rule.evaluate expand turn.value)) todo (turns place)) :
    Discovers g book name I P S fuel todo m := by
  intro run seen onStack ready few
  obtain ⟨ending, after, taken, shows⟩ := h run onStack
  obtain ⟨passed, leaves, f, rfl, left, explored⟩ := taken.explored (each _) ready few
  obtain ⟨node, ran, same⟩ := shows
  have whole := explored (Stack.push {} (.group .all true [])) ⟨_, _, rfl⟩
  refine ⟨passed, { f with node }, _, ran, ?_⟩
  exact
    { explores := whole.explores
      ready := ⟨whole.ready.tracks, whole.ready.holds, whole.ready.extended⟩
      stack_eq := rfl
      leaves := by
        have listed : Node.leavesOf node.toList = Node.leavesOf f.node.toList := by
          rw [← left, ← same, Node.leavesAt, Node.leavesOf_placedAll]
        rw [listed]
        exact whole.leaves
      applied := whole.applied
      passed_iff := whole.passed_iff }

end Turns

end Steps

end PathRules
