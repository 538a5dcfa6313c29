import PathRules.Proofs.Run.Meaning
import PathRules.Proofs.Trace.Faults

/-!
# Stack discipline

An evaluation leaves the stack as it found it, but for what it attaches to the current node:
further children behind those that were there, at most one below a step and that one no bare
leaf, and at least one if the value was rejected.  Every open node can be the current one.
-/

namespace PathRules

namespace Frame

def children : Frame → List (Node Leaf)
  | .group _ _ children => children
  | .path _ child => child.toList

/-- The open node as it was when it was opened. -/
def emptied : Frame → Frame
  | .group sign attached _ => .group sign attached []
  | .path via _ => .path via none

def isStep : Frame → Bool
  | .group .. => false
  | .path .. => true

@[simp] theorem emptied_gain (frame : Frame) (nodes : List (Node Leaf)) :
    (frame.gain nodes).emptied = frame.emptied := by
  cases frame <;> rfl

/-- What a node that accepts a child receives comes behind the children it has. -/
theorem children_gain_receives {frame : Frame} (h : frame.accepts = true)
    (node : Option (Node Leaf)) :
    (frame.gain (frame.receives node)).children = frame.children ++ frame.receives node := by
  cases frame with
  | group sign attached children => rfl
  | path via child =>
    obtain rfl : child = none := by simpa [accepts] using h
    cases node <;> rfl

end Frame

namespace Stack

/-- `after` has the open nodes of `before`, of which the current one has the further children
`added`. -/
structure Grown (before : Stack) (added : List (Node Leaf)) (after : Stack) : Prop where
  depth_eq : after.depth = before.depth
  below_eq : after.frames.tail = before.frames.tail
  root_eq : before.frames ≠ [] → after.root = before.root
  current_eq : after.current.emptied = before.current.emptied
  children_eq : after.current.children = before.current.children ++ added
  step_le_one : before.current.isStep = true → added.length ≤ 1
  step_no_leaf : before.current.isStep = true → ∀ content, Node.leaf content ∉ added

/-- The current node grows by what it receives. -/
theorem grown_receive {stack : Stack} (h : stack.isOpen = true) {node : Option (Node Leaf)}
    (noLeaf : ∀ content, node ≠ some (.leaf content)) :
    stack.Grown (stack.current.receives node) (stack.receive node) := by
  have current : (stack.receive node).current =
      stack.current.gain (stack.current.receives node) := by
    rcases stack with ⟨_ | ⟨frame, below⟩, root⟩ <;> rfl
  refine ⟨?_, ?_, ?_, ?_, ?_, ?_, ?_⟩
  · rcases stack with ⟨_ | ⟨frame, below⟩, root⟩ <;> rfl
  · rcases stack with ⟨_ | ⟨frame, below⟩, root⟩ <;> rfl
  · rcases stack with ⟨_ | ⟨frame, below⟩, root⟩
    · exact fun nonempty => absurd rfl nonempty
    · exact fun _ => rfl
  · rw [current, Frame.emptied_gain]
  · rw [current, Frame.children_gain_receives h]
  · intro step
    cases onTop : stack.current with
    | group => rw [onTop] at step; cases step
    | path via child => cases node <;> simp [Frame.receives]
  · intro step content
    cases onTop : stack.current with
    | group => rw [onTop] at step; cases step
    | path via child =>
      cases node with
      | none => simp [Frame.receives]
      | some node => simpa [Frame.receives, eq_comm] using noLeaf content

end Stack

namespace Trace

/-- A rejected value leaves at least one child for any node. -/
theorem receives_ne_nil {t : Trace} (h : t.passed = false) (frame : Frame) :
    frame.receives t.node ≠ [] := by
  have nonempty : t.leaves ≠ [] := leaves_ne_nil t h
  have placed := leaves_node [] t
  cases node : t.node with
  | none =>
    rw [node] at placed
    exact absurd (List.map_eq_nil_iff.mp placed.symm) nonempty
  | some n =>
    cases frame with
    | path via child => exact List.cons_ne_nil _ _
    | group sign attached children =>
      intro spliced
      simp only [Frame.receives, Option.toList_some, List.flatMap_cons, List.flatMap_nil,
        List.append_nil] at spliced
      have lost := Node.leaves_splicedInto [] sign n
      rw [spliced] at lost
      rw [node, Option.toList_some, Node.placedAll, Node.placedAll, Node.leavesOf, Node.leavesOf,
        ← lost] at placed
      exact nonempty (List.map_eq_nil_iff.mp placed.symm)

end Trace

/-- Faults of the stack of open nodes. -/
def Fault.isState : Fault → Bool
  | .secondChild | .leafOnPath | .nothingOpen | .noParent | .stillOpen _ => true
  | _ => false

/-- Tests and extractors that do not raise faults of the stack themselves. -/
def Material.stackless (g : ObjectGraph) : Material :=
  .raising g fun fault => fault.isState = false

theorem Fault.not_isState_of_ofData (fault : Fault) (h : fault.ofData = true) :
    fault.isState = false := by
  cases fault <;> first | rfl | cases h

namespace Validation

variable {g : ObjectGraph} {validation : Validation} {run : Run}

/-- The stack after an evaluation: the open nodes are those from before, the current one has
gained children behind those it had, and a rejected value has added at least one.  No fault
of the stack is raised from any stack whose current node accepts a child, nor by a whole run,
unless a test or an extractor raises one. -/
theorem check_disciplined (made : validation.MadeOf .any) (book : run.rulebook.MadeOf .any)
    (isOpen : run.stack.isOpen = true) (v : Value) :
    (∀ passed after, (validation.check v).runOn g run = (.ok passed, after) →
      ∃ added, run.stack.Grown added after.stack ∧ (passed = false → added ≠ [])) ∧
    (validation.MadeOf (.stackless g) → run.rulebook.MadeOf (.stackless g) →
      (∀ fault, ((validation.check v).runOn g run).1 = .error fault → fault.isState = false) ∧
      (run.stack = {} → ∀ fault, ((validation.validate v).runOn g run).1 = .error fault →
        fault.isState = false)) := by
  have models := book.served (g := g) Material.any_holdsFields
  have told := check_told models made v run isOpen rfl
  refine ⟨fun passed after returned => ?_, fun stackless served => ?_⟩
  · unfold Follows at told
    rw [returned] at told
    rcases traced : (validation.trace (run.rulebook.rules g) v).runOn g run.store with
      ⟨fault | t, store⟩ <;> rw [traced] at told
    · exact told.elim
    · obtain ⟨-, rfl, advanced⟩ := told
      refine ⟨run.stack.current.receives t.node, ?_, fun failed => t.receives_ne_nil failed _⟩
      rw [advanced.stack_eq]
      exact Stack.grown_receive isOpen t.node_ne_leaf
  · have fields : (Material.stackless g).HoldsFields :=
      Material.raising_holdsFields Fault.not_isState_of_ofData
    have raises := raisesOnly_trace Fault.not_isState_of_ofData (served.served (g := g) fields)
      stackless v
    exact ⟨fun fault => told.fault_of_raisesOnly raises,
      fun fresh fault => (validate_follows made models fresh v).fault_of_raisesOnly raises⟩

/-- Below an open step a missing part attaches one node. -/
theorem check_disciplined_below_step :
    ∃ after added,
      ((step .required [] (.property "name" Extract.nothing) (object [] [] false false)).check
        .null).runOn {} { stack := { frames := [.path .this none, .group .any true []] } } =
          (.ok false, after) ∧
      Stack.Grown { frames := [.path .this none, .group .any true []] } added after.stack ∧
      added ≠ [] := by
  have made : (step .required [] (.property "name" Extract.nothing)
      (object [] [] false false)).MadeOf .any := ⟨trivial, trivial, by simp, trivial⟩
  have book : ({} : Rulebook).MadeOf .any := by simp [Rulebook.MadeOf]
  have disciplined := @check_disciplined {} _
    { stack := { frames := [.path .this none, .group .any true []] } } made book rfl .null
  obtain ⟨added, grown, nonempty⟩ := disciplined.1 false _ rfl
  exact ⟨_, added, rfl, grown, nonempty rfl⟩

end Validation

end PathRules
