import PathRules.Proofs.Model.Material
import PathRules.Proofs.Run.Follows

/-!
# How a run advances

`Advances` says what a computation may change: the stack and the events in a given way, and the
store.  The operations on the stack are described by it, each from a stack on which it does not
fail.
-/

namespace PathRules

variable {g : ObjectGraph}

/-- What `after` may differ in from `before`: the stack and the events as said, and the store.
The rulebook may have compiled rules, but serves the same ones. -/
structure Advances (g : ObjectGraph) (before : Run) (stack : Stack) (events : List Event)
    (after : Run) : Prop where
  stack_eq : after.stack = stack
  events_eq : after.events = before.events ++ if before.observed then events else []
  observed_eq : after.observed = before.observed
  origin_eq : after.origin = before.origin
  rules_eq : after.rulebook.rules g = before.rulebook.rules g

namespace Advances

variable {a b c : Run} {stack stack' : Stack} {events events' : List Event}

theorem refl (run : Run) : Advances g run run.stack [] run :=
  ⟨rfl, by simp, rfl, rfl, rfl⟩

theorem trans (first : Advances g a stack events b) (second : Advances g b stack' events' c) :
    Advances g a stack' (events ++ events') c where
  stack_eq := second.stack_eq
  events_eq := by
    rw [second.events_eq, first.events_eq, first.observed_eq]
    cases a.observed <;> simp
  observed_eq := second.observed_eq.trans first.observed_eq
  origin_eq := second.origin_eq.trans first.origin_eq
  rules_eq := second.rules_eq.trans first.rules_eq

/-- What was advanced since a check is advanced since before it. -/
theorem since_check {store : Store} (h : Advances g { a with store } stack events b) :
    Advances g a stack events b :=
  ⟨h.stack_eq, h.events_eq, h.observed_eq, h.origin_eq, h.rules_eq⟩

end Advances

namespace RunM

variable {run : Run} {below : Stack}

/-- A leaf is recorded in a group, and observers are told. -/
theorem runOn_record {sign : Sign} {children : List (Node Leaf)} (leaf : Leaf)
    (h : run.stack = below.push (.group sign true children)) :
    ∃ after, (record leaf).runOn g run = (.ok (), after) ∧ after.store = run.store ∧
      Advances g run (below.push (.group sign true (children ++ [.leaf leaf])))
        [Event.ofLeaf run.origin run.stack.place leaf] after := by
  have recorded : run.stack.record leaf =
      .ok (below.push (.group sign true (children ++ [.leaf leaf]))) := by
    rw [h]
    rfl
  have told : (record leaf).runOn g run = (.ok (), { run with
      stack := below.push (.group sign true (children ++ [.leaf leaf]))
      events := run.events ++
        if run.observed then [Event.ofLeaf run.origin below.place leaf] else [] }) := by
    unfold record
    rw [runOn_bind, runOn_changeStack _ _ recorded]
    simp only [runOn_bind, runOn_get, runOn_emit]
    rfl
  refine ⟨_, told, rfl, rfl, ?_, rfl, rfl, rfl⟩
  rw [h]
  rfl

theorem runOn_discard {frame : Frame} (h : run.stack = below.push frame) :
    discard.runOn g run = (.ok frame, { run with stack := below }) := by
  simp [discard, runOn_bind, runOn_map, h]

/-- The closed node is attached to the node below, which may refuse it. -/
theorem runOn_attach_add {frame : Frame} (h : run.stack = below.push frame)
    (parent : frame.hasParent = true) :
    attach.runOn g run =
      match below.add frame.node with
      | .ok stack => (.ok frame, { run with stack })
      | .error fault => (.error fault, { run with stack := below }) := by
  unfold attach
  rw [runOn_bind, runOn_discard h]
  simp only [parent, if_true]
  rw [runOn_bind]
  cases added : below.add frame.node with
  | ok stack =>
    rw [runOn_changeStack _ _ added]
    rfl
  | error fault => rw [runOn_changeStack_error _ _ added]

theorem runOn_attach {frame : Frame} (h : run.stack = below.push frame)
    (parent : frame.hasParent = true) (isOpen : below.isOpen = true) :
    attach.runOn g run = (.ok frame, { run with stack := below.receive (some frame.node) }) := by
  rw [runOn_attach_add h parent, Stack.add_eq_receive isOpen]

/-- Records a leaf in a group of its own. -/
def recordAlone (leaf : Leaf) : RunM Unit := do
  openGroup .all
  record leaf
  let _ ← attach

theorem runOn_recordAlone (leaf : Leaf) (isOpen : run.stack.isOpen = true) :
    ∃ after, (recordAlone leaf).runOn g run = (.ok (), after) ∧ after.store = run.store ∧
      Advances g run (run.stack.receive (some (.group .all [.leaf leaf])))
        [Event.ofLeaf run.origin run.stack.place leaf] after := by
  have opened : { run with stack := run.stack.openGroup .all }.stack =
      run.stack.push (.group .all true []) := rfl
  obtain ⟨after, recorded, same, advanced⟩ := runOn_record (g := g) leaf opened
  refine ⟨{ after with stack := run.stack.receive (some (.group .all [.leaf leaf])) }, ?_, same,
    rfl, advanced.events_eq, advanced.observed_eq, advanced.origin_eq, advanced.rules_eq⟩
  unfold recordAlone openGroup
  rw [runOn_bind, runOn_modifyStack]
  simp only [runOn_bind, recorded, runOn_attach advanced.stack_eq rfl isOpen]
  rfl

/-- Closing a node that keeps its warnings. -/
theorem runOn_close_keeping {frame : Frame} (valid : Bool) (h : run.stack = below.push frame)
    (parent : frame.hasParent = true) (isOpen : below.isOpen = true) :
    (close valid true).runOn g run =
      (.ok valid, { run with stack := below.receive (frame.node.kept valid) }) := by
  unfold close Node.kept
  rw [runOn_bind, runOn_get]
  cases valid <;> cases empty : frame.node.leaves.isEmpty <;>
    simp [h, empty, runOn_map, runOn_attach h parent isOpen, runOn_discard h]

/-- Closing a node that keeps nothing if it passed. -/
theorem runOn_close_dropping {frame : Frame} (valid : Bool) (h : run.stack = below.push frame)
    (parent : frame.hasParent = true) (isOpen : below.isOpen = true) :
    (close valid false).runOn g run =
      (.ok valid,
        { run with stack := below.receive (if valid then none else some frame.node) }) := by
  unfold close
  rw [runOn_bind, runOn_get]
  cases valid <;> simp [runOn_map, runOn_attach h parent isOpen, runOn_discard h]

end RunM

end PathRules
