import PathRules.Proofs.Run.Advances

/-!
# Operations of hand-written validations

A validation written by hand may open and close nodes in any order and carry on after a fault.
What an operation does is said by the levels of the stack: its open nodes, innermost first, and
the root as a step below them.
-/

namespace PathRules

variable {α : Type} {g : ObjectGraph}

/-- What is done to the stack of a run by hand. -/
inductive Operation
  | openGroup (sign : Sign)
  | openPath (via : Via)
  | record (leaf : Leaf)
  | discard
  | attach
  | close (valid keepWarnings : Bool)
  | finish

namespace Operation

def perform : Operation → RunM Unit
  | .openGroup sign => RunM.openGroup sign
  | .openPath via => RunM.openPath via
  | .record leaf => RunM.record leaf
  | .discard => do let _ ← RunM.discard
  | .attach => do let _ ← RunM.attach
  | .close valid keepWarnings => do let _ ← RunM.close valid keepWarnings
  | .finish => do let _ ← RunM.finish

/-- Performs the operations in turn, whichever of them fail. -/
def performAll : List Operation → RunM Unit
  | [] => pure ()
  | op :: ops => do
      tryCatch op.perform fun _ => pure ()
      performAll ops

/-- Whether the innermost open node holds a leaf. -/
def holdsLeaf (stack : Stack) : Bool :=
  match stack.frames with
  | frame :: _ => !frame.node.leaves.isEmpty
  | [] => false

/-- What closing a node amounts to on a stack. -/
def closing (stack : Stack) (valid keepWarnings : Bool) : Operation :=
  if !valid || (keepWarnings && holdsLeaf stack) then .attach else .discard

end Operation

namespace RunM

/-- The fault of a computation. -/
def faultOn (m : RunM α) (g : ObjectGraph) (run : Run) : Option Fault :=
  match (m.runOn g run).1 with
  | .ok _ => none
  | .error fault => some fault

/-- A fault that is dealt with leaves the run as it was at the fault. -/
theorem runOn_tryCatch (m : RunM α) (handler : Fault → RunM α) (run : Run) :
    (tryCatch m handler).runOn g run =
      match m.runOn g run with
      | (.ok a, after) => (.ok a, after)
      | (.error fault, after) => (handler fault).runOn g after := by
  unfold runOn ReaderT.run ExceptT.run StateT.run
  simp only [tryCatch, tryCatchThe, MonadExceptOf.tryCatch, ExceptT.tryCatch, ExceptT.mk, bind,
    StateT.bind]
  rcases m g run with ⟨_ | a, after⟩ <;> rfl

end RunM

namespace Stack

variable {stack : Stack} {frame : Frame} {rest : List Frame}

/-- The open nodes and the root, innermost first. -/
def levels (stack : Stack) : List Frame := stack.frames ++ [.path .this stack.root]

theorem current_eq (h : stack.levels = frame :: rest) : stack.current = frame := by
  rcases stack with ⟨_ | ⟨top, below⟩, root⟩ <;> exact (List.cons.inj h).1

/-- All levels but the root can be closed. -/
theorem exists_push {next : Frame} (h : stack.levels = frame :: next :: rest) :
    ∃ below : Stack, stack = below.push frame ∧ below.levels = next :: rest := by
  rcases stack with ⟨_ | ⟨top, below⟩, root⟩
  · cases h
  · obtain ⟨rfl, same⟩ := List.cons.inj h
    exact ⟨⟨below, root⟩, rfl, same⟩

theorem frames_eq_nil (h : stack.levels = [frame]) : stack.frames = [] := by
  rcases stack with ⟨_ | ⟨top, below⟩, root⟩
  · rfl
  · simp [levels] at h

theorem levels_add {node : Node Leaf} {grown : Frame} (h : stack.levels = frame :: rest)
    (added : frame.add node = .ok grown) :
    ∃ after, stack.add node = .ok after ∧ after.levels = grown :: rest := by
  rcases stack with ⟨_ | ⟨top, below⟩, root⟩
  · obtain ⟨rfl, rfl⟩ := List.cons.inj h
    cases root with
    | none =>
      cases added
      exact ⟨_, rfl, rfl⟩
    | some child => cases added
  · obtain ⟨rfl, rfl⟩ := List.cons.inj h
    exact ⟨_, by simp only [add, added]; rfl, rfl⟩

theorem add_refused {node : Node Leaf} {fault : Fault} (h : stack.levels = frame :: rest)
    (refused : frame.add node = .error fault) : stack.add node = .error fault := by
  rcases stack with ⟨_ | ⟨top, below⟩, root⟩
  · obtain ⟨rfl, rfl⟩ := List.cons.inj h
    cases root with
    | none => cases refused
    | some child =>
      cases refused
      rfl
  · obtain ⟨rfl, rfl⟩ := List.cons.inj h
    simp only [add, refused]
    rfl

/-- A leaf is recorded where it may be added. -/
theorem record_eq (stack : Stack) (leaf : Leaf) :
    stack.record leaf =
      match stack.current with
      | .group .. => stack.add (.leaf leaf)
      | .path .. => .error .leafOnPath := by
  rcases stack with ⟨_ | ⟨⟨sign, attached, children⟩ | ⟨via, child⟩, below⟩, root⟩ <;> rfl

end Stack

namespace Operation

variable {run : Run}

/-- Closing a node is attaching or discarding it. -/
theorem runOn_close (valid keepWarnings : Bool) :
    (close valid keepWarnings).perform.runOn g run =
      (closing run.stack valid keepWarnings).perform.runOn g run := by
  have chosen : RunM.close valid keepWarnings = (do
      let run ← get
      if !valid || (keepWarnings && holdsLeaf run.stack) then
        let _ ← RunM.attach
        pure valid
      else
        let _ ← RunM.discard
        pure valid) := rfl
  unfold closing
  simp only [perform, chosen, RunM.runOn_bind, RunM.runOn_get]
  cases !valid || (keepWarnings && holdsLeaf run.stack) with
  | true =>
    simp only [if_true, RunM.runOn_bind]
    rcases RunM.attach.runOn g run with ⟨_ | frame, after⟩ <;> rfl
  | false =>
    simp only [Bool.false_eq_true, if_false, RunM.runOn_bind]
    rcases RunM.discard.runOn g run with ⟨_ | frame, after⟩ <;> rfl

end Operation

namespace RunM

variable {run : Run}

theorem runOn_discard_nothing (h : run.stack.frames = []) :
    discard.runOn g run = (.error .nothingOpen, run) := by
  simp only [discard, runOn_bind, runOn_get, Stack.pop?, h]
  rfl

theorem runOn_attach_nothing (h : run.stack.frames = []) :
    attach.runOn g run = (.error .nothingOpen, run) := by
  simp only [attach, runOn_bind, runOn_discard_nothing h]

/-- What a stack records is recorded by the run, and what it refuses is not. -/
theorem runOn_record_ok {leaf : Leaf} {stack : Stack} (h : run.stack.record leaf = .ok stack) :
    ∃ after, (record leaf).runOn g run = (.ok (), after) ∧ after.stack = stack := by
  have changed := runOn_changeStack (g := g) (fun stack => stack.record leaf) run h
  simp only [record, runOn_bind, changed, runOn_get, runOn_emit]
  exact ⟨_, rfl, rfl⟩

theorem runOn_record_error {leaf : Leaf} {fault : Fault}
    (h : run.stack.record leaf = .error fault) :
    (record leaf).runOn g run = (.error fault, run) := by
  have refused := runOn_changeStack_error (g := g) (fun stack => stack.record leaf) run h
  simp only [record, runOn_bind, refused]

end RunM

end PathRules
