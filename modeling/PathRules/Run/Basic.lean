import PathRules.Model.Registry
import PathRules.Run.Stack

/-!
# Runs

A run consists of the stack of open nodes, the store that its checks share, the rulebook and
the events sent to observers.  Changes made before a fault stay.

A run is a `ValidationContext` with what it shares; `emit` is its `emit`, and an `Event` is a
`ValidationEvent`.
-/

namespace PathRules

structure Event where
  type : EventType
  /-- The kind of object that sent the event. -/
  origin : String
  data : List (String × Value)
  outcome : Option Outcome := none

/-- The data in order of the names, of which a later one replaces an earlier one; how long
the run took is left out. -/
def Event.details (e : Event) : List (String × Value) :=
  let distinct := e.data.foldl (fun found entry => alter entry.1 entry.2 (fun _ => entry.2) found) []
  (distinct.filter (·.1 != "duration_ms")).mergeSort fun a b => decide (a.1 ≤ b.1)

structure Run where
  stack : Stack := {}
  store : Store := {}
  rulebook : Rulebook := {}
  events : List Event := []
  /-- Without observers no events are kept. -/
  observed : Bool := false
  origin : String := ""

abbrev RunM (α : Type) := ReaderT ObjectGraph (ExceptT Fault (StateM Run)) α

namespace RunM

variable {α : Type}

/-- The result of a run and the state it leaves. -/
def runOn (m : RunM α) (g : ObjectGraph) (run : Run) : Except Fault α × Run :=
  (m.run g).run.run run

/-- A check works on the store of the run. -/
def ofCheck (check : Check α) : RunM α := fun g => ExceptT.mk fun run =>
  let (result, store) := check.runOn g run.store
  (result, { run with store })

def modifyStack (f : Stack → Stack) : RunM Unit :=
  modify fun run => { run with stack := f run.stack }

/-- Replaces the stack, which stays as it is on a fault. -/
def changeStack (f : Stack → Except Fault Stack) : RunM Unit := do
  match f (← get).stack with
  | .ok stack => modifyStack fun _ => stack
  | .error fault => throw fault

def emit (type : EventType) (data : List (String × Value)) : RunM Unit :=
  modify fun run =>
    if run.observed then
      { run with events := run.events ++ [{ type, origin := run.origin, data }] }
    else run

def openGroup (sign : Sign) : RunM Unit := modifyStack (·.openGroup sign)

def openPath (via : Via) : RunM Unit := modifyStack (·.openPath via)

/-- Records a leaf on the current node and tells the observers. -/
def record (leaf : Leaf) : RunM Unit := do
  changeStack (·.record leaf)
  emit
    (match leaf.severity with
      | .error => .errorAdded
      | .warning => .warningAdded)
    [("message", .str leaf.message),
      ("data_path", .str (← get).stack.place.text),
      ("value", leaf.value)]

/-- Closes the current node and drops it. -/
def discard : RunM Frame := do
  match (← get).stack.pop? with
  | some (frame, stack) =>
      modifyStack fun _ => stack
      pure frame
  | none => throw .nothingOpen

/-- Closes the current node and attaches it to the node below. -/
def attach : RunM Frame := do
  let frame ← discard
  if frame.hasParent then
    changeStack (·.add frame.node)
    pure frame
  else throw .noParent

/-- Closes the current node: attached if its checks failed, or if `keepWarnings` is set and
it holds any leaf. -/
def close (valid keepWarnings : Bool) : RunM Bool := do
  let holdsLeaf := match (← get).stack.frames with
    | frame :: _ => !frame.node.leaves.isEmpty
    | [] => false
  if !valid || (keepWarnings && holdsLeaf) then
    let _ ← attach
    pure valid
  else
    let _ ← discard
    pure valid

/-- The tree of a run in which every node has been closed. -/
def finish : RunM (Node Leaf) := do
  let stack := (← get).stack
  if stack.frames.isEmpty then pure stack.tree
  else throw (.stillOpen stack.depth)

/-- Runs on a stack of its own and without observers; the store is shared. -/
def apart (m : RunM α) : RunM α := fun g => ExceptT.mk fun run =>
  let (result, after) := m.runOn g { run with stack := {}, observed := false }
  (result, { after with stack := run.stack, observed := run.observed })

end RunM

end PathRules
