import PathRules.Fault
import PathRules.Outcome.Query
import PathRules.Outcome.Text

/-!
# Outcomes

A run accepts a value, keeping the warnings that were recorded, or rejects it with a tree
of failures.

An outcome is `Valid` or the `Invalid` that `validate` returns, with `flat_errors`, `warnings` and
`grouped_errors`.
-/

namespace PathRules

inductive Outcome
  | accepted (value : Value) (warnings : List Placed)
  | rejected (root : Node Placed)

namespace Outcome

def isAccepted : Outcome → Bool
  | .accepted .. => true
  | .rejected _ => false

/-- The failures; an accepted value has none. -/
def failures : Outcome → List Placed
  | .accepted .. => []
  | .rejected root => root.leaves

def warnings : Outcome → List Placed
  | .accepted _ warnings => warnings
  | .rejected root => root.leaves.filter (·.isWarning)

/-- All that was recorded and kept. -/
def recorded : Outcome → List Placed
  | .accepted _ warnings => warnings
  | .rejected root => root.leaves

def errorsAt (g : ObjectGraph) (below : Bool) (query : List Query) : Outcome → List Placed
  | .accepted .. => []
  | .rejected root => root.errorsAt g below query

def print : Outcome → String
  | .accepted .. => "valid"
  | .rejected root => root.print

def addToGroup (g : ObjectGraph) (p : Placed) :
    List (DataPath × List Placed) → List (DataPath × List Placed)
  | [] => [(p.place, [p])]
  | (place, group) :: rest =>
      if DataPath.sameKey g place p.place then (place, group ++ [p]) :: rest
      else (place, group) :: addToGroup g p rest

/-- The failures by place, places in order of their first failure. -/
def grouped (g : ObjectGraph) (outcome : Outcome) : List (DataPath × List Placed) :=
  outcome.failures.foldl (fun groups p => addToGroup g p groups) []

end Outcome

/-- How a node introduces itself: a leaf by its place and message, a step by its segment,
a group by the number of its children. -/
def Node.describe : Node Placed → String
  | .leaf content =>
      (match content.leaf.severity with
        | .error => "ValidationError"
        | .warning => "ValidationWarning")
        ++ "(data_path=" ++ Text.quoted content.place.text
        ++ ", message=" ++ Text.quoted content.leaf.message ++ ")"
  | .path via _ =>
      "PathResult(path=" ++ via.guards.foldl (fun text _ => "ConditionalPath(" ++ text ++ ")")
        via.segment.quoted ++ ")"
  | .group sign children =>
      (match sign with
        | .all => "AndResult"
        | .any => "OrResult")
        ++ "(children=" ++ toString children.length ++ ")"

/-- The message of a rejection as a whole. -/
def Outcome.message? : Outcome → Option String
  | .accepted .. => none
  | .rejected root => some root.message

/-- How an outcome introduces itself, unless the accepted value contains itself. -/
def Outcome.describe (g : ObjectGraph) : Outcome → Except Fault String
  | .accepted value _ =>
      match value.quoted? g with
      | some text => .ok ("Valid(" ++ text ++ ")")
      | none => .error .endless
  | .rejected root => .ok root.describe

end PathRules
