import PathRules.Segment.Basic

/-!
# Failure trees

Leaves of a tree are messages, inner nodes are steps to a part of the value and groups of
failures.  During a run leaves carry no place; `Node.placed` gives each the path of the
steps above it.

Leaves are `ValidationError` and `ValidationWarning`, inner nodes `PathResult`, `AndResult` and
`OrResult`; `splicedInto` is `LogicalResult.add_error`.
-/

namespace PathRules

inductive Severity
  | error
  | warning
deriving DecidableEq, Repr

def Severity.text : Severity → String
  | .error => "error"
  | .warning => "warning"

/-- How the failures of a group combine: all have to be mended, or any one. -/
inductive Sign
  | all
  | any
deriving DecidableEq, Repr

def Sign.text : Sign → String
  | .all => "and"
  | .any => "or"

structure Leaf where
  severity : Severity
  message : String
  value : Value

/-- The segment of a path node, with the numbers of the guards it stood behind. -/
structure Via where
  segment : Segment
  guards : List Nat := []

namespace Via

def this : Via := ⟨.this, []⟩

/-- A step that stays in place and is not guarded. -/
def isThis (via : Via) : Bool := via.segment.isThis && via.guards.isEmpty

def name (via : Via) : String := via.segment.name

end Via

/-- A tree of failures with leaves of type `α`; a step leads to at most one node. -/
inductive Node (α : Type)
  | leaf (content : α)
  | path (via : Via) (child : Option (Node α))
  | group (sign : Sign) (children : List (Node α))

/-- A leaf and the place it was recorded at. -/
structure Placed where
  leaf : Leaf
  place : DataPath

namespace Placed

def isError (p : Placed) : Bool := p.leaf.severity == .error

def isWarning (p : Placed) : Bool := p.leaf.severity == .warning

end Placed

namespace Node

variable {α β : Type}

mutual

/-- The leaves in order. -/
def leaves : Node α → List α
  | .leaf content => [content]
  | .path _ child => leavesBelow child
  | .group _ children => leavesOf children
termination_by structural node => node

def leavesBelow : Option (Node α) → List α
  | none => []
  | some node => leaves node
termination_by structural child => child

def leavesOf : List (Node α) → List α
  | [] => []
  | node :: nodes => leaves node ++ leavesOf nodes
termination_by structural nodes => nodes

end

mutual

/-- Each leaf with its place, the node standing at `place`. -/
def placed (place : DataPath) : Node Leaf → Node Placed
  | .leaf content => .leaf ⟨content, place⟩
  | .path via child => .path via (placedBelow (place.snoc via.segment) child)
  | .group sign children => .group sign (placedAll place children)
termination_by structural node => node

def placedBelow (place : DataPath) : Option (Node Leaf) → Option (Node Placed)
  | none => none
  | some node => some (placed place node)
termination_by structural child => child

def placedAll (place : DataPath) : List (Node Leaf) → List (Node Placed)
  | [] => []
  | node :: nodes => placed place node :: placedAll place nodes
termination_by structural nodes => nodes

end

/-- The children a node adds to a group of the given sign: a group of the same sign adds
its own children, any other node itself. -/
def splicedInto (sign : Sign) : Node α → List (Node α)
  | .group s children => if s == sign then children else [.group s children]
  | node => [node]

end Node

end PathRules
