import PathRules.Fault
import PathRules.Outcome.Basic

/-!
# The stack of open nodes

During a run nodes are opened, filled and either attached to the node below them or
discarded.  A node becomes part of the result only when it is attached; a group attached
to a group of the same sign hands its children over instead.

These are `push`, `add_invalid_result`, `pop`, `pop_and_add_to_parent`, `close` and `finish` of
`ValidationContext`.
-/

namespace PathRules

/-- An open node with the children attached so far.  A group may have been opened without
a parent; then it can not be attached. -/
inductive Frame
  | group (sign : Sign) (attached : Bool) (children : List (Node Leaf))
  | path (via : Via) (child : Option (Node Leaf))

namespace Frame

def node : Frame → Node Leaf
  | .group sign _ children => .group sign children
  | .path via child => .path via child

def hasParent : Frame → Bool
  | .group _ attached _ => attached
  | .path .. => true

def childCount : Frame → Nat
  | .group _ _ children => children.length
  | .path _ child => if child.isSome then 1 else 0

/-- Attaches a node below the open one. -/
def add (node : Node Leaf) : Frame → Except Fault Frame
  | .group sign attached children => .ok (.group sign attached (children ++ node.splicedInto sign))
  | .path via none => .ok (.path via (some node))
  | .path _ (some _) => .error .secondChild

def className : Frame → String
  | .group .all _ _ => "AndResult"
  | .group .any _ _ => "OrResult"
  | .path .. => "PathResult"

end Frame

/-- The open nodes, innermost first, above the root step, which stays in place. -/
structure Stack where
  frames : List Frame := []
  root : Option (Node Leaf) := none

namespace Stack

/-- The place of the innermost of some open nodes: the steps up to it, beginning at a node
without parent. -/
def placeOf : List Frame → DataPath
  | [] => []
  | .path via _ :: below => (placeOf below).snoc via.segment
  | .group _ attached _ :: below => if attached then placeOf below else []

def place (stack : Stack) : DataPath := placeOf stack.frames

def depth (stack : Stack) : Nat := stack.frames.length

/-- The innermost open node, or the root. -/
def current (stack : Stack) : Frame :=
  match stack.frames with
  | frame :: _ => frame
  | [] => .path .this stack.root

def push (stack : Stack) (frame : Frame) : Stack :=
  { stack with frames := frame :: stack.frames }

def openGroup (stack : Stack) (sign : Sign) : Stack :=
  stack.push (.group sign true [])

def openPath (stack : Stack) (via : Via) : Stack :=
  stack.push (.path via none)

/-- Records a leaf on the current node, which must be a group. -/
def record (stack : Stack) (leaf : Leaf) : Except Fault Stack :=
  match stack.frames with
  | .group sign attached children :: below =>
      .ok { stack with frames := .group sign attached (children ++ [.leaf leaf]) :: below }
  | _ => .error .leafOnPath

/-- Attaches a node to the current node. -/
def add (stack : Stack) (node : Node Leaf) : Except Fault Stack :=
  match stack.frames with
  | [] =>
      match stack.root with
      | none => .ok { stack with root := some node }
      | some _ => .error .secondChild
  | frame :: below => (frame.add node).map fun frame => { stack with frames := frame :: below }

def pop? (stack : Stack) : Option (Frame × Stack) :=
  match stack.frames with
  | [] => none
  | frame :: below => some (frame, { stack with frames := below })

/-- The tree of everything attached to the root. -/
def tree (stack : Stack) : Node Leaf := .path .this stack.root

end Stack

end PathRules
