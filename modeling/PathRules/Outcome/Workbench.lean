import PathRules.Outcome.Basic

/-!
# Trees made by hand

On a workbench nodes are made one by one and attached to each other.  A node knows the
parent it was made under, which decides its place, and may be attached elsewhere or not at
all.

Nodes are made and attached by the constructors and `add_error` of `PathResult` and
`LogicalResult`.
-/

namespace PathRules

inductive Part
  | leaf (content : Leaf)
  | path (via : Via)
  | group (sign : Sign)
  /-- An accepted value with nodes that are its warnings. -/
  | accepted (value : Value) (warnings : List Nat)

structure Piece where
  part : Part
  parent : Option Nat := none
  children : List Nat := []

structure Workbench where
  pieces : List Piece := []
  names : List (String × Nat) := []

namespace Part

def className : Part → String
  | .leaf content =>
      match content.severity with
      | .error => "ValidationError"
      | .warning => "ValidationWarning"
  | .path _ => "PathResult"
  | .group .all => "AndResult"
  | .group .any => "OrResult"
  | .accepted .. => "Valid"

end Part

namespace Workbench

def find (bench : Workbench) (name : String) : Except Fault Nat :=
  match bench.names.lookup name with
  | some number => .ok number
  | none => .error .missingKey

def part? (bench : Workbench) (number : Nat) : Option Part :=
  (bench.pieces[number]?).map (·.part)

def isAccepted (bench : Workbench) (number : Nat) : Bool :=
  match bench.part? number with
  | some (.accepted ..) => true
  | _ => false

/-- Makes a named node. -/
def add (bench : Workbench) (name : String) (part : Part) (parent : Option Nat) : Workbench where
  pieces := bench.pieces ++ [{ part, parent }]
  names := (name, bench.pieces.length) :: bench.names

def adopt (bench : Workbench) (parent : Nat) (children : List Nat) : Workbench :=
  { bench with
    pieces := bench.pieces.modify parent fun piece =>
      { piece with children := piece.children ++ children } }

def moveUnder (bench : Workbench) (parent child : Nat) : Workbench :=
  { bench with
    pieces := bench.pieces.modify child fun piece => { piece with parent := some parent } }

/-- Attaches a node to another: a step takes one child, and a group takes over the children
of a group of its own sign. -/
def attach (bench : Workbench) (parent child : Nat) : Except Fault Workbench :=
  match bench.pieces[parent]?, bench.pieces[child]? with
  | some above, some below =>
      match above.part, below.part with
      | .leaf _, _ | .accepted .., _ => .error .missingAttribute
      | .path _, _ =>
          if above.children.isEmpty then .ok (bench.adopt parent [child]) else .error .secondChild
      | .group sign, .group inner =>
          if inner == sign then
            .ok ((below.children.foldl (moveUnder · parent ·) bench).adopt parent below.children)
          else .ok (bench.adopt parent [child])
      | .group _, _ => .ok (bench.adopt parent [child])
  | _, _ => .error .missingKey

/-- The place of a node under the parents it was made under, of which there are at most
`fuel`; an accepted value is no place. -/
def placeWithin (bench : Workbench) : (fuel : Nat) → Nat → Except Fault DataPath
  | 0, _ => .error .endless
  | fuel + 1, number =>
      match bench.pieces[number]? with
      | none => .error .missingKey
      | some piece => do
          let above ← match piece.parent with
            | some parent =>
                if bench.isAccepted parent then throw .missingAttribute
                else bench.placeWithin fuel parent
            | none => pure []
          match piece.part with
          | .path via => pure (above.snoc via.segment)
          | _ => pure above

def place (bench : Workbench) (number : Nat) : Except Fault DataPath :=
  bench.placeWithin (bench.pieces.length + 1) number

/-- The tree below a node, at most `fuel` deep. -/
def nodeWithin (bench : Workbench) : (fuel : Nat) → Nat → Except Fault (Node Placed)
  | 0, _ => .error .endless
  | fuel + 1, number =>
      match bench.pieces[number]? with
      | none => .error .missingKey
      | some piece => do
          match piece.part with
          | .leaf content => pure (.leaf ⟨content, ← bench.place number⟩)
          | .path via =>
              let below ← piece.children.mapM (bench.nodeWithin fuel)
              pure (.path via below.head?)
          | .group sign => pure (.group sign (← piece.children.mapM (bench.nodeWithin fuel)))
          | .accepted .. => throw .missingAttribute

def node (bench : Workbench) (number : Nat) : Except Fault (Node Placed) :=
  bench.nodeWithin (bench.pieces.length + 1) number

private def placedLeaf (bench : Workbench) (number : Nat) : Except Fault Placed := do
  match ← bench.node number with
  | .leaf content => pure content
  | _ => throw .missingAttribute

/-- The outcome that a node stands for. -/
def outcome (bench : Workbench) (number : Nat) : Except Fault Outcome := do
  match bench.part? number with
  | some (.accepted value warnings) =>
      pure (.accepted value (← warnings.mapM bench.placedLeaf))
  | _ => pure (.rejected (← bench.node number))

/-- The class of the parent that a node was made under. -/
def parentClass? (bench : Workbench) (number : Nat) : Option String := do
  let piece ← bench.pieces[number]?
  let parent ← piece.parent
  let above ← bench.pieces[parent]?
  pure above.part.className

/-- Accepted values are equal if their values are; other nodes only to themselves. -/
def areEqual (g : ObjectGraph) (bench : Workbench) (a b : Nat) : Bool :=
  match bench.part? a, bench.part? b with
  | some (.accepted v _), some (.accepted w _) => Value.eq g v w
  | some (.accepted ..), _ | _, some (.accepted ..) => false
  | _, _ => a == b

/-- Whether a node can be a key, as all but accepted values can. -/
def isKey (bench : Workbench) (number : Nat) : Bool := !bench.isAccepted number

end Workbench

end PathRules
