import PathRules.Proofs.Trace.Basic

/-!
# What a stack gains

`Stack.gain` appends children to the current node and leaves every other open node alone.  All
that a validation attaches is gained in this way, by a current node that accepts a child.
-/

namespace PathRules

namespace Frame

/-- Whether a node may be attached: to a group always, to a step without a child. -/
def accepts : Frame → Bool
  | .group .. => true
  | .path _ child => child.isNone

/-- The children that a node adds to this one. -/
def receives (node : Option (Node Leaf)) : Frame → List (Node Leaf)
  | .group sign _ _ => node.toList.flatMap (·.splicedInto sign)
  | .path .. => node.toList

/-- The same node with further children; a step that has a child takes no other. -/
def gain (nodes : List (Node Leaf)) : Frame → Frame
  | .group sign attached children => .group sign attached (children ++ nodes)
  | .path via child => .path via (child <|> nodes.head?)

@[simp] theorem gain_nil (frame : Frame) : frame.gain [] = frame := by
  cases frame <;> simp [gain]

/-- A node that accepts a child takes any. -/
theorem add_eq_gain {frame : Frame} (h : frame.accepts = true) (node : Node Leaf) :
    frame.add node = .ok (frame.gain (frame.receives (some node))) := by
  cases frame with
  | group sign attached children => simp [add, gain, receives]
  | path via child =>
    cases child with
    | none => simp [add, gain, receives]
    | some child => cases h

end Frame

namespace Stack

/-- Whether the current node accepts a child. -/
def isOpen (stack : Stack) : Bool := stack.current.accepts

def gain (stack : Stack) (nodes : List (Node Leaf)) : Stack :=
  match stack.frames with
  | [] => { stack with root := stack.root <|> nodes.head? }
  | frame :: below => { stack with frames := frame.gain nodes :: below }

/-- The stack once a node was left for its current node. -/
def receive (stack : Stack) (node : Option (Node Leaf)) : Stack :=
  stack.gain (stack.current.receives node)

variable {stack : Stack}

@[simp] theorem frames_push (frame : Frame) : (stack.push frame).frames = frame :: stack.frames :=
  rfl

@[simp] theorem pop?_push (frame : Frame) : (stack.push frame).pop? = some (frame, stack) := rfl

@[simp] theorem gain_nil : stack.gain [] = stack := by
  unfold gain
  split
  · simp
  · next frame below h => rw [Frame.gain_nil, ← h]

@[simp] theorem receive_none : stack.receive none = stack := by
  unfold receive
  cases stack.current <;> simp [Frame.receives]

/-- In a group a node is received by its sign. -/
@[simp] theorem receive_push_group (sign : Sign) (attached : Bool) (children : List (Node Leaf))
    (node : Option (Node Leaf)) :
    (stack.push (.group sign attached children)).receive node =
      stack.push (.group sign attached
        (children ++ node.toList.flatMap (·.splicedInto sign))) := rfl

/-- A step without a child takes the node as it is. -/
@[simp] theorem receive_push_path (via : Via) (node : Option (Node Leaf)) :
    (stack.push (.path via none)).receive node = stack.push (.path via node) := by
  cases node <;> rfl

/-- The root takes the first node it is left. -/
@[simp] theorem receive_empty (node : Option (Node Leaf)) :
    ({} : Stack).receive node = { root := node } := by
  cases node <;> rfl

@[simp] theorem place_push_group (sign : Sign) (children : List (Node Leaf)) :
    (stack.push (.group sign true children)).place = stack.place := rfl

/-- An open stack takes a node into its current node. -/
theorem add_eq_receive (h : stack.isOpen = true) (node : Node Leaf) :
    stack.add node = .ok (stack.receive (some node)) := by
  rcases stack with ⟨_ | ⟨frame, below⟩, root⟩
  · cases root with
    | none => rfl
    | some child => cases h
  · simp only [isOpen, current] at h
    simp [add, receive, gain, current, Frame.add_eq_gain h, Except.map]

end Stack

end PathRules
