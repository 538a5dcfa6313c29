import PathRules.Outcome.Node

/-!
# Text of failure trees

`Node.message` is one line; `Node.print` is a layout in which what stands below a step or
a group is indented by a tab.  A group with one child shows the child alone.

These are `message` and `print` of `SimpleInvalidResult`, `CompoundResult`, `PathResult` and
`LogicalResult`.
-/

namespace PathRules.Node

def combined (sign : String) : List String → String
  | [message] => message
  | messages => "(" ++ Text.joined (" " ++ sign ++ " ") messages ++ ")"

mutual

def message : Node Placed → String
  | .leaf content => content.leaf.message
  | .path _ child => messageBelow child
  | .group sign children => combined sign.text (messages children)
termination_by structural node => node

def messageBelow : Option (Node Placed) → String
  | none => "()"
  | some node => message node
termination_by structural child => child

def messages : List (Node Placed) → List String
  | [] => []
  | node :: nodes => message node :: messages nodes
termination_by structural nodes => nodes

end

def block (sign : Sign) : List String → String
  | [text] => text
  | texts =>
      Text.joined "\n" ((sign.text ++ " \x7b") :: texts.map Text.indented ++ ["\x7d"])

def under (via : Via) (text : String) : String :=
  if via.isThis then text else via.name ++ ":\n" ++ Text.indented text

mutual

def print : Node Placed → String
  | .leaf content => content.leaf.message
  | .path via child => under via (printBelow child)
  | .group sign children => block sign (prints children)
termination_by structural node => node

def printBelow : Option (Node Placed) → String
  | none => ""
  | some node => print node
termination_by structural child => child

def prints : List (Node Placed) → List String
  | [] => []
  | node :: nodes => print node :: prints nodes
termination_by structural nodes => nodes

end

end PathRules.Node
