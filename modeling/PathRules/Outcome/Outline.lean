import PathRules.Outcome.Basic

/-!
# Outlines

An outline shows an outcome as a tree of labels for display: named steps, groups with more
than one child, and messages.  It is drawn by a library, which leaves characters that would
move its cursor out of labels; `Display` is what is relied on.

This is `render_tree` with `_add_node`.
-/

namespace PathRules

inductive Style
  | title
  | accepted
  | path
  | group
  | error
  | warning
deriving DecidableEq, Repr

def Style.text : Style → String
  | .title => "bold"
  | .accepted => "bold green"
  | .path => "bold cyan"
  | .group => "magenta"
  | .error => "red"
  | .warning => "yellow"

inductive Outline
  | mk (label : String) (style : Style) (children : List Outline)

/-- Bell, backspace, vertical tab, form feed and carriage return. -/
def Outline.cursorCodes : List Nat := [7, 8, 11, 12, 13]

/-- The library that draws outlines, by the text it shows for a label: that label without the
characters that would move the cursor. -/
class Display where
  clean : String → String
  toList_clean (label : String) :
    (clean label).toList = label.toList.filter fun c => !Outline.cursorCodes.contains c.toNat

variable [Display]

namespace Outline

def labelled (label : String) (style : Style) (children : List Outline) : Outline :=
  .mk (Display.clean label) style children

def ofPlaced (p : Placed) : Outline :=
  labelled p.leaf.message (match p.leaf.severity with
    | .error => .error
    | .warning => .warning) []

end Outline

namespace Node

mutual

/-- The outlines that stand for a node: none of its own for a step without a name or a
group with one child. -/
def outlines : Node Placed → List Outline
  | .leaf content => [.ofPlaced content]
  | .path via child =>
      if via.name.isEmpty then outlinesBelow child
      else [.labelled via.name .path (outlinesBelow child)]
  | .group sign children =>
      if children.length == 1 then outlinesOf children
      else [.labelled sign.text .group (outlinesOf children)]
termination_by structural node => node

def outlinesBelow : Option (Node Placed) → List Outline
  | none => []
  | some node => outlines node
termination_by structural child => child

def outlinesOf : List (Node Placed) → List Outline
  | [] => []
  | node :: nodes => outlines node ++ outlinesOf nodes
termination_by structural nodes => nodes

end

end Node

def Outcome.outline (label : String) : Outcome → Outline
  | .accepted _ warnings =>
      .labelled (label ++ ": valid") .accepted
        (warnings.map fun p =>
          .labelled (p.place.text ++ ": " ++ p.leaf.message) .warning [])
  | .rejected root => .labelled label .title root.outlines

end PathRules
