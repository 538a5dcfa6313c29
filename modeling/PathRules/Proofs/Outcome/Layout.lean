import Mathlib.Data.List.Flatten
import PathRules.Outcome.Basic
import PathRules.Proofs.Text.Lines

/-!
# Layout of failure trees

The rows of a tree are read off in one walk from its root that carries the depth along, each row
with the depth at which it stands.  `Node.print` puts texts together from the leaves upwards and
indents again what is indented already; it comes to the same lines.
-/

namespace PathRules

namespace Node

/-- What a row of the layout shows. -/
inductive Mark
  | message (content : Placed)
  | step (via : Via)
  | opening (sign : Sign)
  | closing
  | nothing

def Mark.text : Mark → String
  | .message content => content.leaf.message
  | .step via => via.name ++ ":"
  | .opening sign => sign.text ++ " \x7b"
  | .closing => "\x7d"
  | .nothing => ""

structure Row where
  depth : Nat
  mark : Mark

/-- The lines of a row, each behind as many tabs as the row is deep. -/
def Row.lines (row : Row) : List String :=
  (Text.lines row.mark.text).map (Text.tabs row.depth ++ ·)

mutual

def rows (depth : Nat) : Node Placed → List Row
  | .leaf content => [⟨depth, .message content⟩]
  | .path via child =>
      if via.isThis then rowsBelow depth child
      else ⟨depth, .step via⟩ :: rowsBelow (depth + 1) child
  | .group sign children =>
      if children.length == 1 then rowsOf depth children
      else ⟨depth, .opening sign⟩ :: rowsOf (depth + 1) children ++ [⟨depth, .closing⟩]
termination_by structural node => node

def rowsBelow (depth : Nat) : Option (Node Placed) → List Row
  | none => [⟨depth, .nothing⟩]
  | some node => rows depth node
termination_by structural child => child

def rowsOf (depth : Nat) : List (Node Placed) → List Row
  | [] => []
  | node :: nodes => rows depth node ++ rowsOf depth nodes
termination_by structural nodes => nodes

end

/-! ## The lines of the layout -/

/-- The lines of a text behind a number of tabs. -/
def shifted (depth : Nat) (text : String) : List String :=
  (Text.lines text).map (Text.tabs depth ++ ·)

theorem shifted_indented (depth : Nat) (text : String) :
    shifted depth (Text.indented text) = shifted (depth + 1) text := by
  simp [shifted, Text.lines_indented, Text.tabs_succ, String.append_assoc]

theorem shifted_joined (depth : Nat) (texts : List String) (nonempty : texts ≠ []) :
    shifted depth (Text.joined "\n" texts) = texts.flatMap (shifted depth) := by
  rw [shifted, Text.lines_joined texts nonempty, List.map_flatMap]
  rfl

theorem shifted_under (depth : Nat) (via : Via) (text : String) :
    shifted depth (under via text) =
      if via.isThis then shifted depth text
      else shifted depth (via.name ++ ":") ++ shifted (depth + 1) text := by
  unfold under
  split
  · rfl
  · have parts : via.name ++ ":\n" ++ Text.indented text =
        Text.joined "\n" [via.name ++ ":", Text.indented text] := by
      simp [Text.joined, String.append_assoc]
    rw [parts, shifted_joined _ _ (List.cons_ne_nil _ _)]
    simp [shifted_indented]

theorem shifted_block (depth : Nat) (sign : Sign) (texts : List String) :
    shifted depth (block sign texts) =
      if texts.length == 1 then texts.flatMap (shifted depth)
      else shifted depth (sign.text ++ " \x7b") ++ texts.flatMap (shifted (depth + 1)) ++
        shifted depth "\x7d" := by
  unfold block
  split
  · simp
  · next several =>
    have other : (texts.length == 1) = false := by
      cases texts with
      | nil => rfl
      | cons text texts =>
        cases texts with
        | nil => exact absurd rfl (several text)
        | cons next rest => rfl
    rw [other, shifted_joined _ _ (by simp)]
    simp [List.flatMap_map, shifted_indented]

theorem length_prints (nodes : List (Node Placed)) : (prints nodes).length = nodes.length := by
  induction nodes with
  | nil => rfl
  | cons node nodes ih => simp [prints, ih]

mutual

/-- The rows of a tree, at any depth, have the lines of its text behind the tabs of that depth. -/
theorem lines_rows (depth : Nat) : (node : Node Placed) →
    (node.rows depth).flatMap Row.lines = shifted depth node.print
  | .leaf content => by simp [rows, print, Row.lines, Mark.text, shifted]
  | .path via child => by
    rw [rows, print, shifted_under]
    split
    · exact lines_rowsBelow depth child
    · rw [List.flatMap_cons, lines_rowsBelow (depth + 1) child]
      rfl
  | .group sign children => by
    rw [rows, print, shifted_block, length_prints]
    split
    · exact lines_rowsOf depth children
    · rw [List.flatMap_append, List.flatMap_cons, lines_rowsOf (depth + 1) children]
      simp [Row.lines, Mark.text, shifted]
termination_by structural node => node

theorem lines_rowsBelow (depth : Nat) : (child : Option (Node Placed)) →
    (rowsBelow depth child).flatMap Row.lines = shifted depth (printBelow child)
  | none => by simp [rowsBelow, printBelow, Row.lines, Mark.text, shifted]
  | some node => lines_rows depth node
termination_by structural child => child

theorem lines_rowsOf (depth : Nat) : (nodes : List (Node Placed)) →
    (rowsOf depth nodes).flatMap Row.lines = (prints nodes).flatMap (shifted depth)
  | [] => rfl
  | node :: nodes => by
    rw [rowsOf, prints, List.flatMap_append, List.flatMap_cons, lines_rows depth node,
      lines_rowsOf depth nodes]
termination_by structural nodes => nodes

end

/-! ## The depths of messages -/

/-- Whether what stands below a node is one level deeper. -/
def takesLevel : Node Placed → Bool
  | .leaf _ => false
  | .path via _ => !via.isThis
  | .group _ children => children.length != 1

/-- A leaf with the nodes above it, the outermost first. -/
structure Lineage where
  above : List (Node Placed)
  leaf : Placed

namespace Lineage

def under (node : Node Placed) (lineage : Lineage) : Lineage :=
  { lineage with above := node :: lineage.above }

/-- The number of nodes above the leaf that take a level. -/
def depth (lineage : Lineage) : Nat := lineage.above.countP takesLevel

/-- The row of the leaf, below so many levels. -/
def row (depth : Nat) (lineage : Lineage) : Row := ⟨depth + lineage.depth, .message lineage.leaf⟩

theorem row_under (depth : Nat) (node : Node Placed) (lineage : Lineage) :
    (lineage.under node).row depth =
      lineage.row (if node.takesLevel then depth + 1 else depth) := by
  cases h : node.takesLevel <;> simp [row, Lineage.depth, under, h]
  omega

end Lineage

mutual

/-- The leaves in order, each with the nodes above it. -/
def lineages : Node Placed → List Lineage
  | .leaf content => [⟨[], content⟩]
  | .path via child => (lineagesBelow child).map (Lineage.under (.path via child))
  | .group sign children => (lineagesOf children).map (Lineage.under (.group sign children))
termination_by structural node => node

def lineagesBelow : Option (Node Placed) → List Lineage
  | none => []
  | some node => lineages node
termination_by structural child => child

def lineagesOf : List (Node Placed) → List Lineage
  | [] => []
  | node :: nodes => lineages node ++ lineagesOf nodes
termination_by structural nodes => nodes

end

mutual

/-- Every leaf has one lineage. -/
theorem leaf_lineages : (node : Node Placed) → node.lineages.map (·.leaf) = node.leaves
  | .leaf _ => rfl
  | .path via child => by
    rw [lineages, leaves, List.map_map, ← leaf_lineagesBelow child]
    rfl
  | .group sign children => by
    rw [lineages, leaves, List.map_map, ← leaf_lineagesOf children]
    rfl
termination_by structural node => node

theorem leaf_lineagesBelow : (child : Option (Node Placed)) →
    (lineagesBelow child).map (·.leaf) = leavesBelow child
  | none => rfl
  | some node => leaf_lineages node
termination_by structural child => child

theorem leaf_lineagesOf : (nodes : List (Node Placed)) →
    (lineagesOf nodes).map (·.leaf) = leavesOf nodes
  | [] => rfl
  | node :: nodes => by
    rw [lineagesOf, leavesOf, List.map_append, leaf_lineages node, leaf_lineagesOf nodes]
termination_by structural nodes => nodes

end

/-- Whether a row shows a message. -/
def Row.isMessage (row : Row) : Bool :=
  match row.mark with
  | .message _ => true
  | _ => false

theorem map_row_under (depth : Nat) (node : Node Placed) (lineages : List Lineage) :
    (lineages.map (Lineage.under node)).map (Lineage.row depth) =
      lineages.map (Lineage.row (if node.takesLevel then depth + 1 else depth)) := by
  rw [List.map_map]
  exact List.map_congr_left fun lineage _ => Lineage.row_under depth node lineage

mutual

/-- The rows of messages are those of the leaves, in their order, each as deep as there are nodes
above the leaf that take a level. -/
theorem messages_rows (depth : Nat) : (node : Node Placed) →
    (node.rows depth).filter (·.isMessage) = node.lineages.map (Lineage.row depth)
  | .leaf _ => rfl
  | .path via child => by
    rw [rows, lineages, map_row_under, takesLevel]
    cases h : via.isThis with
    | true => exact messages_rowsBelow depth child
    | false => exact messages_rowsBelow (depth + 1) child
  | .group sign children => by
    rw [rows, lineages, map_row_under, takesLevel, bne]
    cases h : children.length == 1 with
    | true => exact messages_rowsOf depth children
    | false =>
      refine Eq.trans ?_ (messages_rowsOf (depth + 1) children)
      simp [Row.isMessage]
termination_by structural node => node

theorem messages_rowsBelow (depth : Nat) : (child : Option (Node Placed)) →
    (rowsBelow depth child).filter (·.isMessage) = (lineagesBelow child).map (Lineage.row depth)
  | none => rfl
  | some node => messages_rows depth node
termination_by structural child => child

theorem messages_rowsOf (depth : Nat) : (nodes : List (Node Placed)) →
    (rowsOf depth nodes).filter (·.isMessage) = (lineagesOf nodes).map (Lineage.row depth)
  | [] => rfl
  | node :: nodes => by
    rw [rowsOf, lineagesOf, List.filter_append, List.map_append, messages_rows depth node,
      messages_rowsOf depth nodes]
termination_by structural nodes => nodes

end

theorem lines_print (node : Node Placed) :
    Text.lines node.print = (node.rows 0).flatMap Row.lines := by
  simp [lines_rows, shifted, Text.tabs_zero]

/-- A printed tree is its layout: the lines of the rows, one after the other.  The leaves have their
rows in the layout in their order, as deep as there are steps that lead elsewhere and groups of
other than one child above them; so the lines of the messages are found among those of the text,
each line behind as many tabs. -/
theorem print_is_layout (node : Node Placed) :
    node.print = Text.joined "\n" ((node.rows 0).flatMap Row.lines) ∧
    node.lineages.map (·.leaf) = node.leaves ∧
    (node.rows 0).filter (·.isMessage) =
      node.lineages.map (fun lineage => ⟨lineage.depth, .message lineage.leaf⟩) ∧
    (node.lineages.flatMap fun lineage =>
      (Text.lines lineage.leaf.leaf.message).map (Text.tabs lineage.depth ++ ·)).Sublist
        (Text.lines node.print) := by
  have messages : (node.rows 0).filter (·.isMessage) =
      node.lineages.map (fun lineage => ⟨lineage.depth, .message lineage.leaf⟩) := by
    rw [messages_rows]
    exact List.map_congr_left fun lineage _ => by rw [Lineage.row, Nat.zero_add]
  refine ⟨?_, leaf_lineages node, messages, ?_⟩
  · rw [← lines_print, Text.joined_lines]
  · have among : (((node.rows 0).filter (·.isMessage)).flatMap Row.lines).Sublist
        ((node.rows 0).flatMap Row.lines) := List.filter_sublist.flatMap _
    rw [messages, List.flatMap_map] at among
    rw [lines_print]
    exact among

end Node

end PathRules
