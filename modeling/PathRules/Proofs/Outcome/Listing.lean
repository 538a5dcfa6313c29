import PathRules.Outcome.Outline
import PathRules.Proofs.Outcome.Layout
import PathRules.Proofs.Outcome.Shape

/-!
# The levels of failure trees

The layout and the outline of a tree show the same levels: one for every leaf, one for every step
that leads elsewhere and one for every group of other than one child, each as deep as there are
levels above it.  Apart from them the layout has only the rows that close a group.  A step that
leads elsewhere and has no name is told from one that stays in place by the layout alone.
-/

namespace PathRules

/-- What a level shows, and how deep it stands. -/
structure Entry where
  depth : Nat
  text : String
  style : Style
deriving DecidableEq

/-- The entry in a display that leaves out what would move its cursor. -/
def Entry.cleaned [Display] (entry : Entry) : Entry :=
  { entry with text := Display.clean entry.text }

def Severity.style : Severity → Style
  | .error => .error
  | .warning => .warning

namespace Outline

mutual

/-- The labels of an outline in preorder, the first one at a depth. -/
def listing (depth : Nat) : Outline → List Entry
  | .mk label style children => ⟨depth, label, style⟩ :: listingOf (depth + 1) children
termination_by structural outline => outline

def listingOf (depth : Nat) : List Outline → List Entry
  | [] => []
  | outline :: outlines => listing depth outline ++ listingOf depth outlines
termination_by structural outlines => outlines

end

theorem listingOf_append (depth : Nat) (xs ys : List Outline) :
    listingOf depth (xs ++ ys) = listingOf depth xs ++ listingOf depth ys := by
  induction xs with
  | nil => rfl
  | cons x xs ih => rw [List.cons_append, listingOf, listingOf, ih, List.append_assoc]

theorem listingOf_singleton (depth : Nat) (outline : Outline) :
    listingOf depth [outline] = listing depth outline := by
  rw [listingOf, listingOf, List.append_nil]

end Outline

namespace Node

/-- What a row of the layout shows, without the signs that open or close what stands below. -/
def Row.level? (row : Row) : Option Entry :=
  match row.mark with
  | .message content => some ⟨row.depth, content.leaf.message, content.leaf.severity.style⟩
  | .step via => some ⟨row.depth, via.name, .path⟩
  | .opening sign => some ⟨row.depth, sign.text, .group⟩
  | .closing | .nothing => none

/-- What the level of a node shows.  A step that stays in place has none, and neither has a group
with one child. -/
def label? : Node Placed → Option (String × Style)
  | .leaf content => some (content.leaf.message, content.leaf.severity.style)
  | .path via _ => if via.isThis then none else some (via.name, .path)
  | .group sign children => if children.length == 1 then none else some (sign.text, .group)

/-- A node with the nodes above it, the outermost first. -/
structure Descent where
  above : List (Node Placed)
  node : Node Placed

namespace Descent

def under (node : Node Placed) (descent : Descent) : Descent :=
  { descent with above := node :: descent.above }

/-- The level of the node, below so many others. -/
def level? (depth : Nat) (descent : Descent) : Option Entry :=
  descent.node.label?.map fun label =>
    ⟨depth + descent.above.countP takesLevel, label.1, label.2⟩

theorem level?_under (depth : Nat) (node : Node Placed) (descent : Descent) :
    (descent.under node).level? depth =
      descent.level? (if node.takesLevel then depth + 1 else depth) := by
  cases h : node.takesLevel <;> simp [level?, under, h]
  rw [Nat.add_comm _ 1, Nat.add_assoc]

end Descent

mutual

/-- The nodes of a tree in preorder, each with the nodes above it. -/
def descents : Node Placed → List Descent
  | .leaf content => [⟨[], .leaf content⟩]
  | .path via child =>
      ⟨[], .path via child⟩ :: (descentsBelow child).map (Descent.under (.path via child))
  | .group sign children =>
      ⟨[], .group sign children⟩ :: (descentsOf children).map (Descent.under (.group sign children))
termination_by structural node => node

def descentsBelow : Option (Node Placed) → List Descent
  | none => []
  | some node => descents node
termination_by structural child => child

def descentsOf : List (Node Placed) → List Descent
  | [] => []
  | node :: nodes => descents node ++ descentsOf nodes
termination_by structural nodes => nodes

end

mutual

/-- Every node has one descent. -/
theorem node_descents : (node : Node Placed) → node.descents.map (·.node) = node.subtrees
  | .leaf _ => rfl
  | .path via child => by
    rw [descents, subtrees, List.map_cons, List.map_map, ← node_descentsBelow child]
    rfl
  | .group sign children => by
    rw [descents, subtrees, List.map_cons, List.map_map, ← node_descentsOf children]
    rfl
termination_by structural node => node

theorem node_descentsBelow : (child : Option (Node Placed)) →
    (descentsBelow child).map (·.node) = subtreesBelow child
  | none => rfl
  | some node => node_descents node
termination_by structural child => child

theorem node_descentsOf : (nodes : List (Node Placed)) →
    (descentsOf nodes).map (·.node) = subtreesOf nodes
  | [] => rfl
  | node :: nodes => by
    rw [descentsOf, subtreesOf, List.map_append, node_descents node, node_descentsOf nodes]
termination_by structural nodes => nodes

end

/-- The levels of descents that start below a node. -/
theorem entries_under (depth : Nat) (node : Node Placed) (descents : List Descent) :
    (descents.map (Descent.under node)).filterMap (Descent.level? depth) =
      descents.filterMap (Descent.level? (if node.takesLevel then depth + 1 else depth)) := by
  rw [List.filterMap_map]
  exact List.filterMap_congr fun descent _ => Descent.level?_under depth node descent

/-! ## The levels of the layout -/

mutual

/-- The rows of a tree that close nothing are its levels. -/
theorem entries_rows (depth : Nat) : (node : Node Placed) →
    (node.rows depth).filterMap Row.level? = node.descents.filterMap (Descent.level? depth)
  | .leaf _ => rfl
  | .path via child => by
    rw [rows, descents, List.filterMap_cons, entries_under, takesLevel, Descent.level?, label?]
    cases via.isThis with
    | true => exact entries_rowsBelow depth child
    | false => exact congrArg (_ :: ·) (entries_rowsBelow (depth + 1) child)
  | .group sign children => by
    rw [rows, descents, List.filterMap_cons, entries_under, takesLevel, Descent.level?, label?, bne]
    cases children.length == 1 with
    | true => exact entries_rowsOf depth children
    | false =>
      refine congrArg (_ :: ·) (Eq.trans ?_ (entries_rowsOf (depth + 1) children))
      simp [Row.level?]
termination_by structural node => node

theorem entries_rowsBelow (depth : Nat) : (child : Option (Node Placed)) →
    (rowsBelow depth child).filterMap Row.level? =
      (descentsBelow child).filterMap (Descent.level? depth)
  | none => rfl
  | some node => entries_rows depth node
termination_by structural child => child

theorem entries_rowsOf (depth : Nat) : (nodes : List (Node Placed)) →
    (rowsOf depth nodes).filterMap Row.level? =
      (descentsOf nodes).filterMap (Descent.level? depth)
  | [] => rfl
  | node :: nodes => by
    rw [rowsOf, descentsOf, List.filterMap_append, List.filterMap_append, entries_rows depth node,
      entries_rowsOf depth nodes]
termination_by structural nodes => nodes

end

/-! ## The levels of an outline -/

/-- A step without a name stays in place. -/
def Named : Node Placed → Prop
  | .path via _ => via.name = "" → via.isThis = true
  | _ => True

theorem isEmpty_name {via : Via} (h : via.isThis = true) : via.name.isEmpty = true := by
  obtain ⟨segment, guards⟩ := via
  cases segment <;> simp_all [Via.isThis, Via.name, Segment.isThis, Segment.name]

theorem isEmpty_eq_isThis {via : Via} {child : Option (Node Placed)}
    (named : (Node.path via child).Named) : via.name.isEmpty = via.isThis := by
  rw [Bool.eq_iff_iff]
  exact ⟨fun h => named (String.isEmpty_iff.mp h), isEmpty_name⟩

section Display

variable [Display]

theorem listing_ofPlaced (depth : Nat) (content : Placed) :
    Outline.listing depth (.ofPlaced content) =
      [Entry.cleaned ⟨depth, content.leaf.message, content.leaf.severity.style⟩] := by
  unfold Outline.ofPlaced
  cases content.leaf.severity <;> rfl

mutual

/-- An outline has the levels of the tree, if all steps that lead elsewhere have names. -/
theorem listing_outlines (depth : Nat) : (node : Node Placed) → (∀ m ∈ node.subtrees, m.Named) →
    Outline.listingOf depth node.outlines =
      (node.descents.filterMap (Descent.level? depth)).map Entry.cleaned
  | .leaf content, _ => by
    rw [outlines, Outline.listingOf_singleton, listing_ofPlaced]
    rfl
  | .path via child, named => by
    have below : ∀ m ∈ subtreesBelow child, m.Named := fun m hm => named m (List.mem_cons_of_mem _ hm)
    rw [outlines, isEmpty_eq_isThis (named _ (mem_subtrees_self _)), descents, List.filterMap_cons,
      entries_under, takesLevel, Descent.level?, label?]
    cases via.isThis with
    | true => exact listing_outlinesBelow depth child below
    | false =>
      refine (Outline.listingOf_singleton depth _).trans ?_
      exact congrArg (_ :: ·) (listing_outlinesBelow (depth + 1) child below)
  | .group sign children, named => by
    have below : ∀ m ∈ subtreesOf children, m.Named := fun m hm => named m (List.mem_cons_of_mem _ hm)
    rw [outlines, descents, List.filterMap_cons, entries_under, takesLevel, Descent.level?, label?, bne]
    cases children.length == 1 with
    | true => exact listing_outlinesOf depth children below
    | false =>
      refine (Outline.listingOf_singleton depth _).trans ?_
      exact congrArg (_ :: ·) (listing_outlinesOf (depth + 1) children below)
termination_by structural node => node

theorem listing_outlinesBelow (depth : Nat) : (child : Option (Node Placed)) →
    (∀ m ∈ subtreesBelow child, m.Named) →
      Outline.listingOf depth (outlinesBelow child) =
        ((descentsBelow child).filterMap (Descent.level? depth)).map Entry.cleaned
  | none, _ => rfl
  | some node, named => listing_outlines depth node named
termination_by structural child => child

theorem listing_outlinesOf (depth : Nat) : (nodes : List (Node Placed)) →
    (∀ m ∈ subtreesOf nodes, m.Named) →
      Outline.listingOf depth (outlinesOf nodes) =
        ((descentsOf nodes).filterMap (Descent.level? depth)).map Entry.cleaned
  | [], _ => rfl
  | node :: nodes, named => by
    rw [outlinesOf, descentsOf, Outline.listingOf_append, List.filterMap_append, List.map_append,
      listing_outlines depth node fun m hm => named m (List.mem_append_left _ hm),
      listing_outlinesOf depth nodes fun m hm => named m (List.mem_append_right _ hm)]
termination_by structural nodes => nodes

end

end Display

/-! ## Rows without a level -/

mutual

/-- In a tree in which nothing is hollow, only the rows that close a group show no level. -/
theorem closing_of_level (depth : Nat) : (node : Node Placed) → (∀ m ∈ node.subtrees, m.Solid) →
    ∀ row ∈ node.rows depth, row.level? = none → row.mark = .closing
  | .leaf _, _ => by
    rintro row among silent
    rw [rows, List.mem_singleton] at among
    subst among
    cases silent
  | .path via none, solid => nomatch (solid _ (mem_subtrees_self _)).2
  | .path via (some node), solid => by
    have below : ∀ m ∈ node.subtrees, m.Solid := fun m hm => solid m (List.mem_cons_of_mem _ hm)
    intro row among silent
    rw [rows] at among
    split at among
    · exact closing_of_level depth node below row among silent
    · rcases List.mem_cons.mp among with rfl | deeper
      · cases silent
      · exact closing_of_level (depth + 1) node below row deeper silent
  | .group sign children, solid => by
    have below : ∀ m ∈ subtreesOf children, m.Solid := fun m hm => solid m (List.mem_cons_of_mem _ hm)
    intro row among silent
    rw [rows] at among
    split at among
    · exact closing_of_levelOf depth children below row among silent
    · rcases List.mem_append.mp among with first | last
      · rcases List.mem_cons.mp first with rfl | deeper
        · cases silent
        · exact closing_of_levelOf (depth + 1) children below row deeper silent
      · rw [List.mem_singleton.mp last]
termination_by structural node => node

theorem closing_of_levelOf (depth : Nat) : (nodes : List (Node Placed)) →
    (∀ m ∈ subtreesOf nodes, m.Solid) →
      ∀ row ∈ rowsOf depth nodes, row.level? = none → row.mark = .closing
  | [], _ => nofun
  | node :: nodes, solid => by
    intro row among silent
    rcases List.mem_append.mp among with first | later
    · exact closing_of_level depth node (fun m hm => solid m (List.mem_append_left _ hm)) row first
        silent
    · exact closing_of_levelOf depth nodes (fun m hm => solid m (List.mem_append_right _ hm)) row
        later silent
termination_by structural nodes => nodes

end

end Node

end PathRules
