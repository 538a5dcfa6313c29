import PathRules.Proofs.Outcome.Listing
import PathRules.Proofs.Run.Summaries

/-!
# The layout and the outline of a run

A rejected value is shown in two ways: as a text and as an outline for display.  The two show the
same levels in the same order.  The labels of the outline leave out the characters that would move
a cursor, and a step without a name is told from one that stays in place by the text alone.
-/

namespace PathRules

variable {g : ObjectGraph}

/-- A text that holds nothing that would move a cursor is displayed as it is. -/
theorem Display.clean_eq_self [Display] {text : String}
    (still : ∀ c ∈ text.toList, c.toNat ∉ Outline.cursorCodes) : clean text = text := by
  have kept : text.toList.filter (fun c => !Outline.cursorCodes.contains c.toNat) = text.toList :=
    List.filter_eq_self.mpr fun c among => by simpa using still c among
  rw [← String.toList_inj, toList_clean, kept]

theorem Entry.map_cleaned_eq_self [Display] {entries : List Entry}
    (still : ∀ entry ∈ entries, ∀ c ∈ entry.text.toList, c.toNat ∉ Outline.cursorCodes) :
    entries.map cleaned = entries := by
  refine List.map_congr_left (g := id) (fun entry among => ?_) |>.trans (List.map_id entries)
  rw [cleaned, Display.clean_eq_self (still entry among)]
  rfl

namespace Validation

open Node

/-- What is shown of a value that a run rejected.  Its text consists of the rows of its layout, in
which every row but those that close a group shows a level.  The levels are those of the nodes of the
tree, in preorder: one for every leaf with its message, for every step that leads elsewhere with its
name, and for every group of other than one child with its sign, each as deep as there are nodes
above it that have one.  Below its root an outline lists the same levels, their texts without the
characters that would move a cursor, if the steps that lead elsewhere have names. -/
theorem outline_lists_layout [Display] {validation : Validation} (made : validation.MadeOf .any) {run : Run}
    (book : run.rulebook.MadeOf .any) (fresh : run.stack = {}) {v : Value} {root : Node Placed}
    {after : Run} (returned : (validation.validate v).runOn g run = (.ok (.rejected root), after))
    (named : ∀ m ∈ root.subtrees, m.Named) :
    let layout := root.rows 0
    let levels := layout.filterMap Row.level?
    root.print = Text.joined "\n" (layout.flatMap Row.lines) ∧
      (∀ row ∈ layout, row.level? = none → row.mark = .closing) ∧
      levels = root.descents.filterMap (Descent.level? 0) ∧
      root.descents.map (·.node) = root.subtrees ∧
      ∀ label, ∃ branches,
        (Outcome.rejected root).outline label = .mk (Display.clean label) .title branches ∧
        Outline.listingOf 0 branches = levels.map Entry.cleaned ∧
        ((∀ entry ∈ levels, ∀ c ∈ entry.text.toList, c.toNat ∉ Outline.cursorCodes) →
          Outline.listingOf 0 branches = levels) := by
  intro layout levels
  have solid : ∀ m ∈ root.subtrees, m.Solid := by
    cases (coherent_of_returned made book fresh returned).1 with
    | rejected solid => exact solid
  have listed : levels = root.descents.filterMap (Descent.level? 0) := entries_rows 0 root
  have shown : Outline.listingOf 0 root.outlines = levels.map Entry.cleaned := by
    rw [listed]
    exact listing_outlines 0 root named
  refine ⟨?_, closing_of_level 0 root solid, listed, node_descents root, fun label =>
    ⟨root.outlines, rfl, shown, fun still => ?_⟩⟩
  · rw [← lines_print, Text.joined_lines]
  · rw [shown, Entry.map_cleaned_eq_self still]

/-- A value that is refused with a message and misses a part. -/
def refusedTwice : Validation :=
  .object [{ hint := "odd", test := fun _ => pure false }]
    [.step .required [] (.property "name" Extract.nothing) (.object [] [] false false)] false false

theorem traceWith_refusedTwice (expand : TraceModel) (store : Store) :
    (refusedTwice.traceWith expand .null).runOn {} store =
      (.ok (.group .all [some ⟨.error, "odd", .null⟩]
        [.missing (.property "name" Extract.nothing)]), store) :=
  rfl

/-- What `refusedTwice` leaves. -/
def refusedTree : Node Placed :=
  let name : Segment := .property "name" Extract.nothing
  .path .this <| some <| .group .all [.leaf ⟨⟨.error, "odd", .null⟩, []⟩,
    .path ⟨name, []⟩ <| some <| .group .all [.leaf ⟨Leaf.required, [name]⟩]]

/-- The text and the outline of a value refused by `refusedTwice`. -/
theorem outline_lists_layout_of_refusedTwice :
    ((refusedTwice.validate .null).runOn {} {}).1 = .ok (.rejected refusedTree) ∧
      refusedTree.print = "and \x7b\n\todd\n\tname:\n\t\tis required\n\x7d" ∧
      ∃ branches, (Outcome.rejected refusedTree).outline "this" = .mk "this" .title branches ∧
        Outline.listingOf 0 branches = [⟨0, "and", .group⟩, ⟨1, "odd", .error⟩,
          ⟨1, "name", .path⟩, ⟨2, "is required", .error⟩] := by
  have made : refusedTwice.MadeOf .any := by
    simp [refusedTwice, MadeOf, AllMadeOf, GuardsMadeOf, Material.any]
  have book : ({} : Run).rulebook.MadeOf .any := by simp [Rulebook.MadeOf]
  have ran := (@validate_eq_outcome {} _ made {} (book.served Material.any_holdsFields) rfl .null).1
  rw [runOn_trace, traceWith_refusedTwice] at ran
  have returned := (Prod.eta ((refusedTwice.validate .null).runOn {} {})).symm
  rw [ran] at returned
  change (refusedTwice.validate .null).runOn {} {} = (.ok (.rejected refusedTree), _) at returned
  have named : ∀ m ∈ refusedTree.subtrees, m.Named := by
    simp [refusedTree, Node.subtrees, Node.subtreesBelow, Node.subtreesOf, Named, Via.isThis,
      Via.this, Via.name, Segment.name, Segment.isThis]
  obtain ⟨text, -, -, -, shown⟩ := outline_lists_layout made book rfl returned named
  obtain ⟨branches, root, listed, -⟩ := shown "this"
  exact ⟨ran, text.trans (by decide), branches, root.trans (by rfl), listed.trans (by decide)⟩

/-- A constraint that fails with a message, at a part that has a name. -/
def refusedAt (name message : String) : Validation :=
  .step .undefined [] (.custom (.str name) name Extract.itself)
    (.object [{ hint := message, test := fun _ => pure false }] [] false false)

/-- What `refusedAt` leaves. -/
def refusedTreeAt (name message : String) : Node Placed :=
  let part : Segment := .custom (.str name) name Extract.itself
  .path .this <| some <| .path ⟨part, []⟩ <| some <|
    .group .all [.leaf ⟨⟨.error, message, .null⟩, [part]⟩]

/-- The outline can differ from the text: it does not show what would move a cursor, and it does not
show a step without a name. -/
theorem levels_differ :
    let overwritten := refusedTreeAt "part" "a\rb"
    let unnamed := refusedTreeAt "" "odd"
    (((refusedAt "part" "a\rb").validate .null).runOn {} {}).1 = .ok (.rejected overwritten) ∧
      (overwritten.rows 0).filterMap Row.level? = [⟨0, "part", .path⟩, ⟨1, "a\rb", .error⟩] ∧
      Outline.listingOf 0 overwritten.outlines = [⟨0, "part", .path⟩, ⟨1, "ab", .error⟩] ∧
      (((refusedAt "" "odd").validate .null).runOn {} {}).1 = .ok (.rejected unnamed) ∧
      (unnamed.rows 0).filterMap Row.level? = [⟨0, "", .path⟩, ⟨1, "odd", .error⟩] ∧
      Outline.listingOf 0 unnamed.outlines = [⟨0, "odd", .error⟩] :=
  ⟨rfl, by decide, by decide, rfl, by decide, by decide⟩

end Validation

end PathRules
