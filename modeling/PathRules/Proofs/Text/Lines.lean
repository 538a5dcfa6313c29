import Mathlib.Data.List.Basic
import PathRules.Text.Lines

/-!
# Lines of texts

Splitting a text at its line feeds and joining the lines again are inverse to each other.  The
lines of joined texts are the lines of the texts one after the other, so a tab put before every
line of a text is seen in each of its lines, also where the text was put together from others.
-/

namespace PathRules.Text

theorem splitChars_eq_splitOn (separator : Char) (cs : List Char) :
    splitChars separator cs = cs.splitOn separator := by
  induction cs with
  | nil => rfl
  | cons c cs ih =>
    have nonempty : splitChars separator cs ≠ [] := ih ▸ List.splitOn_ne_nil separator cs
    rw [splitChars, List.splitOn_cons_eq_if_modifyHead, ← ih]
    cases h : splitChars separator cs with
    | nil => exact absurd h nonempty
    | cons piece rest => rfl

theorem pieces_ne_nil (separator : Char) (s : String) : pieces separator s ≠ [] := by
  simp [pieces, splitChars_eq_splitOn, List.splitOn_ne_nil]

theorem lines_eq (s : String) : lines s = (s.toList.splitOn '\n').map String.ofList := by
  rw [lines, pieces, splitChars_eq_splitOn]

theorem lines_ne_nil (s : String) : lines s ≠ [] := pieces_ne_nil '\n' s

theorem newline_notMem_splitOn {cs line : List Char} (h : line ∈ cs.splitOn '\n') :
    '\n' ∉ line := by
  induction cs generalizing line with
  | nil => simp_all
  | cons c cs ih =>
    rw [List.splitOn_cons_eq_if_modifyHead] at h
    split at h
    · rcases List.mem_cons.mp h with rfl | later
      · exact List.not_mem_nil
      · exact ih later
    · next other =>
      have differs : '\n' ≠ c := fun same => other (beq_iff_eq.mpr same.symm)
      cases parts : cs.splitOn '\n' with
      | nil => exact absurd parts (List.splitOn_ne_nil _ _)
      | cons first rest =>
        rw [parts, List.modifyHead_cons] at h
        rcases List.mem_cons.mp h with rfl | later
        · exact List.not_mem_cons_of_ne_of_not_mem differs (ih (parts ▸ List.mem_cons_self))
        · exact ih (parts ▸ List.mem_cons_of_mem _ later)

theorem newline_notMem_lines {s line : String} (h : line ∈ lines s) : '\n' ∉ line.toList := by
  rw [lines_eq] at h
  obtain ⟨chars, mem, rfl⟩ := List.mem_map.mp h
  simpa using newline_notMem_splitOn mem

/-- A text without line feeds is its only line. -/
theorem lines_of_newline_notMem {s : String} (h : '\n' ∉ s.toList) : lines s = [s] := by
  simp [lines_eq, List.splitOn_eq_singleton h]

theorem joined_lines (s : String) : joined "\n" (lines s) = s := by
  rw [← String.toList_inj, joined, String.toList_intercalate, lines_eq, List.map_map]
  simp [Function.comp_def, List.intercalate_splitOn]

theorem lines_append_newline (s t : String) : lines (s ++ "\n" ++ t) = lines s ++ lines t := by
  simp [lines_eq, List.splitOn_append_cons_self]

/-- The lines of joined texts are the lines of the texts. -/
theorem lines_joined (texts : List String) (nonempty : texts ≠ []) :
    lines (joined "\n" texts) = texts.flatMap lines := by
  induction texts with
  | nil => exact absurd rfl nonempty
  | cons text texts ih =>
    cases texts with
    | nil => simp [joined]
    | cons next rest =>
      rw [joined, String.intercalate_cons_cons, lines_append_newline, ← joined,
        ih (List.cons_ne_nil _ _)]
      rfl

/-- Indenting a text puts a tab before each of its lines. -/
theorem lines_indented (s : String) : lines (indented s) = (lines s).map ("\t" ++ ·) := by
  have whole : ∀ line ∈ lines s, lines ("\t" ++ line) = [("\t" ++ ·) line] := fun line mem =>
    lines_of_newline_notMem (by simpa using newline_notMem_lines mem)
  rw [indented, lines_joined _ (by simpa using lines_ne_nil s), List.flatMap_map,
    List.flatMap_congr whole, ← List.map_eq_flatMap]

/-! ## Tabs -/

def tabs (count : Nat) : String := String.ofList (List.replicate count '\t')

theorem tabs_zero : tabs 0 = "" := rfl

theorem tabs_succ (count : Nat) : tabs (count + 1) = tabs count ++ "\t" := by
  simp [tabs, List.replicate_succ']

end PathRules.Text
