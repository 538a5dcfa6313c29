import PathRules.Constraint.Basic
import PathRules.Proofs.Check

/-!
# Placeholders in messages

A message is made by replacing one placeholder after the other in the whole text, so that what
was put in for one is read again for the next ones.  It is compared with a single pass over the
hint, which puts in all texts at once and does not read them.  The two agree as long as putting
in texts brings about no placeholder that the hint does not have.
-/

namespace PathRules

namespace Text

/-- One pass from left to right, of which the first `skip` characters are passed over: the first
name of the table that stands here is replaced by its text, any other character is kept. -/
def substituteChars (table : List (List Char × List Char)) : (skip : Nat) → List Char → List Char
  | _, [] => []
  | skip + 1, _ :: cs => substituteChars table skip cs
  | 0, c :: cs =>
      match table.find? fun entry => entry.1.isPrefixOf (c :: cs) with
      | some (name, text) => text ++ substituteChars table (name.length - 1) cs
      | none => c :: substituteChars table 0 cs

/-- A table of texts, to be read character by character. -/
def chars (table : List (String × String)) : List (List Char × List Char) :=
  table.map fun entry => (entry.1.toList, entry.2.toList)

/-- All names of the table replaced by their texts at once. -/
def substituted (table : List (String × String)) (s : String) : String :=
  String.ofList (substituteChars (chars table) 0 s.toList)

/-- The number of places at which the name stands. -/
def occurrencesIn (name : List Char) : List Char → Nat
  | [] => 0
  | c :: cs => (if name.isPrefixOf (c :: cs) then 1 else 0) + occurrencesIn name cs

def occurrences (name s : String) : Nat := occurrencesIn name.toList s.toList

/-- Braces around a text without braces. -/
def IsPlaceholder (name : List Char) : Prop :=
  ∃ inner, name = '\x7b' :: inner ++ ['\x7d'] ∧ '\x7b' ∉ inner ∧ '\x7d' ∉ inner

variable {table : List (List Char × List Char)} {name text a b s : List Char}

theorem substituteChars_skip (skip : Nat) (s : List Char) :
    substituteChars table skip s = substituteChars table 0 (s.drop skip) := by
  induction skip generalizing s with
  | zero => rfl
  | succ skip ih =>
    cases s with
    | nil => rfl
    | cons c cs => rw [substituteChars, ih, List.drop_succ_cons]

/-- Replacing one name is a pass with a table of one entry. -/
theorem replaceChars_eq (skip : Nat) (s : List Char) :
    replaceChars name text skip s = substituteChars [(name, text)] skip s := by
  induction s generalizing skip with
  | nil => cases skip <;> rfl
  | cons c cs ih =>
    cases skip with
    | succ skip => exact ih skip
    | zero =>
      rw [replaceChars, substituteChars, List.find?_singleton]
      cases name.isPrefixOf (c :: cs) with
      | true => simp only [if_true, ih]
      | false => simp only [Bool.false_eq_true, if_false, ih]

/-- Texts up to the first of a character, and what follows it. -/
theorem append_cons_cancel {c : Char} {a' b' : List Char} (absent : c ∉ a) (absent' : c ∉ a')
    (same : a ++ c :: b = a' ++ c :: b') : a = a' ∧ b = b' := by
  induction a generalizing a' with
  | nil =>
    cases a' with
    | nil => exact ⟨rfl, (List.cons.inj same).2⟩
    | cons d a' =>
      obtain ⟨rfl, -⟩ := List.cons.inj same
      exact absurd List.mem_cons_self absent'
  | cons d a ih =>
    cases a' with
    | nil =>
      obtain ⟨rfl, -⟩ := List.cons.inj same
      exact absurd List.mem_cons_self absent
    | cons d' a' =>
      obtain ⟨rfl, tails⟩ := List.cons.inj same
      rw [List.mem_cons, not_or] at absent absent'
      obtain ⟨rfl, rfl⟩ := ih absent.2 absent'.2 tails
      exact ⟨rfl, rfl⟩

namespace IsPlaceholder

theorem ne_nil (h : IsPlaceholder name) : name ≠ [] := by
  obtain ⟨inner, rfl, -⟩ := h
  simp

/-- At any place at most one placeholder stands. -/
theorem eq_of_prefix {name' : List Char} (h : IsPlaceholder name) (h' : IsPlaceholder name')
    (stands : name <+: s) (stands' : name' <+: s) : name = name' := by
  obtain ⟨inner, rfl, -, closed⟩ := h
  obtain ⟨inner', rfl, -, closed'⟩ := h'
  obtain ⟨rest, rfl⟩ := stands
  obtain ⟨rest', same⟩ := stands'
  simp only [List.cons_append, List.append_assoc, List.nil_append, List.cons.injEq, true_and]
    at same
  rw [(append_cons_cancel closed' closed same).1]

/-- A placeholder stands only where a brace opens. -/
theorem head_eq (h : IsPlaceholder name) {c : Char} (stands : name <+: c :: s) : c = '\x7b' := by
  obtain ⟨inner, rfl, -⟩ := h
  rw [List.cons_append, List.cons_prefix_cons] at stands
  exact stands.1.symm

/-- What of a placeholder follows its opening brace opens no further one. -/
theorem notMem_tail (h : IsPlaceholder name) : '\x7b' ∉ name.tail := by
  obtain ⟨inner, rfl, opened, -⟩ := h
  simp [opened]

end IsPlaceholder

theorem occurrencesIn_le_append : occurrencesIn name b ≤ occurrencesIn name (a ++ b) := by
  induction a with
  | nil => exact Nat.le_refl _
  | cons c a ih => exact Nat.le_trans ih (Nat.le_add_left _ _)

/-- Where no brace opens no placeholder stands. -/
theorem occurrencesIn_append_of_notMem (h : IsPlaceholder name) (plain : '\x7b' ∉ a) :
    occurrencesIn name (a ++ b) = occurrencesIn name b := by
  induction a with
  | nil => rfl
  | cons c a ih =>
    rw [List.mem_cons, not_or] at plain
    have absent : ¬ name.isPrefixOf (c :: (a ++ b)) = true := fun stands =>
      plain.1 (h.head_eq (List.isPrefixOf_iff_prefix.mp stands)).symm
    rw [List.cons_append, occurrencesIn, if_neg absent, Nat.zero_add, ih plain.2]

/-- The places at which a placeholder stands in a text that begins with a placeholder. -/
theorem occurrencesIn_placeholder {name' : List Char} (h : IsPlaceholder name)
    (h' : IsPlaceholder name') :
    occurrencesIn name (name' ++ s) = (if name = name' then 1 else 0) + occurrencesIn name s := by
  have stands : (name.isPrefixOf (name' ++ s) = true) = (name = name') := by
    refine propext ⟨fun here => ?_, fun same => ?_⟩
    · exact h.eq_of_prefix h' (List.isPrefixOf_iff_prefix.mp here) (List.prefix_append _ _)
    · exact List.isPrefixOf_iff_prefix.mpr (same ▸ List.prefix_append _ _)
  have opened := h'.notMem_tail
  cases name' with
  | nil => exact absurd rfl h'.ne_nil
  | cons c tail =>
    rw [List.tail_cons] at opened
    rw [List.cons_append] at stands ⊢
    rw [occurrencesIn, occurrencesIn_append_of_notMem h opened]
    simp only [stands]

/-- A table of placeholders keeps what opens no brace. -/
theorem substituteChars_append_of_notMem (placeholders : ∀ entry ∈ table, IsPlaceholder entry.1)
    (plain : '\x7b' ∉ a) :
    substituteChars table 0 (a ++ b) = a ++ substituteChars table 0 b := by
  induction a with
  | nil => rfl
  | cons c a ih =>
    rw [List.mem_cons, not_or] at plain
    have absent : table.find? (fun entry => entry.1.isPrefixOf (c :: (a ++ b))) = none := by
      refine List.find?_eq_none.mpr fun entry member stands => ?_
      exact plain.1
        ((placeholders entry member).head_eq (List.isPrefixOf_iff_prefix.mp stands)).symm
    rw [List.cons_append, substituteChars, absent, ih plain.2, List.cons_append]

/-- A placeholder of the table is replaced by its text. -/
theorem substituteChars_found (placeholder : IsPlaceholder name)
    (found : table.find? (fun entry => entry.1.isPrefixOf (name ++ s)) = some (name, text)) :
    substituteChars table 0 (name ++ s) = text ++ substituteChars table 0 s := by
  cases name with
  | nil => exact absurd rfl placeholder.ne_nil
  | cons c tail =>
    rw [List.cons_append] at found ⊢
    simp only [substituteChars, found]
    rw [substituteChars_skip, List.length_cons, Nat.add_sub_cancel, List.drop_left]

/-- A placeholder that the table does not have is kept. -/
theorem substituteChars_missing (placeholders : ∀ entry ∈ table, IsPlaceholder entry.1)
    (placeholder : IsPlaceholder name)
    (missing : table.find? (fun entry => entry.1.isPrefixOf (name ++ s)) = none) :
    substituteChars table 0 (name ++ s) = name ++ substituteChars table 0 s := by
  have opened := placeholder.notMem_tail
  cases name with
  | nil => exact absurd rfl placeholder.ne_nil
  | cons c tail =>
    rw [List.tail_cons] at opened
    rw [List.cons_append] at missing ⊢
    simp only [substituteChars, missing]
    rw [substituteChars_append_of_notMem placeholders opened, List.cons_append]

/-- If a placeholder stands nowhere in the first part, replacing it leaves that part alone. -/
theorem substituteChars_singleton_append
    (absent : occurrencesIn name (a ++ b) = occurrencesIn name b) :
    substituteChars [(name, text)] 0 (a ++ b) = a ++ substituteChars [(name, text)] 0 b := by
  induction a with
  | nil => rfl
  | cons c a ih =>
    have more : occurrencesIn name b ≤ occurrencesIn name (a ++ b) := occurrencesIn_le_append
    rw [List.cons_append, occurrencesIn] at absent
    have notHere : name.isPrefixOf (c :: (a ++ b)) = false := by
      refine Bool.eq_false_iff.mpr fun here => ?_
      rw [here, if_pos rfl] at absent
      omega
    rw [notHere, if_neg Bool.false_ne_true, Nat.zero_add] at absent
    rw [List.cons_append, substituteChars, List.find?_singleton, notHere]
    simp only [Bool.false_eq_true, if_false, ih absent, List.cons_append]

/-- A character at which no name of the table stands is kept. -/
theorem substituteChars_cons {c : Char} {cs : List Char}
    (missing : table.find? (fun entry => entry.1.isPrefixOf (c :: cs)) = none) :
    substituteChars table 0 (c :: cs) = c :: substituteChars table 0 cs := by
  simp only [substituteChars, missing]

/-- If no further placeholder was brought about, none stands in the first part, nor do more than
before stand in the rest. -/
theorem substituteChars_of_none_new {count : Nat} (text : List Char)
    (le : count ≤ occurrencesIn name b) (none_new : occurrencesIn name (a ++ b) = count) :
    occurrencesIn name b = count ∧
      substituteChars [(name, text)] 0 (a ++ b) = a ++ substituteChars [(name, text)] 0 b := by
  have more : occurrencesIn name b ≤ occurrencesIn name (a ++ b) := occurrencesIn_le_append
  have last : occurrencesIn name b = count := Nat.le_antisymm (none_new ▸ more) le
  exact ⟨last, substituteChars_singleton_append (none_new.trans last.symm)⟩

/-- Induction along a pass, from one place it reads to the next one. -/
theorem pass_induction (placeholders : ∀ entry ∈ table, IsPlaceholder entry.1)
    {motive : List Char → Prop} (nil : motive [])
    (kept : ∀ c cs, table.find? (fun entry => entry.1.isPrefixOf (c :: cs)) = none → motive cs →
      motive (c :: cs))
    (put : ∀ name text rest, (name, text) ∈ table →
      table.find? (fun entry => entry.1.isPrefixOf (name ++ rest)) = some (name, text) →
      motive rest → motive (name ++ rest)) (s : List Char) : motive s := by
  induction size : s.length using Nat.strongRecOn generalizing s with
  | _ length ih =>
  subst size
  cases s with
  | nil => exact nil
  | cons c cs =>
  rcases found : table.find? (fun entry => entry.1.isPrefixOf (c :: cs)) with _ | ⟨name, text⟩
  · exact kept c cs found (ih _ (Nat.lt_succ_self cs.length) cs rfl)
  · have member := List.mem_of_find?_eq_some found
    have here := List.find?_some found
    obtain ⟨rest, same⟩ := List.isPrefixOf_iff_prefix.mp here
    have shorter : rest.length < (c :: cs).length := by
      have := List.length_pos_iff.mpr (placeholders _ member).ne_nil
      rw [← same, List.length_append]
      omega
    rw [← same] at found ⊢
    exact put name text rest member found (ih _ shorter rest rfl)

/-- Replacing a placeholder after a pass over a text is the same as a pass with the placeholder
in the table, unless the pass brought about a further one. -/
theorem substituteChars_snoc (text : List Char)
    (placeholders : ∀ entry ∈ table, IsPlaceholder entry.1) (placeholder : IsPlaceholder name)
    (new : name ∉ table.map Prod.fst) (s : List Char) :
    occurrencesIn name s ≤ occurrencesIn name (substituteChars table 0 s) ∧
      (occurrencesIn name (substituteChars table 0 s) = occurrencesIn name s →
        substituteChars [(name, text)] 0 (substituteChars table 0 s) =
          substituteChars (table ++ [(name, text)]) 0 s) := by
  have all : ∀ entry ∈ table ++ [(name, text)], IsPlaceholder entry.1 := fun entry member =>
    (List.mem_append.mp member).elim (placeholders entry) fun last =>
      List.mem_singleton.mp last ▸ placeholder
  induction s using pass_induction all with
  | nil => exact ⟨Nat.le_refl _, fun _ => rfl⟩
  | kept c cs missing ih =>
    obtain ⟨le, eq⟩ := ih
    have here : name.isPrefixOf (c :: cs) = false := by
      rw [List.find?_append, Option.or_eq_none_iff, List.find?_eq_none] at missing
      exact Bool.not_eq_true _ ▸ List.find?_eq_none.mp missing.2 _ List.mem_cons_self
    have before : occurrencesIn name (c :: cs) = occurrencesIn name cs := by
      rw [occurrencesIn, here, if_neg Bool.false_ne_true, Nat.zero_add]
    rw [substituteChars_cons missing, before]
    rw [List.find?_append, Option.or_eq_none_iff] at missing
    rw [substituteChars_cons missing.1]
    refine ⟨Nat.le_trans le (Nat.le_add_left _ _), fun none_new => ?_⟩
    obtain ⟨last, apart⟩ := substituteChars_of_none_new (a := [c]) text le none_new
    rw [← eq last]
    exact apart
  | put other put rest member found ih =>
    obtain ⟨le, eq⟩ := ih
    rw [substituteChars_found (all _ member) found]
    rw [List.find?_append] at found
    rcases earlier : table.find? (fun entry => entry.1.isPrefixOf (other ++ rest)) with _ | e
    · -- The new placeholder stands here: the first pass keeps it, to be replaced afterwards.
      rw [earlier, Option.none_or] at found
      obtain ⟨rfl, rfl⟩ := Prod.mk.inj (List.mem_singleton.mp (List.mem_of_find?_eq_some found))
      have here : ∀ more, (([(other, put)] : List (List Char × List Char)).find?
          fun entry => entry.1.isPrefixOf (other ++ more)) = some (other, put) := fun more => by
        rw [List.find?_singleton, List.isPrefixOf_iff_prefix.mpr (List.prefix_append _ _),
          if_pos rfl]
      rw [substituteChars_missing placeholders placeholder earlier,
        occurrencesIn_placeholder placeholder placeholder,
        occurrencesIn_placeholder placeholder placeholder]
      refine ⟨Nat.add_le_add_left le _, fun none_new => ?_⟩
      rw [substituteChars_found placeholder (here _), eq (Nat.add_left_cancel none_new)]
    · -- An entry of the table stands here: the first pass puts in its text.
      rw [earlier, Option.some_or, Option.some.injEq] at found
      subst found
      have differs : name ≠ other := fun same =>
        new (same ▸ List.mem_map_of_mem (List.mem_of_find?_eq_some earlier))
      rw [substituteChars_found (all _ member) earlier,
        occurrencesIn_placeholder placeholder (all _ member), if_neg differs, Nat.zero_add]
      refine ⟨Nat.le_trans le occurrencesIn_le_append, fun none_new => ?_⟩
      obtain ⟨last, apart⟩ := substituteChars_of_none_new text le none_new
      rw [apart, eq last]

/-- No brace is opened before the last one is closed. -/
def isFlat : List Char → Bool
  | [] => true
  | c :: cs => (c != '\x7b' || !(cs.takeWhile (· != '\x7d')).contains '\x7b') && isFlat cs

theorem isFlat_of_append (flat : isFlat (a ++ b) = true) : isFlat b = true := by
  induction a with
  | nil => exact flat
  | cons c a ih => exact ih (Bool.and_eq_true_iff.mp flat).2

/-- What follows an open brace is kept up to the brace that closes it, so a placeholder that stands
there afterwards stood there before. -/
theorem prefix_of_substituteChars (placeholders : ∀ entry ∈ table, IsPlaceholder entry.1)
    (placeholder : IsPlaceholder name) {cs : List Char}
    (opened : '\x7b' ∉ cs.takeWhile (· != '\x7d'))
    (stands : name <+: '\x7b' :: substituteChars table 0 cs) : name <+: '\x7b' :: cs := by
  obtain ⟨inner, rfl, -, closed⟩ := placeholder
  have kept : '\x7d' ∉ cs.takeWhile (· != '\x7d') := fun member => by
    simpa using List.all_eq_true.mp List.all_takeWhile _ member
  have split := List.takeWhile_append_dropWhile (p := (· != '\x7d')) (l := cs)
  generalize cs.takeWhile (· != '\x7d') = before at opened kept split
  rcases after : cs.dropWhile (· != '\x7d') with _ | ⟨c, rest⟩
  · rw [after] at split
    rw [← split, substituteChars_append_of_notMem placeholders opened] at stands
    rwa [← split]
  · have closing : c = '\x7d' := by
      have := List.head?_dropWhile_not (· != '\x7d') cs
      simpa [after] using this
    rw [after, closing] at split
    have whole : substituteChars table 0 cs = before ++ '\x7d' :: substituteChars table 0 rest := by
      rw [← split, substituteChars_append_of_notMem placeholders opened,
        ← List.singleton_append, substituteChars_append_of_notMem placeholders (by decide),
        List.singleton_append]
    obtain ⟨more, same⟩ := stands
    simp only [whole, List.cons_append, List.append_assoc, List.nil_append, List.cons.injEq,
      true_and] at same
    obtain ⟨rfl, -⟩ := append_cons_cancel closed kept same
    exact ⟨rest, by rw [← split]; simp⟩

/-- Into a flat text, texts that open no brace bring no placeholder that is not there. -/
theorem occurrencesIn_substituteChars_le (placeholders : ∀ entry ∈ table, IsPlaceholder entry.1)
    (plain : ∀ entry ∈ table, '\x7b' ∉ entry.2) (placeholder : IsPlaceholder name)
    (flat : isFlat s = true) :
    occurrencesIn name (substituteChars table 0 s) ≤ occurrencesIn name s := by
  induction s using pass_induction placeholders with
  | nil => exact Nat.le_refl _
  | kept c cs missing ih =>
    have later := ih (isFlat_of_append (a := [c]) flat)
    rw [substituteChars_cons missing, occurrencesIn, occurrencesIn]
    by_cases stands : name <+: c :: substituteChars table 0 cs
    · obtain rfl := placeholder.head_eq stands
      have opened : '\x7b' ∉ cs.takeWhile (· != '\x7d') := by
        simpa [isFlat] using (Bool.and_eq_true_iff.mp flat).1
      have before := prefix_of_substituteChars placeholders placeholder opened stands
      rw [if_pos (List.isPrefixOf_iff_prefix.mpr stands),
        if_pos (List.isPrefixOf_iff_prefix.mpr before)]
      exact Nat.add_le_add_left later 1
    · rw [if_neg fun here => stands (List.isPrefixOf_iff_prefix.mp here), Nat.zero_add]
      exact Nat.le_trans later (Nat.le_add_left _ _)
  | put other put rest member found ih =>
    rw [substituteChars_found (placeholders _ member) found,
      occurrencesIn_append_of_notMem placeholder (plain _ member)]
    exact Nat.le_trans (ih (isFlat_of_append flat)) occurrencesIn_le_append

section Strings

variable {table : List (String × String)} {name s : String}

theorem forall_mem_chars {P : List Char × List Char → Prop} :
    (∀ entry ∈ chars table, P entry) ↔ ∀ e ∈ table, P (e.1.toList, e.2.toList) :=
  List.forall_mem_map

theorem notMem_names_chars (new : name ∉ table.map Prod.fst) :
    name.toList ∉ (chars table).map Prod.fst := by
  intro member
  simp only [chars, List.map_map, List.mem_map, Function.comp_apply] at member
  obtain ⟨e, there, same⟩ := member
  exact new (String.toList_injective same ▸ List.mem_map_of_mem there)

/-- Replacing a placeholder in a whole text into which the table was put at once. -/
theorem replaceAll_substituted (text : String)
    (placeholders : ∀ e ∈ table, IsPlaceholder e.1.toList) (placeholder : IsPlaceholder name.toList)
    (new : name ∉ table.map Prod.fst)
    (same : occurrences name (substituted table s) = occurrences name s) :
    replaceAll name text (substituted table s) = substituted (table ++ [(name, text)]) s := by
  unfold occurrences substituted at same
  rw [String.toList_ofList] at same
  have whole : chars (table ++ [(name, text)]) = chars table ++ [(name.toList, text.toList)] :=
    List.map_append
  rw [replaceAll, substituted, substituted, String.toList_ofList, replaceChars_eq, whole,
    (substituteChars_snoc _ (forall_mem_chars (P := fun e => IsPlaceholder e.1) |>.mpr placeholders)
      placeholder (notMem_names_chars new) s.toList).2 same]

/-- Texts that open no brace, put into a flat text, bring about no placeholder. -/
theorem occurrences_substituted (placeholders : ∀ e ∈ table, IsPlaceholder e.1.toList)
    (plain : ∀ e ∈ table, '\x7b' ∉ e.2.toList) (placeholder : IsPlaceholder name.toList)
    (new : name ∉ table.map Prod.fst) (flat : isFlat s.toList = true) :
    occurrences name (substituted table s) = occurrences name s := by
  unfold occurrences substituted
  rw [String.toList_ofList]
  have all : ∀ e ∈ chars table, IsPlaceholder e.1 := forall_mem_chars.mpr placeholders
  have texts : ∀ e ∈ chars table, '\x7b' ∉ e.2 := forall_mem_chars.mpr plain
  exact Nat.le_antisymm (occurrencesIn_substituteChars_le all texts placeholder flat)
    (substituteChars_snoc [] all placeholder (notMem_names_chars new) s.toList).1

end Strings

end Text

namespace Constraint

/-- What stands for the template value of an index. -/
def placeholder (index : Nat) : String := "\x7b" ++ toString index ++ "\x7d"

/-- A template value with its index, as what its placeholder stands for. -/
def entry : String × Nat → String × String
  | (text, index) => (placeholder index, text)

/-- What the placeholders of a constraint stand for, for a value shown as `shown`. -/
def table (c : Constraint) (shown : String) : List (String × String) :=
  ("\x7bvalue\x7d", shown) :: c.templates.zipIdx.map entry

/-- The hint with the value and the template values put in at once. -/
def substituted (c : Constraint) (shown : String) : String :=
  Text.substituted (c.table shown) c.hint

/-- No text put in brings about a placeholder that is still to be replaced: with the value and the
template values before it put in at once, each placeholder stands as often as in the hint. -/
def Undisturbed (c : Constraint) (shown : String) : Prop :=
  ∀ index < c.templates.length,
    Text.occurrences (placeholder index)
        (Text.substituted ((c.table shown).take (index + 1)) c.hint) =
      Text.occurrences (placeholder index) c.hint

instance (c : Constraint) (shown : String) : Decidable (c.Undisturbed shown) :=
  inferInstanceAs (Decidable (∀ index < c.templates.length, _ = _))

theorem isDigit_of_mem_index {index : Nat} {c : Char} (member : c ∈ (toString index).toList) :
    c.isDigit = true := by
  rw [Nat.toString_eq_ofList_toDigits, String.toList_ofList] at member
  exact Nat.isDigit_of_mem_toDigits (by decide) (by decide) member

theorem toList_placeholder (index : Nat) :
    (placeholder index).toList = '\x7b' :: (toString index).toList ++ ['\x7d'] := by
  simp [placeholder]

theorem isPlaceholder_placeholder (index : Nat) :
    Text.IsPlaceholder (placeholder index).toList := by
  refine ⟨(toString index).toList, toList_placeholder index, fun opened => ?_, fun closed => ?_⟩
  · exact absurd (isDigit_of_mem_index opened) (by decide)
  · exact absurd (isDigit_of_mem_index closed) (by decide)

theorem isPlaceholder_value : Text.IsPlaceholder "\x7bvalue\x7d".toList :=
  ⟨"value".toList, by decide, by decide, by decide⟩

theorem placeholder_injective {index index' : Nat} (same : placeholder index = placeholder index') :
    index = index' := by
  have lists := congrArg String.toList same
  rw [toList_placeholder, toList_placeholder] at lists
  have digits := List.cons.inj (List.append_cancel_right lists) |>.2
  simp only [Nat.toString_eq_ofList_toDigits, String.toList_ofList] at digits
  rw [← Nat.ofDigitChars_ten_toDigits (n := index), digits, Nat.ofDigitChars_ten_toDigits]

theorem placeholder_ne_value (index : Nat) : placeholder index ≠ "\x7bvalue\x7d" := by
  intro same
  have lists := congrArg String.toList same
  have value : "\x7bvalue\x7d".toList = '\x7b' :: "value".toList ++ ['\x7d'] := by decide
  rw [toList_placeholder, value] at lists
  have digits := List.cons.inj (List.append_cancel_right lists) |>.2
  have member : 'v' ∈ (toString index).toList := by
    rw [digits]
    decide
  exact absurd (isDigit_of_mem_index member) (by decide)

/-- Every name of a table is a placeholder. -/
theorem isPlaceholder_of_mem_table {c : Constraint} {shown : String} {e : String × String}
    (member : e ∈ c.table shown) : Text.IsPlaceholder e.1.toList := by
  rcases List.mem_cons.mp member with rfl | member
  · exact isPlaceholder_value
  · obtain ⟨⟨text, index⟩, -, rfl⟩ := List.mem_map.mp member
    exact isPlaceholder_placeholder index

/-- The placeholder of an index is not among the names that come before it. -/
theorem placeholder_notMem_take {c : Constraint} {shown : String} (index : Nat) :
    placeholder index ∉ ((c.table shown).take (index + 1)).map Prod.fst := by
  intro member
  rw [table, List.take_succ_cons, List.map_cons, List.mem_cons, List.map_take, List.map_map]
    at member
  rcases member with value | member
  · exact placeholder_ne_value index value
  · obtain ⟨k, lt, same⟩ := List.mem_take_iff_getElem.mp member
    simp only [List.getElem_map, List.getElem_zipIdx, Function.comp_apply, entry] at same
    have := placeholder_injective same
    omega

/-- Texts that open no brace, put into a hint that opens no brace within braces, bring about no
placeholder. -/
theorem undisturbed_of_isFlat {c : Constraint} {shown : String}
    (flat : Text.isFlat c.hint.toList = true) (value : '\x7b' ∉ shown.toList)
    (templates : ∀ text ∈ c.templates, '\x7b' ∉ text.toList) : c.Undisturbed shown := by
  intro index _
  have known : ∀ e ∈ (c.table shown).take (index + 1), e ∈ c.table shown := fun _ =>
    List.mem_of_mem_take
  refine Text.occurrences_substituted (fun e member => isPlaceholder_of_mem_table (known e member))
    (fun e member => ?_) (isPlaceholder_placeholder index) (placeholder_notMem_take index) flat
  rcases List.mem_cons.mp (known e member) with rfl | member
  · exact value
  · obtain ⟨⟨text, k⟩, there, rfl⟩ := List.mem_map.mp member
    exact templates text (List.fst_mem_of_mem_zipIdx there)

/-- Putting in the template values one after the other, from a text into which the earlier ones
were put at once. -/
theorem fillFrom_substituted {entries : List (String × String)} {index : Nat} {hint : String}
    (texts : List String) (placeholders : ∀ e ∈ entries, Text.IsPlaceholder e.1.toList)
    (earlier : ∀ later, index ≤ later → placeholder later ∉ entries.map Prod.fst)
    (same : ∀ k < texts.length,
      Text.occurrences (placeholder (index + k))
          (Text.substituted (entries ++ ((texts.zipIdx index).map entry).take k) hint) =
        Text.occurrences (placeholder (index + k)) hint) :
    fillFrom index texts (Text.substituted entries hint) =
      Text.substituted (entries ++ (texts.zipIdx index).map entry) hint := by
  induction texts generalizing entries index with
  | nil => rw [fillFrom, List.zipIdx_nil, List.map_nil, List.append_nil]
  | cons text texts ih =>
    have first := same 0 (Nat.succ_pos _)
    rw [List.take_zero, List.append_nil, Nat.add_zero] at first
    have step := Text.replaceAll_substituted text placeholders
      (isPlaceholder_placeholder index) (earlier index (Nat.le_refl _)) first
    have one : fillFrom index (text :: texts) (Text.substituted entries hint) =
        fillFrom (index + 1) texts (Text.substituted (entries ++ [entry (text, index)]) hint) :=
      congrArg (fillFrom (index + 1) texts) step
    rw [one, List.zipIdx_cons, List.map_cons, List.append_cons entries _ (List.map _ _)]
    refine ih (fun e member => ?_) (fun later le member => ?_) fun k lt => ?_
    · rcases List.mem_append.mp member with member | member
      · exact placeholders e member
      · rw [List.mem_singleton.mp member]
        exact isPlaceholder_placeholder index
    · rw [List.map_append, List.mem_append] at member
      rcases member with member | member
      · exact earlier later (Nat.le_of_succ_le le) member
      · have := placeholder_injective (List.mem_singleton.mp member)
        omega
    · have next := same (k + 1) (Nat.succ_lt_succ lt)
      rw [List.zipIdx_cons, List.map_cons, List.take_succ_cons, ← Nat.add_assoc] at next
      rwa [Nat.add_right_comm, List.append_cons] at next

/-- A message is the hint with all texts put in at once, none of which is read. -/
theorem fill_eq_substituted {c : Constraint} {shown : String} (h : c.Undisturbed shown) :
    c.fill shown = c.substituted shown := by
  have value : Text.replaceAll "\x7bvalue\x7d" shown c.hint =
      Text.substituted [("\x7bvalue\x7d", shown)] c.hint := by
    rw [Text.replaceAll, Text.replaceChars_eq]
    rfl
  unfold fill substituted table
  rw [value]
  refine fillFrom_substituted c.templates (fun e member => ?_) (fun later _ member => ?_)
    fun index lt => ?_
  · rw [List.mem_singleton.mp member]
    exact isPlaceholder_value
  · exact placeholder_ne_value later (List.mem_singleton.mp member)
  · rw [Nat.zero_add]
    exact h index lt

/-- The message for a value is the hint in which, in one pass from left to right, the value stands
for its placeholder and each template value for its own, whatever they contain; everything else is
kept, and what was put in is not read again.  The condition is that no text that is put in brings
about a further placeholder, alone or together with what it stands next to.  A value that cannot
be shown has no message. -/
theorem render_eq_substituted {g : ObjectGraph} {c : Constraint} {v : Value}
    (undisturbed : ∀ shown, v.shown? g = some shown → c.Undisturbed shown) (store : Store) :
    (c.render v).runOn g store =
      (match v.shown? g with
        | some shown => .ok (c.substituted shown)
        | none => .error .endless, store) := by
  unfold render
  rw [Check.runOn_bind, Check.runOn_read]
  cases written : v.shown? g with
  | none =>
    simp only [written]
    rfl
  | some shown =>
    simp only [written, fill_eq_substituted (undisturbed shown written), Check.runOn_pure]

/-- Texts with braces that are no placeholders here are put in as they are. -/
theorem render_eq_substituted_of_braces :
    let c : Constraint :=
      { hint := "\x7bvalue\x7d \x7bx\x7d \x7b0\x7d, \x7b1\x7d"
        templates := ["a\x7b2\x7d", "\x7bvalue\x7d"]
        test := fun _ => pure false }
    (∀ shown, (Value.str "\x7b\x7d").shown? {} = some shown → c.Undisturbed shown) ∧
      (c.render (.str "\x7b\x7d")).runOn {} {} =
        (.ok "\x7b\x7d \x7bx\x7d a\x7b2\x7d, \x7bvalue\x7d", {}) := by
  intro c
  have undisturbed : ∀ shown, (Value.str "\x7b\x7d").shown? {} = some shown →
      c.Undisturbed shown := by
    intro shown written
    obtain rfl : "\x7b\x7d" = shown := Option.some.inj written
    decide
  have filled : c.substituted "\x7b\x7d" =
      "\x7b\x7d \x7bx\x7d a\x7b2\x7d, \x7bvalue\x7d" := by decide
  exact ⟨undisturbed, filled ▸ render_eq_substituted undisturbed {}⟩

/-- A checked text that reads like the placeholder of a template value is not shown: the template
value takes its place. -/
theorem render_value_as_placeholder :
    let c : Constraint :=
      { hint := "\x7bvalue\x7d", templates := ["x"], test := fun _ => pure false }
    (Value.str "\x7b0\x7d").shown? {} = some "\x7b0\x7d" ∧
      c.substituted "\x7b0\x7d" = "\x7b0\x7d" ∧
      (c.render (.str "\x7b0\x7d")).runOn {} {} = (.ok "x", {}) := by
  refine ⟨rfl, by decide, ?_⟩
  rfl

end Constraint

end PathRules
