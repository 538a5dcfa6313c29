import PathRules.Proofs.Text.Lines
import PathRules.Run.Validate

/-!
# What is within reach of a value

`ObjectGraph.within` lists the values that fields and elements lead to.  It is closed: what a
value on the list has for a field, or yields when it is iterated, is on the list again, or it is
bare and leads nowhere, such as a character.
-/

namespace PathRules

namespace Value

theorem mem_contents (v : Value) : v ∈ v.contents := by
  cases v <;> exact List.mem_cons_self

theorem mem_contentsOf {x : Value} {items : List Value} :
    x ∈ contentsOf items ↔ ∃ v ∈ items, x ∈ v.contents := by
  induction items with
  | nil => simp [contentsOf]
  | cons v items ih => simp [contentsOf, ih]

/-- What is written in a value: the value itself, or something in the rest of its contents. -/
theorem contents_of_rest {v x y : Value} {rest : List Value} (whole : v.contents = v :: rest)
    (h : y ∈ v.contents) (hx : x ∈ y.contents) (inRest : y ∈ rest → x ∈ rest) :
    x ∈ v.contents := by
  rcases List.mem_cons.mp (whole ▸ h) with rfl | deeper
  · exact hx
  · exact whole ▸ List.mem_cons_of_mem v (inRest deeper)

mutual

/-- What is written in a part of a value is written in the value. -/
theorem contents_trans {x y : Value} : (v : Value) → y ∈ v.contents → x ∈ y.contents →
    x ∈ v.contents
  | .list items, h, hx => contents_of_rest rfl h hx fun deeper => contentsOf_trans items deeper hx
  | .tuple items, h, hx => contents_of_rest rfl h hx fun deeper => contentsOf_trans items deeper hx
  | .set items, h, hx => contents_of_rest rfl h hx fun deeper => contentsOf_trans items deeper hx
  | .map pairs, h, hx =>
    contents_of_rest rfl h hx fun deeper => contentsOfPairs_trans pairs deeper hx
  | .entry key value, h, hx => by
    refine contents_of_rest rfl h hx fun deeper => List.mem_append.mpr ?_
    exact (List.mem_append.mp deeper).imp (contents_trans key · hx) (contents_trans value · hx)
  | .null, h, hx | .bool _, h, hx | .int _, h, hx | .real _, h, hx | .str _, h, hx
  | .source _, h, hx | .object _, h, hx => List.mem_singleton.mp h ▸ hx
termination_by structural v => v

theorem contentsOf_trans {x y : Value} : (items : List Value) → y ∈ contentsOf items →
    x ∈ y.contents → x ∈ contentsOf items
  | [], h, _ => nomatch h
  | v :: items, h, hx =>
    List.mem_append.mpr
      ((List.mem_append.mp h).imp (contents_trans v · hx) (contentsOf_trans items · hx))
termination_by structural items => items

theorem contentsOfPairs_trans {x y : Value} : (pairs : List (Value × Value)) →
    y ∈ contentsOfPairs pairs → x ∈ y.contents → x ∈ contentsOfPairs pairs
  | [], h, _ => nomatch h
  | (key, value) :: pairs, h, hx => by
    rw [contentsOfPairs, List.append_assoc, List.mem_append, List.mem_append] at h ⊢
    exact h.imp (contents_trans key · hx)
      (Or.imp (contents_trans value · hx) (contentsOfPairs_trans pairs · hx))
termination_by structural pairs => pairs

end

theorem mem_contentsOf_of_mem {v : Value} {items : List Value} (h : v ∈ items) :
    v ∈ contentsOf items :=
  mem_contentsOf.mpr ⟨v, h, mem_contents v⟩

theorem key_mem_contentsOfPairs {pair : Value × Value} {pairs : List (Value × Value)}
    (h : pair ∈ pairs) : pair.1 ∈ contentsOfPairs pairs := by
  induction pairs with
  | nil => cases h
  | cons first pairs ih =>
    obtain ⟨key, value⟩ := first
    rw [contentsOfPairs, List.append_assoc, List.mem_append, List.mem_append]
    rcases List.mem_cons.mp h with rfl | later
    · exact .inl (mem_contents _)
    · exact .inr (.inr (ih later))

/-- A value that no attribute can be read from. -/
def Bare (g : ObjectGraph) (v : Value) : Prop := ∀ name a, v.attr g name ≠ .ok a

theorem bare_str (g : ObjectGraph) (s : String) : (Value.str s).Bare g := fun _ _ => nofun

theorem bare_tuple (g : ObjectGraph) (items : List Value) : (Value.tuple items).Bare g :=
  fun _ _ => nofun

theorem Bare.followAttributes {g : ObjectGraph} {v : Value} (bare : v.Bare g) (dotted : String)
    (a : Value) : v.followAttributes g dotted ≠ .ok a := by
  unfold Value.followAttributes
  cases names : Text.pieces '.' dotted with
  | nil => exact absurd names (Text.pieces_ne_nil '.' dotted)
  | cons name names =>
    rw [List.foldlM_cons]
    cases read : v.attr g name with
    | error fault => nofun
    | ok part => exact absurd read (bare name part)

end Value

namespace ObjectGraph

variable {g : ObjectGraph} {root v a : Value} {sources : List (List Value)}

theorem mem_within : a ∈ g.within root sources ↔
    a ∈ [.int 0, .int 1, .real (.finite false 0 0)] ++ (List.range g.objects.size).map .object ∨
      ∃ v ∈ root :: g.objects.toList.flatMap (·.fields.map (·.2)) ++ sources.flatten,
        a ∈ v.contents := by
  rw [within, List.mem_append, Value.mem_contentsOf]

theorem within_root : root ∈ g.within root sources :=
  mem_within.mpr (.inr ⟨root, by simp, root.mem_contents⟩)

/-- What is written in a value within reach is within reach. -/
theorem within_contents (h : v ∈ g.within root sources) (part : a ∈ v.contents) :
    a ∈ g.within root sources := by
  rcases mem_within.mp h with given | ⟨w, listed, written⟩
  · have single : v.contents = [v] := by
      rcases List.mem_append.mp given with number | object
      · simp only [List.mem_cons, List.not_mem_nil, or_false] at number
        rcases number with rfl | rfl | rfl <;> rfl
      · obtain ⟨ref, -, rfl⟩ := List.mem_map.mp object
        rfl
    rw [single, List.mem_singleton] at part
    exact part ▸ h
  · exact mem_within.mpr (.inr ⟨w, listed, Value.contents_trans w written part⟩)

theorem within_field {ref : Nat} {o : Object} {name : String} (found : g.object? ref = some o)
    (field : o.fields.lookup name = some a) : a ∈ g.within root sources := by
  have listed : o ∈ g.objects.toList := by
    rw [object?] at found
    exact Array.mem_def.mp (Array.mem_of_getElem? found)
  obtain ⟨before, after, fields, -⟩ := List.lookup_eq_some_iff.mp field
  refine mem_within.mpr (.inr ⟨a, ?_, a.mem_contents⟩)
  refine List.mem_append_left _ (List.mem_cons_of_mem _ (List.mem_flatMap.mpr ⟨o, listed, ?_⟩))
  simp [fields]

theorem within_number {x : Value} (h : x ∈ [Value.int 0, .int 1, .real (.finite false 0 0)]) :
    x ∈ g.within root sources :=
  mem_within.mpr (.inl (List.mem_append_left _ h))

/-- What a whole number has for an attribute is a number within reach. -/
theorem within_int_attr {n : Int} {name : String} (h : Value.int n ∈ g.within root sources)
    (found : (if name == "real" || name == "numerator" then Except.ok (.int n)
      else if name == "imag" then .ok (.int 0)
      else if name == "denominator" then .ok (.int 1)
      else .error Fault.missingAttribute) = .ok a) : a ∈ g.within root sources := by
  split at found
  · cases found
    exact h
  · split at found
    · cases found
      exact within_number (by simp)
    · split at found
      · cases found
        exact within_number (by simp)
      · cases found

/-- What a value within reach has for an attribute is within reach. -/
theorem within_attr {name : String} (h : v ∈ g.within root sources)
    (found : v.attr g name = .ok a) : a ∈ g.within root sources := by
  cases v with
  | object ref =>
    simp only [Value.attr] at found
    split at found
    · next value field =>
      cases found
      obtain ⟨o, here, there⟩ := Option.bind_eq_some_iff.mp field
      exact within_field here there
    · cases found
  | entry key value =>
    simp only [Value.attr] at found
    split at found
    · cases found
      refine within_contents h (List.mem_cons_of_mem _ (List.mem_append_left _ ?_))
      exact a.mem_contents
    · split at found
      · cases found
        refine within_contents h (List.mem_cons_of_mem _ (List.mem_append_right _ ?_))
        exact a.mem_contents
      · cases found
  | real x =>
    simp only [Value.attr] at found
    split at found
    · cases found
      exact h
    · split at found
      · cases found
        exact within_number (by simp)
      · cases found
  | int n => exact within_int_attr h found
  | bool b =>
    refine within_int_attr (n := if b then 1 else 0) (within_number ?_) found
    cases b <;> simp
  | _ => cases found

/-- What a value within reach has for a field, given by its dotted name, is within reach. -/
theorem within_followAttributes {dotted : String} (h : v ∈ g.within root sources)
    (found : v.followAttributes g dotted = .ok a) : a ∈ g.within root sources := by
  unfold Value.followAttributes at found
  generalize Text.pieces '.' dotted = names at found
  induction names generalizing v with
  | nil =>
    cases found
    exact h
  | cons name names ih =>
    rw [List.foldlM_cons] at found
    cases part : v.attr g name with
    | error fault =>
      rw [part] at found
      cases found
    | ok b =>
      rw [part] at found
      exact ih (within_attr h part) found

/-- What a value within reach yields is within reach or leads nowhere. -/
theorem within_items {items : List Value} (h : v ∈ g.within root sources)
    (found : v.items? g = some items) (member : a ∈ items) :
    a ∈ g.within root sources ∨ a.Bare g := by
  cases v with
  | list elements | tuple elements | set elements =>
    cases found
    exact .inl (within_contents h
      (List.mem_cons_of_mem _ (Value.mem_contentsOf_of_mem member)))
  | entry key value =>
    cases found
    refine .inl (within_contents h (List.mem_cons_of_mem _ (List.mem_append.mpr ?_)))
    rcases List.mem_cons.mp member with rfl | last
    · exact .inl a.mem_contents
    · exact .inr (List.mem_singleton.mp last ▸ a.mem_contents)
  | map pairs =>
    cases found
    obtain ⟨pair, listed, rfl⟩ := List.mem_map.mp member
    exact .inl (within_contents h
      (List.mem_cons_of_mem _ (Value.key_mem_contentsOfPairs listed)))
  | str s =>
    cases found
    obtain ⟨c, -, rfl⟩ := List.mem_map.mp member
    exact .inr (Value.bare_str g _)
  | object ref =>
    simp only [Value.items?] at found
    obtain ⟨o, -, fields⟩ := Option.bind_eq_some_iff.mp found
    split at fields
    · cases fields
      obtain ⟨field, -, rfl⟩ := List.mem_map.mp member
      exact .inr (Value.bare_tuple g _)
    · cases fields
  | _ => cases found

/-- What a source held at the start is within reach. -/
theorem within_source {number : Nat} {held : List Value} (source : sources[number]? = some held)
    (member : a ∈ held) : a ∈ g.within root sources := by
  refine mem_within.mpr (.inr ⟨a, List.mem_append_right _ ?_, a.mem_contents⟩)
  exact List.mem_flatten.mpr ⟨held, List.mem_of_getElem? source, member⟩

end ObjectGraph

end PathRules
