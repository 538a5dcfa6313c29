import Mathlib.Data.List.Forall2
import PathRules.Segment.Basic

/-!
# A value is the same as itself

`Value.same` compares objects first, so that it holds between a value and itself even where the
value is not a number.  Segments and data paths are one key with themselves for the same reason.
-/

namespace PathRules

namespace Value

theorem sameNumber_refl (x : Number) : sameNumber x x = true := by
  cases x with
  | nan tag => simp [sameNumber]
  | finite negative mantissa exponent => simp [sameNumber, Number.compare?]
  | infinite negative => simp [sameNumber, Number.compare?]

variable {objects : Nat → Nat → Bool}

mutual

theorem sameWith_refl (h : ∀ i, objects i i = true) : (v : Value) →
    sameWith objects v v = true
  | .null => rfl
  | .bool b => sameNumber_refl (.ofInt (if b then 1 else 0))
  | .int n => sameNumber_refl (.ofInt n)
  | .real x => sameNumber_refl x
  | .str s => by simp [sameWith]
  | .list items => sameItems_refl h items
  | .tuple items => sameItems_refl h items
  | .entry key value => by simp [sameWith, tupleItems?, sameWith_refl h key, sameWith_refl h value]
  | .map pairs => by simp [sameWith, samePairs_refl h pairs pairs fun _ => id]
  | .set items => by simp [sameWith, sameMembers_refl h items items fun _ => id]
  | .source number => by simp [sameWith]
  | .object ref => h ref
termination_by structural v => v

theorem sameItems_refl (h : ∀ i, objects i i = true) : (items : List Value) →
    sameItems objects items items = true
  | [] => rfl
  | item :: items => by simp [sameItems, sameWith_refl h item, sameItems_refl h items]
termination_by structural items => items

/-- Every pair is found among pairs that hold it. -/
theorem samePairs_refl (h : ∀ i, objects i i = true) : (pairs within : List (Value × Value)) →
    (∀ pair ∈ pairs, pair ∈ within) → samePairs objects pairs within = true
  | [], _, _ => rfl
  | (key, value) :: pairs, within, held => by
    have here : within.any (fun q => sameWith objects key q.1 && sameWith objects value q.2) =
        true :=
      List.any_eq_true.mpr ⟨(key, value), held _ List.mem_cons_self, by
        simp [sameWith_refl h key, sameWith_refl h value]⟩
    have later := samePairs_refl h pairs within fun pair member =>
      held pair (List.mem_cons_of_mem _ member)
    simp [samePairs, here, later]
termination_by structural pairs => pairs

theorem sameMembers_refl (h : ∀ i, objects i i = true) : (items within : List Value) →
    (∀ item ∈ items, item ∈ within) → sameMembers objects items within = true
  | [], _, _ => rfl
  | item :: items, within, held => by
    have here : within.any (sameWith objects item ·) = true :=
      List.any_eq_true.mpr ⟨item, held _ List.mem_cons_self, sameWith_refl h item⟩
    have later := sameMembers_refl h items within fun other member =>
      held other (List.mem_cons_of_mem _ member)
    simp [sameMembers, here, later]
termination_by structural items => items

end

theorem sameItems_iff {xs ys : List Value} :
    sameItems objects xs ys = true ↔
      List.Forall₂ (fun x y => sameWith objects x y = true) xs ys := by
  induction xs generalizing ys with
  | nil => cases ys <;> simp [sameItems]
  | cons x xs ih => cases ys <;> simp [sameItems, ih]

theorem same_refl (g : ObjectGraph) (v : Value) : same g v v = true := by
  refine sameWith_refl (fun i => ?_) v
  unfold ObjectGraph.reach ObjectGraph.sameObject
  simp

/-- A key of a map whose keys are pairwise different leads to its own value. -/
theorem lookupPair_of_mem {g : ObjectGraph} {pairs : List (Value × Value)} {key value : Value}
    (distinct : pairs.Pairwise fun a b => same g a.1 b.1 = false) (h : (key, value) ∈ pairs) :
    lookupPair g pairs key = some value := by
  unfold lookupPair
  induction pairs with
  | nil => cases h
  | cons pair pairs ih =>
    obtain ⟨apart, rest⟩ := List.pairwise_cons.mp distinct
    rcases List.mem_cons.mp h with rfl | later
    · simp [same_refl]
    · rw [List.find?_cons_of_neg (by simp [apart _ later])]
      exact ih rest later

end Value

theorem Segment.sameKey_refl (g : ObjectGraph) (s : Segment) : s.sameKey g s = true := by
  cases s <;> simp [sameKey, eqBy, Value.same_refl]

theorem DataPath.sameKey_refl (g : ObjectGraph) (p : DataPath) : sameKey g p p = true := by
  induction p with
  | nil => rfl
  | cons s p ih =>
    rw [sameKey] at ih ⊢
    simp [eqBy, Segment.sameKey_refl, ih]

end PathRules
