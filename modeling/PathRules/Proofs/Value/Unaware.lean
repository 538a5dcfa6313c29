import PathRules.Constraint.Basic
import PathRules.Proofs.Check
import PathRules.Proofs.Value.Faults
import PathRules.Segment.Extraction

/-!
# Checks that take no notice of the store

Where there are no one-shot sources, a check is unaware of the store if it answers the same
whatever the store holds, and makes no source.  Taking parts and showing values is unaware; only
tests and extractors may be otherwise.
-/

namespace PathRules

variable {α β : Type} {g : ObjectGraph}

namespace Check

/-- On stores without one-shot sources the check answers the same and leaves no source. -/
structure Unaware (g : ObjectGraph) (m : Check α) : Prop where
  same {store store' : Store} : store.sources = [] → store'.sources = [] →
    (m.runOn g store).1 = (m.runOn g store').1
  sources {store : Store} : store.sources = [] → (m.runOn g store).2.sources = []

namespace Unaware

theorem of_pure (a : α) : Unaware g (pure a) := ⟨fun _ _ => rfl, id⟩

theorem of_throw (fault : Fault) : Unaware g (throw fault : Check α) := ⟨fun _ _ => rfl, id⟩

theorem of_read : Unaware g (read : Check ObjectGraph) := ⟨fun _ _ => rfl, id⟩

theorem of_ofExcept (outcome : Except Fault α) : Unaware g (ofExcept outcome) := by
  cases outcome with
  | error fault => exact of_throw fault
  | ok a => exact of_pure a

theorem of_ite {c : Prop} [Decidable c] {m m' : Check α} (h : Unaware g m) (h' : Unaware g m') :
    Unaware g (if c then m else m') := by
  split
  · exact h
  · exact h'

theorem bind {m : Check α} {f : α → Check β} (h : Unaware g m) (hf : ∀ a, Unaware g (f a)) :
    Unaware g (m >>= f) where
  same {store store'} dry dry' := by
    have first := h.same dry dry'
    have left := h.sources dry
    have left' := h.sources dry'
    rw [runOn_bind, runOn_bind]
    rcases ran : m.runOn g store with ⟨fault | a, after⟩ <;>
      rcases ran' : m.runOn g store' with ⟨fault' | a', after'⟩ <;>
      rw [ran, ran'] at first <;> cases first
    · rfl
    · rw [ran] at left
      rw [ran'] at left'
      exact (hf a).same left left'
  sources {store} dry := by
    have left := h.sources dry
    rw [runOn_bind]
    rcases ran : m.runOn g store with ⟨fault | a, after⟩ <;> rw [ran] at left
    · exact left
    · exact (hf a).sources left

theorem of_mapM {f : α → Check β} (as : List α) (hf : ∀ a, Unaware g (f a)) :
    Unaware g (as.mapM f) := by
  induction as with
  | nil => exact of_pure []
  | cons a as ih =>
    rw [List.mapM_cons]
    exact (hf a).bind fun b => ih.bind fun bs => of_pure (b :: bs)

theorem of_modify {f : Store → Store} (h : ∀ store, store.sources = [] → (f store).sources = []) :
    Unaware g (modify f) := ⟨fun _ _ => rfl, fun {store} => h store⟩

/-- Where nothing is left in any source, all stores are as good as the empty one. -/
theorem of_get {k : Store → Check β} (same : ∀ store, store.sources = [] → k store = k {})
    (h : Unaware g (k {})) : Unaware g (get >>= k) where
  same {store store'} dry dry' := by
    rw [runOn_bind, runOn_bind, runOn_get, runOn_get]
    dsimp only
    rw [same store dry, same store' dry']
    exact h.same dry dry'
  sources {store} dry := by
    rw [runOn_bind, runOn_get]
    dsimp only
    rw [same store dry]
    exact h.sources dry

end Unaware

end Check

theorem Store.remaining_of_dry {store : Store} (dry : store.sources = []) (number : Nat) :
    store.remaining number = [] := by
  simp [remaining, dry]

open Check.Unaware

namespace Value

theorem unaware_elements (v : Value) : v.elements.Unaware g := by
  unfold elements
  split
  · next number =>
    refine of_get (fun store dry => by rw [Store.remaining_of_dry dry]; rfl) ?_
    refine (of_modify fun store dry => ?_).bind fun _ => of_pure _
    simp [Store.drain, dry]
  · refine of_read.bind fun g => ?_
    split
    · exact of_pure _
    · exact of_throw _

theorem unaware_contains (v key : Value) : (v.contains key).Unaware g := by
  refine of_read.bind fun g => ?_
  split
  · exact of_ite (of_pure _) (of_throw _)
  · split
    · exact of_pure _
    · exact of_ite (of_pure _) (of_throw _)
  · split
    · exact of_pure _
    · exact of_throw _
  · next number =>
    refine of_get (fun store dry => by rw [Store.remaining_of_dry dry]; rfl) ?_
    refine (of_modify fun store dry => ?_).bind fun _ => of_pure _
    simp [dry]
  · split
    · exact of_pure _
    · exact of_throw _

theorem unaware_elementAt (v position : Value) (shown : String) :
    (v.elementAt position shown).Unaware g := by
  refine of_read.bind fun g => of_ite (of_ofExcept _) ?_
  dsimp only
  split
  · next number =>
    refine (of_ofExcept _).bind fun n => ?_
    refine of_get (fun store dry => by rw [Store.remaining_of_dry dry]; rfl) ?_
    refine (of_modify fun store dry => ?_).bind fun _ => ?_
    · simp [dry]
    · split
      · exact of_pure _
      · exact of_throw _
  · split
    · exact of_throw _
    · refine (of_ofExcept _).bind fun n => ?_
      split
      · exact of_pure _
      · exact of_throw _

theorem unaware_pairs (v : Value) : v.pairs.Unaware g := by
  unfold pairs
  split
  · exact of_pure _
  · refine of_read.bind fun g => (of_ofExcept _).bind fun found => ?_
    refine (unaware_elements found).bind fun rows => of_mapM rows fun row => ?_
    refine (unaware_elements row).bind fun parts => ?_
    split
    · exact of_pure _
    · exact of_throw _

end Value

/-- A segment is unaware of the store if its extractor is. -/
theorem Segment.unaware_get {s : Segment} {v : Value}
    (h : ∀ extract ∈ s.extract?, (extract v).Unaware g) : (s.get v).Unaware g := by
  cases s with
  | this => exact of_pure v
  | property name extract => exact h extract rfl
  | call name extract => exact h extract rfl
  | custom identifier name extract => exact h extract rfl
  | entry key name =>
    refine (Value.unaware_contains v key).bind fun found => of_ite ?_ ?_
    · exact of_read.bind fun g => (of_ofExcept _).bind fun value => of_pure _
    · exact of_read.bind fun g => of_throw _
  | index position name => exact of_read.bind fun g => Value.unaware_elementAt v position _

theorem Constraint.unaware_render (c : Constraint) (v : Value) : (c.render v).Unaware g := by
  refine of_read.bind fun g => ?_
  split
  · exact of_pure _
  · exact of_throw _

end PathRules
