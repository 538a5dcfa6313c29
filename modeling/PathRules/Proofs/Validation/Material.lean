import PathRules.Declaration.Draft

/-!
# What validations are made of

A `Material` says which constraints and which segments are allowed.  A validation is made of it
if all its parts are, those of guards included, and if it holds no hand-written script.  What
is built from a draft is made of what the draft is made of.
-/

namespace PathRules

structure Material where
  constraint : Constraint → Prop
  segment : Segment → Prop

namespace Material

/-- Everything but scripts. -/
def any : Material := ⟨fun _ => True, fun _ => True⟩

/-- The material of the steps that registered rules are compiled to: a property for each field
and the step that stays in place. -/
structure HoldsFields (m : Material) : Prop where
  this : m.segment .this
  field : ∀ name, m.segment (.ofName name)

theorem any_holdsFields : any.HoldsFields := ⟨trivial, fun _ => trivial⟩

end Material

namespace Validation

mutual

def MadeOf (m : Material) : Validation → Prop
  | .object constraints subs _ _ => (∀ c ∈ constraints, m.constraint c) ∧ AllMadeOf m subs
  | .step _ guards target inner => GuardsMadeOf m guards ∧ m.segment target ∧ MadeOf m inner
  | .elements _ inner => MadeOf m inner
  | .script .. => False
  | .model .. => True
termination_by structural validation => validation

def AllMadeOf (m : Material) : List Validation → Prop
  | [] => True
  | sub :: subs => MadeOf m sub ∧ AllMadeOf m subs
termination_by structural validations => validations

def GuardsMadeOf (m : Material) : List Guard → Prop
  | [] => True
  | .mk _ condition :: guards => MadeOf m condition ∧ GuardsMadeOf m guards
termination_by structural guards => guards

end

theorem allMadeOf_iff {m : Material} {subs : List Validation} :
    AllMadeOf m subs ↔ ∀ sub ∈ subs, sub.MadeOf m := by
  induction subs with
  | nil => simp [AllMadeOf]
  | cons sub subs ih => simp [AllMadeOf, ih]

mutual

/-- A validation made of some material is no script, nor is any part of it. -/
theorem MadeOf.any {m : Material} :
    (validation : Validation) → validation.MadeOf m → validation.MadeOf .any
  | .object _ subs _ _, h => ⟨fun _ _ => trivial, AllMadeOf.any subs h.2⟩
  | .step _ guards _ inner, h => ⟨GuardsMadeOf.any guards h.1, trivial, MadeOf.any inner h.2.2⟩
  | .elements _ inner, h => MadeOf.any inner h
  | .script .., h => h
  | .model .., h => h
termination_by structural validation => validation

theorem AllMadeOf.any {m : Material} :
    (subs : List Validation) → AllMadeOf m subs → AllMadeOf .any subs
  | [], h => h
  | sub :: subs, h => ⟨MadeOf.any sub h.1, AllMadeOf.any subs h.2⟩
termination_by structural subs => subs

theorem GuardsMadeOf.any {m : Material} :
    (guards : List Guard) → GuardsMadeOf m guards → GuardsMadeOf .any guards
  | [], h => h
  | .mk _ condition :: guards, h => ⟨MadeOf.any condition h.1, GuardsMadeOf.any guards h.2⟩
termination_by structural guards => guards

end

end Validation

/-- The path of a key is made of the material. -/
def StepKey.MadeOf (m : Material) (key : StepKey) : Prop :=
  Validation.GuardsMadeOf m key.path.guards ∧ m.segment key.path.target

theorem StepKey.wrap_madeOf {m : Material} {key : StepKey} {inner : Validation}
    (hkey : key.MadeOf m) (h : inner.MadeOf m) : (key.wrap inner).MadeOf m := by
  refine ⟨hkey.1, hkey.2, ?_⟩
  cases key.kind <;> exact h

namespace Draft

mutual

def MadeOf (m : Material) : Draft → Prop
  | ⟨_, _, constraints, nested, prebuilt⟩ =>
      (∀ r ∈ constraints, m.constraint r.constraint) ∧ NestedMadeOf m nested ∧
        ∀ v ∈ prebuilt, v.MadeOf m
termination_by structural draft => draft

def NestedMadeOf (m : Material) : List (StepKey × Draft) → Prop
  | [] => True
  | (key, draft) :: rest => key.MadeOf m ∧ MadeOf m draft ∧ NestedMadeOf m rest
termination_by structural nested => nested

end

theorem nestedMadeOf_iff {m : Material} {nested : List (StepKey × Draft)} :
    NestedMadeOf m nested ↔ ∀ entry ∈ nested, entry.1.MadeOf m ∧ entry.2.MadeOf m := by
  induction nested with
  | nil => simp [NestedMadeOf]
  | cons entry rest ih =>
    obtain ⟨key, draft⟩ := entry
    simp [NestedMadeOf, ih, and_assoc]

theorem madeOf_iff {m : Material} {draft : Draft} :
    draft.MadeOf m ↔ (∀ r ∈ draft.constraints, m.constraint r.constraint) ∧
      (∀ entry ∈ draft.nested, entry.1.MadeOf m ∧ entry.2.MadeOf m) ∧
        ∀ v ∈ draft.prebuilt, v.MadeOf m := by
  cases draft
  rw [← nestedMadeOf_iff]
  rfl

mutual

/-- What a draft is built to is made of what was declared on it. -/
theorem build_madeOf {m : Material} : (draft : Draft) → draft.MadeOf m → draft.build.MadeOf m
  | ⟨anyOf, shortCircuit, constraints, nested, prebuilt⟩, h => by
    obtain ⟨declared, steps, complete⟩ := h
    refine ⟨?_, Validation.allMadeOf_iff.mpr ?_⟩
    · intro c hc
      obtain ⟨r, hr, rfl⟩ := List.mem_map.mp hc
      exact declared r hr
    · intro v hv
      rcases List.mem_append.mp hv with made | given
      · exact buildNested_madeOf nested steps v made
      · exact complete v given
termination_by structural draft => draft

theorem buildNested_madeOf {m : Material} : (nested : List (StepKey × Draft)) →
    NestedMadeOf m nested → ∀ v ∈ buildNested nested, v.MadeOf m
  | [], _, _, hv => nomatch hv
  | (key, draft) :: rest, h, v, hv => by
    rcases List.mem_cons.mp hv with rfl | later
    · exact StepKey.wrap_madeOf h.1 (build_madeOf draft h.2.1)
    · exact buildNested_madeOf rest h.2.2 v later
termination_by structural nested => nested

end

theorem empty_madeOf (m : Material) (anyOf : Bool) : (empty anyOf).MadeOf m := by
  rw [madeOf_iff]
  simp [empty]

theorem addPrebuilt_madeOf {m : Material} {draft : Draft} {v : Validation} (h : draft.MadeOf m)
    (hv : v.MadeOf m) : (draft.addPrebuilt v).MadeOf m := by
  obtain ⟨declared, steps, complete⟩ := madeOf_iff.mp h
  refine madeOf_iff.mpr ⟨declared, steps, fun w hw => ?_⟩
  rcases List.mem_append.mp hw with given | added
  · exact complete w given
  · rw [List.mem_singleton.mp added]
    exact hv

theorem addNested_madeOf {m : Material} {draft : Draft} {key : StepKey} (h : draft.MadeOf m)
    (hkey : key.MadeOf m) : (draft.addNested key).MadeOf m := by
  obtain ⟨declared, steps, complete⟩ := madeOf_iff.mp h
  refine madeOf_iff.mpr ⟨declared, fun entry member => ?_, complete⟩
  rcases List.mem_append.mp member with present | added
  · exact steps entry present
  · rw [List.mem_singleton.mp added]
    exact ⟨hkey, empty_madeOf m _⟩

/-- Changing one of the nested drafts. -/
theorem modifyAt_madeOf {m : Material} {draft : Draft} {f : Draft → Draft} (position : Nat)
    (h : draft.MadeOf m) (hf : ∀ part : Draft, part.MadeOf m → (f part).MadeOf m) :
    (draft.modifyAt [position] f).MadeOf m := by
  obtain ⟨declared, steps, complete⟩ := madeOf_iff.mp h
  refine madeOf_iff.mpr ⟨declared, fun entry member => ?_, complete⟩
  simp only [modifyAt] at member
  obtain ⟨i, bound, rfl⟩ := List.mem_iff_getElem.mp member
  have present := steps _ (List.getElem_mem (by simpa using bound : i < draft.nested.length))
  rw [List.getElem_modify]
  split
  · exact ⟨present.1, hf _ present.2⟩
  · exact present

end Draft

end PathRules
