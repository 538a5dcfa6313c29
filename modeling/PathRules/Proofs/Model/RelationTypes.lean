import Mathlib.Data.List.Basic
import PathRules.Model.Schema

/-!
# Which types are relations

A relation is read off a type layer by layer: through unions in which nothing but null stands
beside one type, and then through at most one collection.  The layers are described on their own,
as what a type wraps, and `FieldType.relation?` finds exactly them.
-/

namespace PathRules

namespace FieldType

variable {members arguments : List FieldType} {item : FieldType} {origin : Generic} {name : String}

/-- The one member of the union, null apart. -/
def OnlyMember (members : List FieldType) (item : FieldType) : Prop :=
  members.filter (!·.isNull) = [item]

/-- The one type that a generic type is given, an ellipsis apart. -/
def OnlyArgument (arguments : List FieldType) (item : FieldType) : Prop :=
  arguments.filter (!·.isEllipsis) = [item]

/-- The first type is the second one under any number of unions, each with the next layer for its
only member. -/
inductive Wraps : FieldType → FieldType → Prop
  | refl (a : FieldType) : Wraps a a
  | union {members : List FieldType} {item core : FieldType} (only : OnlyMember members item)
      (inner : Wraps item core) : Wraps (.union members) core

/-- A single instance of the model. -/
def IsModel (name : String) (a : FieldType) : Prop := a.Wraps (.model name)

/-- A collection of single instances of the model. -/
def IsCollectionOf (name : String) (a : FieldType) : Prop :=
  ∃ origin arguments item, a.Wraps (.generic origin arguments) ∧ origin.isCollection = true ∧
    OnlyArgument arguments item ∧ item.IsModel name

/-! ## One layer -/

theorem relationsBut_cons (passed : FieldType → Bool) (a : FieldType) (types : List FieldType) :
    relationsBut passed (a :: types) =
      if passed a then relationsBut passed types else a.relation? :: relationsBut passed types :=
  rfl

theorem relationsBut_eq (passed : FieldType → Bool) (types : List FieldType) :
    relationsBut passed types = (types.filter (!passed ·)).map relation? := by
  induction types with
  | nil => rfl
  | cons a types ih =>
    rw [relationsBut_cons, ih]
    cases h : passed a <;> simp [h]

/-- What a union is a relation to, if it is one, is read off its only member. -/
theorem relation?_union : (union members).relation? =
    match (members.filter (!·.isNull)).map relation? with
    | [relation] => relation
    | _ => none := by
  rw [← relationsBut_eq isNull]
  rfl

theorem relation?_union_of_only (only : OnlyMember members item) :
    (union members).relation? = item.relation? := by
  rw [relation?_union, only]
  rfl

/-- A union without such a member is no relation. -/
theorem relation?_union_of_other (other : ∀ item, ¬ OnlyMember members item) :
    (union members).relation? = none := by
  rw [relation?_union]
  split
  · next one =>
    obtain ⟨item, only, -⟩ := List.map_eq_singleton_iff.mp one
    exact absurd only (other item)
  · rfl

/-- What a generic type is a relation to, if it is one, is read off its only argument. -/
theorem relation?_of_generic : (generic origin arguments).relation? =
    match origin.isCollection, (arguments.filter (!·.isEllipsis)).map relation? with
    | true, [some ⟨target, false⟩] => some ⟨target, true⟩
    | _, _ => none := by
  rw [← relationsBut_eq isEllipsis]
  rfl

theorem relation?_generic {r : Relation} : (generic origin arguments).relation? = some r ↔
    origin.isCollection = true ∧ ∃ item name, OnlyArgument arguments item ∧
      item.relation? = some ⟨name, false⟩ ∧ r = ⟨name, true⟩ := by
  rw [relation?_of_generic]
  constructor
  · intro found
    split at found
    · next target collects one =>
      obtain ⟨item, only, single⟩ := List.map_eq_singleton_iff.mp one
      exact ⟨collects, item, target, only, single, (Option.some.inj found).symm⟩
    · cases found
  · rintro ⟨collects, item, target, only, single, rfl⟩
    rw [collects, only, List.map_singleton, single]

/-! ## All layers -/

/-- Unions of this kind do not matter. -/
theorem Wraps.relation?_eq {a core : FieldType} (h : a.Wraps core) :
    a.relation? = core.relation? := by
  induction h with
  | refl => rfl
  | union only _ ih => rw [relation?_union_of_only only, ih]

/-- Below the unions that wrap it, each type has a core that no such union wraps. -/
theorem exists_core (a : FieldType) : ∃ core, a.Wraps core ∧
    ∀ members, core = .union members → ∀ item, ¬ OnlyMember members item := by
  induction size : sizeOf a using Nat.strongRecOn generalizing a with
  | ind n ih =>
    by_cases wrapped : ∃ members item, a = .union members ∧ OnlyMember members item
    · obtain ⟨members, item, rfl, only⟩ := wrapped
      have inside : item ∈ members :=
        (List.mem_filter.mp (only ▸ List.mem_singleton_self item)).1
      have smaller : sizeOf item < n := by
        have := List.sizeOf_lt_of_mem inside
        simp only [union.sizeOf_spec] at size
        omega
      obtain ⟨core, inner, last⟩ := ih _ smaller item rfl
      exact ⟨core, .union only inner, last⟩
    · exact ⟨a, .refl a, fun members is item only => wrapped ⟨members, item, is, only⟩⟩

/-- A type that is a relation wraps the model, or the collection, that it is read off. -/
theorem wraps_of_relation? {a : FieldType} {r : Relation} (found : a.relation? = some r) :
    a.Wraps (.model r.target) ∧ r.isCollection = false ∨
      ∃ origin arguments, a.Wraps (.generic origin arguments) ∧
        (generic origin arguments).relation? = some r := by
  obtain ⟨core, wraps, last⟩ := exists_core a
  rw [wraps.relation?_eq] at found
  cases core with
  | model name =>
    cases found
    exact .inl ⟨wraps, rfl⟩
  | generic origin arguments => exact .inr ⟨origin, arguments, wraps, found⟩
  | union members =>
    rw [relation?_union_of_other (last members rfl)] at found
    cases found
  | null | plain | ellipsis => cases found

theorem relation?_eq_single {a : FieldType} :
    a.relation? = some ⟨name, false⟩ ↔ a.IsModel name := by
  constructor
  · intro found
    rcases wraps_of_relation? found with ⟨wraps, -⟩ | ⟨_, _, _, collection⟩
    · exact wraps
    · obtain ⟨-, _, _, -, -, is⟩ := relation?_generic.mp collection
      cases is
  · exact fun wraps => wraps.relation?_eq

theorem relation?_eq_collection {a : FieldType} :
    a.relation? = some ⟨name, true⟩ ↔ a.IsCollectionOf name := by
  constructor
  · intro found
    rcases wraps_of_relation? found with ⟨_, single⟩ | ⟨origin, arguments, wraps, collection⟩
    · cases single
    · obtain ⟨collects, item, _, only, single, is⟩ := relation?_generic.mp collection
      cases is
      exact ⟨origin, arguments, item, wraps, collects, only, relation?_eq_single.mp single⟩
  · rintro ⟨origin, arguments, item, wraps, collects, only, single⟩
    rw [wraps.relation?_eq]
    exact relation?_generic.mpr ⟨collects, item, name, only, relation?_eq_single.mpr single, rfl⟩

/-- A generic type is no relation unless it is a collection of one single model. -/
theorem relation?_generic_eq_none (other : ∀ item name, origin.isCollection = true →
    OnlyArgument arguments item → ¬ item.IsModel name) :
    (generic origin arguments).relation? = none := by
  refine Option.eq_none_iff_forall_ne_some.mpr fun r found => ?_
  obtain ⟨collects, item, name, only, single, -⟩ := relation?_generic.mp found
  exact other item name collects only (relation?_eq_single.mp single)

/-- No type wraps both a model and a generic type. -/
theorem not_isModel_of_wraps_generic {a : FieldType} (wraps : a.Wraps (.generic origin arguments)) :
    ¬ a.IsModel name := by
  intro single
  have found := single.relation?_eq
  rw [wraps.relation?_eq] at found
  obtain ⟨-, _, _, -, -, is⟩ := relation?_generic.mp found
  cases is

/-- What a type is a relation to is read off its layers: a model under unions that only make it
optional is a single relation; a collection of exactly one such type, under such unions, is a
relation to several; and there is no other relation.  So there is none in a union of several types,
in a collection of collections, optional ones too, in a mapping, in a collection of several types
or of none, and in a type without a model. -/
theorem relation?_iff_layers (a : FieldType) :
    (∀ name, a.relation? = some ⟨name, false⟩ ↔ a.IsModel name) ∧
    (∀ name, a.relation? = some ⟨name, true⟩ ↔ a.IsCollectionOf name) ∧
    (a.relation? = none ↔ ∀ name, ¬ a.IsModel name ∧ ¬ a.IsCollectionOf name) ∧
    (∀ members, 2 ≤ (members.filter (!·.isNull)).length → a.Wraps (.union members) →
      a.relation? = none) ∧
    (∀ origin arguments item inner nested, a.Wraps (.generic origin arguments) →
      OnlyArgument arguments item → item.Wraps (.generic inner nested) → a.relation? = none) ∧
    (∀ arguments, a.Wraps (.generic .mapping arguments) → a.relation? = none) ∧
    (∀ origin arguments, (arguments.filter (!·.isEllipsis)).length ≠ 1 →
      a.Wraps (.generic origin arguments) → a.relation? = none) ∧
    (∀ name, a.Wraps (.plain name) → a.relation? = none) := by
  refine ⟨fun _ => relation?_eq_single, fun _ => relation?_eq_collection, ⟨?_, ?_⟩, ?_, ?_, ?_, ?_,
    fun _ wraps => wraps.relation?_eq⟩
  · intro none name
    rw [← relation?_eq_single, ← relation?_eq_collection, none]
    exact ⟨nofun, nofun⟩
  · intro other
    refine Option.eq_none_iff_forall_ne_some.mpr fun ⟨name, isCollection⟩ found => ?_
    cases isCollection with
    | false => exact (other name).1 (relation?_eq_single.mp found)
    | true => exact (other name).2 (relation?_eq_collection.mp found)
  · intro members several wraps
    refine wraps.relation?_eq.trans (relation?_union_of_other fun item only => ?_)
    rw [only, List.length_singleton] at several
    omega
  · intro origin arguments item inner nested wraps only inside
    refine wraps.relation?_eq.trans (relation?_generic_eq_none fun other name _ only' => ?_)
    cases only.symm.trans only'
    exact not_isModel_of_wraps_generic inside
  · intro arguments wraps
    exact wraps.relation?_eq.trans (relation?_generic_eq_none fun _ _ collects => nomatch collects)
  · intro origin arguments uneven wraps
    refine wraps.relation?_eq.trans (relation?_generic_eq_none fun item _ _ only => ?_)
    rw [only] at uneven
    exact absurd rfl uneven

end FieldType

end PathRules
