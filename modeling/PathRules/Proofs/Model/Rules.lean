import PathRules.Proofs.Trace.Evaluate

/-!
# The rules that a rulebook serves

`Rulebook.rules` says which rules a class has: those that are compiled already, otherwise those
compiled from what is registered now.  Asking for them compiles them, and with them what they
refer to, but changes no answer.
-/

namespace PathRules

theorem lookup_alter {α : Type} (key k : String) (initial : α) (f : α → α)
    (entries : List (String × α)) :
    (alter key initial f entries).lookup k =
      if k == key then some (f ((entries.lookup key).getD initial)) else entries.lookup k := by
  induction entries with
  | nil => cases h : k == key <;> simp [alter, List.lookup_cons, h]
  | cons entry rest ih =>
    obtain ⟨first, a⟩ := entry
    by_cases same : first = key
    · subst same
      cases h : k == first <;> simp [alter, List.lookup_cons, h]
    · have other : (key == first) = false := by simpa using fun h => same h.symm
      by_cases here : k = first
      · subst here
        simp [alter, same]
      · have elsewhere : (k == first) = false := by simpa using here
        simp [alter, List.lookup_cons, same, other, elsewhere, ih]

namespace Registry

variable {g : ObjectGraph} {schema : Schema} {name : String}

/-- The compiled rules of a class, if they are kept, otherwise what they compile to. -/
def rules (g : ObjectGraph) (schema : Schema) (name : String) (registry : Registry) (cls : String) :
    Option Validation :=
  match registry.cache.lookup cls with
  | some rules => rules
  | none => some (draftOf g schema name registry cls).build

/-- The registry `after` has the same rules and keeps what is compiled; what it has compiled
beyond that is what the rules compile to. -/
structure Extends (g : ObjectGraph) (schema : Schema) (name : String) (before after : Registry) :
    Prop where
  classRules : after.classRules = before.classRules
  fieldRules : after.fieldRules = before.fieldRules
  cache : ∀ cls, after.cache.lookup cls = before.cache.lookup cls ∨
    before.cache.lookup cls = none ∧
      after.cache.lookup cls = some (some (draftOf g schema name before cls).build)

/-- What rules compile to does not depend on what is compiled already. -/
theorem draftOf_congr {before after : Registry} (classRules : after.classRules = before.classRules)
    (fieldRules : after.fieldRules = before.fieldRules) (cls : String) :
    draftOf g schema name after cls = draftOf g schema name before cls := by
  have whole : after.rulesOf = before.rulesOf := by
    funext c
    simp [rulesOf, classRules]
  have parts : after.fieldRulesOf = before.fieldRulesOf := by
    funext c field
    simp [fieldRulesOf, fieldRules]
  unfold draftOf addFieldRules
  rw [whole, parts]

namespace Extends

theorem refl (registry : Registry) : Extends g schema name registry registry :=
  ⟨rfl, rfl, fun _ => .inl rfl⟩

theorem trans {a b c : Registry} (first : Extends g schema name a b)
    (second : Extends g schema name b c) : Extends g schema name a c where
  classRules := second.classRules.trans first.classRules
  fieldRules := second.fieldRules.trans first.fieldRules
  cache cls := by
    have draft : draftOf g schema name b cls = draftOf g schema name a cls :=
      draftOf_congr first.classRules first.fieldRules cls
    rcases second.cache cls with kept | ⟨absent, made⟩
    · rw [kept]
      exact first.cache cls
    · rw [draft] at made
      rcases first.cache cls with kept' | ⟨absent', made'⟩
      · exact .inr ⟨kept' ▸ absent, made⟩
      · rw [made'] at absent
        cases absent

/-- An extended registry answers as before. -/
theorem rules_eq {before after : Registry} (h : Extends g schema name before after) :
    rules g schema name after = rules g schema name before := by
  funext cls
  unfold rules
  rcases h.cache cls with kept | ⟨absent, made⟩
  · rw [kept, draftOf_congr h.classRules h.fieldRules]
  · rw [absent, made]

end Extends

theorem foldl_extends {step : Registry → String → Registry}
    (h : ∀ registry cls, Extends g schema name registry (step registry cls)) (classes : List String)
    (registry : Registry) : Extends g schema name registry (classes.foldl step registry) := by
  induction classes generalizing registry with
  | nil => exact .refl registry
  | cons cls classes ih => exact (h registry cls).trans (ih _)

/-- Compiling a class extends the registry, although placeholders stand in it meanwhile. -/
theorem ensure_extends (fuel : Nat) (registry : Registry) (cls : String) :
    Extends g schema name registry (ensure g schema name fuel registry cls) := by
  induction fuel generalizing registry cls with
  | zero => exact .refl registry
  | succ fuel ih =>
    unfold ensure ensureOnce
    split
    · exact .refl registry
    · next absent =>
      have missing : registry.cache.lookup cls = none := by
        rwa [Bool.not_eq_true, Option.isSome_eq_false_iff, Option.isNone_iff_eq_none] at absent
      have related := foldl_extends ih (targets schema cls)
        { registry with cache := alter cls none (fun _ => none) registry.cache }
      refine ⟨related.classRules, related.fieldRules, fun c => ?_⟩
      by_cases here : c = cls
      · subst here
        refine .inr ⟨missing, ?_⟩
        simp [lookup_alter]
      · have other := related.cache c
        simp only [lookup_alter, beq_iff_eq, here, if_false] at other ⊢
        exact other

theorem isSome_lookup_ensure (fuel : Nat) (registry : Registry) (cls : String) :
    ((ensure g schema name (fuel + 1) registry cls).cache.lookup cls).isSome = true := by
  unfold ensure ensureOnce
  split
  · assumption
  · simp [lookup_alter]

/-- Compilation answers with the rules of the class and extends the registry. -/
theorem compiled_eq (registry : Registry) (cls : String) :
    (compiled g schema name registry cls).1 = rules g schema name registry cls ∧
      Extends g schema name registry (compiled g schema name registry cls).2 := by
  have extended : Extends g schema name registry (compiled g schema name registry cls).2 :=
    ensure_extends (schema.length + 1) registry cls
  refine ⟨?_, extended⟩
  have found : ((compiled g schema name registry cls).2.cache.lookup cls).isSome = true :=
    isSome_lookup_ensure schema.length registry cls
  obtain ⟨answer, kept⟩ := Option.isSome_iff_exists.mp found
  rw [← extended.rules_eq, rules, kept]
  exact congrArg (·.getD none) kept

end Registry

namespace Rulebook

variable {g : ObjectGraph}

/-- The rules of a class in one of the registries. -/
def rules (g : ObjectGraph) (book : Rulebook) : Rules := fun name cls =>
  (book.registry name).rules g book.schema name cls

/-- Asking a rulebook answers with the rules that it serves. -/
theorem compiled_fst (book : Rulebook) (name cls : String) :
    (book.compiled g name cls).1 = book.rules g name cls :=
  (Registry.compiled_eq (book.registry name) cls).1

/-- Asking a rulebook changes none of its answers. -/
theorem rules_compiled (book : Rulebook) (name cls : String) :
    (book.compiled g name cls).2.rules g = book.rules g := by
  have extended : Registry.Extends g book.schema name (book.registry name)
      (Registry.compiled g book.schema name (book.registry name) cls).2 :=
    (Registry.compiled_eq (book.registry name) cls).2
  funext other c
  unfold rules
  by_cases here : other = name
  · subst here
    simp only [compiled, modify, registry, lookup_alter, beq_self_eq_true, if_true,
      Option.getD_some]
    exact congrFun extended.rules_eq c
  · simp [compiled, modify, registry, lookup_alter, here]

end Rulebook

end PathRules
