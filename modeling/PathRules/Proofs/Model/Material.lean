import PathRules.Proofs.Model.Rules
import PathRules.Proofs.Validation.Material

/-!
# What the rules of models are made of

If everything that is registered is made of some material, then so are the rules that a
rulebook serves: compilation adds steps to fields, and the models that they refer to.
-/

namespace PathRules

namespace Registry

variable {g : ObjectGraph} {schema : Schema} {name : String} {m : Material}

/-- Everything that is registered, and what is compiled already, is made of the material. -/
structure MadeOf (m : Material) (registry : Registry) : Prop where
  classRules : ∀ entry ∈ registry.classRules, ∀ rule ∈ entry.2, rule.MadeOf m
  fieldRules : ∀ entry ∈ registry.fieldRules, ∀ field ∈ entry.2, ∀ rule ∈ field.2, rule.MadeOf m
  cache : ∀ entry ∈ registry.cache, ∀ rule ∈ entry.2, rule.MadeOf m

theorem mem_of_lookup {α : Type} {key : String} {a : α} {entries : List (String × α)}
    (h : entries.lookup key = some a) : (key, a) ∈ entries := by
  obtain ⟨before, after, rfl, -⟩ := List.lookup_eq_some_iff.mp h
  simp

/-- A list that is looked up holds only what its entries hold. -/
theorem forall_mem_lookup {α : Type} {key : String} {entries : List (String × List α)}
    {p : α → Prop} (h : ∀ entry ∈ entries, ∀ a ∈ entry.2, p a) :
    ∀ a ∈ (entries.lookup key).getD [], p a := by
  intro a ha
  cases found : entries.lookup key with
  | none => simp [found] at ha
  | some items =>
    rw [found] at ha
    exact h _ (mem_of_lookup found) a ha

theorem rulesOf_madeOf {registry : Registry} (h : registry.MadeOf m) (cls : String) :
    ∀ rule ∈ registry.rulesOf cls, rule.MadeOf m :=
  forall_mem_lookup h.classRules

theorem fieldRulesOf_madeOf {registry : Registry} (h : registry.MadeOf m) (cls field : String) :
    ∀ rule ∈ registry.fieldRulesOf cls field, rule.MadeOf m :=
  forall_mem_lookup (forall_mem_lookup h.fieldRules)

theorem within_madeOf {draft : Draft} {key : StepKey} {f : Draft → Draft} (h : draft.MadeOf m)
    (hkey : key.MadeOf m) (hf : ∀ part : Draft, part.MadeOf m → (f part).MadeOf m) :
    (within g key f draft).MadeOf m := by
  unfold within
  split
  · exact Draft.modifyAt_madeOf _ h hf
  · exact Draft.modifyAt_madeOf _ (Draft.addNested_madeOf h hkey) hf

theorem foldl_madeOf {α : Type} {step : Draft → α → Draft} (items : List α)
    (hstep : ∀ (draft : Draft), ∀ a ∈ items, draft.MadeOf m → (step draft a).MadeOf m)
    {draft : Draft} (h : draft.MadeOf m) : (items.foldl step draft).MadeOf m := by
  induction items generalizing draft with
  | nil => exact h
  | cons a items ih =>
    exact ih (fun d b hb => hstep d b (List.mem_cons_of_mem a hb))
      (hstep draft a List.mem_cons_self h)

theorem addFieldRules_madeOf (fields : m.HoldsFields) {registry : Registry}
    (hregistry : registry.MadeOf m) (lineage : List String) (field : String) {draft : Draft}
    (h : draft.MadeOf m) : (addFieldRules g registry lineage field draft).MadeOf m := by
  refine foldl_madeOf _ (fun d rule member hd => ?_) h
  obtain ⟨cls, -, hrule⟩ := List.mem_flatMap.mp member
  exact within_madeOf hd ⟨trivial, fields.field field⟩ fun part hpart =>
    Draft.addPrebuilt_madeOf hpart (fieldRulesOf_madeOf hregistry cls field rule hrule)

theorem addRelation_madeOf (fields : m.HoldsFields) (field : String) (relation : Relation)
    {draft : Draft} (h : draft.MadeOf m) : (addRelation g name field relation draft).MadeOf m := by
  refine within_madeOf h ⟨trivial, fields.field field⟩ fun part hpart => ?_
  split
  · exact within_madeOf hpart ⟨trivial, fields.this⟩ fun elements helements =>
      Draft.addPrebuilt_madeOf helements trivial
  · exact Draft.addPrebuilt_madeOf hpart trivial

/-- The rules of a class are declared of registered rules and steps to fields. -/
theorem draftOf_madeOf (fields : m.HoldsFields) {registry : Registry} (h : registry.MadeOf m)
    (cls : String) : (draftOf g schema name registry cls).MadeOf m := by
  unfold draftOf
  refine foldl_madeOf _ (fun draft field _ hdraft => ?_) ?_
  · have own := addFieldRules_madeOf (g := g) fields h (schema.lineage cls) field.1 hdraft
    obtain ⟨field, fieldType⟩ := field
    cases relation : fieldType.relation? with
    | none => simpa only [relation] using own
    | some target => simpa only [relation] using addRelation_madeOf fields field target own
  · refine foldl_madeOf _ (fun draft rule member hdraft => ?_) (Draft.empty_madeOf m false)
    obtain ⟨c, -, hrule⟩ := List.mem_flatMap.mp member
    exact Draft.addPrebuilt_madeOf hdraft (rulesOf_madeOf h c rule hrule)

theorem rules_madeOf (fields : m.HoldsFields) {registry : Registry} (h : registry.MadeOf m)
    {cls : String} {rule : Validation} (found : rules g schema name registry cls = some rule) :
    rule.MadeOf m := by
  unfold rules at found
  split at found
  · next kept => exact h.cache _ (mem_of_lookup kept) rule found
  · cases found
    exact Draft.build_madeOf _ (draftOf_madeOf fields h cls)

end Registry

/-- Everything that is registered in a rulebook is made of the material. -/
def Rulebook.MadeOf (m : Material) (book : Rulebook) : Prop :=
  ∀ entry ∈ book.registries, entry.2.MadeOf m

/-- A rulebook serves rules of the material that its registries hold. -/
theorem Rulebook.MadeOf.served {g : ObjectGraph} {m : Material} {book : Rulebook}
    (h : book.MadeOf m) (fields : m.HoldsFields) (name cls : String) (rule : Validation)
    (found : book.rules g name cls = some rule) : rule.MadeOf m := by
  refine Registry.rules_madeOf fields ?_ found
  unfold Rulebook.registry
  cases kept : book.registries.lookup name with
  | none => exact ⟨by simp, by simp, by simp⟩
  | some registry => exact h _ (Registry.mem_of_lookup kept)

end PathRules
