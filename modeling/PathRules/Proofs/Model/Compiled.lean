import PathRules.Proofs.Model.Rules

/-!
# What the rules of a class are compiled to

Compilation declares steps on a draft: per field one for its rules and one for its relation.
`Registry.form` is the validation that comes of it, in closed form.  It depends on the schema
and on what is registered, but neither on what is compiled already nor on the objects that are
to be validated.
-/

namespace PathRules

namespace Schema

/-- No field of a class is listed twice. -/
theorem fields_nodup (schema : Schema) (cls : String) :
    ((schema.fields cls).map (·.1)).Nodup := by
  unfold fields
  cases schema.find? cls with
  | none => exact List.nodup_nil
  | some c => exact c.distinct

end Schema

namespace Draft

variable {g : ObjectGraph} {key : StepKey} {f : Draft → Draft}

theorem modify_last {α : Type} (items : List α) (a : α) (f : α → α) :
    (items ++ [a]).modify items.length f = items ++ [f a] := by
  induction items with
  | nil => rfl
  | cons b items ih => simp [ih]

/-- A key that is not there yet is added last. -/
theorem within_new {draft : Draft} (new : ∀ entry ∈ draft.nested, entry.1.same g key = false) :
    Registry.within g key f draft =
      { draft with nested := draft.nested ++ [(key, f (empty draft.anyOf))] } := by
  have absent : draft.find? g key = none :=
    List.findIdx?_eq_none_iff.mpr new
  unfold Registry.within
  rw [absent]
  simp [modifyAt, addNested, modify_last]

/-- The draft under the key that was added last is changed. -/
theorem within_last {draft : Draft} {part : Draft} {before : List (StepKey × Draft)}
    (last : draft.nested = before ++ [(key, part)])
    (new : ∀ entry ∈ before, entry.1.same g key = false) (self : key.same g key = true) :
    Registry.within g key f draft = { draft with nested := before ++ [(key, f part)] } := by
  have present : draft.find? g key = some before.length := by
    unfold find?
    rw [last, List.findIdx?_append, List.findIdx?_eq_none_iff.mpr new]
    simp [List.findIdx?_cons, self]
  unfold Registry.within
  rw [present]
  simp [modifyAt, last, modify_last]

theorem foldl_addPrebuilt (rules : List Validation) (draft : Draft) :
    rules.foldl addPrebuilt draft = { draft with prebuilt := draft.prebuilt ++ rules } := by
  induction rules generalizing draft with
  | nil =>
    cases draft
    simp
  | cons rule rules ih => simp [ih, addPrebuilt]

theorem buildNested_append (first second : List (StepKey × Draft)) :
    buildNested (first ++ second) = buildNested first ++ buildNested second := by
  induction first with
  | nil => rfl
  | cons entry first ih =>
    obtain ⟨key, draft⟩ := entry
    simp [buildNested, ih]

theorem buildNested_flatMap {α : Type} (items : List α) (parts : α → List (StepKey × Draft)) :
    buildNested (items.flatMap parts) = items.flatMap fun a => buildNested (parts a) := by
  induction items with
  | nil => rfl
  | cons a items ih => simp [buildNested_append, ih]

end Draft

namespace Registry

variable {g : ObjectGraph} {schema : Schema} {name : String} {registry : Registry}

/-- The step that checks a field with its rules. -/
def fieldStep (field : String) (rules : List Validation) : Validation :=
  .step .undefined [] (.ofName field) (.object [] rules false false)

/-- The rules for what a relation leads to: the model itself, or each element. -/
def relationRules (name : String) (relation : Relation) : Validation :=
  let nested := Validation.model name relation.target
  if relation.isCollection then
    .step .undefined [] .this (.elements (.iterated []) (.object [] [nested] false false))
  else nested

/-- The step that follows a relation, unless it is null. -/
def relationStep (name field : String) (relation : Relation) : Validation :=
  .step .optional [] (.ofName field) (.object [] [relationRules name relation] false false)

/-- The rules registered for a field of a class or of its ancestors, the nearest first. -/
def rulesForField (schema : Schema) (registry : Registry) (cls field : String) : List Validation :=
  (schema.lineage cls).flatMap (registry.fieldRulesOf · field)

def rulesForClass (schema : Schema) (registry : Registry) (cls : String) : List Validation :=
  (schema.lineage cls).flatMap registry.rulesOf

/-- The steps that a field of a class is checked in. -/
def stepsFor (schema : Schema) (name : String) (registry : Registry) (cls : String)
    (field : String × FieldType) : List Validation :=
  let rules := rulesForField schema registry cls field.1
  (if rules.isEmpty then [] else [fieldStep field.1 rules]) ++
    field.2.relation?.toList.map (relationStep name field.1)

/-- The validation that the rules of a class are compiled to. -/
def form (schema : Schema) (name : String) (registry : Registry) (cls : String) : Validation :=
  .object []
    ((schema.fields cls).flatMap (stepsFor schema name registry cls) ++
      rulesForClass schema registry cls) false false

section Keys

theorem same_fieldKey (field other : String) :
    (fieldKey field).same g (fieldKey other) = (field == other) := by
  simp [StepKey.same, fieldKey, Path.sameKey, Path.numbers, Segment.ofName, Segment.sameKey,
    Segment.eqBy, Segment.name, Value.sameItems]

theorem same_relationKey (field other : String) :
    (relationKey field).same g (relationKey other) = (field == other) := by
  simp [StepKey.same, relationKey, Path.sameKey, Path.numbers, Segment.ofName, Segment.sameKey,
    Segment.eqBy, Segment.name, Value.sameItems]

theorem fieldKey_not_relationKey (field other : String) :
    (fieldKey field).same g (relationKey other) = false := by
  simp [StepKey.same, fieldKey, relationKey]

theorem relationKey_not_fieldKey (field other : String) :
    (relationKey field).same g (fieldKey other) = false := by
  simp [StepKey.same, fieldKey, relationKey]

end Keys

/-- A draft that holds the given validations. -/
def holding (rules : List Validation) : Draft := { Draft.empty false with prebuilt := rules }

theorem build_holding (rules : List Validation) :
    (holding rules).build = .object [] rules false false := by
  simp [holding, Draft.empty, Draft.build, Draft.buildNested]

/-- The draft of what a relation leads to. -/
def relationDraft (name : String) (relation : Relation) : Draft :=
  let nested := Validation.model name relation.target
  if relation.isCollection then
    { Draft.empty false with nested := [(elementsKey, holding [nested])] }
  else holding [nested]

/-- The entries that a field adds to the draft of a class. -/
def entriesFor (schema : Schema) (name : String) (registry : Registry) (cls : String)
    (field : String × FieldType) : List (StepKey × Draft) :=
  let rules := rulesForField schema registry cls field.1
  (if rules.isEmpty then [] else [(fieldKey field.1, holding rules)]) ++
    field.2.relation?.toList.map fun relation =>
      (relationKey field.1, relationDraft name relation)

theorem buildNested_entriesFor (cls : String) (field : String × FieldType) :
    Draft.buildNested (entriesFor schema name registry cls field) =
      stepsFor schema name registry cls field := by
  have relations (relation : Relation) :
      Draft.buildNested [(relationKey field.1, relationDraft name relation)] =
        [relationStep name field.1 relation] := by
    cases collection : relation.isCollection <;>
      simp [relationDraft, relationStep, relationRules, collection, Draft.buildNested,
        Draft.build, Draft.empty, StepKey.wrap, Validation.guarded, relationKey, elementsKey,
        holding]
  unfold entriesFor stepsFor
  rw [Draft.buildNested_append]
  congr 1
  · split
    · rfl
    · simp [Draft.buildNested, build_holding, StepKey.wrap, Validation.guarded, fieldKey, fieldStep]
  · cases field.2.relation? with
    | none => rfl
    | some relation => exact relations relation

/-- Where neither the rules nor the relation of a field are declared yet. -/
def Fresh (g : ObjectGraph) (field : String) (draft : Draft) : Prop :=
  ∀ entry ∈ draft.nested, entry.1.same g (fieldKey field) = false ∧
    entry.1.same g (relationKey field) = false

/-- Rules added to the step of a field stand there together. -/
theorem foldl_within_field {field : String} (rules held : List Validation) {draft : Draft}
    {before : List (StepKey × Draft)}
    (last : draft.nested = before ++ [(fieldKey field, holding held)])
    (new : ∀ entry ∈ before, entry.1.same g (fieldKey field) = false) :
    rules.foldl (fun draft rule => within g (fieldKey field) (·.addPrebuilt rule) draft) draft =
      { draft with nested := before ++ [(fieldKey field, holding (held ++ rules))] } := by
  induction rules generalizing draft held with
  | nil =>
    cases draft
    simp [← last]
  | cons rule rules ih =>
    have self : (fieldKey field).same g (fieldKey field) = true := by simp [same_fieldKey]
    rw [List.foldl_cons, Draft.within_last last new self]
    rw [ih (held ++ [rule]) rfl]
    simp

theorem addFieldRules_eq {cls field : String} {draft : Draft} (single : draft.anyOf = false)
    (fresh : Fresh g field draft) :
    addFieldRules g registry (schema.lineage cls) field draft =
      { draft with nested := draft.nested ++
          if (rulesForField schema registry cls field).isEmpty then []
          else [(fieldKey field, holding (rulesForField schema registry cls field))] } := by
  unfold addFieldRules
  change List.foldl _ draft (rulesForField schema registry cls field) = _
  cases rulesForField schema registry cls field with
  | nil =>
    cases draft
    simp
  | cons rule rules =>
    have new : ∀ entry ∈ draft.nested, entry.1.same g (fieldKey field) = false :=
      fun entry member => (fresh entry member).1
    rw [List.foldl_cons, Draft.within_new new, single]
    rw [foldl_within_field rules [rule] rfl new]
    rfl

theorem addRelation_eq {field : String} {relation : Relation} (draft : Draft)
    (single : draft.anyOf = false)
    (new : ∀ entry ∈ draft.nested, entry.1.same g (relationKey field) = false) :
    addRelation g name field relation draft =
      { draft with nested := draft.nested ++
          [(relationKey field, relationDraft name relation)] } := by
  unfold addRelation
  rw [Draft.within_new new, single]
  unfold relationDraft
  cases relation.isCollection with
  | false => rfl
  | true =>
    have none : ∀ entry ∈ (Draft.empty false).nested, entry.1.same g elementsKey = false := by
      simp [Draft.empty]
    simp only [if_true]
    rw [Draft.within_new none]
    rfl

/-- Declares what a field is checked with: its rules and what follows its relation. -/
def declareField (g : ObjectGraph) (schema : Schema) (name : String) (registry : Registry)
    (cls : String) (draft : Draft) (field : String × FieldType) : Draft :=
  let draft := addFieldRules g registry (schema.lineage cls) field.1 draft
  match field.2.relation? with
  | some relation => addRelation g name field.1 relation draft
  | none => draft

theorem draftOf_eq_foldl (cls : String) :
    draftOf g schema name registry cls =
      (schema.fields cls).foldl (declareField g schema name registry cls)
        ((rulesForClass schema registry cls).foldl Draft.addPrebuilt (Draft.empty false)) := rfl

/-- A field adds its entries behind those that are there. -/
theorem declareField_eq {cls : String} {field : String × FieldType} {draft : Draft}
    (single : draft.anyOf = false) (fresh : Fresh g field.1 draft) :
    declareField g schema name registry cls draft field =
      { draft with nested := draft.nested ++ entriesFor schema name registry cls field } := by
  unfold declareField
  dsimp only
  rw [addFieldRules_eq single fresh]
  unfold entriesFor
  cases field.2.relation? with
  | none => simp
  | some relation =>
    dsimp only
    rw [addRelation_eq { draft with nested := _ } single]
    · simp
    · intro entry member
      rcases List.mem_append.mp member with present | added
      · exact (fresh entry present).2
      · split at added
        · cases added
        · obtain rfl := List.mem_singleton.mp added
          exact fieldKey_not_relationKey field.1 field.1

/-- The entries of one field are no entries of another. -/
theorem fresh_append {cls : String} {field : String × FieldType} {other : String} {draft : Draft}
    (differs : field.1 ≠ other) (fresh : Fresh g other draft) :
    Fresh g other
      { draft with nested := draft.nested ++ entriesFor schema name registry cls field } := by
  intro entry member
  rcases List.mem_append.mp member with present | added
  · exact fresh entry present
  · rcases List.mem_append.mp added with rules | relation
    · split at rules
      · cases rules
      · obtain rfl := List.mem_singleton.mp rules
        exact ⟨by simpa [same_fieldKey] using differs, fieldKey_not_relationKey _ _⟩
    · obtain ⟨_, -, rfl⟩ := List.mem_map.mp relation
      exact ⟨relationKey_not_fieldKey _ _, by simpa [same_relationKey] using differs⟩

theorem foldl_declareField {cls : String} (fields : List (String × FieldType)) {draft : Draft}
    (distinct : (fields.map (·.1)).Nodup) (single : draft.anyOf = false)
    (fresh : ∀ field ∈ fields, Fresh g field.1 draft) :
    fields.foldl (declareField g schema name registry cls) draft =
      { draft with nested := draft.nested ++
          fields.flatMap (entriesFor schema name registry cls) } := by
  induction fields generalizing draft with
  | nil =>
    cases draft
    simp
  | cons field fields ih =>
    rw [List.map_cons, List.nodup_cons] at distinct
    have here := fresh field List.mem_cons_self
    rw [List.foldl_cons, declareField_eq single here, ih distinct.2]
    · simp
    · exact single
    · intro later member
      refine fresh_append ?_ (fresh later (List.mem_cons_of_mem _ member))
      exact fun same => distinct.1 (same ▸ List.mem_map_of_mem member)

/-- The rules of a class compile to their closed form, whatever objects there are. -/
theorem build_draftOf (g : ObjectGraph) (schema : Schema) (name : String) (registry : Registry)
    (cls : String) :
    (draftOf g schema name registry cls).build = form schema name registry cls := by
  rw [draftOf_eq_foldl, Draft.foldl_addPrebuilt, foldl_declareField _ (schema.fields_nodup cls) rfl]
  · simp [Draft.build, Draft.empty, Draft.buildNested_flatMap, buildNested_entriesFor, form,
      rulesForClass]
  · intro field _ entry member
    cases member

/-- Two registries have the same rules for every class and every field. -/
structure SameRules (before after : Registry) : Prop where
  rulesOf_eq : after.rulesOf = before.rulesOf
  fieldRulesOf_eq : after.fieldRulesOf = before.fieldRulesOf

theorem Extends.sameRules {before after : Registry} (h : Extends g schema name before after) :
    before.SameRules after where
  rulesOf_eq := by
    funext cls
    rw [rulesOf, rulesOf, h.classRules]
  fieldRulesOf_eq := by
    funext cls field
    rw [fieldRulesOf, fieldRulesOf, h.fieldRules]

/-- What a class is compiled to depends on the rules of its line and their fields only. -/
theorem form_congr {before after : Registry} (h : before.SameRules after) :
    form schema name after = form schema name before := by
  have steps : stepsFor schema name after = stepsFor schema name before := by
    funext cls field
    rw [stepsFor, stepsFor, rulesForField, rulesForField, h.fieldRulesOf_eq]
  funext cls
  rw [form, form, steps, rulesForClass, rulesForClass, h.rulesOf_eq]

/-- What is compiled is compiled from the rules that are registered now. -/
def Current (schema : Schema) (name : String) (registry : Registry) : Prop :=
  ∀ cls kept, registry.cache.lookup cls = some kept → kept = some (form schema name registry cls)

theorem current_of_empty {registry : Registry} (empty : registry.cache = []) :
    registry.Current schema name := by
  intro cls rules found
  rw [empty] at found
  cases found

theorem Current.rules_eq (current : registry.Current schema name) (g : ObjectGraph) (cls : String) :
    rules g schema name registry cls = some (form schema name registry cls) := by
  unfold rules
  split
  · next kept found => exact current cls kept found
  · rw [build_draftOf]

/-- Compiling further classes keeps a registry current. -/
theorem Extends.current {before after : Registry} (h : Extends g schema name before after)
    (current : before.Current schema name) : after.Current schema name := by
  intro cls kept found
  rw [form_congr h.sameRules]
  rcases h.cache cls with same | ⟨-, made⟩
  · exact current cls kept (same ▸ found)
  · rw [made, build_draftOf] at found
    exact (Option.some.inj found).symm

end Registry

namespace Rulebook

variable {g : ObjectGraph}

/-- What is compiled in any of the registries is compiled from what is registered now. -/
def Current (book : Rulebook) : Prop := ∀ name, (book.registry name).Current book.schema name

/-- The rulebook `after` has the same schema, and its registries have the same rules; what they
have compiled beyond what they had is what the rules compile to. -/
structure Extends (g : ObjectGraph) (before after : Rulebook) : Prop where
  schema_eq : after.schema = before.schema
  registry (name : String) :
    Registry.Extends g before.schema name (before.registry name) (after.registry name)

namespace Extends

variable {a b c : Rulebook}

theorem refl (book : Rulebook) : Extends g book book := ⟨rfl, fun _ => .refl _⟩

theorem trans (first : Extends g a b) (second : Extends g b c) : Extends g a c where
  schema_eq := second.schema_eq.trans first.schema_eq
  registry name := by
    have next := second.registry name
    rw [first.schema_eq] at next
    exact (first.registry name).trans next

theorem rules_eq (h : Extends g a b) : b.rules g = a.rules g := by
  funext name
  unfold rules
  rw [h.schema_eq]
  exact (h.registry name).rules_eq

theorem current (h : Extends g a b) (current : a.Current) : b.Current := by
  intro name
  rw [h.schema_eq]
  exact (h.registry name).current (current name)

end Extends

theorem registry_modify (book : Rulebook) (name other : String) (f : Registry → Registry) :
    (book.modify name f).registry other =
      if other == name then f (book.registry name) else book.registry other := by
  unfold registry modify
  rw [lookup_alter]
  cases other == name <;> rfl

/-- Looking up rules may compile them, and changes nothing else. -/
theorem compiled_extends (g : ObjectGraph) (book : Rulebook) (name cls : String) :
    Extends g book (book.compiled g name cls).2 := by
  refine ⟨rfl, fun other => ?_⟩
  change Registry.Extends g book.schema other (book.registry other)
    ((book.modify name fun _ => _).registry other)
  rw [registry_modify]
  split
  · next same =>
    rw [beq_iff_eq] at same
    subst same
    exact (Registry.compiled_eq (book.registry other) cls).2
  · exact .refl _

/-- A current rulebook answers with the closed form of the rules of a class. -/
theorem Current.compiled_fst {book : Rulebook} (current : book.Current) (g : ObjectGraph)
    (name cls : String) :
    (book.compiled g name cls).1 = some (Registry.form book.schema name (book.registry name) cls) :=
  (Rulebook.compiled_fst book name cls).trans ((current name).rules_eq g cls)

end Rulebook

end PathRules
