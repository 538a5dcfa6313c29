import PathRules.Proofs.Model.Compiled
import PathRules.Proofs.Run.Turns

/-!
# The schedule of a class

The rules that a class compiles to check an instance in turns: field by field those for the field
and then what its relation leads to, and last those for the class.
-/

namespace PathRules

variable {g : ObjectGraph} {expand : Expand} {schema : Schema} {name : String} {registry : Registry}

/-- An instance has the fields that are checked, and the collections of models that they hold can
be gone through.  The elements may be anything. -/
structure Registry.Fits (g : ObjectGraph) (schema : Schema) (registry : Registry) (cls : String)
    (v : Value) : Prop where
  checked {field : String × FieldType} : field ∈ schema.fields cls →
    registry.rulesForField schema cls field.1 ≠ [] → ∃ part, v.followAttributes g field.1 = .ok part
  related {field : String × FieldType} {relation : Relation} : field ∈ schema.fields cls →
    field.2.relation? = some relation → ∃ part, v.followAttributes g field.1 = .ok part ∧
      (relation.isCollection = true → part ≠ .null → ∃ items, part.items? g = some items)

/-- The turns that follow a relation, at the place of its field which holds the given value: one for
each element of a collection below its index, one for a single model, and none for null. -/
def Relation.turns (g : ObjectGraph) (name : String) (relation : Relation) (part : Value)
    (place : DataPath) : List Turn :=
  match part with
  | .null => []
  | part =>
      if relation.isCollection then
        ((part.items? g).getD []).mapIdx fun index a =>
          ⟨.model name relation.target, a, place.snoc (.ofIndex index)⟩
      else [⟨.model name relation.target, part, place⟩]

theorem Relation.turns_eq (relation : Relation) {part : Value} (present : part ≠ .null)
    (place : DataPath) : relation.turns g name part place =
      if relation.isCollection then
        ((part.items? g).getD []).mapIdx fun index a =>
          ⟨.model name relation.target, a, place.snoc (.ofIndex index)⟩
      else [⟨.model name relation.target, part, place⟩] := by
  cases part with
  | null => exact absurd rfl present
  | _ => rfl

/-- The turns for what a field of an instance holds, at the place of the field. -/
def ObjectGraph.turnsAt (g : ObjectGraph) (v : Value) (field : String)
    (turns : Value → DataPath → List Turn) (place : DataPath) : List Turn :=
  match v.followAttributes g field with
  | .ok part => turns part (place.snoc (.ofName field))
  | .error _ => []

theorem ObjectGraph.turnsAt_eq {v part : Value} {field : String}
    (taken : v.followAttributes g field = .ok part) (turns : Value → DataPath → List Turn)
    (place : DataPath) :
    g.turnsAt v field turns place = turns part (place.snoc (.ofName field)) := by
  rw [turnsAt, taken]

@[simp] theorem ObjectGraph.turnsAt_each_nil (v : Value) (field : String) (place : DataPath) :
    g.turnsAt v field (Turn.each []) place = [] := by
  unfold turnsAt
  split <;> rfl

/-- The turns that the relation of a field takes, if it has one. -/
def ObjectGraph.relationTurns (g : ObjectGraph) (name : String) (v : Value) (place : DataPath)
    (field : String × FieldType) : List Turn :=
  field.2.relation?.toList.flatMap fun relation =>
    g.turnsAt v field.1 (relation.turns g name) place

namespace Registry

/-- The turns for a field of an instance: the rules for it, then its relation. -/
def fieldTurns (g : ObjectGraph) (schema : Schema) (name : String) (registry : Registry)
    (cls : String) (v : Value) (field : String × FieldType) (place : DataPath) : List Turn :=
  g.turnsAt v field.1 (Turn.each (rulesForField schema registry cls field.1)) place ++
    g.relationTurns name v place field

/-- The turns for an instance: its fields one after the other, then the rules for its class. -/
def turnsFor (g : ObjectGraph) (schema : Schema) (name : String) (registry : Registry)
    (cls : String) (v : Value) (place : DataPath) : List Turn :=
  (schema.fields cls).flatMap (fieldTurns g schema name registry cls v · place) ++
    Turn.each (rulesForClass schema registry cls) v place

theorem runOn_followAttributes {field : String} {v part : Value}
    (taken : v.followAttributes g field = .ok part) (store : Store) :
    ((Segment.ofName field).get v).runOn g store = (.ok part, store) := by
  change (Check.ofExcept (v.followAttributes g field)).runOn g store = _
  rw [Check.runOn_ofExcept, taken]

section Taken

variable {cls field : String} {v part : Value} (taken : v.followAttributes g field = .ok part)

include taken

/-- The step of a field is a turn for each of its rules. -/
theorem fieldStep_takes (rules : List Validation) :
    TakesTurns g expand (·.isOpen = true) (g.turnsAt v field (Turn.each rules))
      ((fieldStep field rules).evaluate expand v) := by
  rw [funext (g.turnsAt_eq taken (Turn.each rules))]
  exact .step .undefined (runOn_followAttributes taken) (.inl rfl) (.rules rules part)

/-- A relation is followed to all that is there, a collection to each of its elements. -/
theorem relationStep_takes {relation : Relation}
    (iterates : relation.isCollection = true → part ≠ .null → ∃ items, part.items? g = some items) :
    TakesTurns g expand (·.isOpen = true) (g.turnsAt v field (relation.turns g name))
      ((relationStep name field relation).evaluate expand v) := by
  rw [funext (g.turnsAt_eq taken (relation.turns g name))]
  by_cases absent : part = .null
  · subst absent
    exact .step_null (runOn_followAttributes taken)
  have model (a : Value) : TakesTurns g expand Stack.InGroup _
      ((Validation.model name relation.target).evaluate expand a) :=
    .one (.model name relation.target) a
  refine .step .optional (runOn_followAttributes taken) (.inr ⟨rfl, absent⟩) (.alone ?_)
  rw [relationRules, funext (relation.turns_eq absent)]
  cases many : relation.isCollection with
  | false => exact model part
  | true =>
    obtain ⟨items, found⟩ := iterates many absent
    have each := TakesTurns.elements found fun a => (model a).alone
    simp only [← List.map_eq_flatMap, Validation.numbered, List.map_map] at each
    rw [found]
    simp only [if_true, Option.getD_some, List.mapIdx_eq_zipIdx_map]
    have itself (store : Store) : (Segment.this.get part).runOn g store = (.ok part, store) := rfl
    exact (TakesTurns.step .undefined itself (.inl rfl) each).inGroup

end Taken

section Parts

variable (g schema name registry) (cls : String) (v : Value)

/-- The steps of a field, each with its turns. -/
def partsFor (field : String × FieldType) : List ((DataPath → List Turn) × Validation) :=
  let rules := rulesForField schema registry cls field.1
  (if rules.isEmpty then []
    else [(g.turnsAt v field.1 (Turn.each rules), fieldStep field.1 rules)]) ++
    field.2.relation?.toList.map fun relation =>
      (g.turnsAt v field.1 (relation.turns g name), relationStep name field.1 relation)

theorem partsFor_snd (field : String × FieldType) :
    (partsFor g schema name registry cls v field).map (·.2) =
      stepsFor schema name registry cls field := by
  unfold partsFor stepsFor
  dsimp only
  rw [List.map_append, List.map_map]
  congr 1
  split <;> rfl

theorem partsFor_fst (field : String × FieldType) (place : DataPath) :
    (partsFor g schema name registry cls v field).flatMap (·.1 place) =
      fieldTurns g schema name registry cls v field place := by
  unfold partsFor fieldTurns ObjectGraph.relationTurns
  dsimp only
  rw [List.flatMap_append, List.flatMap_map]
  congr 1
  split
  · next empty => rw [List.isEmpty_iff.mp empty, ObjectGraph.turnsAt_each_nil, List.flatMap_nil]
  · simp

end Parts

/-- What a class compiles to checks an instance in the turns of its schedule. -/
theorem form_takes {cls : String} {v : Value} (fits : registry.Fits g schema cls v) :
    TakesTurns g expand (·.isOpen = true) (turnsFor g schema name registry cls v)
      ((form schema name registry cls).evaluate expand v) := by
  let parts := (schema.fields cls).flatMap (partsFor g schema name registry cls v) ++
    (rulesForClass schema registry cls).map fun rule => (fun place => [⟨rule, v, place⟩], rule)
  have validations : parts.map (·.2) = (schema.fields cls).flatMap
      (stepsFor schema name registry cls) ++ rulesForClass schema registry cls := by
    simp [parts, List.map_flatMap, partsFor_snd, Function.comp_def]
  have turns : (fun place => parts.flatMap (·.1 place)) =
      turnsFor g schema name registry cls v := by
    funext place
    simp [parts, List.flatMap_assoc, partsFor_fst, turnsFor, Turn.each, List.map_eq_flatMap]
  rw [form, ← validations, ← turns]
  refine TakesTurns.object parts fun part member => ?_
  rcases List.mem_append.mp member with ofField | ofClass
  · obtain ⟨field, declared, listed⟩ := List.mem_flatMap.mp ofField
    rcases List.mem_append.mp listed with rules | relation
    · split at rules
      · cases rules
      · next some =>
        obtain rfl := List.mem_singleton.mp rules
        obtain ⟨part, taken⟩ := fits.checked declared (by simpa using some)
        exact (fieldStep_takes taken _).inGroup
    · obtain ⟨relation, present, rfl⟩ := List.mem_map.mp relation
      obtain ⟨part, taken, iterates⟩ := fits.related declared (Option.mem_toList.mp present)
      exact (relationStep_takes taken iterates).inGroup
  · obtain ⟨rule, -, rfl⟩ := List.mem_map.mp ofClass
    exact .one rule v

end Registry

/-- The run once the rules of a class were found for a value that was met for the first time. -/
def Run.expanding (g : ObjectGraph) (name cls : String) (run : Run) : Run :=
  { run with rulebook := (run.rulebook.compiled g name cls).2 }

/-- A value that is met for the first time is checked with the rules that are found. -/
theorem runOn_expandMet_first {run : Run} {cls : String} {rules : Validation} (nested : Expand)
    (v : Value) (found : (run.rulebook.compiled g name cls).1 = some rules) :
    (expandMet lookUpRules nested name cls v true).runOn g run =
      (rules.evaluate nested v).runOn g (run.expanding g name cls) := by
  have looked : (lookUpRules name cls).runOn g run =
      (.ok (some rules), run.expanding g name cls) := by
    rw [← found]
    rfl
  unfold expandMet
  rw [if_pos rfl, RunM.runOn_bind, looked]

end PathRules
