import PathRules.Proofs.Model.Compiled
import PathRules.Proofs.Model.Exploration
import PathRules.Proofs.Run.Visits

/-!
# What relations of instances lead to

The data of models is typed: relation fields hold instances of what they relate to.  Along them
`ObjectGraph.edges` says what an instance leads to, and `ObjectGraph.tasks` with the rules that
apply to it what it takes to expand it.  Instances are objects, of which there are so many; a
visit leaves one less that was not seen.
-/

namespace PathRules

variable {g : ObjectGraph}

/-- What a relation field with the given value leads to. -/
def Relation.arrivals (g : ObjectGraph) (relation : Relation) (part : Value) : List Arrival :=
  match part with
  | .null => []
  | part =>
      if relation.isCollection then ((part.items? g).getD []).map (⟨relation.target, ·⟩)
      else [⟨relation.target, part⟩]

theorem Relation.arrivals_eq (relation : Relation) {part : Value} (present : part ≠ .null) :
    relation.arrivals g part =
      if relation.isCollection then ((part.items? g).getD []).map (⟨relation.target, ·⟩)
      else [⟨relation.target, part⟩] := by
  cases part with
  | null => exact absurd rfl present
  | _ => rfl

namespace ObjectGraph

/-- What a relation in a field leads to from an instance. -/
def along (g : ObjectGraph) (v : Value) (field : String) (relation : Relation) : List Arrival :=
  match v.followAttributes g field with
  | .ok part => relation.arrivals g part
  | .error _ => []

theorem along_eq {v part : Value} {field : String} (relation : Relation)
    (taken : v.followAttributes g field = .ok part) :
    g.along v field relation = relation.arrivals g part := by
  rw [along, taken]

/-- What the relation fields of a class lead to from an instance: one arrival for each single
relation that is not null and for each element of a collection. -/
def edges (g : ObjectGraph) (schema : Schema) (a : Arrival) : List Arrival :=
  (schema.fields a.cls).flatMap fun (field, fieldType) =>
    fieldType.relation?.toList.flatMap (g.along a.value field)

/-- The rules for a field, to be applied to what an instance has there. -/
def ruleTasks (g : ObjectGraph) (v : Value) (field : String) (rules : List Validation) :
    List Task :=
  match v.followAttributes g field with
  | .ok part => rules.map fun rule => .apply ⟨rule, part⟩
  | .error _ => []

theorem ruleTasks_eq {v part : Value} {field : String} (rules : List Validation)
    (taken : v.followAttributes g field = .ok part) :
    g.ruleTasks v field rules = rules.map fun rule => .apply ⟨rule, part⟩ := by
  rw [ruleTasks, taken]

@[simp] theorem ruleTasks_nil (v : Value) (field : String) : g.ruleTasks v field [] = [] := by
  unfold ruleTasks
  split <;> rfl

/-- What has to be done with a field of an instance: the rules for it, and whom its relation
leads to. -/
def fieldTasks (g : ObjectGraph) (schema : Schema) (registry : Registry) (a : Arrival)
    (field : String × FieldType) : List Task :=
  g.ruleTasks a.value field.1 (registry.rulesForField schema a.cls field.1) ++
    (field.2.relation?.toList.flatMap (g.along a.value field.1)).map .meet

/-- What has to be done to expand an instance: its fields in turn, then the rules for its class. -/
def tasks (g : ObjectGraph) (schema : Schema) (registry : Registry) (a : Arrival) : List Task :=
  (schema.fields a.cls).flatMap (g.fieldTasks schema registry a) ++
    (registry.rulesForClass schema a.cls).map fun rule => .apply ⟨rule, a.value⟩

theorem arrivals_tasks (schema : Schema) (registry : Registry) (a : Arrival) :
    Task.arrivals (g.tasks schema registry a) = g.edges schema a := by
  have rules (v : Value) (field : String) (rules : List Validation) :
      (g.ruleTasks v field rules).filterMap Task.arrival? = [] := by
    unfold ruleTasks
    split <;> simp [Task.arrival?]
  simp [Task.arrivals, tasks, fieldTasks, edges, rules, Task.arrival?, List.filterMap_map,
    List.filterMap_flatMap, Function.comp_def]

/-- An object that is an instance of a class. -/
def HasInstance (g : ObjectGraph) (cls : String) (v : Value) : Prop :=
  ∃ ref o, v = .object ref ∧ g.object? ref = some o ∧ cls ∈ g.ancestorsOf o.cls

/-- Instances have the relation fields of their classes.  Single relations are null or hold an
instance of the target, collections are null or hold any number of them. -/
structure Typed (g : ObjectGraph) (schema : Schema) : Prop where
  single {cls : String} {v : Value} {field : String × FieldType} {relation : Relation} :
    g.HasInstance cls v → field ∈ schema.fields cls → field.2.relation? = some relation →
      relation.isCollection = false →
        ∃ part, v.followAttributes g field.1 = .ok part ∧
          (part = .null ∨ g.HasInstance relation.target part)
  collection {cls : String} {v : Value} {field : String × FieldType} {relation : Relation} :
    g.HasInstance cls v → field ∈ schema.fields cls → field.2.relation? = some relation →
      relation.isCollection = true →
        ∃ part, v.followAttributes g field.1 = .ok part ∧
          (part = .null ∨
            ∃ items, part.items? g = some items ∧ ∀ a ∈ items, g.HasInstance relation.target a)

/-- What a relation field of an instance holds. -/
theorem Typed.taken {schema : Schema} (typed : g.Typed schema) {cls : String} {v : Value}
    {field : String × FieldType} {relation : Relation} (isInstance : g.HasInstance cls v)
    (declared : field ∈ schema.fields cls) (relates : field.2.relation? = some relation) :
    ∃ part, v.followAttributes g field.1 = .ok part ∧ (part ≠ .null →
      (relation.isCollection = false → g.HasInstance relation.target part) ∧
      (relation.isCollection = true → ∃ items, part.items? g = some items ∧
        ∀ a ∈ items, g.HasInstance relation.target a)) := by
  cases many : relation.isCollection with
  | false =>
    obtain ⟨part, taken, holds⟩ := typed.single isInstance declared relates many
    exact ⟨part, taken, fun present => ⟨fun _ => holds.resolve_left present, nofun⟩⟩
  | true =>
    obtain ⟨part, taken, holds⟩ := typed.collection isInstance declared relates many
    exact ⟨part, taken, fun present => ⟨nofun, fun _ => holds.resolve_left present⟩⟩

/-- Relations lead to instances of what they declare. -/
theorem Typed.hasInstance_of_mem_edges {schema : Schema} (typed : g.Typed schema) {a b : Arrival}
    (h : g.HasInstance a.cls a.value) (edge : b ∈ g.edges schema a) :
    g.HasInstance b.cls b.value := by
  obtain ⟨⟨field, fieldType⟩, declared, led⟩ := List.mem_flatMap.mp edge
  obtain ⟨relation, present, along⟩ := List.mem_flatMap.mp led
  have relates : fieldType.relation? = some relation := Option.mem_toList.mp present
  obtain ⟨part, taken, holds⟩ := typed.taken h declared relates
  rw [along_eq relation taken] at along
  by_cases absent : part = .null
  · subst absent
    cases along
  · obtain ⟨single, collection⟩ := holds absent
    rw [relation.arrivals_eq absent] at along
    cases many : relation.isCollection with
    | false =>
      rw [many, if_neg Bool.false_ne_true] at along
      rw [List.mem_singleton.mp along]
      exact single many
    | true =>
      obtain ⟨items, found, instances⟩ := collection many
      rw [many, if_pos rfl, found, Option.getD_some] at along
      obtain ⟨item, member, rfl⟩ := List.mem_map.mp along
      exact instances item member

/-- The number of objects that were not seen yet. -/
def unseen (g : ObjectGraph) (seen : List Value) : Nat :=
  ((List.range g.objects.size).filter fun ref => !seen.any (Value.object ref).identical).length

theorem identical_object {ref : Nat} {v : Value} :
    (Value.object ref).identical v = true ↔ v = .object ref := by
  cases v with
  | object other =>
    rw [Value.identical, beq_iff_eq, Value.object.injEq]
    exact eq_comm
  | _ => simp [Value.identical]

theorem any_identical {ref : Nat} {seen : List Value} :
    seen.any (Value.object ref).identical = true ↔ Value.object ref ∈ seen := by
  simp [identical_object]

theorem unseen_append_le (g : ObjectGraph) (seen more : List Value) :
    g.unseen (seen ++ more) ≤ g.unseen seen := by
  refine List.Sublist.length_le (List.monotone_filter_right _ fun ref unknown => ?_)
  simpa using (by simpa using unknown : _ ∧ _).1

/-- An instance that is seen for the first time leaves fewer. -/
theorem unseen_lt {cls : String} {v : Value} {seen : List Value} (isInstance : g.HasInstance cls v)
    (new : v ∉ seen) : g.unseen (seen ++ [v]) < g.unseen seen := by
  obtain ⟨ref, o, rfl, found, -⟩ := isInstance
  have present : ref < g.objects.size := by
    rw [object?] at found
    exact (Array.getElem?_eq_some_iff.mp found).1
  have fewer : (List.range g.objects.size).filter
        (fun r => !(seen ++ [Value.object ref]).any (Value.object r).identical) =
      ((List.range g.objects.size).filter fun r => !seen.any (Value.object r).identical).filter
        (· != ref) := by
    rw [List.filter_filter]
    refine List.filter_congr fun r _ => ?_
    simp [Value.identical, bne, Bool.and_comm]
  unfold unseen
  rw [fewer, List.length_filter_lt_length_iff_exists]
  refine ⟨ref, List.mem_filter.mpr ⟨List.mem_range.mpr present, ?_⟩, by simp⟩
  rwa [Bool.not_eq_true', ← Bool.not_eq_true, any_identical]

end ObjectGraph

/-- The entry of the visited holds what was seen. -/
def Store.Tracks (store : Store) (seen : List Value) : Prop :=
  store.get? visitedKey = some (.set seen) ∨ store.get? visitedKey = none ∧ seen = []

theorem Store.Tracks.visited_eq {store : Store} {seen : List Value} (h : store.Tracks seen) :
    store.visited = seen := by
  rcases h with held | ⟨missing, rfl⟩
  · simp [visited, held]
  · simp [visited, missing]

/-- An instance is visited again, or for the first time and seen from then on. -/
theorem Store.Tracks.visit {store : Store} {seen : List Value} (h : store.Tracks seen)
    {cls : String} {v : Value} (isInstance : g.HasInstance cls v) {I : Store → Prop}
    (notes : ∀ store seen, I store → I (store.put visitedKey (.set seen))) (holds : I store) :
    ∃ first after, (PathRules.visit v).runOn g store = (.ok first, after) ∧
      (first = true ↔ v ∉ seen) ∧ after.Tracks (if first then seen ++ [v] else seen) ∧
      I after := by
  obtain ⟨ref, o, rfl, -, -⟩ := isInstance
  have cases := visit_cases (g := g) (.object ref) store
  rcases ran : (PathRules.visit (.object ref)).runOn g store with ⟨result, after⟩
  rw [ran] at cases
  cases cases with
  | again known =>
    rw [hasVisited, h.visited_eq, ObjectGraph.any_identical] at known
    exact ⟨false, _, rfl, by simpa using known, by simpa using h, holds⟩
  | first new =>
    rw [hasVisited, h.visited_eq, ← Bool.not_eq_true, ObjectGraph.any_identical] at new
    rw [h.visited_eq] at ran ⊢
    exact ⟨true, _, rfl, by simpa using new, .inl (get?_put ..), notes store _ holds⟩
  | failed fault _ noSet nonempty =>
    rcases h with held | ⟨missing, -⟩
    · exact absurd held (noSet seen)
    · exact absurd missing nonempty

end PathRules
