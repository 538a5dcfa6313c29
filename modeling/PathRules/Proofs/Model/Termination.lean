import PathRules.Proofs.Model.Compiled
import PathRules.Proofs.Run.Lockstep
import PathRules.Proofs.Run.Visits
import PathRules.Proofs.Value.Contents

/-!
# Model validations end

Neither the rules nor the data of models need be well-founded: classes refer to each other and
objects refer back.  What decreases is the number of values within reach that were not visited
yet.  `expandOver` gives the recursion any other answer where it is cut off; no such answer is
ever asked for.
-/

namespace PathRules

variable {g : ObjectGraph} {name : String} {root : Value} {sources : List (List Value)}

/-- Expands models nested up to `fuel` deep, and below that as `bottom` says. -/
def expandOver (bottom : Expand) : (fuel : Nat) → Expand
  | 0 => bottom
  | fuel + 1 => expandOnce lookUpRules (expandOver bottom fuel)

theorem expandModel_eq_expandOver (fuel : Nat) :
    expandModel fuel = expandOver (fun _ _ _ => throw .endless) fuel := by
  induction fuel with
  | zero => rfl
  | succ fuel ih =>
    rw [expandOver, ← ih]
    rfl

namespace Store

/-- The entry of the visited is left alone, and sources that were there get nothing new. -/
structure Spares (before after : Store) : Prop where
  visited_eq : after.get? visitedKey = before.get? visitedKey
  length_le : before.sources.length ≤ after.sources.length
  remaining (number : Nat) : number < before.sources.length →
    ∀ v ∈ after.remaining number, v ∈ before.remaining number

theorem Takes.spares {before after : Store} (h : before.Takes after) : before.Spares after where
  visited_eq := by rw [get?, get?, h.entries_eq]
  length_le := Nat.le_of_eq h.length_eq.symm
  remaining number _ := fun _ member => (h.suffix number).subset member

theorem Permits.sparing : Permits Spares where
  takes := Takes.spares
  trans first second :=
    { visited_eq := second.visited_eq.trans first.visited_eq
      length_le := Nat.le_trans first.length_le second.length_le
      remaining number present v member :=
        first.remaining number present v
          (second.remaining number (Nat.lt_of_lt_of_le present first.length_le) v member) }

/-- The values within reach that were not visited yet. -/
def unvisited (g : ObjectGraph) (root : Value) (sources : List (List Value)) (store : Store) :
    List Value :=
  (g.within root sources).filter fun v => !store.hasVisited v

theorem unvisited_length_le (g : ObjectGraph) (root : Value) (sources : List (List Value))
    (store : Store) : (store.unvisited g root sources).length ≤ (g.within root sources).length :=
  List.length_filter_le _ _

theorem visited_congr {before after : Store}
    (h : after.get? visitedKey = before.get? visitedKey) : after.visited = before.visited := by
  rw [visited, visited, h]

theorem unvisited_congr {before after : Store}
    (h : after.get? visitedKey = before.get? visitedKey) :
    after.unvisited g root sources = before.unvisited g root sources := by
  unfold unvisited hasVisited
  rw [visited_congr h]

/-- Visiting a value leaves only others unvisited. -/
theorem unvisited_put (store : Store) (v : Value) :
    (store.put visitedKey (.set (store.visited ++ [v]))).unvisited g root sources =
      (store.unvisited g root sources).filter fun a => !a.identical v := by
  unfold unvisited hasVisited
  rw [List.filter_filter, visited_put]
  refine List.filter_congr fun a _ => ?_
  simp [Bool.and_comm]

end Store

/-- All that is registered is free of models, spares the visited and the sources. -/
structure Registry.Sparing (g : ObjectGraph) (registry : Registry) : Prop where
  classRules (cls : String) : ∀ rule ∈ registry.rulesOf cls, rule.Keeps g Store.Spares False
  fieldRules (cls field : String) :
    ∀ rule ∈ registry.fieldRulesOf cls field, rule.Keeps g Store.Spares False

/-- The same run twice, with at most `n` values within reach left to visit, in which the registry
that is asked serves current rules that spare the visited and the sources. -/
structure Reaching (g : ObjectGraph) (name : String) (root : Value) (sources : List (List Value))
    (n : Nat) (run run' : Run) : Prop where
  same : run' = run
  unvisited_le : (run.store.unvisited g root sources).length ≤ n
  length_le : sources.length ≤ run.store.sources.length
  remaining (number : Nat) : number < sources.length →
    ∀ v ∈ run.store.remaining number, v ∈ g.within root sources
  current : (run.rulebook.registry name).Current run.rulebook.schema name
  sparing : (run.rulebook.registry name).Sparing g

namespace Reaching

variable {n m : Nat}

theorem mono {run run' : Run} (h : Reaching g name root sources n run run') (le : n ≤ m) :
    Reaching g name root sources m run run' :=
  { h with unvisited_le := Nat.le_trans h.unvisited_le le }

theorem congruence : Congruence Store.Spares (Reaching g name root sources n) := by
  refine .of_rulebook (fun h => by rw [h.same]) ?_
  rintro run run' after h spares - rulebook
  obtain rfl := h.same
  refine ⟨by rw [← rulebook], ?_, Nat.le_trans h.length_le spares.length_le, ?_, ?_, ?_⟩
  · rw [Store.unvisited_congr spares.visited_eq]
    exact h.unvisited_le
  · intro number present v member
    exact h.remaining number present v
      (spares.remaining number (Nat.lt_of_lt_of_le present h.length_le) v member)
  · exact rulebook ▸ h.current
  · exact rulebook ▸ h.sparing

/-- Sources that are within reach yield what is within reach. -/
theorem yields {v : Value} (within : v ∈ g.within root sources)
    (referred : ∀ number, .source number ∈ g.within root sources → number < sources.length) :
    Validation.Yields g (Reaching g name root sources n)
      (fun a => a ∈ g.within root sources ∨ a.Bare g) v where
  items _ found _ member := ObjectGraph.within_items within found member
  source number same _ _ related a member :=
    .inl (related.remaining number (referred number (same ▸ within)) a member)

end Reaching

section Form

variable {A : Store → Store → Prop} {R : Run → Run → Prop} {schema : Schema} {registry : Registry}
  {nested nested' : Expand} {v : Value}

/-- What a relation leads to is checked in lockstep if the models that it reaches are. -/
theorem relationRules_lockstep {reached : Value → Prop} (congruence : Congruence A R)
    (permits : Store.Permits A)
    (expands : ∀ cls a, reached a → Lockstep g R (nested name cls a) (nested' name cls a))
    (self : reached v) (yields : Validation.Yields g R reached v) (relation : Relation) :
    Lockstep g R ((Registry.relationRules name relation).evaluate nested v)
      ((Registry.relationRules name relation).evaluate nested' v) := by
  have model (a : Value) (h : reached a) :
      Lockstep g R ((Validation.model name relation.target).evaluate nested a)
        ((Validation.model name relation.target).evaluate nested' a) := expands _ a h
  have alone (a : Value) (h : reached a) :
      Lockstep g R
        ((Validation.object [] [.model name relation.target] false false).evaluate nested a)
        ((Validation.object [] [.model name relation.target] false false).evaluate nested' a) :=
    Validation.subs_lockstep congruence permits _ fun sub member =>
      List.mem_singleton.mp member ▸ model a h
  unfold Registry.relationRules
  cases relation.isCollection with
  | false => exact model v self
  | true =>
    refine Validation.step_lockstep congruence permits .undefined (.of_pure true)
      (.of_pure permits v) fun part taken => ?_
    obtain ⟨store, here⟩ := taken
    obtain rfl : v = part := Except.ok.inj here
    rw [Validation.evaluate, Validation.evaluate]
    refine (Lockstep.of_blind congruence (.of_modifyStack permits _)).bind fun _ => ?_
    refine (Validation.iterated_lockstep congruence permits yields alone []).bind fun valid => ?_
    exact .of_blind congruence (.of_close permits valid true)

theorem followAttributes_keeps (permits : Store.Permits A) (field : String) :
    ((Segment.ofName field).get v).Keeps g A :=
  (Check.Keeps.of_read permits).bind permits fun _ => .of_ofExcept permits _

theorem followAttributes_of_canAnswer {field : String} {part : Value}
    (taken : Check.CanAnswer g ((Segment.ofName field).get v) part) :
    v.followAttributes g field = .ok part := by
  obtain ⟨store, here⟩ := taken
  change ((Check.ofExcept (v.followAttributes g field)).runOn g store).1 = _ at here
  rwa [Check.runOn_ofExcept] at here

/-- The rules of a class are checked in lockstep if the models are that its relations reach. -/
theorem form_lockstep (reached : Value → Prop) (congruence : Congruence A R) (permits : Store.Permits A)
    (classRules : ∀ cls, ∀ rule ∈ registry.rulesOf cls, rule.Keeps g A False)
    (fieldRules : ∀ cls field, ∀ rule ∈ registry.fieldRulesOf cls field, rule.Keeps g A False)
    (expands : ∀ cls a, reached a → Lockstep g R (nested name cls a) (nested' name cls a))
    (parts : ∀ field part, v.followAttributes g field = .ok part →
      reached part ∧ Validation.Yields g R reached part) (cls : String) :
    Lockstep g R ((Registry.form schema name registry cls).evaluate nested v)
      ((Registry.form schema name registry cls).evaluate nested' v) := by
  have own (rule : Validation) (keeps : rule.Keeps g A False) (a : Value) :
      Lockstep g R (rule.evaluate nested a) (rule.evaluate nested' a) :=
    Validation.evaluate_lockstep congruence permits False.elim rule keeps a
  have step (sub : Validation) (listed : sub ∈ (schema.fields cls).flatMap
      (Registry.stepsFor schema name registry cls)) :
      Lockstep g R (sub.evaluate nested v) (sub.evaluate nested' v) := by
    obtain ⟨⟨field, fieldType⟩, -, stands⟩ := List.mem_flatMap.mp listed
    rcases List.mem_append.mp stands with ofField | ofRelation
    · split at ofField
      · cases ofField
      · obtain rfl := List.mem_singleton.mp ofField
        refine Validation.step_lockstep congruence permits .undefined (.of_pure true)
          (followAttributes_keeps permits field) fun part _ => ?_
        refine Validation.subs_lockstep congruence permits _ fun rule member => ?_
        obtain ⟨c, -, registered⟩ := List.mem_flatMap.mp member
        exact own rule (fieldRules c field rule registered) part
    · obtain ⟨relation, -, rfl⟩ := List.mem_map.mp ofRelation
      refine Validation.step_lockstep congruence permits .optional (.of_pure true)
        (followAttributes_keeps permits field) fun part taken => ?_
      obtain ⟨reachedPart, yields⟩ := parts field part (followAttributes_of_canAnswer taken)
      refine Validation.subs_lockstep congruence permits _ fun sub member => ?_
      rw [List.mem_singleton.mp member]
      exact relationRules_lockstep congruence permits expands reachedPart yields relation
  refine Validation.subs_lockstep congruence permits _ fun sub member => ?_
  rcases List.mem_append.mp member with listed | ofClass
  · exact step sub listed
  · obtain ⟨c, -, registered⟩ := List.mem_flatMap.mp ofClass
    exact own sub (classRules c sub registered) v

end Form

theorem Registry.Extends.sparing {schema : Schema} {before after : Registry}
    (h : before.Extends g schema name after) (sparing : before.Sparing g) : after.Sparing g where
  classRules cls rule member := by
    rw [Registry.rulesOf, h.classRules] at member
    exact sparing.classRules cls rule member
  fieldRules cls field rule member := by
    rw [Registry.fieldRulesOf, h.fieldRules] at member
    exact sparing.fieldRules cls field rule member

namespace Visited

variable {v : Value} {before after : Store} {result : Except Fault Bool}

/-- A visit may take values out of a source that stands in the place of the visited. -/
theorem taken (h : Visited v before result after) :
    after.sources.length = before.sources.length ∧
      ∀ number, ∀ a ∈ after.remaining number, a ∈ before.remaining number := by
  cases h with
  | again => exact ⟨rfl, fun _ _ => id⟩
  | first => exact ⟨rfl, fun _ _ => id⟩
  | failed _ taken =>
    exact ⟨taken.length_eq, fun number _ member => (taken.suffix number).subset member⟩

theorem unvisited_le (h : Visited v before result after) :
    (after.unvisited g root sources).length ≤ (before.unvisited g root sources).length := by
  cases h with
  | again => exact Nat.le_refl _
  | first =>
    rw [Store.unvisited_put]
    exact List.length_filter_le _ _
  | failed _ taken =>
    exact Nat.le_of_eq (congrArg List.length (Store.unvisited_congr taken.spares.visited_eq))

/-- The first visit of a value within reach leaves fewer to visit. -/
theorem unvisited_lt (h : Visited v before (.ok true) after) (within : v ∈ g.within root sources) :
    (after.unvisited g root sources).length < (before.unvisited g root sources).length := by
  cases h with
  | first new =>
    rw [Store.unvisited_put, List.length_filter_lt_length_iff_exists]
    refine ⟨v, List.mem_filter.mpr ⟨within, by rw [new]; rfl⟩, ?_⟩
    rw [v.identical_self]
    simp

end Visited

namespace Reaching

variable {n : Nat} {run : Run}

/-- What a visit leaves: a value within reach that was not visited before is one less to visit. -/
theorem visit {v : Value} {result : Except Fault Bool} {store : Store}
    (h : Reaching g name root sources n run run) (visited : Visited v run.store result store) {m : Nat}
    (left : (store.unvisited g root sources).length ≤ m) :
    Reaching g name root sources m { run with store } { run with store } where
  same := rfl
  unvisited_le := left
  length_le := visited.taken.1 ▸ h.length_le
  remaining number present a member :=
    h.remaining number present a (visited.taken.2 number a member)
  current := h.current
  sparing := h.sparing

end Reaching

/-- The rules that are found are those of the class. -/
theorem Reaching.answers {n : Nat} {cls : String} {run run' : Run} {rules : Validation}
    (h : Reaching g name root sources n run run')
    (answered : ((lookUpRules name cls).runOn g run).1 = .ok (some rules)) :
    rules = Registry.form run.rulebook.schema name (run.rulebook.registry name) cls := by
  have served : (run.rulebook.compiled g name cls).1 = some rules := Except.ok.inj answered
  rw [Rulebook.compiled_fst, Rulebook.rules, h.current.rules_eq] at served
  exact (Option.some.inj served).symm

theorem lookUpRules_lockstep (n : Nat) (cls : String) :
    Lockstep g (Reaching g name root sources n) (lookUpRules name cls) (lookUpRules name cls) := by
  intro run run' related
  obtain rfl := related.same
  have extended := (Rulebook.compiled_extends g run'.rulebook name cls).registry name
  exact ⟨rfl, { related with
    same := rfl
    current := extended.current related.current
    sparing := extended.sparing related.sparing }⟩

section Expanding

variable {nested nested' : Expand} {v : Value}

/-- A value is expanded in lockstep if the rules for it are checked so.  A value within reach is
one less to visit by then. -/
theorem expandOnce_lockstep (n : Nat) (cls : String)
    (rules : ∀ m, m ≤ n → (v ∈ g.within root sources → m < n) →
      ∀ schema (r : Registry), r.Sparing g → ∀ c,
        Lockstep g (Reaching g name root sources m) ((Registry.form schema name r c).evaluate nested v)
          ((Registry.form schema name r c).evaluate nested' v)) :
    Lockstep g (Reaching g name root sources n) (expandOnce lookUpRules nested name cls v)
      (expandOnce lookUpRules nested' name cls v) := by
  intro run run' related
  obtain rfl := related.same
  have visited := visit_cases (g := g) v run'.store
  unfold expandOnce
  rw [RunM.runOn_bind, RunM.runOn_bind, RunM.runOn_ofCheck]
  rcases ran : (visit v).runOn g run'.store with ⟨fault | first, store⟩ <;>
    rw [ran] at visited <;> dsimp only at visited ⊢
  · exact ⟨rfl, related.visit visited (Nat.le_trans visited.unvisited_le related.unvisited_le)⟩
  · cases first with
    | false =>
      have after := related.visit visited
        (Nat.le_trans visited.unvisited_le related.unvisited_le)
      exact expandMet_lockstep Reaching.congruence .sparing false
        (lookUpRules_lockstep n cls) nofun _ _ after
    | true =>
      let m := (store.unvisited g root sources).length
      have le : m ≤ n := Nat.le_trans visited.unvisited_le related.unvisited_le
      have less (within : v ∈ g.within root sources) : m < n :=
        Nat.lt_of_lt_of_le (visited.unvisited_lt within) related.unvisited_le
      have served (form : Validation) (before before' : Run)
          (reaching : Reaching g name root sources m before before')
          (answered : ((lookUpRules name cls).runOn g before).1 = .ok (some form)) :
          Lockstep g (Reaching g name root sources m) (form.evaluate nested v)
            (form.evaluate nested' v) := by
        rw [reaching.answers answered]
        exact rules m le less _ _ reaching.sparing cls
      obtain ⟨same, left⟩ := expandMet_lockstep Reaching.congruence .sparing true
        (lookUpRules_lockstep m cls) (fun _ => served) _ _ (related.visit visited (Nat.le_refl m))
      exact ⟨same, left.mono le⟩

end Expanding

/-- However the recursion is cut off below as many nested models as there are values left to
visit, the runs are the same. -/
theorem expandOver_lockstep
    (referred : ∀ number, .source number ∈ g.within root sources → number < sources.length)
    (bottom bottom' : Expand) {n fuel fuel' : Nat} (enough : n < fuel) (enough' : n < fuel')
    (cls : String) (v : Value) (reached : v ∈ g.within root sources ∨ v.Bare g) :
    Lockstep g (Reaching g name root sources n) (expandOver bottom fuel name cls v)
      (expandOver bottom' fuel' name cls v) := by
  induction n using Nat.strongRecOn generalizing fuel fuel' cls v with
  | ind n ih =>
    obtain ⟨fuel, rfl⟩ : ∃ k, fuel = k + 1 := ⟨fuel - 1, by omega⟩
    obtain ⟨fuel', rfl⟩ : ∃ k, fuel' = k + 1 := ⟨fuel' - 1, by omega⟩
    refine expandOnce_lockstep n cls fun m le less schema r sparing c => ?_
    have classRules := sparing.classRules
    have fieldRules := sparing.fieldRules
    rcases reached with within | bare
    · have fewer := less within
      refine form_lockstep (fun a => a ∈ g.within root sources ∨ a.Bare g) Reaching.congruence
        .sparing classRules fieldRules (fun c a h => ih m fewer (by omega) (by omega) c a h)
        (fun field part taken => ?_) c
      have inReach := ObjectGraph.within_followAttributes within taken
      exact ⟨.inl inReach, Reaching.yields inReach referred⟩
    · refine form_lockstep (fun _ => False) Reaching.congruence .sparing classRules
        fieldRules (fun _ _ => False.elim) (fun field part taken => ?_) c
      exact absurd taken (bare.followAttributes field part)

namespace Registry

variable {schema : Schema}

/-- Compiles classes nested up to `fuel` deep, and below that as `bottom` says. -/
def ensureOver (bottom : Registry → String → Registry) (g : ObjectGraph) (schema : Schema)
    (name : String) : (fuel : Nat) → Registry → String → Registry
  | 0 => bottom
  | fuel + 1 => ensureOnce g schema name (ensureOver bottom g schema name fuel)

/-- The classes whose compilation was not begun. -/
def pending (schema : Schema) (registry : Registry) : List String :=
  (schema.map (·.name)).filter fun cls => (registry.cache.lookup cls).isNone

/-- What is compiled stays compiled. -/
theorem Extends.pending_le {before after : Registry} (h : Extends g schema name before after) :
    (after.pending schema).length ≤ (before.pending schema).length := by
  have fewer : after.pending schema =
      (before.pending schema).filter fun cls => (after.cache.lookup cls).isNone := by
    unfold pending
    rw [List.filter_filter]
    refine List.filter_congr fun cls _ => ?_
    rcases h.cache cls with same | ⟨absent, made⟩
    · simp [same]
    · simp [absent, made]
  rw [fewer]
  exact List.length_filter_le _ _

/-- A class that is not in the schema has no fields that refer to others. -/
theorem targets_of_unknown {cls : String} (unknown : schema.find? cls = none) :
    targets schema cls = [] := by
  simp [targets, Schema.fields, unknown]

/-- Beginning with a class of the schema leaves one less. -/
theorem pending_begun {registry : Registry} {cls : String}
    (missing : registry.cache.lookup cls = none) (known : (schema.find? cls).isSome = true) :
    (pending schema { registry with
      cache := alter cls none (fun _ => none) registry.cache }).length <
      (registry.pending schema).length := by
  have fewer : pending schema { registry with
        cache := alter cls none (fun _ => none) registry.cache } =
      (registry.pending schema).filter (· != cls) := by
    unfold pending
    rw [List.filter_filter]
    refine List.filter_congr fun other _ => ?_
    rw [lookup_alter]
    by_cases here : other = cls <;> simp [here]
  rw [fewer, List.length_filter_lt_length_iff_exists]
  obtain ⟨c, found⟩ := Option.isSome_iff_exists.mp known
  have named : c.name = cls := by simpa using List.find?_some found
  refine ⟨cls, List.mem_filter.mpr ⟨?_, by rw [missing]; rfl⟩, by simp⟩
  exact named ▸ List.mem_map_of_mem (List.mem_of_find?_eq_some found)

/-- Two ways of compiling nested classes agree if they do whenever less is pending. -/
theorem foldl_ensure_eq {nested nested' : Registry → String → Registry} {n : Nat}
    (same : ∀ registry cls, (registry.pending schema).length ≤ n →
      nested registry cls = nested' registry cls)
    (extends' : ∀ registry cls, Extends g schema name registry (nested' registry cls))
    (classes : List String) (registry : Registry) (few : (registry.pending schema).length ≤ n) :
    classes.foldl nested registry = classes.foldl nested' registry := by
  induction classes generalizing registry with
  | nil => rfl
  | cons cls classes ih =>
    rw [List.foldl_cons, List.foldl_cons, same registry cls few]
    exact ih _ (Nat.le_trans (extends' registry cls).pending_le few)

/-- However the compilation is cut off below as many nested classes as the schema has, the
registries are the same. -/
theorem ensureOver_eq_ensure (bottom : Registry → String → Registry) {n fuel : Nat}
    (enough : n < fuel) (registry : Registry) (cls : String)
    (few : (registry.pending schema).length ≤ n) :
    ensureOver bottom g schema name fuel registry cls = ensure g schema name fuel registry cls := by
  induction n using Nat.strongRecOn generalizing fuel registry cls with
  | ind n ih =>
    obtain ⟨fuel, rfl⟩ : ∃ k, fuel = k + 1 := ⟨fuel - 1, by omega⟩
    rw [ensureOver, ensure, ensureOnce, ensureOnce]
    split
    · rfl
    · next absent =>
      have missing : registry.cache.lookup cls = none := by
        rwa [Bool.not_eq_true, Option.isSome_eq_false_iff, Option.isNone_iff_eq_none] at absent
      have related : (targets schema cls).foldl (ensureOver bottom g schema name fuel)
            { registry with cache := alter cls none (fun _ => none) registry.cache } =
          (targets schema cls).foldl (ensure g schema name fuel)
            { registry with cache := alter cls none (fun _ => none) registry.cache } := by
        cases known : (schema.find? cls).isSome with
        | false =>
          rw [Option.isSome_eq_false_iff, Option.isNone_iff_eq_none] at known
          rw [targets_of_unknown known]
          rfl
        | true =>
          have fewer := pending_begun missing known
          refine foldl_ensure_eq (fun r c le => ?_) (ensure_extends fuel) _ _ (Nat.le_refl _)
          exact ih _ (by omega) (by omega) r c le
      dsimp only
      rw [related]

end Registry

/-- Model validations end, whatever the classes and the objects refer to.  Compiling the rules of
a class nests at most as deep as the schema has classes, and evaluating them at most as deep as
there are values within reach: cut off below that, the recursion gives the same, however it is
continued there.  The rules are free of models, leave the visited values alone and put nothing
into the sources that are part of the data. -/
theorem model_check_ends {run : Run} {name : String} {v : Value}
    (current : (run.rulebook.registry name).Current run.rulebook.schema name)
    (sparing : (run.rulebook.registry name).Sparing g)
    (referred : ∀ number, .source number ∈ g.within v run.store.sources →
      number < run.store.sources.length) (cls : String) :
    (∀ (bottom : Expand) fuel, g.expansions v run.store.sources ≤ fuel →
      ((Validation.model name cls).evaluate (expandOver bottom fuel) v).runOn g run =
        ((Validation.model name cls).check v).runOn g run) ∧
      ∀ (bottom : Registry → String → Registry) (r : Registry) c,
        Registry.ensureOver bottom g run.rulebook.schema name (run.rulebook.schema.length + 1) r c =
          (r.compiled g run.rulebook.schema name c).2 := by
  refine ⟨fun bottom fuel enough => ?_, fun bottom r c => ?_⟩
  · have left := Store.unvisited_length_le g v run.store.sources run.store
    have reaching : Reaching g name v run.store.sources
        (g.within v run.store.sources).length run run :=
      { same := rfl
        unvisited_le := left
        length_le := Nat.le_refl _
        remaining := fun number present a member => by
          rw [Store.remaining, List.getElem?_eq_getElem present] at member
          exact ObjectGraph.within_source (List.getElem?_eq_getElem present) member
        current
        sparing }
    have deep : (g.within v run.store.sources).length < g.expansions v run.store.sources := by
      unfold ObjectGraph.expansions
      omega
    have lockstep := expandOver_lockstep referred bottom (fun _ _ _ => throw .endless)
      (Nat.lt_of_lt_of_le deep enough) deep cls v (.inl ObjectGraph.within_root) run run reaching
    rw [Validation.runOn_check, Validation.evaluate, Validation.evaluate, expandModel_eq_expandOver]
    exact Prod.ext lockstep.1 lockstep.2.same.symm
  · exact Registry.ensureOver_eq_ensure bottom (Nat.lt_succ_self _) r c
      (Nat.le_trans (List.length_filter_le _ _) (by simp))

/-- Two persons who are each other's friend. -/
def friends : ObjectGraph where
  objects := #[⟨"Person", true, [("friend", .object 1)], []⟩,
    ⟨"Person", true, [("friend", .object 0)], []⟩]

/-- Nobody is accepted, and friends are validated as well. -/
def friendRules : Rulebook where
  schema := [⟨"Person", ["Person"], [("friend", .model "Person")], by decide⟩]
  registries := [("main",
    { classRules := [("Person", [.object [{ hint := "no", test := fun _ => pure false }] []
        false false])] })]

theorem friendRules_sparing (g : ObjectGraph) : (friendRules.registry "main").Sparing g where
  classRules cls rule member := by
    have only : rule =
        .object [{ hint := "no", test := fun _ => pure false }] [] false false := by
      cases same : cls == "Person" <;>
        simp [Registry.rulesOf, Rulebook.registry, friendRules, List.lookup_cons, same] at member
      exact member
    subst only
    refine ⟨fun c listed v => ?_, trivial⟩
    rw [List.mem_singleton.mp listed]
    exact .of_pure .sparing false
  fieldRules cls field rule member := nomatch member

/-- A friend of a friend is oneself, and the validation of both ends. -/
theorem model_check_ends_among_friends :
    (Value.object 0).attr friends "friend" = .ok (.object 1) ∧
      (Value.object 1).attr friends "friend" = .ok (.object 0) ∧
      ((Validation.model "main" "Person").evaluate (expandOver (fun _ _ _ => pure true) 200)
          (.object 0)).runOn friends { rulebook := friendRules } =
        ((Validation.model "main" "Person").check (.object 0)).runOn friends
          { rulebook := friendRules } := by
  refine ⟨rfl, rfl, (model_check_ends ?_ (friendRules_sparing friends) ?_ "Person").1 _ 200 ?_⟩
  · exact fun cls kept => nofun
  · simp [ObjectGraph.within, friends, Value.contentsOf, Value.contents]
  · decide

end PathRules
