import Mathlib.Data.List.Induction
import Mathlib.Data.List.Nodup
import Mathlib.Data.List.Perm.Basic
import PathRules.Proofs.Model.Cache
import PathRules.Proofs.Model.Expanding

/-!
# Rules that apply

What is registered for a class and for its ancestors applies to it.  The first time an instance is
met, each rule that applies is evaluated once, and no other: fields come in their order and last the
class, and for each of them the nearest class comes first and then the oldest registration.
-/

namespace PathRules

variable {g : ObjectGraph} {schema : Schema} {name cls : String}

/-- Filtering by each of some keys gives what is under any of them. -/
theorem flatMap_filter_perm {α κ : Type} [DecidableEq κ] (key : α → κ) (items : List α)
    {keys : List κ} (distinct : keys.Nodup) :
    (keys.flatMap fun k => items.filter fun a => decide (key a = k)).Perm
      (items.filter fun a => decide (key a ∈ keys)) := by
  induction keys with
  | nil => simp
  | cons k keys ih =>
    obtain ⟨new, distinct⟩ := List.nodup_cons.mp distinct
    have split := List.filter_append_perm (fun a => decide (key a = k))
      (items.filter fun a => decide (key a ∈ k :: keys))
    have here : (items.filter fun a => decide (key a ∈ k :: keys)).filter
        (fun a => decide (key a = k)) = items.filter fun a => decide (key a = k) := by
      rw [List.filter_filter]
      refine List.filter_congr fun a _ => ?_
      by_cases same : key a = k <;> simp [same]
    have others : (items.filter fun a => decide (key a ∈ k :: keys)).filter
        (fun a => !decide (key a = k)) = items.filter fun a => decide (key a ∈ keys) := by
      rw [List.filter_filter]
      refine List.filter_congr fun a _ => ?_
      by_cases same : key a = k
      · subst same
        simp [new]
      · simp [same]
    rw [here, others] at split
    rw [List.flatMap_cons]
    exact ((ih distinct).append_left _).trans split

namespace Registration

/-- What was registered in a registry for a class or, with a field, for that field of it. -/
def madeFor (history : List Registration) (name : String) (field : Option String) (cls : String) :
    List Registration :=
  history.filter fun made => made.cls = cls ∧ made.registry = name ∧ made.field = field

theorem madeFor_eq (history : List Registration) (name : String) (field : Option String)
    (cls : String) : madeFor history name field cls =
      history.filter fun made => made.cls = cls ∧ made.registry = name ∧ made.field = field := rfl

/-- Of what a registry received, that for a class or a field of it. -/
theorem filter_registry (history : List Registration) (name : String) (field : Option String)
    (cls : String) : ((history.filter (·.registry == name)).filter fun made =>
      made.cls = cls ∧ made.field = field) = madeFor history name field cls := by
  rw [List.filter_filter, madeFor]
  refine List.filter_congr fun made _ => Bool.eq_iff_iff.mpr ?_
  simp only [Bool.and_eq_true, decide_eq_true_eq, beq_iff_eq]
  rw [and_right_comm, and_assoc]

/-- What was registered for a class and its ancestors, the nearest first. -/
def inLine (schema : Schema) (history : List Registration) (name cls : String)
    (field : Option String) : List Registration :=
  (schema.lineage cls).flatMap (madeFor history name field)

/-- Fields of a class, and none for the class itself. -/
def slots (schema : Schema) (cls : String) : List (Option String) :=
  (schema.fields cls).map (some ·.1) ++ [none]

/-- What was registered for the fields of a class, and then what was for the class itself. -/
def scheduled (schema : Schema) (history : List Registration) (name cls : String) :
    List Registration :=
  (slots schema cls).flatMap (inLine schema history name cls)

/-- Whether a rule applies to a class: it was registered for it or for an ancestor, or for one of
its fields there. -/
def appliesTo (schema : Schema) (name cls : String) (made : Registration) : Bool :=
  made.field ∈ slots schema cls ∧ made.registry = name ∧ made.cls ∈ schema.lineage cls

theorem nodup_slots (schema : Schema) (cls : String) : (slots schema cls).Nodup := by
  refine List.nodup_append.mpr ⟨?_, by simp, ?_⟩
  · have distinct := List.Nodup.map (fun _ _ => Option.some.inj) (schema.fields_nodup cls)
    rwa [List.map_map] at distinct
  · intro field member other last
    obtain ⟨f, -, rfl⟩ := List.mem_map.mp member
    rw [List.mem_singleton.mp last]
    exact nofun

/-- Each registration that applies is scheduled once, and no other is. -/
theorem scheduled_perm (history : List Registration) (ordered : (schema.lineage cls).Nodup) :
    (scheduled schema history name cls).Perm (history.filter (appliesTo schema name cls)) := by
  have line (field : Option String) : (inLine schema history name cls field).Perm
      ((history.filter fun made => made.registry = name ∧ made.cls ∈ schema.lineage cls).filter
        fun made => made.field = field) := by
    have classes := flatMap_filter_perm (·.cls)
      (history.filter fun made => made.registry = name ∧ made.field = field) ordered
    simp only [List.filter_filter, Bool.decide_and] at classes
    simp only [inLine, funext (madeFor_eq history name field), List.filter_filter, Bool.decide_and]
    refine classes.trans (.of_eq (List.filter_congr fun made _ => ?_))
    ac_rfl
  have fields := flatMap_filter_perm (·.field)
    (history.filter fun made => made.registry = name ∧ made.cls ∈ schema.lineage cls)
    (nodup_slots schema cls)
  refine (List.Perm.flatMap_left _ fun field _ => line field).trans (fields.trans (.of_eq ?_))
  rw [List.filter_filter]
  refine List.filter_congr fun made _ => Bool.eq_iff_iff.mpr ?_
  simp [appliesTo]

end Registration

namespace Registry

theorem rulesOf_register (registry : Registry) (made : Registration) (cls : String) :
    (registry.register made).rulesOf cls =
      registry.rulesOf cls ++ if made.cls = cls ∧ made.field = none then [made.rule] else [] := by
  obtain ⟨_, c, _ | field, rule⟩ := made
  · change (registry.addClassRule c rule).rulesOf cls = _
    rw [rulesOf_addClassRule]
    simp [eq_comm]
  · change registry.rulesOf cls = _
    simp

theorem fieldRulesOf_register (registry : Registry) (made : Registration) (cls field : String) :
    (registry.register made).fieldRulesOf cls field = registry.fieldRulesOf cls field ++
      if made.cls = cls ∧ made.field = some field then [made.rule] else [] := by
  obtain ⟨_, c, _ | f, rule⟩ := made
  · change registry.fieldRulesOf cls field = _
    simp
  · change (registry.addFieldRule c f rule).fieldRulesOf cls field = _
    rw [fieldRulesOf_addFieldRule]
    simp [eq_comm]

/-- The rules under one key, if each registration adds its rule under its own. -/
theorem foldl_register (rulesUnder : Registry → List Validation) (key : Registration → Prop)
    [DecidablePred key]
    (adds : ∀ registry made, rulesUnder (register registry made) =
      rulesUnder registry ++ if key made then [made.rule] else [])
    (history : List Registration) (registry : Registry) :
    rulesUnder (history.foldl register registry) =
      rulesUnder registry ++ (history.filter fun made => key made).map (·.rule) := by
  induction history generalizing registry with
  | nil => simp
  | cons made history ih =>
    rw [List.foldl_cons, ih, adds]
    by_cases here : key made <;> simp [here]

variable {history : List Registration}

open Registration Rulebook

theorem rulesForClass_ofHistory :
    rulesForClass schema ((ofHistory schema history).registry name) cls =
    (inLine schema history name cls none).map (·.rule) := by
  rw [rulesForClass, inLine, List.map_flatMap, registry_ofHistory]
  refine List.flatMap_congr fun c _ => ?_
  rw [foldl_register (·.rulesOf c) _ (rulesOf_register · · c), filter_registry]
  rfl

theorem rulesForField_ofHistory {field : String} :
    rulesForField schema ((ofHistory schema history).registry name) cls field =
      (inLine schema history name cls (some field)).map (·.rule) := by
  rw [rulesForField, inLine, List.map_flatMap, registry_ofHistory]
  refine List.flatMap_congr fun c _ => ?_
  rw [foldl_register (·.fieldRulesOf c field) _ (fieldRulesOf_register · · c field),
    filter_registry]
  rfl

end Registry

section Schedule

open Registration Rulebook

/-- What is registered for a field is evaluated on what the instance has there. -/
def fieldRuleTurns (g : ObjectGraph) (schema : Schema) (history : List Registration)
    (name cls : String) (v : Value) (place : DataPath) (field : String × FieldType) : List Turn :=
  g.turnsAt v field.1
    (Turn.each ((inLine schema history name cls (some field.1)).map (·.rule))) place

def classRuleTurns (schema : Schema) (history : List Registration) (name cls : String) (v : Value)
    (place : DataPath) : List Turn :=
  Turn.each ((inLine schema history name cls none).map (·.rule)) v place

/-- The turns of all that is registered. -/
def ruleTurns (g : ObjectGraph) (schema : Schema) (history : List Registration)
    (name cls : String) (v : Value) (place : DataPath) : List Turn :=
  (schema.fields cls).flatMap (fieldRuleTurns g schema history name cls v place) ++
    classRuleTurns schema history name cls v place

/-- The turns in which an instance is expanded: fields in their order, for each of them first what
is registered for it and then its relation, and last what is registered for the class. -/
def schedule (g : ObjectGraph) (schema : Schema) (history : List Registration)
    (name cls : String) (v : Value) (place : DataPath) : List Turn :=
  (schema.fields cls).flatMap (fun field =>
      fieldRuleTurns g schema history name cls v place field ++
        g.relationTurns name v place field) ++
    classRuleTurns schema history name cls v place

variable {history : List Registration} {v : Value} {place : DataPath}

theorem turnsFor_ofHistory :
    Registry.turnsFor g schema name ((ofHistory schema history).registry name) cls v place =
      schedule g schema history name cls v place := by
  simp only [Registry.turnsFor, Registry.fieldTurns, Registry.rulesForClass_ofHistory,
    Registry.rulesForField_ofHistory]
  rfl

theorem mem_schedule {turn : Turn} (member : turn ∈ schedule g schema history name cls v place) :
    turn ∈ ruleTurns g schema history name cls v place ∨
      ∃ field ∈ schema.fields cls, turn ∈ g.relationTurns name v place field := by
  rcases List.mem_append.mp member with ofField | ofClass
  · obtain ⟨field, declared, listed⟩ := List.mem_flatMap.mp ofField
    rcases List.mem_append.mp listed with rules | relation
    · exact .inl (List.mem_append_left _ (List.mem_flatMap.mpr ⟨field, declared, rules⟩))
    · exact .inr ⟨field, declared, relation⟩
  · exact .inl (List.mem_append_right _ ofClass)

@[simp] theorem rules_each (rules : List Validation) :
    (Turn.each rules v place).map (·.rule) = rules := by
  simp [Turn.each, Function.comp_def]

/-- The rules that have turns are those that are scheduled, in the same order. -/
theorem rules_ruleTurns (fits : ((ofHistory schema history).registry name).Fits g schema cls v) :
    (ruleTurns g schema history name cls v place).map (·.rule) =
      (scheduled schema history name cls).map (·.rule) := by
  have field (field : String × FieldType) (declared : field ∈ schema.fields cls) :
      (fieldRuleTurns g schema history name cls v place field).map (·.rule) =
        (inLine schema history name cls (some field.1)).map (·.rule) := by
    by_cases none : (inLine schema history name cls (some field.1)).map (·.rule) = []
    · rw [fieldRuleTurns, none, ObjectGraph.turnsAt_each_nil, List.map_nil]
    · have checked := fits.checked declared
      rw [Registry.rulesForField_ofHistory] at checked
      obtain ⟨part, taken⟩ := checked none
      rw [fieldRuleTurns, g.turnsAt_eq taken, rules_each]
  rw [ruleTurns, scheduled, slots, List.flatMap_append, List.flatMap_map, List.map_append,
    List.map_append, List.map_flatMap, List.map_flatMap, List.flatMap_congr field]
  simp [classRuleTurns]

/-- When an instance is met for the first time, it is expanded in the turns of its schedule, each
beginning where the one before ended, and nothing else is evaluated.  The rules that have turns are
those that were registered in the registry for the class or for an ancestor of it, or for one of its
fields there, each registration once; their order is that of the schedule.  What is left is at the
places of the turns, for the rules of a field at the place of the field.  All turns are taken as
long as rules return, unless validating what a relation leads to does not. -/
theorem applicable_rules_run_once {run : Run} {store : Store} {fuel : Nat}
    (served : run.rulebook.Serves schema history) (ordered : (schema.lineage cls).Nodup)
    (isOpen : run.stack.isOpen = true) (new : (visit v).runOn g run.store = (.ok true, store))
    (fits : ((ofHistory schema history).registry name).Fits g schema cls v)
    (returns : ∀ turn ∈ ruleTurns g schema history name cls v run.stack.place,
      turn.rule.Returns g (expandModel fuel) turn.value) :
    let place := run.stack.place
    (scheduled schema history name cls).Perm (history.filter (appliesTo schema name cls)) ∧
      (ruleTurns g schema history name cls v place).map (·.rule) =
        (scheduled schema history name cls).map (·.rule) ∧
      ∃ ending after,
        Turns g (expandModel fuel) (schedule g schema history name cls v place)
          ({ run with store }.expanding g name cls) ending after ∧
        ending.Shows g ((Validation.model name cls).evaluate (expandModel (fuel + 1)) v) run after ∧
        ∀ turn fault, ending = .stopped turn fault →
          ∃ field ∈ schema.fields cls, turn ∈ g.relationTurns name v place field ∧
            ¬ turn.rule.Returns g (expandModel fuel) turn.value := by
  intro place
  refine ⟨scheduled_perm history ordered, rules_ruleTurns fits, ?_⟩
  let begun := { run with store }.expanding g name cls
  have found : ({ run with store }.rulebook.compiled g name cls).1 = some
      (Registry.form schema name ((ofHistory schema history).registry name) cls) := by
    rw [served.current.compiled_fst, served.form_eq]
  have expanded : ((Validation.model name cls).evaluate (expandModel (fuel + 1)) v).runOn g run =
      ((Registry.form schema name ((ofHistory schema history).registry name) cls).evaluate
        (expandModel fuel) v).runOn g begun := by
    rw [← runOn_expandMet_first (expandModel fuel) v found]
    change (RunM.ofCheck (visit v) >>= expandMet lookUpRules (expandModel fuel) name cls v).runOn g
      run = _
    rw [RunM.runOn_bind, RunM.runOn_ofCheck, new]
  have takes : TakesTurns g (expandModel fuel) (·.isOpen = true)
      (Registry.turnsFor g schema name ((ofHistory schema history).registry name) cls v) _ :=
    Registry.form_takes fits
  obtain ⟨ending, after, taken, shows⟩ := takes begun isOpen
  rw [turnsFor_ofHistory] at taken
  refine ⟨ending, after, taken, ?_, fun turn fault stopped => ?_⟩
  · unfold Ending.Shows at shows ⊢
    rw [expanded]
    exact shows
  · subst stopped
    obtain ⟨member, fails⟩ := taken.stopped
    obtain ⟨field, declared, relation⟩ :=
      (mem_schedule member).resolve_left fun rule => fails (returns turn rule)
    exact ⟨field, declared, relation, fails⟩

end Schedule

/-- A rulebook serves the history that it consists of. -/
theorem Rulebook.serves_ofHistory (schema : Schema) (history : List Registration) :
    (ofHistory schema history).Serves schema history := by
  induction history using List.reverseRecOn with
  | nil => exact .start schema
  | append_singleton history made ih =>
    have last :
        ofHistory schema (history ++ [made]) = (ofHistory schema history).register made := by
      simp [ofHistory]
    exact last ▸ ih.register made

/-- A rule that rejects every value for the want of a part. -/
def wanting (part : String) : Validation :=
  .step .required [] (.property part Extract.nothing) (.object [] [] false false)

theorem wanting_returns (expand : Expand) (part : String) (v : Value) :
    (wanting part).Returns g expand v := by
  refine Validation.Behaves.to_returns (P := fun _ => True) (Validation.behaves_of_traces
    ⟨trivial, trivial, by simp, trivial⟩ ⟨trivial, fun _ => .any _, ⟨by simp, trivial⟩⟩
    fun store _ => ?_)
  exact ⟨.missing (.property part Extract.nothing), store, rfl, trivial, rfl, trivial⟩

/-- Two classes with a common ancestor, one that inherits from both, and one apart. -/
def diamond : Schema :=
  let x : String × FieldType := ("x", .plain "int")
  [⟨"A", ["A"], [x], by decide⟩, ⟨"B", ["B", "A"], [x], by decide⟩,
    ⟨"C", ["C", "A"], [x], by decide⟩,
    ⟨"D", ["D", "B", "C", "A"], [x, ("to", .optional (.model "D"))], by decide⟩,
    ⟨"E", ["E"], [], List.nodup_nil⟩]

def diamondHistory : List Registration :=
  [⟨"main", "A", none, wanting "a"⟩, ⟨"main", "E", none, wanting "e"⟩,
    ⟨"main", "A", some "x", wanting "xa"⟩, ⟨"main", "D", none, wanting "d"⟩,
    ⟨"main", "C", none, wanting "c"⟩, ⟨"main", "C", some "x", wanting "xc"⟩]

theorem diamondHistory_wanting : ∀ made ∈ diamondHistory, ∃ part, made.rule = wanting part := by
  simp [diamondHistory]

/-- An instance that refers to no other. -/
def lone : ObjectGraph where
  objects := #[⟨"D", true, [("x", .int 1), ("to", .null)], []⟩]

example : (Registration.scheduled diamond diamondHistory "main" "D").map (·.cls) =
    ["C", "A", "D", "C", "A"] := rfl

theorem lone_followAttributes :
    (Value.object 0).followAttributes lone "x" = .ok (.int 1) ∧
      (Value.object 0).followAttributes lone "to" = .ok .null :=
  ⟨rfl, rfl⟩

theorem diamond_fields :
    diamond.fields "D" = [("x", .plain "int"), ("to", .optional (.model "D"))] := rfl

theorem schedule_diamond : schedule lone diamond diamondHistory "main" "D" (.object 0) [] =
    [⟨wanting "xc", .int 1, [.ofName "x"]⟩, ⟨wanting "xa", .int 1, [.ofName "x"]⟩,
      ⟨wanting "d", .object 0, []⟩, ⟨wanting "c", .object 0, []⟩,
      ⟨wanting "a", .object 0, []⟩] := by
  obtain ⟨taken, missing⟩ := lone_followAttributes
  rw [schedule, diamond_fields]
  simp only [List.flatMap_cons, List.flatMap_nil, fieldRuleTurns, ObjectGraph.relationTurns,
    lone.turnsAt_eq taken, lone.turnsAt_eq missing]
  rfl

theorem lone_fits : ((Rulebook.ofHistory diamond diamondHistory).registry "main").Fits lone diamond
    "D" (.object 0) where
  checked declared _ := by
    rw [diamond_fields] at declared
    simp only [List.mem_cons, List.not_mem_nil, or_false] at declared
    obtain rfl | rfl := declared
    · exact ⟨_, lone_followAttributes.1⟩
    · exact ⟨_, lone_followAttributes.2⟩
  related declared relates := by
    rw [diamond_fields] at declared
    simp only [List.mem_cons, List.not_mem_nil, or_false] at declared
    obtain rfl | rfl := declared
    · cases relates
    · exact ⟨.null, lone_followAttributes.2, fun _ present => absurd rfl present⟩

/-- Of six rules five have turns for an instance that inherits twice from the same class, each one
turn, although all of them reject. -/
theorem applicable_rules_run_once_of_diamond :
    (diamond.lineage "D").Nodup ∧
      (Registration.scheduled diamond diamondHistory "main" "D").Perm
        (diamondHistory.filter (Registration.appliesTo diamond "main" "D")) ∧
      ∃ begun passed leaves after,
        Turns lone (expandModel 0)
          [⟨wanting "xc", .int 1, [.ofName "x"]⟩, ⟨wanting "xa", .int 1, [.ofName "x"]⟩,
            ⟨wanting "d", .object 0, []⟩, ⟨wanting "c", .object 0, []⟩,
            ⟨wanting "a", .object 0, []⟩] begun (.complete passed leaves) after ∧
        (Ending.complete passed leaves).Shows lone
          ((Validation.model "main" "D").evaluate (expandModel 1) (.object 0))
          { rulebook := .ofHistory diamond diamondHistory } after := by
  have ordered : (diamond.lineage "D").Nodup := by decide
  have returns : ∀ turn ∈ ruleTurns lone diamond diamondHistory "main" "D" (.object 0) [],
      turn.rule.Returns lone (expandModel 0) turn.value := by
    intro turn member
    have scheduled := List.mem_map_of_mem (f := Turn.rule) member
    rw [rules_ruleTurns lone_fits] at scheduled
    obtain ⟨made, listed, rule⟩ := List.mem_map.mp scheduled
    have registered := (Registration.scheduled_perm diamondHistory ordered).mem_iff.mp listed
    obtain ⟨part, is⟩ := diamondHistory_wanting made (List.mem_of_mem_filter registered)
    rw [← rule, is]
    exact wanting_returns _ part _
  obtain ⟨perm, -, ending, after, turns, shows, stops⟩ :=
    @applicable_rules_run_once lone diamond "main" "D" diamondHistory (.object 0)
      { rulebook := .ofHistory diamond diamondHistory } _ 0
      (Rulebook.serves_ofHistory diamond diamondHistory) ordered rfl rfl lone_fits returns
  change Turns lone _ (schedule lone diamond diamondHistory "main" "D" (.object 0) []) _ _ _
    at turns
  rw [schedule_diamond] at turns
  cases ending with
  | complete passed leaves => exact ⟨ordered, perm, _, passed, leaves, after, turns, shows⟩
  | stopped turn fault =>
    obtain ⟨field, declared, relation, -⟩ := stops turn fault rfl
    rw [diamond_fields] at declared
    simp only [List.mem_cons, List.not_mem_nil, or_false] at declared
    obtain rfl | rfl := declared
    · cases relation
    · have nothing :
          lone.relationTurns "main" (.object 0) [] ("to", .optional (.model "D")) = [] := by
        simp only [ObjectGraph.relationTurns, lone.turnsAt_eq lone_followAttributes.2]
        rfl
      exact absurd (nothing ▸ relation) List.not_mem_nil

end PathRules
