import PathRules.Proofs.Declaration.Compiles
import PathRules.Proofs.Model.Termination

/-!
# Compiled rules are kept unnoticed

A registry keeps what it compiled until the next registration.  Nobody can tell: between calls
all that is kept is what the registered rules compile to now, and runs come out as if rules were
built anew each time from the registrations since the registry was cleared.
-/

namespace PathRules

variable {g : ObjectGraph}

/-- A rule that was registered for a class, or for one of its fields. -/
structure Registration where
  registry : String
  cls : String
  field : Option String
  rule : Validation

namespace Registry

variable {before after : Registry} {schema : Schema} {name : String}

def register (registry : Registry) (made : Registration) : Registry :=
  match made.field with
  | none => registry.addClassRule made.cls made.rule
  | some field => registry.addFieldRule made.cls field made.rule

theorem SameRules.trans {a b c : Registry} (first : a.SameRules b) (second : b.SameRules c) :
    a.SameRules c :=
  ⟨second.rulesOf_eq.trans first.rulesOf_eq, second.fieldRulesOf_eq.trans first.fieldRulesOf_eq⟩

/-- Room that is made for rules holds none. -/
theorem sameRules_openClass (registry : Registry) (cls : String) :
    registry.SameRules (registry.openClass cls) where
  rulesOf_eq := by
    funext c
    by_cases here : c = cls <;> simp [rulesOf, openClass, lookup_alter, here]
  fieldRulesOf_eq := rfl

theorem sameRules_openField (registry : Registry) (cls field : String) :
    registry.SameRules (registry.openField cls field) where
  rulesOf_eq := rfl
  fieldRulesOf_eq := by
    funext c f
    by_cases here : c = cls <;> by_cases there : f = field <;>
      simp [fieldRulesOf, openField, lookup_alter, here, there]

theorem rulesOf_addClassRule (registry : Registry) (cls : String) (rule : Validation) (c : String) :
    (registry.addClassRule cls rule).rulesOf c =
      registry.rulesOf c ++ if c = cls then [rule] else [] := by
  by_cases here : c = cls <;> simp [rulesOf, addClassRule, lookup_alter, here]

theorem fieldRulesOf_addFieldRule (registry : Registry) (cls field : String) (rule : Validation)
    (c f : String) :
    (registry.addFieldRule cls field rule).fieldRulesOf c f =
      registry.fieldRulesOf c f ++ if c = cls ∧ f = field then [rule] else [] := by
  by_cases here : c = cls <;> by_cases there : f = field <;>
    simp [fieldRulesOf, addFieldRule, lookup_alter, here, there]

/-- The same registration gives the same rules to registries that have the same. -/
theorem SameRules.register (h : before.SameRules after) (made : Registration) :
    (before.register made).SameRules (after.register made) := by
  obtain ⟨registry, cls, _ | field, rule⟩ := made
  · refine ⟨?_, h.fieldRulesOf_eq⟩
    funext c
    change (after.addClassRule cls rule).rulesOf c = (before.addClassRule cls rule).rulesOf c
    rw [rulesOf_addClassRule, rulesOf_addClassRule, h.rulesOf_eq]
  · refine ⟨h.rulesOf_eq, ?_⟩
    funext c f
    change (after.addFieldRule cls field rule).fieldRulesOf c f =
      (before.addFieldRule cls field rule).fieldRulesOf c f
    rw [fieldRulesOf_addFieldRule, fieldRulesOf_addFieldRule, h.fieldRulesOf_eq]

/-- As long as the rules stay the same, what is compiled stays current. -/
theorem Current.of_sameRules (current : before.Current schema name) (h : before.SameRules after)
    (kept : after.cache = before.cache) : after.Current schema name := by
  intro cls rules found
  rw [form_congr h]
  exact current cls rules (kept ▸ found)

/-- A registration drops all that was compiled. -/
theorem cache_register (registry : Registry) (made : Registration) :
    (registry.register made).cache = [] := by
  obtain ⟨_, _, _ | field, _⟩ := made <;> rfl

end Registry

namespace Rulebook

def register (book : Rulebook) (made : Registration) : Rulebook :=
  book.modify made.registry (·.register made)

/-- A rulebook in which nothing happened but registrations. -/
def ofHistory (schema : Schema) (history : List Registration) : Rulebook :=
  history.foldl register { schema }

theorem schema_foldl_register (history : List Registration) (book : Rulebook) :
    (history.foldl register book).schema = book.schema := by
  induction history generalizing book with
  | nil => rfl
  | cons made history ih => exact ih _

/-- A registry receives its own registrations, one after the other. -/
theorem registry_foldl_register (name : String) (history : List Registration) (book : Rulebook) :
    (history.foldl register book).registry name =
      (history.filter (·.registry == name)).foldl Registry.register (book.registry name) := by
  induction history generalizing book with
  | nil => rfl
  | cons made history ih =>
    rw [List.foldl_cons, ih, register, registry_modify, List.filter_cons]
    by_cases here : name = made.registry
    · subst here
      simp
    · have other : (made.registry == name) = false := by simpa using fun h => here h.symm
      simp [here, other]

theorem registry_ofHistory (schema : Schema) (name : String) (history : List Registration) :
    (ofHistory schema history).registry name =
      (history.filter (·.registry == name)).foldl Registry.register {} :=
  registry_foldl_register name history { schema }

/-- The rulebook has the rules of a history, and what it keeps compiled is current. -/
structure Serves (schema : Schema) (history : List Registration) (book : Rulebook) : Prop where
  schema_eq : book.schema = schema
  current : book.Current
  sameRules (name : String) :
    ((ofHistory schema history).registry name).SameRules (book.registry name)

namespace Serves

variable {schema : Schema} {history : List Registration} {book : Rulebook}

theorem start (schema : Schema) : Serves schema [] { schema } :=
  ⟨rfl, fun _ => Registry.current_of_empty rfl, fun _ => ⟨rfl, rfl⟩⟩

theorem of_extends {after : Rulebook} (h : Serves schema history book)
    (extended : book.Extends g after) : Serves schema history after where
  schema_eq := extended.schema_eq.trans h.schema_eq
  current := extended.current h.current
  sameRules name := (h.sameRules name).trans (extended.registry name).sameRules

/-- What a class compiles to is determined by the history. -/
theorem form_eq (h : Serves schema history book) (name : String) :
    Registry.form book.schema name (book.registry name) =
      Registry.form schema name ((ofHistory schema history).registry name) := by
  rw [h.schema_eq, Registry.form_congr (h.sameRules name)]

/-- Changing one registry in a way that keeps it current. -/
theorem modify {later : List Registration} (h : Serves schema history book) (name : String)
    {f : Registry → Registry}
    (current : (f (book.registry name)).Current book.schema name)
    (here : ((ofHistory schema later).registry name).SameRules (f (book.registry name)))
    (others : ∀ other, other ≠ name →
      (ofHistory schema later).registry other = (ofHistory schema history).registry other) :
    Serves schema later (book.modify name f) where
  schema_eq := h.schema_eq
  current other := by
    change ((book.modify name f).registry other).Current book.schema other
    rw [registry_modify]
    by_cases same : other = name
    · subst same
      simpa using current
    · simpa [same] using h.current other
  sameRules other := by
    rw [registry_modify]
    by_cases same : other = name
    · subst same
      simpa using here
    · simpa [same, others other same] using h.sameRules other

/-- Making room for rules changes none. -/
theorem opened (h : Serves schema history book) (name : String) {f : Registry → Registry}
    (sameRules : (book.registry name).SameRules (f (book.registry name)))
    (kept : (f (book.registry name)).cache = (book.registry name).cache) :
    Serves schema history (book.modify name f) :=
  h.modify name ((h.current name).of_sameRules sameRules kept)
    ((h.sameRules name).trans sameRules) fun _ _ => rfl

theorem register (h : Serves schema history book) (made : Registration) :
    Serves schema (history ++ [made]) (book.register made) := by
  have last : ofHistory schema (history ++ [made]) =
      (ofHistory schema history).register made := by simp [ofHistory]
  refine h.modify made.registry (Registry.current_of_empty (Registry.cache_register _ made)) ?_
    fun other differs => ?_
  · rw [last, Rulebook.register, registry_modify]
    simpa using (h.sameRules made.registry).register made
  · rw [last, Rulebook.register, registry_modify]
    simp [differs]

/-- A registry that is cleared is as if its registrations had not been. -/
theorem clear (h : Serves schema history book) (name : String) :
    Serves schema (history.filter (·.registry != name)) (book.modify name fun _ => {}) := by
  refine h.modify name (Registry.current_of_empty rfl) ?_ fun other differs => ?_
  · have none : (history.filter (·.registry != name)).filter (·.registry == name) = [] := by
      simp [List.filter_filter]
    rw [registry_ofHistory, none]
    exact ⟨rfl, rfl⟩
  · have rest : (history.filter (·.registry != name)).filter (·.registry == other) =
        history.filter (·.registry == other) := by
      rw [List.filter_filter]
      refine List.filter_congr fun made _ => ?_
      by_cases of : made.registry = other
      · simp [of, differs]
      · simp [of]
    rw [registry_ofHistory, registry_ofHistory, rest]

end Serves

end Rulebook

/-- Builds the rules of a class from what is registered, each time it is asked. -/
def buildRules : LookUp := fun registry cls g => ExceptT.mk fun run =>
  let built := (run.rulebook.registry registry).draftOf g run.rulebook.schema registry cls
  (.ok (some built.build), run)

/-- A run that keeps no compiled rules. -/
def Validation.validateUncached (validation : Validation) (v : Value) : RunM Outcome :=
  validation.reporting v (validation.checkBy buildRules v)

/-- One run keeps compiled rules and began with the rulebook `book`; the other has the rulebook
`plain` throughout. -/
structure Uncached (g : ObjectGraph) (book plain : Rulebook) (run run' : Run) : Prop where
  agree : run' = { run with rulebook := plain }
  extended : book.Extends g run.rulebook

namespace Uncached

open Rulebook

variable {schema : Schema} {history : List Registration} {book plain : Rulebook}

theorem congruence : Congruence (fun _ _ => True) (Uncached g book plain) := by
  refine .of_rulebook (fun related => by rw [related.agree]) ?_
  rintro run run' after ⟨rfl, extended⟩ - - rulebook
  exact ⟨rfl, rulebook ▸ extended⟩

/-- What is found compiled is what is built from the history. -/
theorem lookUp_lockstep (h : Serves schema history book) (registry cls : String) :
    Lockstep g (Uncached g book (ofHistory schema history)) (lookUpRules registry cls)
      (buildRules registry cls) := by
  rintro run run' ⟨rfl, extended⟩
  have now := h.of_extends extended
  have kept : ((lookUpRules registry cls).runOn g run).1 =
      .ok (some (Registry.form run.rulebook.schema registry (run.rulebook.registry registry) cls)) :=
    congrArg Except.ok (now.current.compiled_fst g registry cls)
  have schema_eq : (ofHistory schema history).schema = schema :=
    schema_foldl_register history { schema }
  have built : ((buildRules registry cls).runOn g
      { run with rulebook := ofHistory schema history }).1 =
      .ok (some (Registry.draftOf g (ofHistory schema history).schema registry
        ((ofHistory schema history).registry registry) cls).build) := rfl
  refine ⟨?_, rfl, extended.trans (compiled_extends g run.rulebook registry cls)⟩
  rw [kept, built, schema_eq, now.form_eq, Registry.build_draftOf]

/-- Runs come out the same. -/
theorem validate_lockstep (h : Serves schema history book) (validation : Validation) (v : Value) :
    Lockstep g (Uncached g book (ofHistory schema history)) (validation.validate v)
      (validation.validateUncached v) :=
  have permits := Store.Permits.any
  reporting_lockstep congruence permits
    (checkBy_lockstep congruence permits (fun v => .any (visit v)) (lookUp_lockstep h)
      (fun _ _ rules _ _ _ _ => rules.keeps_any) validation.keeps_any v) validation v

end Uncached

/-- What can be done with registries; what a source or a run refers to may have been made any time
before. -/
inductive RegistryCall
  | registerForClass (registry cls : String) (source : RuleSource)
  | registerForField (registry cls field : String) (source : RuleSource)
  | fullValidation (registry cls : String) (name : Option String)
  | compiledRules (registry cls : String)
  | clear (registry : String)
  | validate (start : Run) (validation : Validation) (v : Value)

namespace RegistryCall

/-- The workshop after a call. -/
def perform (g : ObjectGraph) (shop : Workshop) : RegistryCall → Workshop
  | registerForClass registry cls source =>
      ((Declare.registerForClass registry cls source).runOn g shop).2
  | registerForField registry cls field source =>
      ((Declare.registerForField registry cls field source).runOn g shop).2
  | fullValidation registry cls name => ((Declare.fullValidation registry cls name).runOn g shop).2
  | compiledRules registry cls => ((Declare.compiledRules registry cls).runOn g shop).2
  | clear registry => ((Declare.clearRegistry registry).runOn g shop).2
  | validate start validation v =>
      let run := { start with rulebook := shop.rulebook }
      { shop with rulebook := ((validation.validate v).runOn g run).2.rulebook }

/-- Appends the registration that a source succeeded in making. -/
def appended (history : List Registration) (registry cls : String) (field : Option String) :
    Except Fault Validation → List Registration
  | .ok rule => history ++ [⟨registry, cls, field, rule⟩]
  | .error _ => history

/-- The successful registrations, after a call, since their registries were cleared. -/
def remember (g : ObjectGraph) (shop : Workshop) (history : List Registration) :
    RegistryCall → List Registration
  | registerForClass registry cls source =>
      appended history registry cls none ((Declare.classRule registry cls source).runOn g shop).1
  | registerForField registry cls field source =>
      appended history registry cls field
        ((Declare.fieldRule registry cls field source).runOn g shop).1
  | clear registry => history.filter (·.registry != registry)
  | fullValidation .. | compiledRules .. | validate .. => history

end RegistryCall

/-- A workshop with what was registered in its registries. -/
structure Ledger where
  shop : Workshop
  history : List Registration

namespace Ledger

open Declare Declaring Rulebook

variable {schema : Schema} {history : List Registration} {shop : Workshop}

/-- A call is performed; each has objects of its own to work with. -/
def next (ledger : Ledger) (call : ObjectGraph × RegistryCall) : Ledger where
  shop := call.2.perform call.1 ledger.shop
  history := call.2.remember call.1 ledger.shop ledger.history

/-- No rules are registered yet. -/
def start (schema : Schema) (shop : Workshop) : Ledger where
  shop := { shop with rulebook := { schema } }
  history := []

theorem runOn_changeRegistry_bind {α : Type} (name : String) (f : Registry → Registry)
    (m : Declare α) (shop : Workshop) :
    (do changeRegistry name f; m).runOn g shop =
      m.runOn g { shop with rulebook := shop.rulebook.modify name f } := rfl

/-- Making room for rules and declaring one registers none yet. -/
theorem opened_serves (h : Serves schema history shop.rulebook) (name : String)
    {f : Registry → Registry} (sameRules : ∀ registry : Registry, registry.SameRules (f registry))
    (kept : ∀ registry, (f registry).cache = registry.cache) (rules : List Rule) :
    Serves schema history
      ((do changeRegistry name f; declareAll rules).runOn g shop).2.rulebook := by
  rw [runOn_changeRegistry_bind]
  exact (h.opened name (sameRules _) (kept _)).of_extends
    (declareAll_compiles (g := g) rules { shop with rulebook := shop.rulebook.modify name f })

theorem classRule_serves (h : Serves schema history shop.rulebook) (registry cls : String)
    (source : RuleSource) :
    Serves schema history ((classRule registry cls source).runOn g shop).2.rulebook := by
  cases source with
  | complete spec =>
    exact h.of_extends ((ValidationSpec.make_compiles spec).bind (fun _ => .of_pure _) shop)
  | declared rules =>
    exact opened_serves h registry (Registry.sameRules_openClass · cls) (fun _ => rfl) rules

theorem requireField_compiles (cls field : String) : (requireField cls field).Compiles g :=
  Compiles.of_get.bind fun _ => .of_ite (.of_pure ()) (.of_throw _)

theorem fieldRule_serves (h : Serves schema history shop.rulebook) (registry cls field : String)
    (source : RuleSource) :
    Serves schema history ((fieldRule registry cls field source).runOn g shop).2.rulebook := by
  cases source with
  | complete spec =>
    refine h.of_extends (Compiles.bind (ValidationSpec.make_compiles spec) (fun made => ?_) shop)
    exact (requireField_compiles cls field).bind fun _ => .of_pure _
  | declared rules =>
    have required := h.of_extends (requireField_compiles (g := g) cls field shop)
    rw [fieldRule, runOn_bind]
    rcases ran : (requireField cls field).runOn g shop with ⟨fault | _, after⟩ <;>
      rw [ran] at required <;> dsimp only at required ⊢
    · exact required
    · exact opened_serves required registry (Registry.sameRules_openField · cls field)
        (fun _ => rfl) rules

/-- A rule that was made is registered, and the history tells of it. -/
theorem register_serves {m : Declare Validation} {registry cls : String} {field : Option String}
    {add : Registry → Validation → Registry}
    (adds : ∀ r rule, add r rule = r.register ⟨registry, cls, field, rule⟩)
    (h : Serves schema history (m.runOn g shop).2.rulebook) :
    Serves schema (RegistryCall.appended history registry cls field (m.runOn g shop).1)
      ((m >>= fun rule => changeRegistry registry (add · rule)).runOn g shop).2.rulebook := by
  rw [runOn_bind]
  rcases ran : m.runOn g shop with ⟨fault | rule, after⟩ <;> rw [ran] at h <;>
    dsimp only at h ⊢
  · exact h
  · have added : (add · rule) = (·.register ⟨registry, cls, field, rule⟩) := funext (adds · rule)
    rw [added]
    exact h.register ⟨registry, cls, field, rule⟩

/-- What one call does. -/
theorem next_serves {ledger : Ledger} (h : Serves schema ledger.history ledger.shop.rulebook)
    (call : ObjectGraph × RegistryCall) :
    Serves schema (ledger.next call).history (ledger.next call).shop.rulebook := by
  obtain ⟨g, call⟩ := call
  cases call with
  | registerForClass registry cls source =>
    exact register_serves (fun _ _ => rfl) (classRule_serves h registry cls source)
  | registerForField registry cls field source =>
    exact register_serves (fun _ _ => rfl) (fieldRule_serves h registry cls field source)
  | fullValidation registry cls name =>
    refine h.of_extends (Compiles.bind (g := g) (ofModel_compiles registry cls)
      (fun v => (numbered_compiles v).bind fun made => ?_) ledger.shop)
    cases name with
    | none => exact .of_pure made
    | some name => exact (nameValidation_compiles name made).bind fun _ => .of_pure made
  | compiledRules registry cls => exact h.of_extends (compiled_extends g _ registry cls)
  | clear registry => exact h.clear registry
  | validate start validation v =>
    have lockstep := Uncached.validate_lockstep (g := g) h validation v
      { start with rulebook := ledger.shop.rulebook } _ ⟨rfl, .refl _⟩
    exact h.of_extends lockstep.2.extended

/-- What any calls do. -/
theorem foldl_next_serves (calls : List (ObjectGraph × RegistryCall)) {ledger : Ledger}
    (h : Serves schema ledger.history ledger.shop.rulebook) :
    Serves schema (calls.foldl next ledger).history (calls.foldl next ledger).shop.rulebook := by
  induction calls generalizing ledger with
  | nil => exact h
  | cons call calls ih => exact ih (next_serves h call)

end Ledger

/-- Between the calls of any sequence, compilation comes to an end: it nests at most as deep as
there are classes, so that it does not matter how it continues below.  All that is kept compiled
is what the rules that are registered now compile to, no placeholder.  Rules that are asked for
and runs, whatever they start with, are those of a rulebook without kept rules that received
nothing but the successful registrations since its registries were cleared. -/
theorem cache_unobservable (schema : Schema) (shop : Workshop)
    (calls : List (ObjectGraph × RegistryCall)) :
    let ledger := calls.foldl Ledger.next (.start schema shop)
    let book := ledger.shop.rulebook
    let plain := Rulebook.ofHistory schema ledger.history
    (∀ g (bottom : Registry → String → Registry) name (registry : Registry) cls,
      Registry.ensureOver bottom g book.schema name (book.schema.length + 1) registry cls =
        (registry.compiled g book.schema name cls).2) ∧
      (∀ g name cls kept, (book.registry name).cache.lookup cls = some kept →
        kept = some ((book.registry name).draftOf g book.schema name cls).build) ∧
      (∀ g name cls, (book.compiled g name cls).1 =
        some ((plain.registry name).draftOf g schema name cls).build) ∧
      ∀ g (run : Run) (validation : Validation) v,
        let kept := (validation.validate v).runOn g { run with rulebook := book }
        let built := (validation.validateUncached v).runOn g { run with rulebook := plain }
        kept.1 = built.1 ∧ kept.2 = { built.2 with rulebook := kept.2.rulebook } := by
  intro ledger book plain
  have served : Rulebook.Serves schema ledger.history book :=
    Ledger.foldl_next_serves calls (Rulebook.Serves.start schema)
  refine ⟨fun g bottom name registry cls => ?_, fun g name cls kept found => ?_,
    fun g name cls => ?_, fun g run validation v => ?_⟩
  · exact Registry.ensureOver_eq_ensure bottom (Nat.lt_succ_self _) registry cls
      (Nat.le_trans (List.length_filter_le _ _) (by simp))
  · rw [Registry.build_draftOf]
    exact served.current name cls kept found
  · rw [Registry.build_draftOf, served.current.compiled_fst, served.form_eq]
  · obtain ⟨same, left⟩ := Uncached.validate_lockstep served validation v
      { run with rulebook := book } _ ⟨rfl, .refl _⟩
    refine ⟨same, ?_⟩
    dsimp only
    rw [left.agree]

end PathRules
