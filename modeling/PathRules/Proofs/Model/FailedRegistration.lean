import PathRules.Proofs.Model.Cache

/-!
# Registrations that fail

A rule for a class or a field may be declared while it is registered, and declaring it may fail
after any number of declarations.  No rule is registered then: what is compiled for a class and
what runs come to is as before.  What stays is the entry that a registration makes before its rule
is declared; the description of the registry counts it.
-/

namespace PathRules

variable {g : ObjectGraph}

theorem length_alter {α : Type} (key : String) (initial : α) (f : α → α)
    (entries : List (String × α)) :
    (alter key initial f entries).length =
      entries.length + if (entries.lookup key).isSome then 0 else 1 := by
  induction entries with
  | nil => rfl
  | cons entry rest ih =>
    obtain ⟨k, a⟩ := entry
    by_cases same : k = key
    · subst same
      simp [alter]
    · have other : (key == k) = false := by simpa using fun h => same h.symm
      simp only [alter, List.lookup_cons, other, beq_iff_eq, same, if_false, List.length_cons, ih]
      exact Nat.add_right_comm _ _ _

/-- Lists under keys, of which one is changed. -/
theorem length_flatMap_alter {α : Type} (key : String) (f : List α → List α) (more : Nat)
    (entries : List (String × List α))
    (grown : (f ((entries.lookup key).getD [])).length =
      ((entries.lookup key).getD []).length + more) :
    ((alter key [] f entries).flatMap (·.2)).length =
      (entries.flatMap (·.2)).length + more := by
  induction entries with
  | nil => simpa [alter] using grown
  | cons entry rest ih =>
    obtain ⟨k, a⟩ := entry
    by_cases same : k = key
    · subst same
      simp only [List.lookup_cons, beq_self_eq_true, Option.getD_some] at grown
      simp [alter, grown, Nat.add_right_comm]
    · have other : (key == k) = false := by simpa using fun h => same h.symm
      simp only [List.lookup_cons, other] at grown
      simp [alter, same, ih grown, Nat.add_assoc]

namespace Registry

/-- The numbers of classes and of fields that the registry has an entry for. -/
def counts (registry : Registry) : Nat × Nat :=
  (registry.classRules.length, (registry.fieldRules.flatMap (·.2)).length)

/-- Whether there is an entry, which may be without rules, for a class or a field of it. -/
def holds (registry : Registry) (cls : String) : (field : Option String) → Bool
  | none => (registry.classRules.lookup cls).isSome
  | some field => (((registry.fieldRules.lookup cls).getD []).lookup field).isSome

/-- Makes room for rules of a class, or of a field of it. -/
def openFor (registry : Registry) (cls : String) : (field : Option String) → Registry
  | none => registry.openClass cls
  | some field => registry.openField cls field

/-- One class more, or one field. -/
def countOneMore : (field : Option String) → Nat × Nat → Nat × Nat
  | none, (classes, fields) => (classes + 1, fields)
  | some _, (classes, fields) => (classes, fields + 1)

/-- Room is made only where there is no entry. -/
theorem counts_openFor (registry : Registry) (cls : String) (field : Option String) :
    (registry.openFor cls field).counts =
      if registry.holds cls field then registry.counts
      else countOneMore field registry.counts := by
  cases field with
  | none =>
    simp only [counts, openFor, openClass, holds, length_alter]
    by_cases held : (registry.classRules.lookup cls).isSome = true <;> simp [held, countOneMore]
  | some field =>
    have grown := length_flatMap_alter cls (alter field [] id)
      (if registry.holds cls (some field) then 0 else 1) registry.fieldRules
      (length_alter field [] id _)
    simp only [counts, openFor, openField, grown]
    split <;> rfl

/-- What a registry tells about itself are its numbers of classes and fields. -/
theorem describe_congr {registry other : Registry} (same : registry.counts = other.counts) :
    registry.describe = other.describe := by
  have classes : registry.classRules.length = other.classRules.length := congrArg Prod.fst same
  have fields : (registry.fieldRules.flatMap (·.2)).length =
      (other.fieldRules.flatMap (·.2)).length := congrArg Prod.snd same
  unfold describe
  rw [classes, fields]

theorem Extends.counts_eq {schema : Schema} {name : String} {before after : Registry}
    (h : before.Extends g schema name after) : after.counts = before.counts := by
  rw [counts, counts, h.classRules, h.fieldRules]

end Registry

/-- Whether the fields of a class include this one, if one is meant. -/
def Schema.knows (schema : Schema) (cls : String) (field : Option String) : Bool :=
  field.all fun name => (schema.fields cls).any (·.1 == name)

def RuleSource.isDeclared : RuleSource → Bool
  | .declared _ => true
  | .complete _ => false

namespace Rulebook

variable {name cls : String} {field : Option String} {source : RuleSource}

/-- Whether a registration makes an entry that was not there before its rule is declared. -/
def opensFor (book : Rulebook) (name cls : String) (field : Option String) (source : RuleSource) :
    Bool :=
  source.isDeclared && book.schema.knows cls field && !(book.registry name).holds cls field

/-- The rulebook in which the rule of a registration is declared. -/
def preparedFor (book : Rulebook) (name cls : String) (field : Option String)
    (source : RuleSource) : Rulebook :=
  if source.isDeclared && book.schema.knows cls field then book.modify name (·.openFor cls field)
  else book

theorem counts_preparedFor (book : Rulebook) (other : String) :
    ((book.preparedFor name cls field source).registry other).counts =
      if other = name ∧ book.opensFor name cls field source = true then
        Registry.countOneMore field (book.registry name).counts
      else (book.registry other).counts := by
  unfold preparedFor opensFor
  cases source.isDeclared && book.schema.knows cls field with
  | false => simp
  | true =>
    by_cases here : other = name
    · subst here
      cases held : (book.registry other).holds cls field <;>
        simp [registry_modify, Registry.counts_openFor, held]
    · simp [registry_modify, here]

end Rulebook

namespace Declare

open Declaring

/-- The rule that a source gives for a class or a field of it. -/
def ruleFor (registry cls : String) : (field : Option String) → RuleSource → Declare Validation
  | none => classRule registry cls
  | some field => fieldRule registry cls field

/-- Registers a rule for a class or a field of it. -/
def registerFor (registry cls : String) : (field : Option String) → RuleSource → Declare Unit
  | none => registerForClass registry cls
  | some field => registerForField registry cls field

variable {name cls : String} {field : Option String} {source : RuleSource} {fault : Fault}
  {shop after : Workshop}

/-- What fails in a registration is making its rule. -/
theorem ruleFor_of_registerFor_failed
    (failed : (registerFor name cls field source).runOn g shop = (.error fault, after)) :
    (ruleFor name cls field source).runOn g shop = (.error fault, after) := by
  have inverted : ∀ (m : Declare Validation) (add : Registry → Validation → Registry),
      (m >>= fun rule => changeRegistry name (add · rule)).runOn g shop = (.error fault, after) →
        m.runOn g shop = (.error fault, after) := by
    intro m add failed
    rcases runOn_bind_error failed with raised | ⟨_, _, _, ended⟩
    · exact raised
    · cases ended
  cases field with
  | none => exact inverted _ (fun registry => registry.addClassRule cls) failed
  | some field => exact inverted _ (fun registry => registry.addFieldRule cls field) failed

theorem runOn_requireField (cls field : String) (shop : Workshop) :
    (requireField cls field).runOn g shop =
      (if shop.rulebook.schema.knows cls (some field) then .ok ()
        else .error (.unknownField cls (Text.quoted field)), shop) := by
  rw [requireField, runOn_bind, runOn_get, Schema.knows, Option.all_some]
  dsimp only
  split <;> rfl

/-- Making a rule does no more to the registered rules than to make room for it. -/
theorem ruleFor_extends (name cls : String) (field : Option String) (source : RuleSource)
    (shop : Workshop) :
    (shop.rulebook.preparedFor name cls field source).Extends g
      ((ruleFor name cls field source).runOn g shop).2.rulebook := by
  have made (spec : ValidationSpec) := ValidationSpec.make_compiles (g := g) spec
  have declared (rules : List Rule) := declareAll_compiles (g := g) rules
  cases field with
  | none =>
    cases source with
    | complete spec => exact (made spec).bind (fun _ => .of_pure _) shop
    | declared rules =>
      exact declared rules { shop with rulebook := shop.rulebook.modify name (·.openClass cls) }
  | some field =>
    cases source with
    | complete spec =>
      exact (made spec).bind (fun _ =>
        (Ledger.requireField_compiles cls field).bind fun _ => .of_pure _) shop
    | declared rules =>
      rw [ruleFor, fieldRule, runOn_bind, runOn_requireField]
      simp only [Rulebook.preparedFor, RuleSource.isDeclared, Bool.true_and]
      cases shop.rulebook.schema.knows cls (some field) with
      | false => exact .refl _
      | true =>
        exact declared rules
          { shop with rulebook := shop.rulebook.modify name (·.openField cls field) }

theorem ruleFor_serves {schema : Schema} {history : List Registration}
    (h : shop.rulebook.Serves schema history) (name cls : String) (field : Option String)
    (source : RuleSource) :
    ((ruleFor name cls field source).runOn g shop).2.rulebook.Serves schema history := by
  cases field with
  | none => exact Ledger.classRule_serves h name cls source
  | some field => exact Ledger.fieldRule_serves h name cls field source

end Declare

namespace Rulebook

variable {schema : Schema} {history : List Registration} {book other : Rulebook}

/-- Rulebooks that serve the same history have the same rules. -/
theorem Serves.sameRules_of_serves (h : book.Serves schema history)
    (h' : other.Serves schema history) (name : String) :
    (book.registry name).SameRules (other.registry name) where
  rulesOf_eq := (h'.sameRules name).rulesOf_eq.trans (h.sameRules name).rulesOf_eq.symm
  fieldRulesOf_eq :=
    (h'.sameRules name).fieldRulesOf_eq.trans (h.sameRules name).fieldRulesOf_eq.symm

theorem Serves.compiled_eq (h : book.Serves schema history) (h' : other.Serves schema history)
    (name cls : String) : (other.compiled g name cls).1 = (book.compiled g name cls).1 := by
  rw [h'.current.compiled_fst, h.current.compiled_fst, h'.form_eq, h.form_eq]

/-- A run does not tell them apart. -/
theorem Serves.runOn_validate_eq (h : book.Serves schema history)
    (h' : other.Serves schema history) (run : Run) (validation : Validation) (v : Value) :
    let first := (validation.validate v).runOn g { run with rulebook := book }
    let second := (validation.validate v).runOn g { run with rulebook := other }
    second.1 = first.1 ∧ second.2 = { first.2 with rulebook := second.2.rulebook } := by
  obtain ⟨same, left⟩ := Uncached.validate_lockstep h validation v
    { run with rulebook := book } { run with rulebook := ofHistory schema history } ⟨rfl, .refl _⟩
  obtain ⟨same', left'⟩ := Uncached.validate_lockstep h' validation v
    { run with rulebook := other } { run with rulebook := ofHistory schema history } ⟨rfl, .refl _⟩
  refine ⟨same'.trans same.symm, ?_⟩
  have agree := left'.agree.symm.trans left.agree
  exact congrArg (fun ending : Run => { ending with
    rulebook := ((validation.validate v).runOn g { run with rulebook := other }).2.rulebook }) agree

end Rulebook

/-- A registration that fails, after any calls, registers nothing: every class of every registry
has the rules it had and compiles to what it did, and every run comes to what it did.  A registry
describes itself as before, unless the registration has made an entry for its class or field before
declaring its rule; that entry stays, without rules, and is counted. -/
theorem failed_registration_keeps (schema : Schema) (shop : Workshop)
    (calls : List (ObjectGraph × RegistryCall)) (name cls : String) (field : Option String)
    (source : RuleSource) (g : ObjectGraph) {fault : Fault} {after : Workshop}
    (failed : (Declare.registerFor name cls field source).runOn g
      (calls.foldl Ledger.next (.start schema shop)).shop = (.error fault, after)) :
    let book := (calls.foldl Ledger.next (.start schema shop)).shop.rulebook
    let left := after.rulebook
    (∀ other, (book.registry other).SameRules (left.registry other)) ∧
      (∀ g other c, (left.compiled g other c).1 = (book.compiled g other c).1) ∧
      (∀ g (run : Run) (validation : Validation) v,
        let first := (validation.validate v).runOn g { run with rulebook := book }
        let second := (validation.validate v).runOn g { run with rulebook := left }
        second.1 = first.1 ∧ second.2 = { first.2 with rulebook := second.2.rulebook }) ∧
      (∀ other, (other = name → book.opensFor name cls field source = false) →
        (left.registry other).describe = (book.registry other).describe) ∧
      (book.opensFor name cls field source = true →
        (left.registry name).counts = Registry.countOneMore field (book.registry name).counts) := by
  intro book left
  have rule := Declare.ruleFor_of_registerFor_failed failed
  have served : Rulebook.Serves schema (calls.foldl Ledger.next (.start schema shop)).history
      book :=
    Ledger.foldl_next_serves calls (Rulebook.Serves.start schema)
  have served' := Declare.ruleFor_serves (g := g) served name cls field source
  rw [rule] at served'
  have counts (other : String) : (left.registry other).counts =
      if other = name ∧ book.opensFor name cls field source = true then
        Registry.countOneMore field (book.registry name).counts
      else (book.registry other).counts := by
    have extended := Declare.ruleFor_extends (g := g) name cls field source
      (calls.foldl Ledger.next (.start schema shop)).shop
    rw [rule] at extended
    rw [(extended.registry other).counts_eq]
    exact book.counts_preparedFor other
  refine ⟨served.sameRules_of_serves served', fun g => served.compiled_eq served',
    fun g => served.runOn_validate_eq served', fun other unopened => ?_, fun opened => ?_⟩
  · refine Registry.describe_congr ((counts other).trans (if_neg fun ⟨here, opened⟩ => ?_))
    rw [unopened here] at opened
    cases opened
  · rw [counts, if_pos ⟨rfl, opened⟩]

/-- A class with one field. -/
def oneField : Schema := [⟨"A", ["A"], [("x", .plain "any")], by decide⟩]

/-- Declares the least size of a value. -/
def leastSize (size : Int) : Rule :=
  .constrain { name := "min_length", positional := [.int size] } none

/-- A class that has a rule keeps it, and the registry its description, if the next one fails. -/
theorem failed_registration_keeps_of_negativeSize :
    let calls : List (ObjectGraph × RegistryCall) :=
      [({}, .registerForClass "main" "A" (.declared [leastSize 2]))]
    let shop := (calls.foldl Ledger.next (.start oneField {})).shop
    ∃ after,
      (Declare.registerFor "main" "A" none (.declared [leastSize 1, leastSize (-1)])).runOn {}
        shop = (.error (.negativeLength "min_length"), after) ∧
      (after.rulebook.registry "main").describe = (shop.rulebook.registry "main").describe ∧
      ((after.rulebook.registry "main").rulesOf "A").length = 1 := by
  intro calls shop
  rcases failed : (Declare.registerFor "main" "A" none
      (.declared [leastSize 1, leastSize (-1)])).runOn {} shop with ⟨result, after⟩
  obtain rfl : result = .error (.negativeLength "min_length") :=
    (congrArg Prod.fst failed).symm
  have keeps := @failed_registration_keeps oneField {} calls "main" "A" none
    (.declared [leastSize 1, leastSize (-1)]) {}
  obtain ⟨sameRules, -, -, described, -⟩ := keeps failed
  refine ⟨after, rfl, described "main" fun _ => rfl, ?_⟩
  rw [(sameRules "main").rulesOf_eq]
  rfl

/-- A registration that fails leaves an entry behind that its registry counts. -/
theorem failed_registration_counted :
    let shop := (Ledger.start oneField {}).shop
    ∃ after, (Declare.registerFor "main" "A" none (.declared [leastSize (-1)])).runOn {} shop =
        (.error (.negativeLength "min_length"), after) ∧
      (shop.rulebook.registry "main").describe = "ModelValidationRegistry(classes=0, fields=0)" ∧
      (after.rulebook.registry "main").describe = "ModelValidationRegistry(classes=1, fields=0)" :=
  ⟨_, rfl, rfl, rfl⟩

end PathRules
