import PathRules.Declaration.Draft
import PathRules.Model.Schema

/-!
# Registries of model rules

A registry holds rules for model classes and their fields.  The rules that apply to a
class, with the steps that follow its relations, are compiled on demand and kept until
another rule is registered.

This is `ModelValidationRegistry`: `draftOf` is `_build`, and `ensureOnce` is `_compile`.
-/

namespace PathRules

structure Registry where
  classRules : List (String × List Validation) := []
  fieldRules : List (String × List (String × List Validation)) := []
  /-- Compiled rules by class; none while a class is being compiled. -/
  cache : List (String × Option Validation) := []

/-- Changes the value of a key, which is added with `initial` if it is missing. -/
def alter {α : Type} (key : String) (initial : α) (f : α → α) : List (String × α) → List (String × α)
  | [] => [(key, f initial)]
  | (k, a) :: rest => if k == key then (k, f a) :: rest else (k, a) :: alter key initial f rest

namespace Registry

def rulesOf (registry : Registry) (cls : String) : List Validation :=
  (registry.classRules.lookup cls).getD []

def fieldRulesOf (registry : Registry) (cls field : String) : List Validation :=
  (((registry.fieldRules.lookup cls).getD []).lookup field).getD []

/-- Makes room for rules of a class; the compiled rules stay as they are. -/
def openClass (registry : Registry) (cls : String) : Registry :=
  { registry with classRules := alter cls [] id registry.classRules }

def openField (registry : Registry) (cls field : String) : Registry :=
  { registry with fieldRules := alter cls [] (alter field [] id) registry.fieldRules }

def addClassRule (registry : Registry) (cls : String) (rule : Validation) : Registry :=
  { registry with classRules := alter cls [] (· ++ [rule]) registry.classRules, cache := [] }

def addFieldRule (registry : Registry) (cls field : String) (rule : Validation) : Registry :=
  { registry with
    fieldRules := alter cls [] (alter field [] (· ++ [rule])) registry.fieldRules
    cache := [] }

/-- The draft under a key, made if it is missing, changed by `f`. -/
def within (g : ObjectGraph) (key : StepKey) (f : Draft → Draft) (draft : Draft) : Draft :=
  match draft.find? g key with
  | some position => draft.modifyAt [position] f
  | none => (draft.addNested key).modifyAt [draft.nested.length] f

def fieldKey (name : String) : StepKey := { path := { target := .ofName name } }

def relationKey (name : String) : StepKey :=
  { path := { target := .ofName name }, presence := .optional }

def elementsKey : StepKey := { path := { target := .this }, kind := .iterable }

/-- Adds the rules registered for a field, those of the class itself first. -/
def addFieldRules (g : ObjectGraph) (registry : Registry) (lineage : List String) (field : String)
    (draft : Draft) : Draft :=
  (lineage.flatMap fun cls => registry.fieldRulesOf cls field).foldl
    (fun draft rule => within g (fieldKey field) (·.addPrebuilt rule) draft) draft

/-- Adds the step that validates what a relation leads to. -/
def addRelation (g : ObjectGraph) (name field : String) (relation : Relation) (draft : Draft) :
    Draft :=
  let nested := Validation.model name relation.target
  within g (relationKey field) (fun part =>
    if relation.isCollection then within g elementsKey (·.addPrebuilt nested) part
    else part.addPrebuilt nested) draft

/-- The rules that apply to a class: per field its own and then its relation, and last the
rules of the class.  `name` is the name of the registry. -/
def draftOf (g : ObjectGraph) (schema : Schema) (name : String) (registry : Registry) (cls : String) :
    Draft :=
  let lineage := schema.lineage cls
  let whole := (lineage.flatMap registry.rulesOf).foldl Draft.addPrebuilt (Draft.empty false)
  (schema.fields cls).foldl (fun draft (field, fieldType) =>
    let draft := addFieldRules g registry lineage field draft
    match fieldType.relation? with
    | some relation => addRelation g name field relation draft
    | none => draft) whole

/-- The models that the fields of a class refer to. -/
def targets (schema : Schema) (cls : String) : List String :=
  (schema.fields cls).filterMap fun (_, fieldType) => fieldType.relation?.map (·.target)

/-- Compiles a class that is not yet compiled, and the classes it refers to by `nested`. -/
def ensureOnce (g : ObjectGraph) (schema : Schema) (name : String)
    (nested : Registry → String → Registry) (registry : Registry) (cls : String) : Registry :=
  if (registry.cache.lookup cls).isSome then registry
  else
    let begun := { registry with cache := alter cls none (fun _ => none) registry.cache }
    let related := (targets schema cls).foldl nested begun
    { related with
      cache :=
        alter cls none (fun _ => some (draftOf g schema name registry cls).build) related.cache }

def ensure (g : ObjectGraph) (schema : Schema) (name : String) :
    (fuel : Nat) → Registry → String → Registry
  | 0 => fun registry _ => registry
  | fuel + 1 => ensureOnce g schema name (ensure g schema name fuel)

/-- The compiled rules of a class. -/
def compiled (g : ObjectGraph) (schema : Schema) (name : String) (registry : Registry) (cls : String) :
    Option Validation × Registry :=
  let registry := ensure g schema name (schema.length + 1) registry cls
  ((registry.cache.lookup cls).getD none, registry)

def describe (registry : Registry) : String :=
  "ModelValidationRegistry(classes=" ++ toString registry.classRules.length
    ++ ", fields=" ++ toString (registry.fieldRules.flatMap (·.2)).length ++ ")"

end Registry

/-- All registries by name, and the schema they are about. -/
structure Rulebook where
  schema : Schema := []
  registries : List (String × Registry) := []

namespace Rulebook

def registry (book : Rulebook) (name : String) : Registry :=
  (book.registries.lookup name).getD {}

def modify (book : Rulebook) (name : String) (f : Registry → Registry) : Rulebook :=
  { book with registries := alter name {} f book.registries }

def compiled (book : Rulebook) (g : ObjectGraph) (name cls : String) :
    Option Validation × Rulebook :=
  let (validation, registry) := (book.registry name).compiled g book.schema name cls
  (validation, book.modify name fun _ => registry)

end Rulebook

end PathRules
