import PathRules.Declaration.Perform

/-!
# Registration of model rules

A rule for a class or a field is either complete or declared while it is registered.  In
the second case the registry makes room for it first, so that a declaration with a fault
leaves an entry without rules behind.

These are `validated`, `validated_field`, `full_validation`, `compiled` and `clear` of
`ModelValidationRegistry`.
-/

namespace PathRules

inductive RuleSource
  | declared (rules : List Rule)
  | complete (validation : ValidationSpec)

namespace Declare

open Declaring

def changeRegistry (name : String) (f : Registry → Registry) : Declare Unit :=
  modify fun shop => { shop with rulebook := shop.rulebook.modify name f }

def registryNamed (name : String) : Declare Registry := do
  pure ((← get).rulebook.registry name)

/-- The rule that a source gives for a class. -/
def classRule (registry cls : String) : RuleSource → Declare Validation
  | .complete spec => do pure (← spec.make).validation
  | .declared rules => do
      changeRegistry registry (·.openClass cls)
      declareAll rules

/-- Registers a rule for all instances of a class and its subclasses. -/
def registerForClass (registry cls : String) (source : RuleSource) : Declare Unit := do
  let rule ← classRule registry cls source
  changeRegistry registry (·.addClassRule cls rule)

def requireField (cls field : String) : Declare Unit := do
  let fields := (← get).rulebook.schema.fields cls
  if fields.any (·.1 == field) then pure ()
  else throw (.unknownField cls (Text.quoted field))

/-- The rule that a source gives for a field of a class, which must have it. -/
def fieldRule (registry cls field : String) : RuleSource → Declare Validation
  | .complete spec => do
      let made ← spec.make
      requireField cls field
      pure made.validation
  | .declared rules => do
      requireField cls field
      changeRegistry registry (·.openField cls field)
      declareAll rules

def registerForField (registry cls field : String) (source : RuleSource) : Declare Unit := do
  let rule ← fieldRule registry cls field source
  changeRegistry registry (·.addFieldRule cls field rule)

/-- The validation that runs every rule for instances of a class. -/
def fullValidation (registry cls : String) (name : Option String) : Declare Numbered := do
  let made ← numbered (← ofModel registry cls)
  match name with
  | some name => nameValidation name made
  | none => pure ()
  pure made

/-- The rules of a class as one validation. -/
def compiledRules (registry cls : String) : Declare (Option Validation) := do
  let g ← read
  let shop ← get
  let (rules, rulebook) := shop.rulebook.compiled g registry cls
  set { shop with rulebook }
  pure rules

/-- Removes all rules of a registry. -/
def clearRegistry (name : String) : Declare Unit :=
  changeRegistry name fun _ => {}

end Declare

end PathRules
