import PathRules.Run.Validate

/-!
# Instances that validate themselves

An instance of a validated model runs the rules that are registered for its own class, and
may turn a rejection into a fault.

This is `ValidatedModel.run_validation`.
-/

namespace PathRules

/-- The class that models inherit from whose instances validate themselves. -/
def validatedModel : String := "ValidatedModel"

/-- The class whose rules a value can run itself. -/
def Value.ownModel? (g : ObjectGraph) : Value → Option String
  | .object ref =>
      (g.object? ref).bind fun o =>
        if o.isModel && (g.ancestorsOf o.cls).contains validatedModel then some o.cls else none
  | _ => none

/-- The fault that reports the failures of an instance. -/
def refusal (cls : String) (outcome : Outcome) : Fault :=
  .refusedModel cls (outcome.failures.map fun p => (p.place.text, p.leaf.message))

/-- Validates an instance with the rules of its own class; with `strict` a rejection is a
fault. -/
def validateInstance (registry : String) (strict : Bool) (v : Value) : RunM Outcome := do
  match v.ownModel? (← read) with
  | none => throw .missingAttribute
  | some cls =>
      let outcome ← (Validation.model registry cls).validate v
      if strict && !outcome.isAccepted then throw (refusal cls outcome)
      else pure outcome

end PathRules
