/-!
# Faults

A fault stops a declaration or a run.  Faults of the library and of its checks have a
message; faults of the data, such as a missing attribute, have a kind only.

A fault is what an exception tells: `ValidationStateError`, and the errors that the methods raise or
let through.
-/

namespace PathRules

inductive Fault
  /-- A path node already has its one child. -/
  | secondChild
  /-- A message may only be recorded on a group. -/
  | leafOnPath
  | nothingOpen
  | noParent
  | stillOpen (count : Nat)
  | negativeLength (check : String)
  | foreignConstraint
  | unknownField (cls field : String)
  | notAPath (typeName : String)
  | malformedPattern
  | noMapping (key : String)
  | noElement (position : String)
  | missingKey
  | missingAttribute
  | outOfRange
  | wrongType
  | wrongValue
  | endless
  /-- Raised by a check of the user's own. -/
  | raised (kind message : String)
  /-- A model was refused; each failure has a place and a message. -/
  | refusedModel (cls : String) (failures : List (String × String))
  | refusedRecord
deriving DecidableEq, Repr

def Fault.message? : Fault → Option String
  | .secondChild => some "A path result can not have more than one sub path"
  | .leafOnPath =>
      some "Can not add a simple result to a path result, push a logical result first"
  | .nothingOpen => some "Can not pop from an empty validation stack"
  | .noParent => some "The popped result has no parent to attach to"
  | .stillOpen count =>
      some ("Validation finished with " ++ toString count ++ " open result(s) on the stack")
  | .negativeLength check => some (check ++ " requires the length to be >= 0")
  | .foreignConstraint => some "Constraint is not registered on this builder"
  | .unknownField cls field => some (cls ++ " has no field named " ++ field)
  | .notAPath typeName =>
      some ("Expected a PathDescriptor or attribute name, got " ++ typeName)
  | .noMapping key => some ("No mapping for " ++ key ++ " found in map")
  | .noElement position => some ("No element at index " ++ position)
  | .raised _ message => some message
  | .refusedModel cls failures =>
      some (cls ++ " failed validation with " ++ toString failures.length ++ " error(s)")
  | _ => none

end PathRules
