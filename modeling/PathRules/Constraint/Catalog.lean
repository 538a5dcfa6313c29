import PathRules.Constraint.Basic
import PathRules.Pattern.Reader
import PathRules.Value.Access

/-!
# Catalog of constraints

The common constraints: presence, types, equality, ranges, lengths, patterns, truth values
and collections.  Limits may be any values that can be compared with what is checked.

These are the methods of `ConstraintCatalog`; `count` and `allDistinct` are `_count` and
`_all_distinct`.
-/

namespace PathRules.Constraint

private def compared (comparison : Comparison) (a b : Value) : Check Bool := do
  Check.ofExcept (Value.compareWith (← read) comparison a b)

private def both (first second : Check Bool) : Check Bool := do
  if ← first then second else pure false

def isNotNull : Constraint where
  hint := "may not be None"
  test := fun v => pure (match v with
    | .null => false
    | _ => true)

def isNull : Constraint where
  hint := "must be None"
  test := fun v => pure (match v with
    | .null => true
    | _ => false)

def isInstance (types : List String) : Constraint where
  hint := "must be of the correct type"
  test := fun v => do pure (types.any (v.isInstanceOf (← read)))

def oneOf (g : ObjectGraph) (allowed : List Value) : Constraint where
  hint := "must be one of: {0}"
  templates := [Text.joined ", " (allowed.map fun v => "'" ++ v.shown g ++ "'")]
  test := fun v => do pure (v.isMember (← read) allowed)

def const (g : ObjectGraph) (expected : Value) : Constraint where
  hint := "must be {0}"
  templates := [match expected with
    | .null => "None"
    | expected => "'" ++ expected.shown g ++ "'"]
  test := fun v => do pure (v.eq (← read) expected)

def custom (test : Test) (message : Option String) : Constraint where
  hint := message.getD "custom constraint failed"
  test := test

def inRange (g : ObjectGraph) (low high : Value) : Constraint where
  hint := "must be at least '{0}' and not greater than '{1}'"
  templates := [low.shown g, high.shown g]
  test := fun v => both (compared .atMost low v) (compared .atMost v high)

private def requireLength (g : ObjectGraph) (check : String) (length : Value) : Except Fault Unit := do
  if ← Value.compareWith g .less length (.int 0) then throw (.negativeLength check)

private def sizeIs (comparison : Comparison) (limit : Value) : Test := fun v =>
  match v.size? with
  | some n => compared comparison (.int n) limit
  | none => throw .wrongType

def minLength (g : ObjectGraph) (length : Value) : Except Fault Constraint := do
  requireLength g "min_length" length
  pure {
    hint := "must have at least {0} characters"
    templates := [length.shown g]
    test := sizeIs .atLeast length }

def maxLength (g : ObjectGraph) (length : Value) : Except Fault Constraint := do
  requireLength g "max_length" length
  pure {
    hint := "must have at most {0} characters"
    templates := [length.shown g]
    test := sizeIs .atMost length }

def matching (options : Pattern.Options) (text : Value) : Except Fault Constraint :=
  match text with
  | .str s =>
      match Pattern.ofText? s with
      | some pattern => .ok {
          hint := "must match the expected pattern"
          templates := [s]
          test := fun v =>
            match v with
            | .str checked => pure (pattern.matchesWhole options checked)
            | _ => throw .wrongType }
      | none => .error .malformedPattern
  | _ => .error .wrongType

def minimum (g : ObjectGraph) (limit : Value) (exclusive : Bool) : Constraint where
  hint := if exclusive then "must be greater than '{0}'" else "must be at least '{0}'"
  templates := [limit.shown g]
  test := fun v => compared (if exclusive then .greater else .atLeast) v limit

def maximum (g : ObjectGraph) (limit : Value) (exclusive : Bool) : Constraint where
  hint := if exclusive then "must be less than '{0}'" else "must be at most '{0}'"
  templates := [limit.shown g]
  test := fun v => compared (if exclusive then .less else .atMost) v limit

def between (g : ObjectGraph) (low high : Value) (exclusive : Bool) : Constraint :=
  if exclusive then {
    hint := "must be greater than '{0}' and less than '{1}'"
    templates := [low.shown g, high.shown g]
    test := fun v => both (compared .less low v) (compared .less v high) }
  else inRange g low high

def positive (g : ObjectGraph) (allowZero : Bool) : Constraint :=
  (minimum g (.int 0) !allowZero).withHint
    (if allowZero then "must be positive or 0" else "must be positive")

def negative (g : ObjectGraph) (allowZero : Bool) : Constraint :=
  (maximum g (.int 0) !allowZero).withHint
    (if allowZero then "must be negative or 0" else "must be negative")

def isTrue : Constraint where
  hint := "must be true"
  test := fun v => pure (match v with
    | .bool b => b
    | _ => false)

def isFalse : Constraint where
  hint := "must be false"
  test := fun v => pure (match v with
    | .bool b => !b
    | _ => false)

/-- The number of items; a value without a size is counted by iterating it. -/
def count (v : Value) : Check Nat :=
  match v.size? with
  | some n => pure n
  | none => do pure (← v.elements).length

private def itemWord (g : ObjectGraph) (count : Value) : String :=
  if count.eq g (.int 1) then "item" else "items"

def minItems (g : ObjectGraph) (least : Value) : Constraint where
  hint := "must have at least {0} " ++ itemWord g least
  templates := [least.shown g]
  test := fun v => do compared .atLeast (.int (← count v)) least

def maxItems (g : ObjectGraph) (most : Value) : Constraint where
  hint := "must have at most {0} " ++ itemWord g most
  templates := [most.shown g]
  test := fun v => do compared .atMost (.int (← count v)) most

/-- Whether no item occurs among the items before it. -/
def noneRepeats (g : ObjectGraph) : (seen items : List Value) → Bool
  | _, [] => true
  | seen, v :: vs => !v.isMember g seen && noneRepeats g (seen ++ [v]) vs

/-- Items that can be keys are distinct if a set of them loses none; other items are
compared one by one. -/
def allDistinct (g : ObjectGraph) (items : List Value) : Bool :=
  if Value.areHashable g items then (Value.distinct g items).length == items.length
  else noneRepeats g [] items

def uniqueItems (unique : Bool) : Constraint where
  hint := "all items must be unique"
  test := fun v => do
    if unique then pure (allDistinct (← read) (← v.elements)) else pure true

def uniqueValues (unique : Bool) : Constraint where
  hint := "all values must be unique"
  test := fun v => do
    if unique then
      let values ← Check.ofExcept (v.callMethod (← read) "values")
      pure (allDistinct (← read) (← values.elements))
    else pure true

end PathRules.Constraint
