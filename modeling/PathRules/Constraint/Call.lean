import PathRules.Constraint.Catalog

/-!
# Constraints by name

A call names a constraint of the catalog and gives its arguments by position or keyword.

The arguments are bound as the methods of `ConstraintCatalog` take them, `custom` and
`simple_custom` apart.
-/

namespace PathRules

structure Call where
  name : String
  positional : List Value := []
  keywords : List (String × Value) := []
  /-- Types to be an instance of. -/
  types : List String := []
  test : Option Test := none
  message : Option String := none
  templates : List String := []
  options : Pattern.Options := {}

/-- A parameter; without a default it has to be given. -/
structure Param where
  name : String
  default : Option Value := none

namespace Call

/-- The values of parameters: positional arguments first, then keywords, then defaults. -/
def bind : List Param → List Value → List (String × Value) → Except Fault (List Value)
  | [], [], [] => .ok []
  | [], _, _ => .error .wrongType
  | param :: params, v :: positional, keywords =>
      if keywords.any (·.1 == param.name) then .error .wrongType
      else (bind params positional keywords).map (v :: ·)
  | param :: params, [], keywords =>
      match keywords.lookup param.name with
      | some v => (bind params [] (keywords.filter (·.1 != param.name))).map (v :: ·)
      | none =>
          match param.default with
          | some v => (bind params [] keywords).map (v :: ·)
          | none => .error .wrongType

def nullary (call : Call) (c : Constraint) : Except Fault Constraint := do
  let _ ← bind [] call.positional call.keywords
  pure c

def unary (call : Call) (param : Param) (make : Value → Except Fault Constraint) :
    Except Fault Constraint := do
  match ← bind [param] call.positional call.keywords with
  | [v] => make v
  | _ => throw .wrongType

def binary (call : Call) (first second : Param)
    (make : Value → Value → Except Fault Constraint) : Except Fault Constraint := do
  match ← bind [first, second] call.positional call.keywords with
  | [v, w] => make v w
  | _ => throw .wrongType

def ternary (call : Call) (first second third : Param)
    (make : Value → Value → Value → Except Fault Constraint) : Except Fault Constraint := do
  match ← bind [first, second, third] call.positional call.keywords with
  | [v, w, x] => make v w x
  | _ => throw .wrongType

def exclusive : Param := ⟨"exclusive", some (.bool false)⟩

def allowZero : Param := ⟨"allow_zero", some (.bool false)⟩

def unique : Param := ⟨"unique", some (.bool true)⟩

def tested (call : Call) (make : Test → Constraint) : Except Fault Constraint :=
  match call.test with
  | some test => .ok (make test)
  | none => .error .wrongType

/-- The constraint that a call makes. -/
def constraint (g : ObjectGraph) (call : Call) : Except Fault Constraint :=
  match call.name with
  | "is_not_none" => call.nullary .isNotNull
  | "is_none" => call.nullary .isNull
  | "is_true" => call.nullary .isTrue
  | "is_false" => call.nullary .isFalse
  | "is_instance" => .ok (.isInstance call.types)
  | "one_of" =>
      if call.keywords.isEmpty then .ok (.oneOf g call.positional) else .error .wrongType
  | "const" => call.unary ⟨"expected", none⟩ fun v => .ok (.const g v)
  | "custom" => call.tested fun test => .custom test call.message
  | "simple_custom" => call.tested fun test => .custom test call.message
  | "add" =>
      call.tested fun test =>
        { hint := call.message.getD "", templates := call.templates, test }
  | "in_range" =>
      call.binary ⟨"start", none⟩ ⟨"end", none⟩ fun low high => .ok (.inRange g low high)
  | "min_length" => call.unary ⟨"length", none⟩ (Constraint.minLength g)
  | "max_length" => call.unary ⟨"length", none⟩ (Constraint.maxLength g)
  | "pattern" => call.unary ⟨"pattern", none⟩ (Constraint.matching call.options)
  | "minimum" =>
      call.binary ⟨"minimum", none⟩ exclusive fun limit ex => .ok (.minimum g limit ex.truthy)
  | "maximum" =>
      call.binary ⟨"maximum", none⟩ exclusive fun limit ex => .ok (.maximum g limit ex.truthy)
  | "between" =>
      call.ternary ⟨"start", none⟩ ⟨"end", none⟩ exclusive fun low high ex =>
        .ok (.between g low high ex.truthy)
  | "positive" => call.unary allowZero fun zero => .ok (.positive g zero.truthy)
  | "negative" => call.unary allowZero fun zero => .ok (.negative g zero.truthy)
  | "min_items" => call.unary ⟨"min_size", none⟩ fun least => .ok (.minItems g least)
  | "max_items" => call.unary ⟨"max_size", none⟩ fun most => .ok (.maxItems g most)
  | "unique_items" => call.unary unique fun u => .ok (.uniqueItems u.truthy)
  | "unique_values" => call.unary unique fun u => .ok (.uniqueValues u.truthy)
  | _ => .error .missingAttribute

end Call

end PathRules
