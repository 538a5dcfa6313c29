import PathRules.Store
import PathRules.Text.Case
import PathRules.Text.Digit
import PathRules.Text.Lines
import PathRules.Value.Order
import PathRules.Value.Text

/-!
# Parts of values

Attributes, results of methods, items by key or position, and iteration.  Reading from a
one-shot source takes values out of the store.

Paths and validations of elements read values by these.
-/

namespace PathRules.Value

def attr (g : ObjectGraph) (name : String) (v : Value) : Except Fault Value :=
  match v with
  | .object ref =>
      match (g.object? ref).bind (·.fields.lookup name) with
      | some value => .ok value
      | none => .error .missingAttribute
  | .entry key value =>
      if name == "key" then .ok key
      else if name == "value" then .ok value
      else .error .missingAttribute
  | .real x =>
      if name == "real" then .ok (.real x)
      else if name == "imag" then .ok (.real (.finite false 0 0))
      else .error .missingAttribute
  | v =>
      match v.int? with
      | some n =>
          if name == "real" || name == "numerator" then .ok (.int n)
          else if name == "imag" then .ok (.int 0)
          else if name == "denominator" then .ok (.int 1)
          else .error .missingAttribute
      | none => .error .missingAttribute

/-- Follows the parts of a dotted name one after the other. -/
def followAttributes (g : ObjectGraph) (dotted : String) (v : Value) : Except Fault Value :=
  (Text.pieces '.' dotted).foldlM (fun value name => value.attr g name) v

private def stripped (s : String) : String :=
  String.ofList
    ((s.toList.dropWhile Text.isBlank).reverse.dropWhile Text.isBlank).reverse

/-- Methods that values of a built-in type have. -/
def builtinMethod? (name : String) : Value → Option Value
  | .str s =>
      if name == "upper" then some (.str (Text.upper s))
      else if name == "lower" then some (.str (String.ofList (s.toList.map Text.lowerChar)))
      else if name == "strip" then some (.str (stripped s))
      else none
  | .map pairs =>
      if name == "keys" then some (.list (pairs.map (·.1)))
      else if name == "values" then some (.list (pairs.map (·.2)))
      else if name == "items" then some (.list (pairs.map fun (k, v) => .tuple [k, v]))
      else if name == "copy" then some (.map pairs)
      else none
  | .list items => if name == "copy" then some (.list items) else none
  | .set items => if name == "copy" then some (.set items) else none
  | _ => none

/-- The result of a method without arguments; an attribute that is no method can not be
called. -/
def callMethod (g : ObjectGraph) (name : String) (v : Value) : Except Fault Value :=
  let own := match v with
    | .object ref => (g.object? ref).bind (·.methods.lookup name)
    | v => v.builtinMethod? name
  match own with
  | some value => .ok value
  | none => (v.attr g name).bind fun _ => .error .wrongType

/-- The place of an index, counted from the end if it is negative. -/
def place? (count : Nat) (index : Int) : Option Nat :=
  let place := if index < 0 then index + count else index
  if 0 ≤ place ∧ place < count then some place.toNat else none

def itemAt (items : List Value) (index : Int) : Except Fault Value :=
  match (place? items.length index).bind (items[·]?) with
  | some v => .ok v
  | none => .error .outOfRange

def characters (s : String) : List Value :=
  s.toList.map fun c => .str (String.singleton c)

/-- The items of a value that is indexed by position. -/
def sequenceItems? : Value → Option (List Value)
  | .str s => some (characters s)
  | .list items => some items
  | .tuple items => some items
  | .entry key value => some [key, value]
  | _ => none

/-- The item at a key of a map or at an index of a sequence. -/
def item (g : ObjectGraph) (v key : Value) : Except Fault Value :=
  match v with
  | .map pairs =>
      if !key.isHashable g then .error .wrongType
      else
        match lookupPair g pairs key with
        | some value => .ok value
        | none => .error .missingKey
  | v =>
      match v.sequenceItems?, key.int? with
      | some items, some index => itemAt items index
      | _, _ => .error .wrongType

/-- The items a value yields when it is iterated, apart from one-shot sources: characters,
items, the keys of a map, and a model instance's fields as pairs. -/
def items? (g : ObjectGraph) : Value → Option (List Value)
  | .map pairs => some (pairs.map (·.1))
  | .set items => some items
  | .object ref =>
      (g.object? ref).bind fun o =>
        if o.isModel then some (o.fields.map fun (name, value) => .tuple [.str name, value])
        else none
  | v => v.sequenceItems?

/-- All items of a value, emptying a one-shot source. -/
def elements (v : Value) : Check (List Value) := do
  match v with
  | .source number =>
      let left := (← get).remaining number
      modify (·.drain number)
      pure left
  | v =>
      match v.items? (← read) with
      | some items => pure items
      | none => throw .wrongType

/-- Whether an equal item is among those left in a source, taking out all up to it. -/
private def takeThrough (g : ObjectGraph) (v : Value) : List Value → Bool × List Value
  | [] => (false, [])
  | item :: rest => if same g item v then (true, rest) else takeThrough g v rest

/-- Membership: of keys in a map, of a part in a text, of items elsewhere.  A set may be asked
for in a set, which never holds one. -/
def contains (v key : Value) : Check Bool := do
  let g ← read
  match v with
  | .map pairs =>
      if key.isHashable g then pure (lookupPair g pairs key).isSome else throw .wrongType
  | .set items =>
      match key with
      | .set _ => pure false
      | key => if key.isHashable g then pure (isMember g key items) else throw .wrongType
  | .str s =>
      match key with
      | .str part => pure ((s.splitOn part).length != 1 || part.isEmpty)
      | _ => throw .wrongType
  | .source number =>
      let (found, left) := takeThrough g key ((← get).remaining number)
      modify fun store => { store with sources := store.sources.set number left }
      pure found
  | v =>
      match v.items? g with
      | some items => pure (isMember g key items)
      | none => throw .wrongType

/-- The largest count a source can be advanced by. -/
def largestAdvance : Int := 9223372036854775807

/-- The item of a value at a position: by index in a sequence, by counting elsewhere. -/
def elementAt (v position : Value) (shownPosition : String) : Check Value := do
  let g ← read
  if v.isSequence then Check.ofExcept (v.item g position)
  else
    let place : Except Fault Nat := match position with
      | .null => .ok 0
      | position =>
          match position.int? with
          | some n => if 0 ≤ n ∧ n ≤ largestAdvance then .ok n.toNat else .error .wrongValue
          | none => .error .wrongValue
    match v with
    | .source number =>
        let n ← Check.ofExcept place
        let left := (← get).remaining number
        modify fun store => { store with sources := store.sources.set number (left.drop (n + 1)) }
        match left[n]? with
        | some item => pure item
        | none => throw (.noElement shownPosition)
    | v =>
        match v.items? g with
        | none => throw .wrongType
        | some items =>
            let n ← Check.ofExcept place
            match items[n]? with
            | some item => pure item
            | none => throw (.noElement shownPosition)

/-- The pairs of a mapping as two-item values: entries of a map, or what the value's own
method `items` yields. -/
def pairs (v : Value) : Check (List (Value × Value)) := do
  match v with
  | .map pairs => pure pairs
  | v =>
      let found ← Check.ofExcept (v.callMethod (← read) "items")
      let rows ← found.elements
      rows.mapM fun row => do
        match ← row.elements with
        | [key, value] => pure (key, value)
        | _ => throw .wrongValue

end PathRules.Value
