import PathRules.Number.Decimal
import PathRules.Text.Lines
import PathRules.Text.Quoted
import PathRules.Value.Basic

/-!
# Text of values

`Value.quoted?` shows a value so that its type can be told, `Value.shown?` leaves a text as
it is and lists the fields of a model instance.  Both answer none for a value that contains
itself.
-/

namespace PathRules

namespace Value

private def bracketed (opening closing : String) (parts : List String) : String :=
  opening ++ Text.joined ", " parts ++ closing

mutual

/-- `quoted?`, with the text of an object given. -/
def quotedWith (objects : Nat → Option String) : Value → Option String
  | .null => some "None"
  | .bool b => some (if b then "True" else "False")
  | .int n => some (toString n)
  | .real x => some x.text
  | .str s => some (Text.quoted s)
  | .list items => (quotedItems objects items).map (bracketed "[" "]")
  | .tuple items =>
      (quotedItems objects items).map fun parts =>
        match parts with
        | [part] => "(" ++ part ++ ",)"
        | parts => bracketed "(" ")" parts
  | .entry key value => do
      let key ← quotedWith objects key
      let value ← quotedWith objects value
      some ("Entry(key=" ++ key ++ ", value=" ++ value ++ ")")
  | .map pairs => (quotedPairs objects pairs).map (bracketed "\x7b" "\x7d")
  | .set items =>
      (quotedItems objects items).map fun parts =>
        if parts.isEmpty then "set()" else bracketed "\x7b" "\x7d" parts
  | .source _ => some "<list_iterator object>"
  | .object ref => objects ref
termination_by structural v => v

def quotedItems (objects : Nat → Option String) : List Value → Option (List String)
  | [] => some []
  | v :: vs => do
      let part ← quotedWith objects v
      let parts ← quotedItems objects vs
      some (part :: parts)
termination_by structural vs => vs

def quotedPairs (objects : Nat → Option String) : List (Value × Value) → Option (List String)
  | [] => some []
  | (key, value) :: pairs => do
      let key ← quotedWith objects key
      let value ← quotedWith objects value
      let parts ← quotedPairs objects pairs
      some ((key ++ ": " ++ value) :: parts)
termination_by structural vs => vs

end

end Value

namespace ObjectGraph

/-- `name=value` for each field; a model instance that is a field of its own is marked. -/
def fieldTexts (o : Object) (ref : Nat) (objects : Nat → Option String) : Option (List String) :=
  o.fields.mapM fun (name, value) => do
    let text ← match value with
      | .object r =>
          if r == ref && o.isModel then some ("<Recursion on " ++ o.cls ++ ">") else objects r
      | v => Value.quotedWith objects v
    some (name ++ "=" ++ text)

def objectText? (g : ObjectGraph) : (fuel : Nat) → Nat → Option String
  | 0, _ => none
  | fuel + 1, ref =>
      match g.object? ref with
      | none => none
      | some o =>
          (fieldTexts o ref (g.objectText? fuel)).map fun parts =>
            o.cls ++ "(" ++ Text.joined ", " parts ++ ")"

end ObjectGraph

namespace Value

def quoted? (g : ObjectGraph) (v : Value) : Option String :=
  quotedWith (g.objectText? g.reach) v

def shown? (g : ObjectGraph) : Value → Option String
  | .str s => some s
  | .object ref =>
      match g.object? ref with
      | some o =>
          if o.isModel then
            (ObjectGraph.fieldTexts o ref (g.objectText? g.reach)).map (Text.joined " ")
          else g.objectText? g.reach ref
      | none => none
  | v => v.quoted? g

def quoted (g : ObjectGraph) (v : Value) : String := (v.quoted? g).getD "..."

def shown (g : ObjectGraph) (v : Value) : String := (v.shown? g).getD "..."

end Value

end PathRules
