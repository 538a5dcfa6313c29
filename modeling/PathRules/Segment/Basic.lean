import PathRules.Store
import PathRules.Text.Lines
import PathRules.Text.Quoted
import PathRules.Value.Equality
import PathRules.Value.Text

/-!
# Segments

A segment is one way from a value to a part of it.  Its name is what it is shown and
looked up by; how the part is extracted takes no part in equality.

Segments are the kinds of `PathDescriptor` but `ConditionalPath`, with `name`, `render`, `matches`,
equality and hash; a list of them is a `ValidationPath`.
-/

namespace PathRules

/-- How a part is taken from a value. -/
abbrev Extract := Value → Check Value

inductive Segment
  /-- The value itself. -/
  | this
  | property (name : String) (extract : Extract)
  | call (name : String) (extract : Extract)
  /-- The entry of a mapping with a key. -/
  | entry (key : Value) (name : String)
  /-- The element at a position. -/
  | index (position : Value) (name : String)
  | custom (identifier : Value) (name : String) (extract : Extract)

namespace Segment

def ofKey (g : ObjectGraph) (key : Value) : Segment :=
  match key with
  | .str s => .entry key ("[\"" ++ s ++ "\"]")
  | key => .entry key ("[" ++ key.quoted g ++ "]")

def ofPosition (g : ObjectGraph) (position : Value) : Segment :=
  .index position ("[" ++ position.shown g ++ "]")

def ofIndex (index : Nat) : Segment :=
  .index (.int index) ("[" ++ toString index ++ "]")

def ofIdentifier (g : ObjectGraph) (identifier : Value) (extract : Extract) : Segment :=
  .custom identifier (identifier.shown g) extract

def isThis : Segment → Bool
  | .this => true
  | _ => false

def name : Segment → String
  | .this => ""
  | .property name _ => name
  | .call name _ => name
  | .entry _ name => name
  | .index _ name => name
  | .custom _ name _ => name

/-- The rendered place `parent`, extended by this segment. -/
def render (parent : String) : Segment → String
  | .this => parent
  | .property name _ => parent ++ "." ++ name
  | .call name _ => parent ++ "." ++ name
  | .entry _ name => parent ++ name
  | .index _ name => parent ++ name
  | .custom _ name _ => parent ++ ".\x60" ++ name ++ "\x60"

/-- Segments are equal if they are of one kind and have one name; custom segments are equal
if their identifiers are. -/
def eqBy (identifiers : Value → Value → Bool) : Segment → Segment → Bool
  | .this, .this => true
  | .property a _, .property b _ => a == b
  | .call a _, .call b _ => a == b
  | .entry _ a, .entry _ b => a == b
  | .index _ a, .index _ b => a == b
  | .custom a _ _, .custom b _ _ => identifiers a b
  | _, _ => false

def eq (g : ObjectGraph) (a b : Segment) : Bool :=
  eqBy (Value.eq g) a b

/-- Whether two segments are one key: equal, identifiers that are one object included, and
of one name, by which keys are hashed. -/
def sameKey (g : ObjectGraph) (a b : Segment) : Bool :=
  eqBy (Value.same g) a b && a.name == b.name

def quoted : Segment → String
  | .this => "THIS"
  | .property name _ => "PropertyPath(" ++ Text.quoted name ++ ")"
  | .call name _ => "FunctionPath(" ++ Text.quoted name ++ ")"
  | .entry _ name => "MapEntryPath(" ++ Text.quoted name ++ ")"
  | .index _ name => "IndexPath(" ++ Text.quoted name ++ ")"
  | .custom _ name _ => "CustomPath(" ++ Text.quoted name ++ ")"

end Segment

/-- One step of a question for the failures at a place. -/
inductive Query
  | value (v : Value)
  | segment (s : Segment)

/-- Properties and calls are asked for by their name, elements by their position, entries
and custom segments by an equal key or identifier, and any segment by an equal one. -/
def Segment.answers (g : ObjectGraph) (query : Query) (s : Segment) : Bool :=
  match query with
  | .segment asked => asked.eq g s
  | .value v =>
      match s with
      | .this => false
      | .property name _ | .call name _ =>
          match v with
          | .str asked => asked == name
          | _ => false
      | .index position _ =>
          match v with
          | .int _ => v.eq g position
          | _ => false
      | .entry key _ => v.eq g key
      | .custom identifier _ _ => v.eq g identifier

/-- The way from the root value to a part, without steps that stay in place. -/
abbrev DataPath := List Segment

namespace DataPath

def ofSegments (segments : List Segment) : DataPath :=
  segments.filter (!·.isThis)

def snoc (path : DataPath) (s : Segment) : DataPath :=
  if s.isThis then path else path ++ [s]

def text (path : DataPath) : String :=
  path.foldl (fun parent s => s.render parent) "this"

def eqBy (segments : Segment → Segment → Bool) : DataPath → DataPath → Bool
  | [], [] => true
  | s :: ss, t :: ts => segments s t && eqBy segments ss ts
  | _, _ => false

/-- Paths are the same if their segments are, identifiers that are one object included. -/
def same (g : ObjectGraph) (a b : DataPath) : Bool :=
  eqBy (Segment.eqBy (Value.same g)) a b

def sameKey (g : ObjectGraph) (a b : DataPath) : Bool :=
  eqBy (Segment.sameKey g) a b

end DataPath

end PathRules
