import PathRules.Number.Basic

/-!
# Values and the objects they refer to

A value is data of any shape.  Objects are referred to by number, so that they can refer
to each other in cycles; an `ObjectGraph` holds what they consist of.
-/

namespace PathRules

inductive Value
  | null
  | bool (b : Bool)
  | int (n : Int)
  | real (x : Number)
  | str (s : String)
  | list (items : List Value)
  | tuple (items : List Value)
  /-- A pair with named parts `key` and `value`, otherwise a tuple. -/
  | entry (key value : Value)
  /-- Keys are pairwise different and in order of first insertion. -/
  | map (pairs : List (Value × Value))
  /-- Items are pairwise different. -/
  | set (items : List Value)
  /-- A one-shot source; what it still holds is part of the run's store. -/
  | source (number : Nat)
  | object (ref : Nat)
deriving Repr

instance : Inhabited Value := ⟨.null⟩

structure Object where
  cls : String
  /-- Instances of a model are compared field by field and can be iterated; other objects
  are equal to themselves only. -/
  isModel : Bool
  fields : List (String × Value)
  /-- Results of the methods that take no argument. -/
  methods : List (String × Value)
deriving Repr

structure ClassInfo where
  name : String
  /-- The class itself and everything it inherits from. -/
  ancestors : List String
deriving Repr

structure ObjectGraph where
  classes : List ClassInfo := []
  objects : Array Object := #[]
deriving Repr

namespace ObjectGraph

def object? (g : ObjectGraph) (ref : Nat) : Option Object := g.objects[ref]?

/-- A chain of references without a repeat is shorter than this. -/
def reach (g : ObjectGraph) : Nat := g.objects.size + 1

/-- Adds an object; its number is the count of those before it. -/
def add (g : ObjectGraph) (o : Object) : ObjectGraph :=
  { g with objects := g.objects.push o }

def setFields (g : ObjectGraph) (ref : Nat) (fields methods : List (String × Value)) : ObjectGraph :=
  { g with objects := g.objects.modify ref fun o => { o with fields, methods } }

def addClass (g : ObjectGraph) (info : ClassInfo) : ObjectGraph :=
  { g with classes := info :: g.classes }

def ancestorsOf (g : ObjectGraph) (cls : String) : List String :=
  match g.classes.find? (·.name == cls) with
  | some info => info.ancestors
  | none => [cls]

end ObjectGraph

namespace Value

def number? : Value → Option Number
  | .bool b => some (.ofInt (if b then 1 else 0))
  | .int n => some (.ofInt n)
  | .real x => some x
  | _ => none

/-- Whole numbers, the truth values being 0 and 1. -/
def int? : Value → Option Int
  | .bool b => some (if b then 1 else 0)
  | .int n => some n
  | _ => none

def tupleItems? : Value → Option (List Value)
  | .tuple items => some items
  | .entry key value => some [key, value]
  | _ => none

/-- Null, zero, and empty texts and containers are false; all else is true. -/
def truthy : Value → Bool
  | .null => false
  | .bool b => b
  | .int n => n != 0
  | .real x => !x.isZero
  | .str s => !s.isEmpty
  | .list items => !items.isEmpty
  | .tuple items => !items.isEmpty
  | .entry .. => true
  | .map pairs => !pairs.isEmpty
  | .set items => !items.isEmpty
  | .source _ => true
  | .object _ => true

/-- The number of items; none for a value without a size. -/
def size? : Value → Option Nat
  | .str s => some s.length
  | .list items => some items.length
  | .tuple items => some items.length
  | .entry .. => some 2
  | .map pairs => some pairs.length
  | .set items => some items.length
  | _ => none

/-- Values that are indexed by position. -/
def isSequence : Value → Bool
  | .str _ | .list _ | .tuple _ | .entry .. => true
  | _ => false

def typeName (g : ObjectGraph) : Value → String
  | .null => "NoneType"
  | .bool _ => "bool"
  | .int _ => "int"
  | .real _ => "float"
  | .str _ => "str"
  | .list _ => "list"
  | .tuple _ => "tuple"
  | .entry .. => "Entry"
  | .map _ => "dict"
  | .set _ => "set"
  | .source _ => "list_iterator"
  | .object ref => ((g.object? ref).map (·.cls)).getD "object"

/-- The named types a value belongs to: a truth value is an `int`, an entry is a `tuple`. -/
def typeNames (g : ObjectGraph) (v : Value) : List String :=
  let own := match v with
    | .bool _ => ["bool", "int"]
    | .entry .. => ["Entry", "tuple"]
    | .object ref =>
        match g.object? ref with
        | some o => g.ancestorsOf o.cls
        | none => []
    | v => [v.typeName g]
  own ++ ["object"]

def isInstanceOf (g : ObjectGraph) (v : Value) (typeName : String) : Bool :=
  (v.typeNames g).contains typeName

mutual

/-- The value and all values it is written with; what objects consist of is left out. -/
def contents : Value → List Value
  | .list items => .list items :: contentsOf items
  | .tuple items => .tuple items :: contentsOf items
  | .entry key value => .entry key value :: (contents key ++ contents value)
  | .map pairs => .map pairs :: contentsOfPairs pairs
  | .set items => .set items :: contentsOf items
  | v => [v]
termination_by structural v => v

def contentsOf : List Value → List Value
  | [] => []
  | v :: vs => contents v ++ contentsOf vs
termination_by structural vs => vs

def contentsOfPairs : List (Value × Value) → List Value
  | [] => []
  | (key, value) :: pairs => contents key ++ contents value ++ contentsOfPairs pairs
termination_by structural pairs => pairs

end

end Value

end PathRules
