import PathRules.Value.Basic

/-!
# Equality of values

`Value.same` is the relation used inside containers and for keys: the same object or
equal.  `Value.eq` is equality alone; the two differ only for a value that is not a
number, which is never equal, even to itself.  Numbers of every kind are equal by value,
and an entry equals the pair of its parts.
-/

namespace PathRules

namespace Value

def sameNumber (x y : Number) : Bool :=
  match x, y with
  | .nan a, .nan b => a == b
  | x, y => x.compare? y == some .eq

mutual

/-- `same`, with the comparison of two objects given. -/
def sameWith (objects : Nat → Nat → Bool) : Value → Value → Bool
  | .null, b => match b with
      | .null => true
      | _ => false
  | .str s, b => match b with
      | .str t => s == t
      | _ => false
  | .list xs, b => match b with
      | .list ys => sameItems objects xs ys
      | _ => false
  | .tuple xs, b => match b.tupleItems? with
      | some ys => sameItems objects xs ys
      | none => false
  | .entry key value, b => match b.tupleItems? with
      | some [k, v] => sameWith objects key k && sameWith objects value v
      | _ => false
  | .map ps, b => match b with
      | .map qs => ps.length == qs.length && samePairs objects ps qs
      | _ => false
  | .set xs, b => match b with
      | .set ys => xs.length == ys.length && sameMembers objects xs ys
      | _ => false
  | .source i, b => match b with
      | .source j => i == j
      | _ => false
  | .object i, b => match b with
      | .object j => objects i j
      | _ => false
  | .bool x, b => match b.number? with
      | some y => sameNumber (.ofInt (if x then 1 else 0)) y
      | none => false
  | .int x, b => match b.number? with
      | some y => sameNumber (.ofInt x) y
      | none => false
  | .real x, b => match b.number? with
      | some y => sameNumber x y
      | none => false
termination_by structural v => v

def sameItems (objects : Nat → Nat → Bool) : List Value → List Value → Bool
  | [], ys => ys.isEmpty
  | x :: xs, ys => match ys with
      | y :: ys => sameWith objects x y && sameItems objects xs ys
      | [] => false
termination_by structural vs => vs

def samePairs (objects : Nat → Nat → Bool) : List (Value × Value) → List (Value × Value) → Bool
  | [], _ => true
  | (key, value) :: ps, qs =>
      (qs.any fun q => sameWith objects key q.1 && sameWith objects value q.2)
        && samePairs objects ps qs
termination_by structural vs => vs

def sameMembers (objects : Nat → Nat → Bool) : List Value → List Value → Bool
  | [], _ => true
  | x :: xs, ys => ys.any (sameWith objects x ·) && sameMembers objects xs ys
termination_by structural vs => vs

end

end Value

namespace ObjectGraph

/-- Two objects are the same, or instances of one model with the same fields; graphs of
instances in which no difference can be reached count as equal. -/
def sameObject (g : ObjectGraph) : (fuel : Nat) → Nat → Nat → Bool
  | 0, _, _ => true
  | fuel + 1, i, j =>
      i == j ||
        match g.object? i, g.object? j with
        | some a, some b =>
            a.isModel && b.isModel && a.cls == b.cls &&
              Value.sameItems (g.sameObject fuel) (a.fields.map (·.2)) (b.fields.map (·.2))
        | _, _ => false

end ObjectGraph

namespace Value

def same (g : ObjectGraph) (a b : Value) : Bool :=
  sameWith (g.sameObject g.reach) a b

def isNaN : Value → Bool
  | .real x => x.isNaN
  | _ => false

def eq (g : ObjectGraph) (a b : Value) : Bool :=
  !a.isNaN && same g a b

mutual

/-- Whether the value can be a key: no lists, maps, sets or model instances anywhere. -/
def isHashable (g : ObjectGraph) : Value → Bool
  | .list _ | .map _ | .set _ => false
  | .tuple items => areHashable g items
  | .entry key value => isHashable g key && isHashable g value
  | .object ref => ((g.object? ref).map (!·.isModel)).getD true
  | _ => true
termination_by structural v => v

def areHashable (g : ObjectGraph) : List Value → Bool
  | [] => true
  | v :: vs => isHashable g v && areHashable g vs
termination_by structural vs => vs

end

def isMember (g : ObjectGraph) (v : Value) (vs : List Value) : Bool :=
  vs.any (same g · v)

/-- The first of each class of equal values. -/
def distinct (g : ObjectGraph) (vs : List Value) : List Value :=
  vs.foldl (fun seen v => if isMember g v seen then seen else seen ++ [v]) []

/-- Adds a pair to a map; an equal key keeps its place and takes the new value. -/
def insertPair (g : ObjectGraph) (pairs : List (Value × Value)) (key value : Value) :
    List (Value × Value) :=
  if pairs.any fun pair => same g pair.1 key then
    pairs.map fun pair => if same g pair.1 key then (pair.1, value) else pair
  else pairs ++ [(key, value)]

def lookupPair (g : ObjectGraph) (pairs : List (Value × Value)) (key : Value) : Option Value :=
  (pairs.find? fun pair => same g pair.1 key).map (·.2)

mutual

/-- Whether two values are one object.  Objects and one-shot sources have an identity of their own.
Every other value is taken for the same if it is written alike; nothing tells apart two that are, as
lists of the same items that were made one after the other.  Instances of models are objects, so that
this is of no account where the models of a run are instances. -/
def identical : Value → Value → Bool
  | .null, .null => true
  | .bool a, .bool b => a == b
  | .int a, .int b => a == b
  | .real a, .real b => a == b
  | .str a, .str b => a == b
  | .list xs, .list ys => areIdentical xs ys
  | .tuple xs, .tuple ys => areIdentical xs ys
  | .entry k v, .entry k' v' => identical k k' && identical v v'
  | .map ps, .map qs => arePairsIdentical ps qs
  | .set xs, .set ys => areIdentical xs ys
  | .source i, .source j => i == j
  | .object i, .object j => i == j
  | _, _ => false
termination_by structural v => v

def areIdentical : List Value → List Value → Bool
  | [], [] => true
  | x :: xs, y :: ys => identical x y && areIdentical xs ys
  | _, _ => false
termination_by structural vs => vs

def arePairsIdentical : List (Value × Value) → List (Value × Value) → Bool
  | [], [] => true
  | (k, v) :: ps, (k', v') :: qs => identical k k' && identical v v' && arePairsIdentical ps qs
  | _, _ => false
termination_by structural vs => vs

end

end Value

end PathRules
