import PathRules.Fault
import PathRules.Value.Equality

/-!
# Order of values

Numbers are ordered by value, texts by code points, lists and tuples by their first
difference, sets by inclusion.  Other pairs have no order.
-/

namespace PathRules

inductive Comparison
  | less
  | atMost
  | greater
  | atLeast
deriving DecidableEq, Repr

namespace Comparison

def holds : Comparison → Ordering → Bool
  | .less, order => order == .lt
  | .atMost, order => order != .gt
  | .greater, order => order == .gt
  | .atLeast, order => order != .lt

/-- With a value that is not a number no comparison holds. -/
def ofNumbers (comparison : Comparison) (x y : Number) : Bool :=
  match x.compare? y with
  | some order => comparison.holds order
  | none => false

def ofTexts (comparison : Comparison) (s t : String) : Bool :=
  comparison.holds (if s < t then .lt else if t < s then .gt else .eq)

def ofSets (g : ObjectGraph) (comparison : Comparison) (xs ys : List Value) : Bool :=
  let within := xs.all (Value.isMember g · ys)
  let contains := ys.all (Value.isMember g · xs)
  match comparison with
  | .less => within && !contains
  | .atMost => within
  | .greater => contains && !within
  | .atLeast => contains

end Comparison

namespace Value

mutual

def compareWith (g : ObjectGraph) (comparison : Comparison) : Value → Value → Except Fault Bool
  | .str s, b => match b with
      | .str t => .ok (comparison.ofTexts s t)
      | _ => .error .wrongType
  | .list xs, b => match b with
      | .list ys => compareItems g comparison xs ys
      | _ => .error .wrongType
  | .tuple xs, b => match b.tupleItems? with
      | some ys => compareItems g comparison xs ys
      | none => .error .wrongType
  | .entry key value, b => match b.tupleItems? with
      | some [] => .ok (comparison.holds .gt)
      | some (k :: rest) =>
          if !same g key k then compareWith g comparison key k
          else
            match rest with
            | [] => .ok (comparison.holds .gt)
            | v :: rest =>
                if !same g value v then compareWith g comparison value v
                else .ok (comparison.holds (if rest.isEmpty then .eq else .lt))
      | none => .error .wrongType
  | .set xs, b => match b with
      | .set ys => .ok (comparison.ofSets g xs ys)
      | _ => .error .wrongType
  | .bool x, b => match b.number? with
      | some y => .ok (comparison.ofNumbers (.ofInt (if x then 1 else 0)) y)
      | none => .error .wrongType
  | .int x, b => match b.number? with
      | some y => .ok (comparison.ofNumbers (.ofInt x) y)
      | none => .error .wrongType
  | .real x, b => match b.number? with
      | some y => .ok (comparison.ofNumbers x y)
      | none => .error .wrongType
  | .null, _ | .map _, _ | .source _, _ | .object _, _ => .error .wrongType
termination_by structural v => v

/-- The first items that differ decide; without any, the lengths do. -/
def compareItems (g : ObjectGraph) (comparison : Comparison) :
    List Value → List Value → Except Fault Bool
  | [], ys => .ok (comparison.holds (if ys.isEmpty then .eq else .lt))
  | x :: xs, ys => match ys with
      | [] => .ok (comparison.holds .gt)
      | y :: ys =>
          if same g x y then compareItems g comparison xs ys
          else compareWith g comparison x y
termination_by structural vs => vs

end

/-- Sorts by the order of values; none if two of them have no order. -/
def sorted? (g : ObjectGraph) (vs : List Value) : Option (List Value) :=
  vs.foldrM (fun v done => insert v done) []
where
  insert (v : Value) : List Value → Option (List Value)
    | [] => some [v]
    | w :: ws =>
        match compareWith g .less w v with
        | .ok true => (insert v ws).map (w :: ·)
        | .ok false => some (v :: w :: ws)
        | .error _ => none

end Value

end PathRules
