/-!
# Numbers

A number is a signed dyadic `mantissa · 2 ^ exponent`, an infinity, or one of many
objects that are "not a number".  Integers embed exactly (`Number.ofInt`), and
`Number.ofRatio` rounds a ratio to the nearest binary64, ties to the even mantissa,
so both kinds are compared exactly with one function.
-/

namespace PathRules

inductive Number
  | finite (negative : Bool) (mantissa : Nat) (exponent : Int)
  | infinite (negative : Bool)
  /-- Not a number; the tag tells such objects apart. -/
  | nan (tag : Nat)
deriving DecidableEq, Repr

/-- `2 ^ k`, and one for a negative `k`. -/
def twoTo (k : Int) : Nat := Nat.pow 2 k.toNat

/-- `10 ^ k`, and one for a negative `k`. -/
def tenTo (k : Int) : Nat := Nat.pow 10 k.toNat

namespace Number

def signed (negative : Bool) (magnitude : Nat) : Int :=
  if negative then -(magnitude : Int) else magnitude

def ofInt (n : Int) : Number :=
  .finite (decide (n < 0)) n.natAbs 0

def isNaN : Number → Bool
  | .nan _ => true
  | _ => false

def isZero : Number → Bool
  | .finite _ mantissa _ => mantissa == 0
  | _ => false

/-- The order of two numbers; none if either is not a number. -/
def compare? : Number → Number → Option Ordering
  | .nan _, _ => none
  | _, .nan _ => none
  | .infinite a, .infinite b =>
      some (if a == b then .eq else if a then .lt else .gt)
  | .infinite a, .finite .. => some (if a then .lt else .gt)
  | .finite .., .infinite b => some (if b then .gt else .lt)
  | .finite a m e, .finite b n f =>
      some (compare (signed a (m * twoTo (e - f))) (signed b (n * twoTo (f - e))))

def neg : Number → Number
  | .finite negative mantissa exponent => .finite (!negative) mantissa exponent
  | .infinite negative => .infinite (!negative)
  | .nan _ => .nan 0

/-- `num / den` rounded to an integer, a tie going to the even one. -/
def roundDiv (num den : Nat) : Nat :=
  let quotient := num / den
  let twice := 2 * (num % den)
  if twice < den then quotient
  else if den < twice then quotient + 1
  else quotient + quotient % 2

/-- `num / (den · 2 ^ exponent)`, rounded to an integer. -/
def roundScaled (num den : Nat) (exponent : Int) : Nat :=
  roundDiv (num * twoTo (-exponent)) (den * twoTo exponent)

/-- The exponent at which the mantissa of `num / den` has 53 bits. -/
def exponentOf (num den : Nat) : Int :=
  let guess : Int := (num.log2 : Int) - den.log2 - 52
  if num * twoTo (-guess) < den * twoTo guess * twoTo 52 then guess - 1 else guess

/-- The binary64 nearest to `num / den`, where `den` is positive. -/
def ofRatio (negative : Bool) (num den : Nat) : Number :=
  if num == 0 then .finite negative 0 0
  else
    let exponent := if exponentOf num den < -1074 then -1074 else exponentOf num den
    let mantissa := roundScaled num den exponent
    let (mantissa, exponent) :=
      if mantissa == twoTo 53 then (twoTo 52, exponent + 1) else (mantissa, exponent)
    if exponent > 971 then .infinite negative
    else if mantissa == 0 then .finite negative 0 0
    else .finite negative mantissa exponent

/-- The number plus one, rounded to a binary64. -/
def succ : Number → Number
  | .finite negative mantissa exponent =>
      let sum := signed negative (mantissa * twoTo exponent) + twoTo (-exponent)
      ofRatio (decide (sum < 0)) sum.natAbs (twoTo (-exponent))
  | .infinite negative => .infinite negative
  | .nan _ => .nan 0

/-- Whether the number is twice an integer. -/
def isEven : Number → Bool
  | .finite _ mantissa exponent =>
      mantissa * twoTo exponent % (2 * twoTo (-exponent)) == 0
  | _ => false

theorem compare?_nan_left (tag : Nat) (x : Number) : compare? (.nan tag) x = none := by
  cases x <;> rfl

theorem compare?_nan_right (tag : Nat) (x : Number) : compare? x (.nan tag) = none := by
  cases x <;> rfl

end Number

end PathRules
