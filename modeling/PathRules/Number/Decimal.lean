import PathRules.Number.Basic
import PathRules.Text.Digit

/-!
# Decimal notation of numbers

`Number.text` writes a binary64 with the fewest digits that read back, positionally
from `10 ^ -4` up to `10 ^ 16` and with an exponent outside; `Number.ofText?` reads
decimal notation, rounding to the nearest binary64.
-/

namespace PathRules

/-- `digits · 10 ^ scale`. -/
structure Decimal where
  digits : Nat
  scale : Int
deriving DecidableEq, Repr

namespace Decimal

def toNumber (negative : Bool) (d : Decimal) : Number :=
  Number.ofRatio negative (d.digits * tenTo d.scale) (tenTo (-d.scale))

def digitCount (n : Nat) : Nat := (Nat.toDigits 10 n).length

/-- The decimal exponent of the leading digit of `num / den`. -/
def leading (num den : Nat) : Int :=
  let guess : Int := (digitCount num : Int) - digitCount den
  if num * tenTo (-guess) < den * tenTo guess then guess - 1 else guess

/-- Of the two neighbours of `num / den` among the multiples of `10 ^ scale`, the one
that rounds to `target`; of two such the nearer, and of two equally near the even one. -/
def neighbour? (target : Number) (num den : Nat) (scale : Int) : Option Decimal :=
  let scaledNum := num * tenTo (-scale)
  let scaledDen := den * tenTo scale
  let below : Decimal := ⟨scaledNum / scaledDen, scale⟩
  let above : Decimal := ⟨scaledNum / scaledDen + 1, scale⟩
  let nearer := if Number.roundDiv scaledNum scaledDen == below.digits then below else above
  let farther := if nearer == below then above else below
  if nearer.toNumber false == target then some nearer
  else if farther.toNumber false == target then some farther
  else none

def trimmed : Nat → Decimal → Decimal
  | 0, d => d
  | fuel + 1, d =>
      if d.digits != 0 && d.digits % 10 == 0 then trimmed fuel ⟨d.digits / 10, d.scale + 1⟩ else d

/-- The first grid, from one digit on, that has a neighbour of `num / den` reading back
as `target`. -/
def firstGrid (target : Number) (num den : Nat) (lead : Int) : (more digits : Nat) → Decimal
  | 0, digits => ⟨num * tenTo (digits - lead) / (den * tenTo (lead - digits)), lead - digits⟩
  | more + 1, digits =>
      match neighbour? target num den (lead - digits) with
      | some d => d
      | none => firstGrid target num den lead more (digits + 1)

/-- The decimal with the fewest digits that reads back as `mantissa · 2 ^ exponent`,
a positive binary64; seventeen digits always do. -/
def shortest (mantissa : Nat) (exponent : Int) : Decimal :=
  let num := mantissa * twoTo exponent
  let den := twoTo (-exponent)
  trimmed 20 (firstGrid (Number.ofRatio false num den) num den (leading num den) 17 0)

def zeros (count : Nat) : String := String.ofList (List.replicate count '0')

/-- An exponent has a sign and at least two digits. -/
def exponentText (exponent : Int) : String :=
  let magnitude := toString exponent.natAbs
  (if exponent < 0 then "e-" else "e+") ++ zeros (2 - magnitude.length) ++ magnitude

/-- A decimal whose leading digit stands at `10 ^ -4` to `10 ^ 15` is written
positionally, any other with an exponent. -/
def text (d : Decimal) : String :=
  let digits := Nat.toDigits 10 d.digits
  let point : Int := d.scale + digits.length
  if -3 ≤ point ∧ point ≤ 16 then
    if point ≤ 0 then "0." ++ zeros (-point).toNat ++ String.ofList digits
    else if 0 ≤ d.scale then String.ofList digits ++ zeros d.scale.toNat ++ ".0"
    else String.ofList (digits.take point.toNat) ++ "." ++ String.ofList (digits.drop point.toNat)
  else
    let rest := digits.drop 1
    String.ofList (digits.take 1) ++ (if rest.isEmpty then "" else "." ++ String.ofList rest)
      ++ exponentText (point - 1)

end Decimal

namespace Number

def text : Number → String
  | .nan _ => "nan"
  | .infinite negative => if negative then "-inf" else "inf"
  | .finite negative mantissa exponent =>
      (if negative then "-" else "") ++
        if mantissa == 0 then "0.0" else (Decimal.shortest mantissa exponent).text

private def isDigit (c : Char) : Bool := '0' ≤ c && c ≤ '9'

private def digitsValue (cs : List Char) : Nat :=
  cs.foldl (fun n c => 10 * n + (c.toNat - '0'.toNat)) 0

/-- The text without its underscores, each of which must stand between two digits. -/
private def withoutUnderscores : Option Char → List Char → Option (List Char)
  | _, [] => some []
  | before, '_' :: rest =>
      match before, rest with
      | some b, a :: _ =>
          if isDigit b && isDigit a then withoutUnderscores none rest else none
      | _, _ => none
  | _, c :: rest => (withoutUnderscores (some c) rest).map (c :: ·)

private def exponentValue? : List Char → Option Int
  | [] => some 0
  | e :: rest =>
      if e == 'e' || e == 'E' then
        let (negative, digits) :=
          match rest with
          | '-' :: ds => (true, ds)
          | '+' :: ds => (false, ds)
          | ds => (false, ds)
        if digits.isEmpty || !digits.all isDigit then none
        else some (signed negative (digitsValue digits))
      else none

/-- The decimal `digits · 10 ^ scale`; a scale far beyond the range of binary64 needs no
large power. -/
private def ofDecimal (negative : Bool) (digits : Nat) (scale : Int) : Number :=
  let size : Int := Decimal.digitCount digits + scale
  if digits == 0 || size < -400 then .finite negative 0 0
  else if 400 < size then .infinite negative
  else Decimal.toNumber negative ⟨digits, scale⟩

private def ofUnsigned? (negative : Bool) (cs : List Char) : Option Number :=
  let whole := cs.takeWhile isDigit
  let afterWhole := cs.dropWhile isDigit
  let (fraction, tail) :=
    match afterWhole with
    | '.' :: rest => (rest.takeWhile isDigit, rest.dropWhile isDigit)
    | rest => ([], rest)
  if whole.isEmpty && fraction.isEmpty then none
  else
    (exponentValue? tail).map fun exponent =>
      ofDecimal negative (digitsValue (whole ++ fraction)) (exponent - fraction.length)

private def withoutBlanks (cs : List Char) : List Char :=
  ((cs.dropWhile Text.isBlank).reverse.dropWhile Text.isBlank).reverse

/-- Reads decimal notation, `inf`, `infinity` and `nan` in any case, with an optional sign
and with blanks around it; `tag` is the tag of a number that is none. -/
def ofText? (tag : Nat) (s : String) : Option Number :=
  let (negative, body) :=
    match withoutBlanks s.toList with
    | '-' :: cs => (true, cs)
    | '+' :: cs => (false, cs)
    | cs => (false, cs)
  let lower := String.ofList (body.map Char.toLower)
  if lower == "inf" || lower == "infinity" then some (.infinite negative)
  else if lower == "nan" then some (.nan tag)
  else (withoutUnderscores none body).bind (ofUnsigned? negative)

end Number

end PathRules
