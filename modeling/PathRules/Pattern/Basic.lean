import PathRules.Text.Case
import PathRules.Text.Digit
import PathRules.Text.Word

/-!
# Patterns

A pattern is a regular expression over characters of every script.  Only whether it
matches a whole text matters, so repetitions carry no preference for long or short
matches.

Patterns are what `ConstraintCatalog.pattern` matches whole texts with.
-/

namespace PathRules

namespace Pattern

inductive Category
  | digit
  | word
  | blank
deriving DecidableEq, Repr

def Category.has : Category → Char → Bool
  | .digit => Text.isDigit
  | .word => Text.isWord
  | .blank => Text.isBlank

inductive Item
  | between (first last : Char)
  | category (negated : Bool) (kind : Category)
deriving DecidableEq, Repr

def Item.has : Item → Char → Bool
  | .between first last, c => first ≤ c && c ≤ last
  | .category negated kind, c => kind.has c != negated

structure Options where
  /-- Letters match in any case. -/
  ignoreCase : Bool := false
  /-- The dot matches a line feed too. -/
  dotAll : Bool := false
deriving DecidableEq, Repr

end Pattern

inductive Pattern
  | empty
  | dot
  | one (negated : Bool) (items : List Pattern.Item)
  /-- The start of the text. -/
  | start
  /-- The end of the text, or the place before a line feed that ends it. -/
  | stop
  /-- The end of the text only. -/
  | finish
  | boundary (negated : Bool)
  | seq (first second : Pattern)
  | alt (left right : Pattern)
  | repeated (body : Pattern) (least : Nat) (most : Option Nat)
deriving Repr

namespace Pattern

def accepts (options : Options) (items : List Item) (c : Char) : Bool :=
  if options.ignoreCase then (Text.letterForms c).any fun form => items.any (·.has form)
  else items.any (·.has c)

def isWordAt (text : Array Char) (position : Nat) : Bool :=
  match text[position]? with
  | some c => Text.isWord c
  | none => false

def atBoundary (text : Array Char) (position : Nat) : Bool :=
  (position != 0 && isWordAt text (position - 1)) != isWordAt text position

private def advance (text : Array Char) (test : Char → Bool) (position : Nat) : Option Nat :=
  match text[position]? with
  | some c => if test c then some (position + 1) else none
  | none => none

/-- `seen` with the positions reached from `frontier` in at most `rounds` further steps. -/
def reachable (step : List Nat → List Nat) : (rounds : Nat) → (seen frontier : List Nat) → List Nat
  | 0, seen, _ => seen
  | rounds + 1, seen, frontier =>
      let fresh := (step frontier).filter (!seen.contains ·)
      if fresh.isEmpty then seen else reachable step rounds (seen ++ fresh) fresh

def iterate (step : List Nat → List Nat) : Nat → List Nat → List Nat
  | 0, positions => positions
  | count + 1, positions =>
      if positions.isEmpty then [] else iterate step count (step positions)

/-- The positions at which a match that begins at one of `positions` can end. -/
def ends (options : Options) (text : Array Char) : Pattern → List Nat → List Nat
  | .empty, positions => positions
  | .dot, positions => positions.filterMap (advance text fun c => options.dotAll || c != '\n')
  | .one negated items, positions =>
      positions.filterMap (advance text fun c => accepts options items c != negated)
  | .start, positions => positions.filter (· == 0)
  | .stop, positions =>
      positions.filter fun p =>
        p == text.size || (p + 1 == text.size && text[p]? == some '\n')
  | .finish, positions => positions.filter (· == text.size)
  | .boundary negated, positions => positions.filter (atBoundary text · != negated)
  | .seq first second, positions => ends options text second (ends options text first positions)
  | .alt left right, positions =>
      let found := ends options text left positions
      found ++ (ends options text right positions).filter (!found.contains ·)
  | .repeated body least most, positions =>
      let begun := iterate (fun ps => (ends options text body ps).eraseDups) least positions
      let rounds := match most with
        | some most => most - least
        | none => text.size + 1
      reachable (ends options text body) rounds begun begun

def matchesWhole (options : Options) (pattern : Pattern) (s : String) : Bool :=
  let text := s.toList.toArray
  (ends options text pattern [0]).contains text.size

end Pattern

end PathRules
