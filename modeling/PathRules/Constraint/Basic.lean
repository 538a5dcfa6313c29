import PathRules.Store
import PathRules.Text.Lines
import PathRules.Value.Text

/-!
# Constraints

A constraint is a check with a message template and a severity.  In the template `{value}`
stands for the checked value and `{0}`, `{1}`, … for the template values; they are replaced
one after the other in the whole message.

This is `Constraint`, with `render`, `with_hint` and `as_warning`.
-/

namespace PathRules

/-- A check on a value, which may read and change what the run shares. -/
abbrev Test := Value → Check Bool

structure Constraint where
  hint : String
  templates : List String := []
  test : Test
  isError : Bool := true

namespace Constraint

def fillFrom (index : Nat) : List String → String → String
  | [], message => message
  | text :: texts, message =>
      fillFrom (index + 1) texts
        (Text.replaceAll ("\x7b" ++ toString index ++ "\x7d") text message)

/-- The message for a value shown as `shown`. -/
def fill (c : Constraint) (shown : String) : String :=
  fillFrom 0 c.templates (Text.replaceAll "\x7bvalue\x7d" shown c.hint)

/-- The message for a value. -/
def render (c : Constraint) (v : Value) : Check String := do
  match v.shown? (← read) with
  | some shown => pure (c.fill shown)
  | none => throw .endless

def withHint (c : Constraint) (hint : String) : Constraint := { c with hint }

def asWarning (c : Constraint) : Constraint := { c with isError := false }

end Constraint

end PathRules
