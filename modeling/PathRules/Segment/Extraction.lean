import PathRules.Segment.Basic
import PathRules.Value.Access

/-!
# Extraction

`Segment.get` takes the part of a value that a segment leads to: an attribute, the answer of a
method, the entry of a key or the item at a position, or what a function makes of the value.

This is `get` of each kind of `PathDescriptor`.
-/

namespace PathRules

namespace Extract

def attributes (dotted : String) : Extract := fun v => do
  Check.ofExcept (v.followAttributes (← read) dotted)

def method (name : String) : Extract := fun v => do
  Check.ofExcept (v.callMethod (← read) name)

def item (key : Value) : Extract := fun v => do
  Check.ofExcept (v.item (← read) key)

def itself : Extract := pure

def nothing : Extract := fun _ => pure .null

end Extract

namespace Segment

def ofName (name : String) : Segment := .property name (Extract.attributes name)

def ofMethod (name : String) : Segment := .call name (Extract.method name)

/-- A step that stays in place and records the type a value is treated as. -/
def ofType (typeName : String) : Segment :=
  .custom (.str ("as " ++ typeName)) ("as " ++ typeName) Extract.itself

def get (s : Segment) (v : Value) : Check Value :=
  match s with
  | .this => pure v
  | .property _ extract => extract v
  | .call _ extract => extract v
  | .custom _ _ extract => extract v
  | .entry key _ => do
      if ← v.contains key then
        let value ← Check.ofExcept (v.item (← read) key)
        pure (.entry key value)
      else throw (.noMapping (key.quoted (← read)))
  | .index position _ => do v.elementAt position (position.shown (← read))

end Segment

end PathRules
