import PathRules.Declaration.Rule
import PathRules.Model.Registry

/-!
# The workshop

While rules are performed the workshop holds all drafts, the names given to constraints,
drafts, paths and validations, and the rulebook.  What was done before a fault stays done.

A draft does not tell in which order it was declared on.  Whoever has to know performs the rules in
a workshop that notes every declaration in a log; others perform them in one that notes nothing.

`register` is `add_constraint`, `replace` is `_replace` and `enter` is the first half of
`_navigate`, which finds a builder or makes it.
-/

namespace PathRules

/-- Where a draft is: which of the separate drafts it is part of, and the positions of the
nested drafts that lead to it. -/
structure Address where
  root : Nat
  positions : List Nat := []
deriving DecidableEq, Repr

/-- A validation with a number that is its identity. -/
structure Numbered where
  number : Nat
  validation : Validation

instance : Inhabited Numbered := ⟨⟨0, default⟩⟩

/-- How a log takes note of declarations. -/
class Journal (Log : Type) where
  blank : Log
  note : Log → Address → Draft.Deed → Log

/-- Nothing is noted. -/
@[default_instance] instance : Journal Unit := ⟨(), fun _ _ _ => ()⟩

structure Workshop (Log : Type := Unit) where
  drafts : List Draft := []
  constraints : List (String × Registered) := []
  addresses : List (String × Address) := []
  paths : List (String × Path) := []
  validations : List (String × Numbered) := []
  rulebook : Rulebook := {}
  /-- What was noted of the declarations. -/
  deeds : Log := by exact Journal.blank
  /-- The next number for a constraint or a validation. -/
  next : Nat := 0

/-- Declarations in a workshop with a log. -/
abbrev Declaring (Log α : Type) := ReaderT ObjectGraph (ExceptT Fault (StateM (Workshop Log))) α

/-- Declarations of which nothing is noted. -/
abbrev Declare (α : Type) := Declaring Unit α

namespace Declaring

variable {Log α : Type}

def runOn (m : Declaring Log α) (g : ObjectGraph) (shop : Workshop Log) :
    Except Fault α × Workshop Log :=
  (m.run g).run.run shop

def ofExcept (outcome : Except Fault α) : Declaring Log α :=
  match outcome with
  | .ok a => pure a
  | .error fault => throw fault

/-- The outcome of a declaration whose fault is not passed on. -/
def attempt (m : Declaring Log α) : Declaring Log (Except Fault α) := fun g =>
  ExceptT.mk fun shop =>
    let (result, shop) := m.runOn g shop
    (.ok result, shop)

def fresh : Declaring Log Nat := do
  let shop ← get
  set { shop with next := shop.next + 1 }
  pure shop.next

/-- A separate draft. -/
def addDraft (draft : Draft) : Declaring Log Address := do
  let shop ← get
  set { shop with drafts := shop.drafts ++ [draft] }
  pure { root := shop.drafts.length }

def draftAt (address : Address) : Declaring Log Draft := do
  match (← get).drafts[address.root]? with
  | some draft => pure ((draft.at? address.positions).getD default)
  | none => pure default

/-- Makes a declaration on a draft. -/
def declare [Journal Log] (address : Address) (deed : Draft.Deed) : Declaring Log Unit := do
  let g ← read
  modify fun shop =>
    { shop with
      drafts := shop.drafts.modify address.root (Draft.modifyAt address.positions (·.after g deed))
      deeds := Journal.note shop.deeds address deed }

def bindName (names : List (String × α)) (name : String) (a : α) : List (String × α) :=
  (name, a) :: names

def nameConstraint (name : Option String) (r : Registered) : Declaring Log Unit :=
  match name with
  | some name =>
      modify fun shop => { shop with constraints := bindName shop.constraints name r }
  | none => pure ()

def nameAddress (name : String) (address : Address) : Declaring Log Unit :=
  modify fun shop => { shop with addresses := bindName shop.addresses name address }

def namePath (name : String) (path : Path) : Declaring Log Unit :=
  modify fun shop => { shop with paths := bindName shop.paths name path }

def nameValidation (name : String) (v : Numbered) : Declaring Log Unit :=
  modify fun shop => { shop with validations := bindName shop.validations name v }

/-- What a name was given to. -/
def found (entry : Option α) : Declaring Log α :=
  match entry with
  | some a => pure a
  | none => throw .missingKey

def constraintNamed (name : String) : Declaring Log Registered := do
  found ((← get).constraints.lookup name)

def addressNamed (name : String) : Declaring Log Address := do
  found ((← get).addresses.lookup name)

def pathNamed (name : String) : Declaring Log Path := do
  found ((← get).paths.lookup name)

def validationNamed (name : String) : Declaring Log Numbered := do
  found ((← get).validations.lookup name)

/-- Adds a constraint to a draft. -/
def register [Journal Log] (address : Address) (c : Constraint) : Declaring Log Registered := do
  let r : Registered := ⟨← fresh, c⟩
  declare address (.constraint r)
  pure r

/-- Replaces a constraint of a draft by a changed copy with an identity of its own. -/
def replace [Journal Log] (address : Address) (r : Registered) (c : Constraint) :
    Declaring Log Registered := do
  let new : Registered := ⟨← fresh, c⟩
  match (← draftAt address).replace? r.number new with
  | some _ =>
      declare address (.replacement r.number new)
      pure new
  | none => throw .foreignConstraint

/-- The draft under a key, which is added if it is missing. -/
def enter [Journal Log] (address : Address) (key : StepKey) : Declaring Log Address := do
  let g ← read
  if !Value.areHashable g key.selection then throw .wrongType
  else
    let draft ← draftAt address
    let position := (draft.find? g key).getD draft.nested.length
    declare address (.step key position)
    pure { address with positions := address.positions ++ [position] }

/-- Adds a validation to a draft. -/
def addValidation [Journal Log] (address : Address) (v : Validation) : Declaring Log Unit :=
  declare address (.validation v)

def build (address : Address) : Declaring Log Validation := do
  pure (← draftAt address).build

/-- The rules of a model, compiled now if they are not. -/
def ofModel (registry cls : String) : Declaring Log Validation := do
  let g ← read
  modify fun shop => { shop with rulebook := (shop.rulebook.compiled g registry cls).2 }
  pure (.model registry cls)

end Declaring

namespace Declare

export Declaring (addDraft draftAt addressNamed build namePath nameValidation validationNamed)

end Declare

end PathRules
