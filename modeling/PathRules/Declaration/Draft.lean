import PathRules.Validation.Basic

/-!
# Drafts

A draft collects the rules for one value: constraints, drafts for its parts, and complete
validations.  Parts declared under the same key share one draft.  `Draft.after` is the draft
after one more declaration, and `Draft.build` turns the rules into a validation.

A draft is a `ValidationBuilder` and a key a `PropKey`: `nested` is `_nested`, `wrap` is
`PropKey.build` and `build` is `ValidationBuilder.build`.
-/

namespace PathRules

/-- What a step validates: the part itself, or its elements. -/
inductive StepKind
  | single
  | iterable
  | array
  | map
deriving DecidableEq, Repr

/-- What tells the steps of a draft apart. -/
structure StepKey where
  path : Path
  presence : Presence := .undefined
  kind : StepKind := .single
  /-- The indices or keys that element validation is restricted to. -/
  selection : List Value := []

namespace StepKey

def same (g : ObjectGraph) (a b : StepKey) : Bool :=
  a.path.sameKey g b.path && a.presence == b.presence && a.kind == b.kind
    && Value.sameItems (g.sameObject g.reach) a.selection b.selection

/-- Equality of keys, which is weaker than being one key. -/
def eq (g : ObjectGraph) (a b : StepKey) : Bool :=
  a.path.eq g b.path && a.presence == b.presence && a.kind == b.kind
    && Value.sameItems (g.sameObject g.reach) a.selection b.selection

def addToGroup (g : ObjectGraph) (key : StepKey) (position : Nat) :
    List (StepKey × List Nat) → List (StepKey × List Nat)
  | [] => [(key, [position])]
  | (k, positions) :: rest =>
      if k.same g key then (k, positions ++ [position]) :: rest
      else (k, positions) :: addToGroup g key position rest

/-- The positions at which each key stands, keys in order of first occurrence. -/
def grouped (g : ObjectGraph) (keys : List StepKey) : List (StepKey × List Nat) :=
  keys.zipIdx.foldl (fun groups (key, position) => addToGroup g key position groups) []

/-- The step that validates a part with `inner`. -/
def wrap (key : StepKey) (inner : Validation) : Validation :=
  .guarded key.presence key.path (match key.kind with
    | .single => inner
    | .iterable => .elements (.iterated key.selection) inner
    | .array => .elements (.positions key.selection) inner
    | .map => .elements (.entries key.selection) inner)

end StepKey

/-- A constraint of a draft; the number is its identity. -/
structure Registered where
  number : Nat
  constraint : Constraint

structure Draft where
  anyOf : Bool
  shortCircuit : Bool
  constraints : List Registered := []
  /-- One draft per key, in order of first use. -/
  nested : List (StepKey × Draft) := []
  prebuilt : List Validation := []

namespace Draft

/-- An empty draft; one of which any check may pass stops at the first that does. -/
def empty (anyOf : Bool) : Draft := { anyOf, shortCircuit := anyOf }

instance : Inhabited Draft := ⟨empty false⟩

mutual

def build : Draft → Validation
  | ⟨anyOf, shortCircuit, constraints, nested, prebuilt⟩ =>
      .object (constraints.map (·.constraint)) (buildNested nested ++ prebuilt) anyOf shortCircuit
termination_by structural draft => draft

def buildNested : List (StepKey × Draft) → List Validation
  | [] => []
  | (key, draft) :: rest => key.wrap (build draft) :: buildNested rest
termination_by structural nested => nested

end

/-- The position of the draft for a key. -/
def find? (g : ObjectGraph) (key : StepKey) (draft : Draft) : Option Nat :=
  draft.nested.findIdx? fun entry => entry.1.same g key

def addConstraint (draft : Draft) (r : Registered) : Draft :=
  { draft with constraints := draft.constraints ++ [r] }

def addNested (draft : Draft) (key : StepKey) : Draft :=
  { draft with nested := draft.nested ++ [(key, empty draft.anyOf)] }

def addPrebuilt (draft : Draft) (v : Validation) : Draft :=
  { draft with prebuilt := draft.prebuilt ++ [v] }

/-- Puts `new` in the place of the constraint with the given number, if the draft has it. -/
def replace? (draft : Draft) (number : Nat) (new : Registered) : Option Draft :=
  if draft.constraints.any (·.number == number) then
    some { draft with
      constraints := draft.constraints.map fun r => if r.number == number then new else r }
  else none

/-- One declaration on a draft. -/
inductive Deed
  | constraint (r : Registered)
  /-- The constraint with a number gave its place to another. -/
  | replacement (number : Nat) (new : Registered)
  /-- A step to a part, and the position of the draft for the part. -/
  | step (key : StepKey) (position : Nat)
  | validation (v : Validation)
  /-- A group that was declared on a draft of its own, the separate draft `root`, and built. -/
  | group (root : Nat) (anyOf shortCircuit : Bool) (v : Validation)
  | shortCircuit (on : Bool)

/-- The draft after a declaration on it. -/
def after (g : ObjectGraph) (deed : Deed) (draft : Draft) : Draft :=
  match deed with
  | .constraint r => draft.addConstraint r
  | .replacement number new => (draft.replace? number new).getD draft
  | .step key _ => if (draft.find? g key).isSome then draft else draft.addNested key
  | .validation v => draft.addPrebuilt v
  | .group _ _ _ v => draft.addPrebuilt v
  | .shortCircuit on => { draft with shortCircuit := on }

/-- The draft reached by following positions of nested drafts. -/
def at? : List Nat → Draft → Option Draft
  | [], draft => some draft
  | position :: rest, draft =>
      match draft.nested[position]? with
      | some (_, child) => at? rest child
      | none => none

def modifyAt : List Nat → (Draft → Draft) → Draft → Draft
  | [], f, draft => f draft
  | position :: rest, f, draft =>
      { draft with
        nested := draft.nested.modify position fun (key, child) => (key, modifyAt rest f child) }

private def truth (b : Bool) : String := if b then "True" else "False"

def describe (draft : Draft) : String :=
  (if draft.anyOf then "OrValidationBuilder" else "AndValidationBuilder")
    ++ "(constraints=" ++ toString draft.constraints.length
    ++ ", nested=" ++ toString draft.nested.length
    ++ ", prebuilt=" ++ toString draft.prebuilt.length
    ++ ", short_circuit=" ++ truth draft.shortCircuit ++ ")"

end Draft

end PathRules
