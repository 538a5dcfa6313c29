import PathRules.Constraint.Call
import PathRules.Declaration.Draft

/-!
# Rules

Rules are declarations in the order in which they are made: constraints, steps to parts
with rules of their own, groups, complete validations and guards.  Specifications describe
paths and validations that are made while rules are performed.

The navigations are the methods of `ValidationBuilder` from `validate` to `on_keys`, and the groups
are `or_`, `and_`, `short_circuit`, `non_short_circuit`, `if_type` and `require_type` of its two
kinds.
-/

namespace PathRules

inductive Navigation
  | has
  | ifPresent
  | required
  | allInIterable
  | allIndicesInIterable
  | allInArray
  | allIndicesInArray
  | allInMap
  | allKeysInMap
  | onEach
  | onEachEntry
  | onIndices
  | onKeys
deriving DecidableEq, Repr

namespace Navigation

/-- Whether a selection of indices or keys may be given. -/
def takesSelection : Navigation → Bool
  | .allIndicesInIterable | .allIndicesInArray | .allKeysInMap | .onIndices | .onKeys => true
  | _ => false

/-- Whether the path may be left out, and stays in place then. -/
def pathIsOptional : Navigation → Bool
  | .ifPresent | .required => true
  | _ => false

/-- Whether the step always starts from the value itself. -/
def staysInPlace : Navigation → Bool
  | .onEach | .onEachEntry | .onIndices | .onKeys => true
  | _ => false

/-- The keys of the steps that a navigation declares. -/
def keys (g : ObjectGraph) (navigation : Navigation) (path : Path) (selection : List Value) :
    List StepKey :=
  let here : Path := { target := .this }
  match navigation with
  | .has => [{ path }]
  | .ifPresent => [{ path, presence := .optional }]
  | .required => [{ path, presence := .required }]
  | .allInIterable => [{ path, kind := .iterable }]
  | .allIndicesInIterable => [{ path, kind := .iterable, selection }]
  | .allInArray => [{ path, kind := .array }]
  | .allIndicesInArray => [{ path, kind := .array, selection }]
  | .allInMap => [{ path, kind := .map }]
  | .allKeysInMap => [{ path, kind := .map, selection }]
  | .onEach => [{ path := here, kind := .iterable }]
  | .onEachEntry => [{ path := here, kind := .map }]
  | .onIndices => selection.map fun index => { path := { target := .ofPosition g index } }
  | .onKeys => selection.map fun key => { path := { target := .ofKey g key } }

end Navigation

inductive Group
  | any
  | all
  | shortCircuit
  | nonShortCircuit
  | ifType (typeName : String)
  | requireType (typeName : String)
deriving DecidableEq, Repr

/-- A constraint made before, or one made now on the same draft. -/
inductive Handle
  | named (name : String)
  | fresh (call : Call) (name : Option String)

mutual

inductive PathSpec
  | segment (s : Segment)
  /-- An attribute name. -/
  | text (name : String)
  /-- A value that is no path. -/
  | raw (v : Value)
  | named (name : String)
  | guarded (inner : PathSpec) (condition : ValidationSpec)

inductive ValidationSpec
  | declared (anyOf : Bool) (rules : List Rule)
  | step (presence : Presence) (path : PathSpec) (inner : ValidationSpec)
  | elements (kind : Elements) (inner : ValidationSpec)
  | object (constraints : List Constraint) (subs : List ValidationSpec) (anyOf shortCircuit : Bool)
  | script (steps : List StepSpec) (answer : Option Value)
  | named (name : String)
  | model (registry cls : String)

inductive StepSpec
  | act (action : Action)
  | openPath (path : PathSpec)
  | evaluate (validation : ValidationSpec)

inductive Rule
  | constrain (call : Call) (name : Option String)
  /-- Makes a constraint that belongs to no draft. -/
  | detached (name : String) (constraint : Constraint)
  | hint (handle : Handle) (message : String) (name : Option String)
  | warn (handle : Handle) (name : Option String)
  /-- Declares steps, with rules for their parts if a body is given. -/
  | navigate (navigation : Navigation) (path : Option PathSpec) (selection : List Value)
      (hasBody : Bool) (body : List Rule) (names : List String)
  /-- Performs rules on the draft with a name. -/
  | on (name : String) (rules : List Rule)
  | group (kind : Group) (hasBody : Bool) (body : List Rule)
  | run (validation : ValidationSpec)
  /-- Names a path that is only followed if a condition accepts. -/
  | guard (name : String) (path : PathSpec) (condition : ValidationSpec)
  | thisPath
  /-- A rule that there is not. -/
  | unknown

end

instance : Inhabited ValidationSpec := ⟨.object [] [] false false⟩

end PathRules
