import PathRules.Constraint.Basic
import PathRules.Outcome.Node
import PathRules.Segment.Extraction

/-!
# Validations

A validation is a tree of rules: checks and further validations of one value, steps to a
part of it that may be guarded by conditions, validations of elements, hand-written
scripts, and the rules that a registry holds for a model.

A group is an `ObjectValidation`, a step a `PathValidation` whose path may be a `ConditionalPath`,
`elements` an `_ElementsValidation` and `model` a `ModelValidation`.
-/

namespace PathRules

/-- What a step does about a part that is null. -/
inductive Presence
  /-- Validates it like any other. -/
  | undefined
  /-- Accepts it. -/
  | optional
  /-- Rejects it. -/
  | required
deriving DecidableEq, Repr

/-- Which elements are validated; an empty selection stands for all. -/
inductive Elements
  | iterated (indices : List Value)
  | positions (indices : List Value)
  | entries (keys : List Value)

inductive EventType
  | started
  | completed
  | errorAdded
  | warningAdded
  | pathSkipped
deriving DecidableEq, Repr

namespace EventType

def name : EventType → String
  | .started => "VALIDATION_STARTED"
  | .completed => "VALIDATION_COMPLETED"
  | .errorAdded => "ERROR_ADDED"
  | .warningAdded => "WARNING_ADDED"
  | .pathSkipped => "PATH_SKIPPED"

end EventType

/-- One action of a hand-written validation on the run. -/
inductive Action
  /-- Opens a group; a group that is not attached has no parent. -/
  | openGroup (sign : Sign) (attached : Bool)
  | openPath (via : Via)
  | record (severity : Severity) (message : String)
  | discard
  | attach
  | close (valid keepWarnings : Bool)
  | note (tag : Value)
  | put (key : String) (value : Value)
  | lookup (key : String)
  | lookupD (key : String) (fallback : Value)
  | erase (key : String)
  | setDefault (key : String) (value : Value)
  | update (entries : List (String × Value))
  | takeFirst
  | clear
  | has (key : String)
  | count
  | entries
  | emit (type : EventType) (data : List (String × Value))
  | describe
  | finish
  | outcome
  /-- Makes a separate context for a condition. -/
  | derive

mutual

inductive Validation
  | object (constraints : List Constraint) (subs : List Validation) (anyOf shortCircuit : Bool)
  /-- Guards are tried from the outermost on. -/
  | step (presence : Presence) (guards : List Guard) (target : Segment) (inner : Validation)
  | elements (kind : Elements) (inner : Validation)
  /-- Answers with `answer`, or without one with the reply to the last step. -/
  | script (steps : List Step) (answer : Option Value)
  | model (registry cls : String)

/-- A condition on the value a step starts from; the number tells guards apart. -/
inductive Guard
  | mk (number : Nat) (condition : Validation)

inductive Step
  | act (action : Action)
  | evaluate (validation : Validation)
  /-- A step that could not be declared. -/
  | fail (fault : Fault)

end

instance : Inhabited Validation := ⟨.object [] [] false false⟩

namespace Guard

def number : Guard → Nat
  | .mk number _ => number

def condition : Guard → Validation
  | .mk _ condition => condition

end Guard

/-- A segment behind guards, the outermost first. -/
structure Path where
  guards : List Guard := []
  target : Segment

namespace Path

def numbers (path : Path) : List Nat := path.guards.map (·.number)

def via (path : Path) : Via := ⟨path.target, path.numbers⟩

def name (path : Path) : String := path.target.name

/-- Whether the path stays in place and is not guarded. -/
def isThis (path : Path) : Bool := path.target.isThis && path.guards.isEmpty

def quoted (path : Path) : String :=
  path.guards.foldl (fun text _ => "ConditionalPath(" ++ text ++ ")") path.target.quoted

/-- Paths are equal if their segments are and they stand behind the same guards. -/
def eq (g : ObjectGraph) (a b : Path) : Bool :=
  a.numbers == b.numbers && a.target.eq g b.target

def sameKey (g : ObjectGraph) (a b : Path) : Bool :=
  a.numbers == b.numbers && a.target.sameKey g b.target

end Path

namespace Validation

def guarded (presence : Presence) (path : Path) (inner : Validation) : Validation :=
  .step presence path.guards path.target inner

/-- The one class that all hand-written validations are instances of.  Events tell it. -/
def handwrittenClass : String := "Prog"

def className : Validation → String
  | .object .. => "ObjectValidation"
  | .step .undefined .. => "UndefinedPathValidation"
  | .step .optional .. => "OptionalPathValidation"
  | .step .required .. => "RequiredPathValidation"
  | .elements (.iterated _) _ => "IterableValidation"
  | .elements (.positions _) _ => "ArrayValidation"
  | .elements (.entries _) _ => "MapValidation"
  | .script .. => handwrittenClass
  | .model .. => "ModelValidation"

private def truth (b : Bool) : String := if b then "True" else "False"

def describe : Validation → String
  | .object constraints subs anyOf shortCircuit =>
      "ObjectValidation(constraints=" ++ toString constraints.length
        ++ ", sub_validations=" ++ toString subs.length
        ++ ", combine_with_or=" ++ truth anyOf
        ++ ", short_circuit=" ++ truth shortCircuit ++ ")"
  | .step presence guards target inner =>
      (Validation.step presence guards target inner).className
        ++ "(path=" ++ (Path.mk guards target).quoted
        ++ ", validation=" ++ inner.describe ++ ")"
  | .elements kind inner => (Validation.elements kind inner).className ++ "()"
  | .script .. => "Prog()"
  | .model _ cls => "ModelValidation(" ++ cls ++ ")"

end Validation

end PathRules
