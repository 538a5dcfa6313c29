import PathRules.Proofs.Trace.Basic
import PathRules.Run.Validate

/-!
# Evaluation without a stack

`Validation.trace` evaluates a validation to a trace.  It knows the store that its checks
share, and nothing of open nodes, events or the compilation of rules: the rules of a model are
given as a function.  Hand-written scripts work on the stack itself and have no trace.
-/

namespace PathRules

/-- The compiled rules of a class, by registry and class. -/
abbrev Rules := String → String → Option Validation

/-- What is told of a model: the registry, the class and the value are given. -/
abbrev TraceModel := String → String → Value → Check Trace

/-- Runs checks one after the other, up to the first whose answer ends them. -/
def Check.inTurn {α : Type} (ends : α → Bool) : List (Check α) → Check (List α)
  | [] => pure []
  | check :: checks => do
      let a ← check
      let rest ← (if ends a then pure [] else inTurn ends checks)
      pure (a :: rest)

/-- Takes the next value from a one-shot source. -/
def Check.takeNext (number : Nat) : Check (Option Value) := do
  let (next, store) := (← get).next number
  set store
  pure next

/-- Tests a value; a failure answers with its leaf. -/
def Constraint.tested (v : Value) (c : Constraint) : Check (Option Leaf) := do
  if ← c.test v then pure none
  else
    let message ← c.render v
    pure (some ⟨if c.isError then .error else .warning, message, v⟩)

/-- The selected parts of a value that is no one-shot source, each with the segment it is
visited under and the way it is taken. -/
def Elements.parts (g : ObjectGraph) (v : Value) : Elements → Check (List (Segment × Check Value))
  | .iterated indices =>
      match v.items? g with
      | some items =>
          let selected := (Validation.numbered items).filter fun (index, _) =>
            Validation.selected g indices (.int index)
          pure (selected.map fun (index, element) => (.ofIndex index, pure element))
      | none => throw .wrongType
  | .positions indices =>
      match v.size? with
      | some size =>
          let selected := (List.range size).filter fun (index : Nat) =>
            Validation.selected g indices (.int index)
          pure (selected.map fun (index : Nat) =>
            (.ofIndex index, Check.ofExcept (v.item g (.int index))))
      | none => throw .wrongType
  | .entries keys => do
      let pairs ← v.pairs
      let selected := pairs.filter fun (key, _) => Validation.selected g keys key
      pure (selected.map fun (key, value) => (.ofKey g key, pure (.entry key value)))

namespace Trace

/-- Takes a part and visits it. -/
def ofPart (visit : Value → Check Trace) (part : Segment × Check Value) : Check Trace := do
  let v ← part.2
  let inner ← visit v
  pure (.step part.1 v inner)

/-- Visits what a one-shot source yields, taken out one by one. -/
def ofSource (visit : Value → Check Trace) (g : ObjectGraph) (indices : List Value)
    (number : Nat) : (fuel index : Nat) → Check (List Trace)
  | 0, _ => pure []
  | fuel + 1, index => do
      match ← Check.takeNext number with
      | none => pure []
      | some v =>
          if Validation.selected g indices (.int index) then
            let first ← ofPart visit (.ofIndex index, pure v)
            let rest ← ofSource visit g indices number fuel (index + 1)
            pure (first :: rest)
          else ofSource visit g indices number fuel (index + 1)

/-- Visits the selected elements of a value; no failure stops the visits. -/
def ofElements (visit : Value → Check Trace) (v : Value) (kind : Elements) :
    Check (List Trace) := do
  let g ← read
  match kind, v with
  | .iterated indices, .source number =>
      ofSource visit g indices number ((← get).remaining number).length 0
  | kind, v =>
      let parts ← kind.parts g v
      Check.inTurn (fun _ => false) (parts.map (ofPart visit))

/-- Tests constraints and evaluates further validations in this order; with `short` the first
check that decides the group ends it. -/
def ofGroup (sign : Sign) (short : Bool) (tests : List (Check (Option Leaf)))
    (subs : List (Check Trace)) : Check Trace := do
  let decides := fun test => short && sign.decidedBy (sign.counts test)
  let tests ← Check.inTurn decides tests
  let subs ← (if tests.any decides then pure []
    else Check.inTurn (fun t => short && sign.decidedBy t.passed) subs)
  pure (.group sign tests subs)

end Trace

namespace Validation

mutual

def traceWith (expand : TraceModel) : Validation → Value → Check Trace
  | .object constraints subs anyOf short, v =>
      Trace.ofGroup (if anyOf then .any else .all) short (constraints.map (·.tested v))
        (tracesWith expand subs v)
  | .step presence guards target inner, v => do
      if ← guardsHold expand guards v then
        let part ← target.get v
        match presence, part with
        | .optional, .null => pure (.absent target)
        | .required, .null => pure (.missing target)
        | _, part =>
            let inner ← traceWith expand inner part
            pure (.step target part inner)
      else pure (.skipped target v)
  | .elements kind inner, v => do
      let visits ← Trace.ofElements (traceWith expand inner) v kind
      pure (.elements kind v visits)
  | .script .., _ => throw .wrongType
  | .model registry cls, v => expand registry cls v
termination_by structural validation => validation

def tracesWith (expand : TraceModel) : List Validation → Value → List (Check Trace)
  | [], _ => []
  | sub :: subs, v => traceWith expand sub v :: tracesWith expand subs v
termination_by structural validations => validations

/-- Whether all guards accept the value, which is asked up to the first that does not. -/
def guardsHold (expand : TraceModel) : List Guard → Value → Check Bool
  | [], _ => pure true
  | .mk _ condition :: guards, v => do
      let t ← traceWith expand condition v
      if t.passed then guardsHold expand guards v else pure false
termination_by structural guards => guards

end

/-- Evaluates the rules of models nested up to `fuel` deep. -/
def traceModel (rules : Rules) : (fuel : Nat) → TraceModel
  | 0, _, _, _ => throw .endless
  | fuel + 1, registry, cls, v => do
      if ← visit v then
        match rules registry cls with
        | none => pure (.unruled registry cls v)
        | some rule =>
            let t ← rule.traceWith (traceModel rules fuel) v
            pure (.expanded registry cls v t)
      else pure (.repeated v)

/-- Evaluates a validation in which models are expanded. -/
def trace (rules : Rules) (validation : Validation) (v : Value) : Check Trace := do
  validation.traceWith (traceModel rules ((← read).expansions v (← get).sources)) v

end Validation

end PathRules
