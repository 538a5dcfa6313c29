import PathRules.Run.Script

/-!
# Evaluation

`Validation.evaluate` checks a value, recording failures on the stack of the run, and tells
whether the value passed.  The rules of a model are looked up when they are met: each value
is expanded once per run, and meeting it again is a failure.

This is `evaluate` of `ObjectValidation`, of `UndefinedPathValidation`, `OptionalPathValidation`
and `RequiredPathValidation`, of `IterableValidation`, `ArrayValidation` and `MapValidation`;
`guardsPass` is `_guard_passes` and `descend` is `_descend`.
-/

namespace PathRules

/-- What is done where a validation asks for the rules of a model: the registry, the class
and the value are given. -/
abbrev Expand := String → String → Value → RunM Bool

namespace Validation

def recordFailure (c : Constraint) (v : Value) : RunM Unit := do
  let message ← RunM.ofCheck (c.render v)
  RunM.record ⟨if c.isError then .error else .warning, message, v⟩

/-- Runs constraints of which all have to pass and tells whether no error was recorded;
none if an error ended the group. -/
def allConstraints (short : Bool) (v : Value) : List Constraint → RunM (Option Bool)
  | [] => pure (some true)
  | c :: cs => do
      if ← RunM.ofCheck (c.test v) then allConstraints short v cs
      else
        recordFailure c v
        if c.isError && short then pure none
        else
          let rest ← allConstraints short v cs
          pure (rest.map (!c.isError && ·))

/-- Runs constraints of which one has to pass and tells whether one did; none if that ended
the group. -/
def anyConstraint (short : Bool) (v : Value) : List Constraint → RunM (Option Bool)
  | [] => pure (some false)
  | c :: cs => do
      if ← RunM.ofCheck (c.test v) then
        if short then pure none
        else
          let rest ← anyConstraint short v cs
          pure (rest.map fun _ => true)
      else
        recordFailure c v
        anyConstraint short v cs

/-- Validates a part under a step of its own. -/
def descend (check : Value → RunM Bool) (target : Segment) (part : Value) : RunM Bool := do
  RunM.openPath ⟨target, []⟩
  let valid ← check part
  RunM.close valid true

/-- Records that a part is missing. -/
def recordMissing (target : Segment) : RunM Bool := do
  RunM.openPath ⟨target, []⟩
  RunM.openGroup .all
  RunM.record ⟨.error, "is required", .null⟩
  let _ ← RunM.attach
  let _ ← RunM.attach
  pure false

def selected (g : ObjectGraph) (selection : List Value) (v : Value) : Bool :=
  selection.isEmpty || v.isMember g selection

/-- Runs a check on one element after the other; a failure stops none of them. -/
def eachOf {α : Type} (check : α → RunM Bool) : List α → RunM Bool
  | [] => pure true
  | a :: rest => do
      let valid ← check a
      let others ← eachOf check rest
      pure (valid && others)

/-- Like `eachOf` on what a one-shot source yields, taken out one by one. -/
def eachFromSource (check : Nat × Value → RunM Bool) (number : Nat) : (fuel index : Nat) → RunM Bool
  | 0, _ => pure true
  | fuel + 1, index => do
      let (next, store) := (← get).store.next number
      modify fun run => { run with store }
      match next with
      | none => pure true
      | some v =>
          let valid ← check (index, v)
          let others ← eachFromSource check number fuel (index + 1)
          pure (valid && others)

def numbered (items : List Value) : List (Nat × Value) :=
  items.zipIdx.map fun (v, index) => (index, v)

/-- Validates the selected elements of a value, each under its index or key. -/
def eachElement (check : Value → RunM Bool) (v : Value) : Elements → RunM Bool
  | .iterated indices => do
      let g ← read
      let visit := fun ((index, element) : Nat × Value) =>
        if selected g indices (.int index) then descend check (.ofIndex index) element
        else pure true
      match v with
      | .source number =>
          eachFromSource visit number ((← get).store.remaining number).length 0
      | v =>
          match v.items? g with
          | some items => eachOf visit (numbered items)
          | none => throw .wrongType
  | .positions indices => do
      let g ← read
      match v.size? with
      | none => throw .wrongType
      | some size =>
          eachOf (fun (index : Nat) => do
            if selected g indices (.int index) then
              let element ← RunM.ofCheck (Check.ofExcept (v.item g (.int index)))
              descend check (.ofIndex index) element
            else pure true) (List.range size)
  | .entries keys => do
      let g ← read
      let pairs ← RunM.ofCheck v.pairs
      eachOf (fun (key, value) =>
        if selected g keys key then descend check (.ofKey g key) (.entry key value)
        else pure true) pairs

mutual

def evaluate (expand : Expand) : Validation → Value → RunM Bool
  | .object constraints subs anyOf short, v => do
      if anyOf then
        RunM.openGroup .any
        let valid ← do
          match ← anyConstraint short v constraints with
          | none => pure true
          | some passed =>
              let others ← anyOf? expand short subs v
              pure (passed || others || (constraints.isEmpty && subs.isEmpty))
        RunM.close valid false
      else
        RunM.openGroup .all
        let valid ← do
          match ← allConstraints short v constraints with
          | none => pure false
          | some passed =>
              let others ← allOf? expand short subs v
              pure (passed && others)
        RunM.close valid true
  | .step presence guards target inner, v => do
      if ← guardsPass expand target guards v then
        let part ← RunM.ofCheck (target.get v)
        match presence, part with
        | .optional, .null => pure true
        | .required, .null => recordMissing target
        | _, part => descend (evaluate expand inner) target part
      else pure true
  | .elements kind inner, v => do
      RunM.openGroup .all
      let valid ← eachElement (evaluate expand inner) v kind
      RunM.close valid true
  | .script steps answer, v => do
      let reply ← performAll expand steps v .none
      pure (match answer with
        | some answer => answer.truthy
        | none => reply.truthy)
  | .model registry cls, v => expand registry cls v
termination_by structural validation => validation

/-- Whether all validations pass; with `short` the first failure ends the group. -/
def allOf? (expand : Expand) (short : Bool) : List Validation → Value → RunM Bool
  | [], _ => pure true
  | sub :: subs, v => do
      if ← evaluate expand sub v then allOf? expand short subs v
      else if short then pure false
      else
        let _ ← allOf? expand short subs v
        pure false
termination_by structural validations => validations

/-- Whether some validation passes; with `short` the first that does ends the group. -/
def anyOf? (expand : Expand) (short : Bool) : List Validation → Value → RunM Bool
  | [], _ => pure false
  | sub :: subs, v => do
      if ← evaluate expand sub v then
        if short then pure true
        else
          let _ ← anyOf? expand short subs v
          pure true
      else anyOf? expand short subs v
termination_by structural validations => validations

/-- Tries guards on the value a step starts from, up to the first that rejects it. -/
def guardsPass (expand : Expand) (target : Segment) : List Guard → Value → RunM Bool
  | [], _ => pure true
  | .mk _ condition :: guards, v => do
      let passed ← RunM.apart do
        let passed ← evaluate expand condition v
        let _ ← RunM.finish
        pure passed
      if passed then guardsPass expand target guards v
      else
        RunM.emit .pathSkipped
          [("path", .str target.name), ("data_path", .str (← get).stack.place.text), ("value", v)]
        pure false
termination_by structural guards => guards

/-- Performs steps and answers with the reply to the last, or with `last` if there are
none. -/
def performAll (expand : Expand) : List Step → Value → Reply → RunM Reply
  | [], _, last => pure last
  | .act action :: steps, v, _ => do
      let reply ← action.perform v
      performAll expand steps v reply
  | .fail fault :: _, _, _ => throw fault
  | .evaluate (.script inner answer) :: steps, v, _ => do
      let reply ← performAll expand inner v .none
      performAll expand steps v (match answer with
        | some answer => .value answer
        | none => reply)
  | .evaluate validation :: steps, v, _ => do
      let valid ← evaluate expand validation v
      performAll expand steps v (.value (.bool valid))
termination_by structural steps => steps

end

end Validation

end PathRules
