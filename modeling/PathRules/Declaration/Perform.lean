import PathRules.Declaration.Workshop

/-!
# Performing rules

`Rule.perform` carries out one declaration on a draft; `ValidationSpec.make` makes the
validation that a specification describes.  A group is a draft of its own that is built
when all its rules have been performed.

`enterEach` is `_navigate` for each key, `addGroup` what the groups of `AndValidationBuilder` and
`OrValidationBuilder` have in common, `PathSpec.resolve` is `as_path`, and a guard is
`validate_if`.
-/

namespace PathRules

/-- What a rule hands back. -/
inductive Product
  | nothing
  | constraint (r : Registered)
  | draft (address : Address)
  | drafts (addresses : List Address)
  | path (p : Path)

/-- The step under which a value is treated as an instance of a type. -/
def typeKey (typeName : String) : StepKey := { path := { target := .ofType typeName } }

/-- Accepts values that are no instances of a type. -/
def notOfType (typeName : String) : Constraint where
  hint := "must not be of type " ++ typeName
  test := fun v => do pure !(v.isInstanceOf (← read) typeName)

namespace Declaring

variable {Log : Type}

def numbered (v : Validation) : Declaring Log Numbered := do pure ⟨← fresh, v⟩

variable [Journal Log]

def constrain (address : Address) (call : Call) (name : Option String) :
    Declaring Log Registered := do
  let c ← ofExcept (call.constraint (← read))
  let r ← register address c
  nameConstraint name r
  pure r

def constraintOf (address : Address) : Handle → Declaring Log Registered
  | .named name => constraintNamed name
  | .fresh call name => constrain address call name

/-- Enters drafts one after the other, filling each. -/
def enterEach (address : Address) (fill : Address → Declaring Log Unit) :
    List StepKey → Declaring Log (List Address)
  | [] => pure []
  | key :: keys => do
      let part ← enter address key
      fill part
      let parts ← enterEach address fill keys
      pure (part :: parts)

/-- Adds the group that `fill` declares on a draft of its own. -/
def addGroup (address : Address) (draft : Draft) (fill : Address → Declaring Log Unit) :
    Declaring Log Unit := do
  let group ← addDraft draft
  fill group
  let v ← build group
  declare address (.group group.root draft.anyOf draft.shortCircuit v)

/-- Fills the draft of the value treated as an instance of a type. -/
def asType (address : Address) (typeName : String) (fill : Address → Declaring Log Unit) :
    Declaring Log Unit := do
  let part ← enter address (typeKey typeName)
  fill part

/-- Accepts values of other types; an instance has to meet the rules of `fill`. -/
def ifType (address : Address) (typeName : String) (fill : Address → Declaring Log Unit) :
    Declaring Log Unit := do
  if (← draftAt address).anyOf then
    let _ ← register address (notOfType typeName)
    asType address typeName fill
  else
    addGroup address (.empty true) fun either => do
      let _ ← register either (notOfType typeName)
      addGroup either (.empty false) fun typed => asType typed typeName fill

/-- Rejects values of other types before any rule of `fill` is tried. -/
def requireType (address : Address) (typeName : String) (fill : Address → Declaring Log Unit) :
    Declaring Log Unit := do
  let anyOf := (← draftAt address).anyOf
  addGroup address { anyOf := false, shortCircuit := true } fun checked => do
    let _ ← register checked (.isInstance [typeName])
    if anyOf then
      addGroup checked (.empty true) fun typed => asType typed typeName fill
    else asType checked typeName fill

/-- Declares a group of a kind that the draft offers; `fill` is missing if the group has no
rules of its own. -/
def declareGroup (address : Address) (kind : Group) (fill : Option (Address → Declaring Log Unit)) :
    Declaring Log Unit := do
  match kind, (← draftAt address).anyOf, fill with
  | .any, false, some fill => addGroup address (.empty true) fill
  | .all, true, some fill => addGroup address (.empty false) fill
  | .shortCircuit, false, some fill =>
      addGroup address { anyOf := false, shortCircuit := true } fill
  | .shortCircuit, false, none => declare address (.shortCircuit true)
  | .nonShortCircuit, true, some fill =>
      addGroup address { anyOf := true, shortCircuit := false } fill
  | .nonShortCircuit, true, none => declare address (.shortCircuit false)
  | .ifType typeName, _, some fill => ifType address typeName fill
  | .requireType typeName, _, some fill => requireType address typeName fill
  | .any, true, _ | .all, false, _ | .shortCircuit, true, _ | .nonShortCircuit, false, _ =>
      throw .missingAttribute
  | _, _, none => throw .wrongType

/-- The path a navigation starts with. -/
def startOf (navigation : Navigation) (path : Option Path) : Declaring Log Path :=
  match path with
  | some path => if navigation.staysInPlace then throw .wrongType else pure path
  | none =>
      if navigation.staysInPlace || navigation.pathIsOptional then pure { target := .this }
      else throw .wrongType

def navigate (address : Address) (navigation : Navigation) (path : Option Path)
    (selection : List Value) (fill : Address → Declaring Log Unit) (names : List String) :
    Declaring Log Product := do
  let path ← startOf navigation path
  if !selection.isEmpty && !navigation.takesSelection then throw .wrongType
  else
    let parts ← enterEach address fill (navigation.keys (← read) path selection)
    (names.zip parts).forM fun (name, part) => nameAddress name part
    match navigation, parts with
    | .onIndices, parts => pure (.drafts parts)
    | .onKeys, parts => pure (.drafts parts)
    | _, part :: _ => pure (.draft part)
    | _, [] => pure .nothing

end Declaring

open Declaring

variable {Log : Type} [Journal Log]

mutual

def PathSpec.resolve : PathSpec → Declaring Log Path
  | .segment s => pure { target := s }
  | .text name => pure { target := .ofName name }
  | .raw v => do
      match v with
      | .str name => pure { target := .ofName name }
      | v => throw (.notAPath (v.typeName (← read)))
  | .named name => pathNamed name
  | .guarded inner condition => do
      let path ← inner.resolve
      let made ← condition.make
      pure { path with guards := .mk made.number made.validation :: path.guards }
termination_by structural spec => spec

def ValidationSpec.make : ValidationSpec → Declaring Log Numbered
  | .declared anyOf rules => do
      let address ← addDraft (.empty anyOf)
      performAll rules address
      numbered (← build address)
  | .step presence path inner => do
      let path ← path.resolve
      let inner ← inner.make
      numbered (.guarded presence path inner.validation)
  | .elements kind inner => do
      let inner ← inner.make
      let g ← read
      let hashable := match kind with
        | .iterated indices => Value.areHashable g indices
        | .positions indices => Value.areHashable g indices
        | .entries _ => true
      if hashable then numbered (.elements kind inner.validation) else throw .wrongType
  | .object constraints subs anyOf shortCircuit => do
      let subs ← makeAll subs
      numbered (.object constraints subs anyOf shortCircuit)
  | .script steps answer => do
      let steps ← makeSteps steps
      numbered (.script steps answer)
  | .named name => validationNamed name
  | .model registry cls => do numbered (← ofModel registry cls)
termination_by structural spec => spec

def makeAll : List ValidationSpec → Declaring Log (List Validation)
  | [] => pure []
  | spec :: specs => do
      let made ← spec.make
      let rest ← makeAll specs
      pure (made.validation :: rest)
termination_by structural specs => specs

/-- A step that can not be made fails when it is performed. -/
def StepSpec.make : StepSpec → Declaring Log Step
  | .act action => pure (.act action)
  | .openPath path => do
      match ← attempt path.resolve with
      | .ok path => pure (.act (.openPath path.via))
      | .error fault => pure (.fail fault)
  | .evaluate validation => do
      match ← attempt validation.make with
      | .ok made => pure (.evaluate made.validation)
      | .error fault => pure (.fail fault)
termination_by structural spec => spec

def makeSteps : List StepSpec → Declaring Log (List Step)
  | [] => pure []
  | spec :: specs => do
      let step ← spec.make
      let rest ← makeSteps specs
      pure (step :: rest)
termination_by structural specs => specs

def Rule.perform : Rule → Address → Declaring Log Product
  | .constrain call name, address => do pure (.constraint (← constrain address call name))
  | .detached name c, _ => do
      let r : Registered := ⟨← fresh, c⟩
      nameConstraint (some name) r
      pure (.constraint r)
  | .hint handle message name, address => do
      let r ← constraintOf address handle
      let new ← replace address r (r.constraint.withHint message)
      nameConstraint name new
      pure (.constraint new)
  | .warn handle name, address => do
      let r ← constraintOf address handle
      let new ← replace address r r.constraint.asWarning
      nameConstraint name new
      pure (.constraint new)
  | .navigate navigation path selection hasBody body names, address => do
      let path ← match path with
        | some path => do pure (some (← path.resolve))
        | none => pure none
      navigate address navigation path selection
        (fun part => if hasBody then performAll body part else pure ()) names
  | .on name rules, _ => do
      performAll rules (← addressNamed name)
      pure .nothing
  | .group kind hasBody body, address => do
      declareGroup address kind (if hasBody then some (performAll body) else none)
      pure .nothing
  | .run validation, address => do
      let made ← validation.make
      addValidation address made.validation
      pure .nothing
  | .guard name path condition, _ => do
      let made ← condition.make
      let path ← path.resolve
      let guarded := { path with guards := .mk made.number made.validation :: path.guards }
      namePath name guarded
      pure (.path guarded)
  | .thisPath, _ => pure (.path { target := .this })
  | .unknown, _ => throw .missingAttribute
termination_by structural rule => rule

def performAll : List Rule → Address → Declaring Log Unit
  | [], _ => pure ()
  | rule :: rules, address => do
      let _ ← rule.perform address
      performAll rules address
termination_by structural rules => rules

end

/-- The validation that rules declare on a draft of which all checks have to pass. -/
def declareAll (rules : List Rule) : Declaring Log Validation := do
  pure (← (ValidationSpec.declared false rules).make).validation

end PathRules
