import PathRules.Run.Evaluate

/-!
# Whole runs

`Validation.validate` runs a validation on a value from an empty stack and sends the events
of the run.  `expandModel` runs the rules of a model on a value unless the value has been
met before.

`reporting` is `Validation.validate` around `evaluate`, `expandOnce` is `ModelValidation.evaluate`,
and `visit` keeps its set under `VISITED_MODELS_KEY`.
-/

namespace PathRules

/-- The entry that holds the values whose models have been expanded in a run. -/
def visitedKey : String := "composable_validation.visited_models"

/-- Whether a value is among the visited, which is an entry that checks can replace. -/
def isVisited (v visited : Value) : Check Bool := do
  match visited with
  | .set seen => pure (seen.any v.identical)
  | .str _ => throw .wrongType
  | visited =>
      let _ ← visited.elements
      pure false

def addVisited (v visited : Value) : Check Unit :=
  match visited with
  | .set seen => Check.put visitedKey (.set (seen ++ [v]))
  | _ => throw .missingAttribute

/-- Whether a value is met for the first time in a run; it is remembered from then on. -/
def visit (v : Value) : Check Bool := do
  let visited ← Check.setDefault visitedKey (.set [])
  if ← isVisited v visited then pure false
  else
    addVisited v visited
    pure true

/-- How a run finds the rules of a class in one of the registries. -/
abbrev LookUp := (registry cls : String) → RunM (Option Validation)

def lookUpRules : LookUp := fun registry cls g =>
  ExceptT.mk fun run =>
    let (rules, rulebook) := run.rulebook.compiled g registry cls
    (.ok rules, { run with rulebook })

/-- Runs the rules of a model on a value that is met for the first time; models nested in them
are expanded by `nested`.  A value that was met before is reported. -/
def expandMet (lookUp : LookUp) (nested : Expand) (registry cls : String) (v : Value)
    (first : Bool) : RunM Bool := do
  if first then
    match ← lookUp registry cls with
    | none => pure true
    | some rules => rules.evaluate nested v
  else
    RunM.openGroup .all
    RunM.record ⟨.error, "already validated", v⟩
    let _ ← RunM.attach
    pure false

def expandOnce (lookUp : LookUp) (nested : Expand) : Expand := fun registry cls v => do
  expandMet lookUp nested registry cls v (← RunM.ofCheck (visit v))

/-- Expands models nested up to `fuel` deep. -/
def expandBy (lookUp : LookUp) : (fuel : Nat) → Expand
  | 0 => fun _ _ _ => throw .endless
  | fuel + 1 => expandOnce lookUp (expandBy lookUp fuel)

def expandModel (fuel : Nat) : Expand := expandBy lookUpRules fuel

namespace ObjectGraph

/-- The values that fields, elements and the parts of numbers lead to from a value: the objects
and all that is written in their fields, in the value itself and in the one-shot sources. -/
def within (g : ObjectGraph) (v : Value) (sources : List (List Value)) : List Value :=
  [.int 0, .int 1, .real (.finite false 0 0)] ++ (List.range g.objects.size).map .object ++
    Value.contentsOf (v :: g.objects.toList.flatMap (·.fields.map (·.2)) ++ sources.flatten)

/-- How deep models can be nested.  Each of the values within reach is expanded once.  The rest is
for values that the extractors of rules make: as many as a hundred of them below each other, which
are not within reach, are expanded too, and behind these a run raises a fault, as it does where
there is no end to them.  Where the models of a run are instances, none is needed. -/
def expansions (g : ObjectGraph) (v : Value) (sources : List (List Value)) : Nat :=
  100 + (g.within v sources).length

end ObjectGraph

namespace Validation

/-- Evaluation in which models are expanded. -/
def checkBy (lookUp : LookUp) (validation : Validation) (v : Value) : RunM Bool := do
  validation.evaluate (expandBy lookUp ((← read).expansions v (← get).store.sources)) v

def check (validation : Validation) (v : Value) : RunM Bool := validation.checkBy lookUpRules v

def completion (validation : Validation) (v : Value) (outcome : Outcome) :
    List (String × Value) :=
  [("value", v),
    ("validation", .str validation.className),
    ("is_valid", .bool outcome.isAccepted),
    ("error_count", .int (outcome.failures.filter (·.isError)).length),
    ("warning_count", .int outcome.warnings.length)]

/-- The outcome of an evaluation that left the given tree. -/
def outcomeOf (v : Value) (passed : Bool) (root : Node Placed) : Outcome :=
  if passed then .accepted v (root.leaves.filter (·.isWarning)) else .rejected root

/-- Reports an evaluation from its start to the outcome. -/
def reporting (validation : Validation) (v : Value) (evaluation : RunM Bool) : RunM Outcome := do
  RunM.emit .started [("value", v), ("validation", .str validation.className)]
  let passed ← evaluation
  let tree ← RunM.finish
  let outcome := outcomeOf v passed (tree.placed [])
  modify fun run =>
    if run.observed then
      { run with
        events := run.events ++
          [{ type := .completed, origin := run.origin
             data := completion validation v outcome, outcome := some outcome }] }
    else run
  pure outcome

def validate (validation : Validation) (v : Value) : RunM Outcome :=
  validation.reporting v (validation.check v)

end Validation

/-- The run a validation starts with: an empty stack, the given entries, of which a later one
replaces an earlier one of the same key, what is left of the one-shot sources, and the
rulebook. -/
def Run.start (validation : Validation) (entries : List (String × Value)) (observed : Bool)
    (sources : List (List Value)) (rulebook : Rulebook) : Run :=
  { store := Store.ofEntries entries sources, rulebook, observed, origin := validation.className }

end PathRules
