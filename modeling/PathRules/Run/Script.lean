import PathRules.Run.Basic

/-!
# Actions of hand-written validations

Each action works on the run and has a reply: a value, a node that was closed, or the
result as it stands.

The actions are the methods of `ValidationContext` that `evaluate` of a hand-written validation may
call.
-/

namespace PathRules

inductive Reply
  | value (v : Value)
  | closed (node : Node Leaf)
  | root (node : Node Leaf)
  | outcome (root : Node Leaf)

namespace Reply

def none : Reply := .value .null

def truthy : Reply → Bool
  | .value v => v.truthy
  | _ => true

end Reply

namespace Action

def pair (entry : String × Value) : Value := .list [.str entry.1, entry.2]

def describeRun (run : Run) : String :=
  "ValidationContext(depth=" ++ toString run.stack.depth ++ ", keys=["
    ++ Text.joined ", " (run.store.entries.map fun entry => Text.quoted entry.1) ++ "])"

/-- Removes the first entry and answers with it. -/
def removeFirst : Check Value := do
  match (← get).entries with
  | [] => throw .missingKey
  | entry :: _ =>
      modify (·.erase entry.1)
      pure (pair entry)

private def silent (m : RunM Unit) : RunM Reply := do
  m
  pure .none

private def checked (check : Check Value) : RunM Reply := do
  pure (.value (← RunM.ofCheck check))

/-- Performs an action while `v` is validated. -/
def perform (v : Value) : Action → RunM Reply
  | .openGroup sign attached => silent (RunM.modifyStack (·.push (.group sign attached [])))
  | .openPath via => silent (RunM.openPath via)
  | .record severity message => silent (RunM.record ⟨severity, message, v⟩)
  | .discard => do pure (.closed (← RunM.discard).node)
  | .attach => do pure (.closed (← RunM.attach).node)
  | .close valid keepWarnings => do pure (.value (.bool (← RunM.close valid keepWarnings)))
  | .note tag => silent do
      let stack := (← get).stack
      RunM.ofCheck (Check.note (.list [tag, .int stack.depth, .str stack.current.className,
        .str stack.place.text]))
  | .put key value => silent (RunM.ofCheck (Check.put key value))
  | .lookup key => checked (Check.lookup key)
  | .lookupD key fallback => checked (Check.lookupD key fallback)
  | .erase key => silent (RunM.ofCheck (Check.erase key))
  | .setDefault key value => checked (Check.setDefault key value)
  | .update new => silent (RunM.ofCheck (modify fun store =>
      new.foldl (fun store entry => store.put entry.1 entry.2) store))
  | .takeFirst => checked removeFirst
  | .clear => silent (RunM.ofCheck (modify fun store => { store with entries := [] }))
  | .has key => do pure (.value (.bool ((← get).store.has key)))
  | .count => do pure (.value (.int (← get).store.entries.length))
  | .entries => do pure (.value (.list ((← get).store.entries.map pair)))
  | .emit type data => silent (RunM.emit type data)
  | .describe => do pure (.value (.str (describeRun (← get))))
  | .finish => do pure (.root (← RunM.finish))
  | .outcome => do pure (.outcome (← RunM.finish))
  | .derive => pure .none

end Action

end PathRules
