import PathRules.Run.Libraries
import PathRules.Run.Validate
import PathRules.Run.Vocabulary

/-!
# Sessions

A session performs single steps in named contexts.  Each context has a stack of its own;
all share one store.  A context derived for a condition starts with an empty stack and has
no observers.

Contexts are derived by `ValidationContext.for_condition`.
-/

namespace PathRules

structure Context where
  stack : Stack := {}
  observed : Bool := false

structure Session where
  /-- What the contexts share; its stack and events are those of the last step. -/
  shared : Run
  contexts : List (String × Context)

namespace Session

/-- The class of a sender that is not there. -/
def noOrigin : String := "NoneType"

/-- A session with one context. -/
def start (name : String) (observed : Bool) (store : Store) (rulebook : Rulebook) : Session where
  shared := { store, rulebook, origin := noOrigin }
  contexts := [(name, { observed })]

def context? (session : Session) (name : String) : Option Context :=
  session.contexts.lookup name

def setContext (session : Session) (name : String) (context : Context) : Session :=
  { session with contexts := alter name context (fun _ => context) session.contexts }

def stackOf (session : Session) (name : String) : Stack :=
  ((session.context? name).getD {}).stack

/-- The session with the given sources and rulebook. -/
def lend (session : Session) (sources : List (List Value)) (rulebook : Rulebook) : Session :=
  { session with shared := { session.shared with
      store := { session.shared.store with sources }, rulebook } }

/-- The session before a step that may send events. -/
def quiet (session : Session) : Session :=
  { session with shared := { session.shared with events := [] } }

/-- Adds a context that shares the store, replacing one of the same name. -/
def derive (session : Session) (name : String) : Session :=
  session.setContext name {}

/-- Performs a step on a value in a context; the events of the session are then those of
this step. -/
def perform (g : ObjectGraph) (v : Value) (name : String) (step : Step) (session : Session) :
    Except Fault Reply × Session :=
  match session.context? name with
  | none => (.error .missingKey, session)
  | some context =>
      let run := { session.shared with
        stack := context.stack, observed := context.observed, events := [] }
      let (result, after) :=
        RunM.runOn (Validation.performAll (expandModel (g.expansions v run.store.sources)) [step] v
          .none) g run
      (result, { session with shared := after }.setContext name { context with stack := after.stack })

end Session

end PathRules
