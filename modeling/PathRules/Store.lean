import PathRules.Fault
import PathRules.Value.Basic

/-!
# What the checks of one run share

A store holds the run-wide entries, what is left of every one-shot source, and a journal
that checks may write to.  A `Check` reads the object graph and changes the store; what it
changed before a fault stays changed.

The entries are those that `ValidationContext` has as a mapping.
-/

namespace PathRules

structure Store where
  /-- In order of first insertion, with different keys. -/
  entries : List (String × Value) := []
  sources : List (List Value) := []
  journal : List Value := []
deriving Repr

namespace Store

def get? (store : Store) (key : String) : Option Value :=
  store.entries.lookup key

def has (store : Store) (key : String) : Bool :=
  (store.get? key).isSome

/-- A key that is present keeps its place. -/
def put (store : Store) (key : String) (value : Value) : Store :=
  { store with
    entries :=
      if store.has key then
        store.entries.map fun entry => if entry.1 == key then (key, value) else entry
      else store.entries ++ [(key, value)] }

def erase (store : Store) (key : String) : Store :=
  { store with entries := store.entries.filter (·.1 != key) }

def note (store : Store) (value : Value) : Store :=
  { store with journal := store.journal ++ [value] }

/-- Takes the next value from a source. -/
def next (store : Store) (number : Nat) : Option Value × Store :=
  match store.sources[number]? with
  | some (v :: rest) => (some v, { store with sources := store.sources.set number rest })
  | _ => (none, store)

def drain (store : Store) (number : Nat) : Store :=
  { store with sources := store.sources.set number [] }

def remaining (store : Store) (number : Nat) : List Value :=
  (store.sources[number]?).getD []

/-- The store of a run before its first step; later entries replace earlier ones. -/
def ofEntries (entries : List (String × Value)) (sources : List (List Value)) : Store :=
  entries.foldl (fun store entry => store.put entry.1 entry.2) { sources }

/-- A new source that holds `values`. -/
def addSource (store : Store) (values : List Value) : Value × Store :=
  (.source store.sources.length, { store with sources := store.sources ++ [values] })

end Store

abbrev Check (α : Type) := ReaderT ObjectGraph (ExceptT Fault (StateM Store)) α

namespace Check

/-- The outcome of a check and the store it leaves. -/
def runOn {α : Type} (check : Check α) (g : ObjectGraph) (store : Store) :
    Except Fault α × Store :=
  (check.run g).run.run store

def lookup (key : String) : Check Value := do
  match (← get).get? key with
  | some v => pure v
  | none => throw .missingKey

def lookupD (key : String) (fallback : Value) : Check Value := do
  pure (((← get).get? key).getD fallback)

def put (key : String) (value : Value) : Check Unit :=
  modify (·.put key value)

def erase (key : String) : Check Unit := do
  if (← get).has key then modify (·.erase key) else throw .missingKey

/-- The entry if there is one, otherwise a new entry with the given value. -/
def setDefault (key : String) (value : Value) : Check Value := do
  match (← get).get? key with
  | some v => pure v
  | none =>
      put key value
      pure value

def note (value : Value) : Check Unit :=
  modify (·.note value)

/-- Lifts a computation without effects. -/
def ofExcept {α : Type} (outcome : Except Fault α) : Check α :=
  match outcome with
  | .ok a => pure a
  | .error fault => throw fault

end Check

end PathRules
