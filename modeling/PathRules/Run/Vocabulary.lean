import PathRules.Declaration.Rule
import PathRules.Model.Schema
import PathRules.Run.Script
import PathRules.Segment.Extraction

/-!
# The vocabulary of written scenarios

Scenarios that are read from text name their tests, functions, actions and calls.  Each name stands
for a definition here: tests with fixed answers, tests that note what they see, compare attributes
or read and change the run-wide entries, and functions that segments can be made with.  No rule
and no run depends on these names.
-/

namespace PathRules

namespace Test

def const (answer : Value) : Test := fun _ => pure answer.truthy

def noting (tag answer : Value) : Test := fun _ => do
  Check.note tag
  pure answer.truthy

def notingValue (answer : Value) : Test := fun v => do
  Check.note v
  pure answer.truthy

/-- Notes an entry, or null if it is missing. -/
def notingEntry (key : String) (answer : Value) : Test := fun _ => do
  Check.note (← Check.lookupD key .null)
  pure answer.truthy

def even : Test := fun v =>
  match v with
  | .real x => pure x.isEven
  | v =>
      match v.int? with
      | some n => pure (n % 2 == 0)
      | none => throw .wrongType

/-- The attribute `low` is at most the attribute `high`. -/
def attributesAscend (low high : String) : Test := fun v => do
  let g ← read
  let low ← Check.ofExcept (v.attr g low)
  let high ← Check.ofExcept (v.attr g high)
  Check.ofExcept (Value.compareWith g .atMost low high)

def atMostEntry (key : String) : Test := fun v => do
  let limit ← Check.lookup key
  Check.ofExcept (Value.compareWith (← read) .atMost v limit)

def entryOr (key : String) (fallback : Value) : Test := fun _ => do
  pure (← Check.lookupD key fallback).truthy

def hasEntry (key : String) : Test := fun _ => do
  pure ((← get).has key)

def setting (key : String) (entry answer : Value) : Test := fun _ => do
  Check.put key entry
  pure answer.truthy

def settingToValue (key : String) (answer : Value) : Test := fun v => do
  Check.put key v
  pure answer.truthy

def equalsEntry (key : String) : Test := fun v => do
  pure ((← Check.lookupD key .null).eq (← read) v)

def erasing (key : String) (answer : Value) : Test := fun _ => do
  Check.erase key
  pure answer.truthy

def settingDefault (key : String) (entry : Value) : Test := fun _ => do
  pure (← Check.setDefault key entry).truthy

private def plusOne : Value → Check Value
  | .real x => pure (.real x.succ)
  | v =>
      match v.int? with
      | some n => pure (.int (n + 1))
      | none => throw .wrongType

/-- Counts its calls in an entry and fails once there are more than `limit`. -/
def countingTo (key : String) (limit : Value) : Test := fun _ => do
  let count ← plusOne (← Check.lookupD key (.int 0))
  Check.put key count
  Check.ofExcept (Value.compareWith (← read) .atMost count limit)

def entryCountIs (count : Value) : Test := fun _ => do
  pure (Value.eq (← read) (.int (← get).entries.length) count)

def raising (kind message : String) : Test := fun _ => throw (.raised kind message)

/-- A test by name.  The argument `v` is what it answers with, true unless given; the other
arguments are the key of an entry and what the test compares with or sets. -/
def ofName? (name : String) (arguments : List (String × Value)) : Option Test :=
  let given (argument : String) : Value := (arguments.lookup argument).getD .null
  let text (argument : String) : String :=
    match given argument with
    | .str s => s
    | _ => ""
  let answer := (arguments.lookup "v").getD (.bool true)
  match name with
  | "const" => some (const answer)
  | "trace" => some (noting (given "tag") answer)
  | "trace_value" => some (notingValue answer)
  | "trace_ctx" => some (notingEntry (text "key") answer)
  | "even" => some even
  | "attr_le" => some (attributesAscend (text "a") (text "b"))
  | "ctx_le" => some (atMostEntry (text "key"))
  | "ctx_get" => some (entryOr (text "key") (given "default"))
  | "ctx_has" => some (hasEntry (text "key"))
  | "ctx_set" => some (setting (text "key") (given "set") answer)
  | "ctx_set_value" => some (settingToValue (text "key") answer)
  | "ctx_eq" => some (equalsEntry (text "key"))
  | "ctx_del" => some (erasing (text "key") answer)
  | "ctx_setdefault" => some (settingDefault (text "key") (given "set"))
  | "ctx_count" => some (countingTo (text "key") (given "max"))
  | "ctx_len" => some (entryCountIs answer)
  | "raise" => some (raising (text "kind") (text "message"))
  | _ => none

end Test

namespace Extract

def size : Extract := fun v =>
  match v.size? with
  | some n => pure (.int n)
  | none => throw .wrongType

def upper : Extract := method "upper"

def keys : Extract := fun v => do pure (.list (← v.elements))

/-- A list of the items in reverse order; only what has an order can be reversed. -/
def reversed : Extract := fun v =>
  match v with
  | .map pairs => pure (.list (pairs.map (·.1)).reverse)
  | v =>
      match v.sequenceItems? with
      | some items => pure (.list items.reverse)
      | none => throw .wrongType

def values : Extract := fun v => do
  let found ← method "values" v
  pure (.list (← found.elements))

def entries : Extract := fun v => do
  let found ← v.pairs
  pure (.list (found.map fun (key, value) => .entry key value))

/-- A one-shot source of the items. -/
def iterator : Extract := fun v =>
  match v with
  | .source number => pure (.source number)
  | v => do
      let items ← v.elements
      let (source, store) := (← get).addSource items
      set store
      pure source

def negated : Extract := fun v =>
  match v with
  | .real x => pure (.real x.neg)
  | v =>
      match v.int? with
      | some n => pure (.int (-n))
      | none => throw .wrongType

def ofName? : String → Option Extract
  | "identity" => some itself
  | "len" => some size
  | "upper" => some upper
  | "none" => some nothing
  | "reverse" => some reversed
  | "keys" => some keys
  | "values" => some values
  | "items" => some entries
  | "iter" => some iterator
  | "neg" => some negated
  | _ => none

end Extract

namespace EventType

def ofName? (name : String) : Option EventType :=
  [started, completed, errorAdded, warningAdded, pathSkipped].find? (·.name == name)

end EventType

namespace Action

def signOf (name : String) : Sign := if name == "or" then .any else .all

/-- Entries given as a list of pairs. -/
def entriesOf? (rows : List Value) : Option (List (String × Value)) :=
  rows.mapM fun row =>
    match row with
    | .list [.str key, value] => some (key, value)
    | _ => none

/-- An action by name, with its arguments in order. -/
def ofName? : String → List Value → Option Action
  | "push", [.str sign] => some (.openGroup (signOf sign) true)
  | "push_orphan", [.str sign] => some (.openGroup (signOf sign) false)
  | "error", [.str message] => some (.record .error message)
  | "warning", [.str message] => some (.record .warning message)
  | "pop", [] => some .discard
  | "pop_add", [] => some .attach
  | "close", [valid] => some (.close valid.truthy false)
  | "close", [valid, keepWarnings] => some (.close valid.truthy keepWarnings.truthy)
  | "trace", [tag] => some (.note tag)
  | "set", [.str key, value] => some (.put key value)
  | "get", [.str key] => some (.lookup key)
  | "get_default", [.str key] => some (.lookupD key .null)
  | "get_default", [.str key, fallback] => some (.lookupD key fallback)
  | "del", [.str key] => some (.erase key)
  | "setdefault", [.str key] => some (.setDefault key .null)
  | "setdefault", [.str key, value] => some (.setDefault key value)
  | "update", [.list rows] => (entriesOf? rows).map .update
  | "popitem", [] => some .takeFirst
  | "clear", [] => some .clear
  | "contains", [.str key] => some (.has key)
  | "len", [] => some .count
  | "items", [] => some .entries
  | "emit", [.str type] => (EventType.ofName? type).map fun type => .emit type []
  | "emit", [.str type, .list rows] => do some (.emit (← EventType.ofName? type) (← entriesOf? rows))
  | "repr", [] => some .describe
  | "finish", [] => some .finish
  | "finish_full", [] => some .outcome
  | "for_condition", [_] => some .derive
  | _, _ => none

end Action

def Presence.ofName? : String → Option Presence
  | "UNDEFINED" => some .undefined
  | "OPTIONAL" => some .optional
  | "REQUIRED" => some .required
  | _ => none

def StepKind.ofName? : String → Option StepKind
  | "SINGLE" => some .single
  | "ITERABLE" => some .iterable
  | "ARRAY" => some .array
  | "MAP" => some .map
  | _ => none

namespace Navigation

def ofName? : String → Option Navigation
  | "has" => some .has
  | "validate" => some .has
  | "if_present" => some .ifPresent
  | "required" => some .required
  | "all_in_iterable" => some .allInIterable
  | "all_indices_in_iterable" => some .allIndicesInIterable
  | "all_in_array" => some .allInArray
  | "all_indices_in_array" => some .allIndicesInArray
  | "all_in_map" => some .allInMap
  | "all_keys_in_map" => some .allKeysInMap
  | "on_each" => some .onEach
  | "on_each_entry" => some .onEachEntry
  | "on_indices" => some .onIndices
  | "on_keys" => some .onKeys
  | _ => none

end Navigation

def Group.ofName? (name typeName : String) : Option Group :=
  match name with
  | "or_" => some .any
  | "and_" => some .all
  | "short_circuit" => some .shortCircuit
  | "non_short_circuit" => some .nonShortCircuit
  | "if_type" => some (.ifType typeName)
  | "require_type" => some (.requireType typeName)
  | _ => none

namespace FieldType

/-- The field type that a named form makes of others. -/
def ofForm? : String → List FieldType → Option FieldType
  | "opt", [a] => some (optional a)
  | "union", members => some (unionOf members)
  | "pipe", members => some (unionOf members)
  | "list", [a] => some (.generic .list [a])
  | "set", [a] => some (.generic .set [a])
  | "frozenset", [a] => some (.generic .frozenset [a])
  | "seq", [a] => some (.generic .sequence [a])
  | "tuplevar", [a] => some (.generic .tuple [a, .ellipsis])
  | "tuple", members => some (.generic .tuple members)
  | "dict", [a] => some (.generic .mapping [.plain "str", a])
  | _, _ => none

end FieldType

end PathRules
