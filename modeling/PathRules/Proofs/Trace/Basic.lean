import PathRules.Run.Basic

/-!
# Traces

A trace tells what happened when a validation was evaluated: which constraints failed, which
steps were taken and to what part, which elements were visited.  Whether the value passed, the
leaves to report, the node that a run attaches and the events that it sends are all read off
the trace.  No stack of open nodes takes part.
-/

namespace PathRules

/-- A test of a constraint is told by the leaf it recorded, which is none if it passed. -/
inductive Trace
  | group (sign : Sign) (tests : List (Option Leaf)) (subs : List Trace)
  | step (target : Segment) (part : Value) (inner : Trace)
  /-- A guard rejected the value. -/
  | skipped (target : Segment) (v : Value)
  /-- The part of an optional step was null. -/
  | absent (target : Segment)
  /-- The part of a required step was null. -/
  | missing (target : Segment)
  /-- The elements of `v`; each visit is the trace of a step. -/
  | elements (kind : Elements) (v : Value) (visits : List Trace)
  /-- A model that was met before. -/
  | repeated (v : Value)
  /-- A model without rules. -/
  | unruled (registry cls : String) (v : Value)
  | expanded (registry cls : String) (v : Value) (rules : Trace)

namespace Sign

/-- Whether a tested constraint counts as passed: a failed warning does where all checks have
to pass, but it is no check that passed where any one may. -/
def counts : Sign → Option Leaf → Bool
  | _, none => true
  | .all, some leaf => leaf.severity == .warning
  | .any, some _ => false

/-- Whether a check decides its group: a failure where all have to pass, a pass where any may. -/
def decidedBy : Sign → Bool → Bool
  | .all, passed => !passed
  | .any, passed => passed

end Sign

/-- The leaf of a missing part. -/
def Leaf.required : Leaf := ⟨.error, "is required", .null⟩

/-- The leaf of a model that was met before. -/
def Leaf.repeated (v : Value) : Leaf := ⟨.error, "already validated", v⟩

/-- The same leaf, seen from `place` up. -/
def Placed.below (place : DataPath) (p : Placed) : Placed := { p with place := place ++ p.place }

/-- What is left of a node when it is closed: a node that passed is kept for its warnings. -/
def Node.kept (passed : Bool) (node : Node Leaf) : Option (Node Leaf) :=
  if passed && node.leaves.isEmpty then none else some node

namespace Event

/-- The event of a leaf recorded at a place. -/
def ofLeaf (origin : String) (place : DataPath) (leaf : Leaf) : Event where
  type := match leaf.severity with
    | .error => .errorAdded
    | .warning => .warningAdded
  origin := origin
  data := [("message", .str leaf.message), ("data_path", .str place.text), ("value", leaf.value)]

/-- The event of a step that was not taken from a place. -/
def ofSkip (origin : String) (place : DataPath) (target : Segment) (v : Value) : Event where
  type := .pathSkipped
  origin := origin
  data := [("path", .str target.name), ("data_path", .str place.text), ("value", v)]

end Event

/-- What is said of a group that was checked: its tests and its further traces. -/
abbrev GroupFact := Sign → List (Option Leaf) → List Trace → Prop

namespace Trace

mutual

/-- Whether the value passed.  A group without checks passes. -/
def passed : Trace → Bool
  | .group .all tests subs => tests.all Sign.all.counts && allPassed subs
  | .group .any tests subs =>
      (tests.isEmpty && subs.isEmpty) || tests.any Sign.any.counts || anyPassed subs
  | .step _ _ inner => passed inner
  | .skipped .. | .absent _ | .unruled .. => true
  | .missing _ | .repeated _ => false
  | .elements _ _ visits => allPassed visits
  | .expanded _ _ _ rules => passed rules
termination_by structural trace => trace

def allPassed : List Trace → Bool
  | [] => true
  | t :: ts => passed t && allPassed ts
termination_by structural traces => traces

def anyPassed : List Trace → Bool
  | [] => false
  | t :: ts => passed t || anyPassed ts
termination_by structural traces => traces

end

@[simp] theorem allPassed_eq_all (ts : List Trace) : allPassed ts = ts.all passed := by
  induction ts with
  | nil => rfl
  | cons t ts ih => simp [allPassed, ih]

@[simp] theorem anyPassed_eq_any (ts : List Trace) : anyPassed ts = ts.any passed := by
  induction ts with
  | nil => rfl
  | cons t ts ih => simp [anyPassed, ih]

/-- The leaves of failed tests, at the place of the value itself. -/
def failures (tests : List (Option Leaf)) : List Placed :=
  (tests.filterMap id).map fun leaf => ⟨leaf, []⟩

mutual

/-- The leaves to report, each with its place as seen from the value.  A group of which any
check may pass reports nothing once it passed; a step that stays in place adds nothing. -/
def leaves : Trace → List Placed
  | .group .all tests subs => failures tests ++ leavesOf subs
  | .group .any tests subs =>
      if passed (.group .any tests subs) then [] else failures tests ++ leavesOf subs
  | .step target _ inner => (leaves inner).map (Placed.below (DataPath.ofSegments [target]))
  | .skipped .. | .absent _ | .unruled .. => []
  | .missing target => [⟨Leaf.required, DataPath.ofSegments [target]⟩]
  | .elements _ _ visits => leavesOf visits
  | .repeated v => [⟨Leaf.repeated v, []⟩]
  | .expanded _ _ _ rules => leaves rules
termination_by structural trace => trace

def leavesOf : List Trace → List Placed
  | [] => []
  | t :: ts => leaves t ++ leavesOf ts
termination_by structural traces => traces

end

@[simp] theorem leavesOf_eq_flatMap (ts : List Trace) : leavesOf ts = ts.flatMap leaves := by
  induction ts with
  | nil => rfl
  | cons t ts ih => simp [leavesOf, ih]

/-- The nodes of failed tests. -/
def failureNodes (tests : List (Option Leaf)) : List (Node Leaf) :=
  (tests.filterMap id).map .leaf

theorem failureNodes_eq_flatMap (tests : List (Option Leaf)) :
    failureNodes tests = tests.flatMap fun test => test.toList.map .leaf := by
  induction tests with
  | nil => rfl
  | cons test tests ih => cases test <;> simp_all [failureNodes]

mutual

/-- The node that is left for the node below, if any. -/
def node : Trace → Option (Node Leaf)
  | .group .all tests subs =>
      (Node.group .all (failureNodes tests ++ nodesIn .all subs)).kept
        (passed (.group .all tests subs))
  | .group .any tests subs =>
      if passed (.group .any tests subs) then none
      else some (.group .any (failureNodes tests ++ nodesIn .any subs))
  | .step target _ inner => (Node.path ⟨target, []⟩ (node inner)).kept (passed inner)
  | .skipped .. | .absent _ | .unruled .. => none
  | .missing target => some (.path ⟨target, []⟩ (some (.group .all [.leaf Leaf.required])))
  | .elements _ _ visits => (Node.group .all (nodesIn .all visits)).kept (allPassed visits)
  | .repeated v => some (.group .all [.leaf (Leaf.repeated v)])
  | .expanded _ _ _ rules => node rules
termination_by structural trace => trace

/-- The children that traces leave in a group. -/
def nodesIn (sign : Sign) : List Trace → List (Node Leaf)
  | [] => []
  | t :: ts => (node t).toList.flatMap (·.splicedInto sign) ++ nodesIn sign ts
termination_by structural traces => traces

end

theorem nodesIn_eq_flatMap (sign : Sign) (ts : List Trace) :
    nodesIn sign ts = ts.flatMap fun t => (node t).toList.flatMap (·.splicedInto sign) := by
  induction ts with
  | nil => rfl
  | cons t ts ih => simp [nodesIn, ih]

mutual

/-- The events of an observed run, from the place of the value on. -/
def events (origin : String) (place : DataPath) : Trace → List Event
  | .group _ tests subs =>
      (tests.filterMap id).map (Event.ofLeaf origin place) ++ eventsOf origin place subs
  | .step target _ inner => events origin (place.snoc target) inner
  | .skipped target v => [Event.ofSkip origin place target v]
  | .absent _ | .unruled .. => []
  | .missing target => [Event.ofLeaf origin (place.snoc target) Leaf.required]
  | .elements _ _ visits => eventsOf origin place visits
  | .repeated v => [Event.ofLeaf origin place (Leaf.repeated v)]
  | .expanded _ _ _ rules => events origin place rules
termination_by structural trace => trace

def eventsOf (origin : String) (place : DataPath) : List Trace → List Event
  | [] => []
  | t :: ts => events origin place t ++ eventsOf origin place ts
termination_by structural traces => traces

end

theorem eventsOf_eq_flatMap (origin : String) (place : DataPath) (ts : List Trace) :
    eventsOf origin place ts = ts.flatMap (events origin place) := by
  induction ts with
  | nil => rfl
  | cons t ts ih => simp [eventsOf, ih]

mutual

/-- The fact holds of every group of the trace. -/
def EachGroup (q : GroupFact) : Trace → Prop
  | .group sign tests subs => q sign tests subs ∧ EachGroupIn q subs
  | .step _ _ inner => EachGroup q inner
  | .elements _ _ visits => EachGroupIn q visits
  | .expanded _ _ _ rules => EachGroup q rules
  | .skipped .. | .absent _ | .unruled .. | .missing _ | .repeated _ => True
termination_by structural trace => trace

def EachGroupIn (q : GroupFact) : List Trace → Prop
  | [] => True
  | t :: ts => EachGroup q t ∧ EachGroupIn q ts
termination_by structural traces => traces

end

theorem eachGroupIn_iff {q : GroupFact} {ts : List Trace} :
    EachGroupIn q ts ↔ ∀ t ∈ ts, t.EachGroup q := by
  induction ts with
  | nil => simp [EachGroupIn]
  | cons t ts ih => simp [EachGroupIn, ih]

mutual

theorem eachGroup_of_forall {q : GroupFact} (h : ∀ sign tests subs, q sign tests subs) :
    (t : Trace) → t.EachGroup q
  | .group sign tests subs => ⟨h sign tests subs, eachGroupIn_of_forall h subs⟩
  | .step _ _ inner => eachGroup_of_forall h inner
  | .elements _ _ visits => eachGroupIn_of_forall h visits
  | .expanded _ _ _ rules => eachGroup_of_forall h rules
  | .skipped .. | .absent _ | .unruled .. | .missing _ | .repeated _ => trivial
termination_by structural t => t

theorem eachGroupIn_of_forall {q : GroupFact} (h : ∀ sign tests subs, q sign tests subs) :
    (ts : List Trace) → EachGroupIn q ts
  | [] => trivial
  | t :: ts => ⟨eachGroup_of_forall h t, eachGroupIn_of_forall h ts⟩
termination_by structural ts => ts

end

end Trace

end PathRules
