import PathRules.Proofs.Trace.Leaves

/-!
# What was recorded and what is reported

Observers are told of a leaf as soon as it is recorded; what is reported is decided later, when
groups are closed.  `Trace.recordings` lists everything that was recorded, and marks what was
recorded within a group of which any check may pass and which passed.  Observers are told of all
of it, in order; what is not marked is what the trace reports.
-/

namespace PathRules

/-- A leaf that was recorded, with its place as seen from the value. -/
structure Recording where
  placed : Placed
  /-- Whether it was recorded within a group of which any check may pass and which passed. -/
  dropped : Bool

namespace Recording

def below (place : DataPath) (r : Recording) : Recording :=
  { r with placed := r.placed.below place }

/-- The event that tells of a recording, from the place of the value on. -/
def event (origin : String) (place : DataPath) (r : Recording) : Event :=
  .ofLeaf origin (place ++ r.placed.place) r.placed.leaf

theorem event_below (origin : String) (place inner : DataPath) (r : Recording) :
    (r.below inner).event origin place = r.event origin (place ++ inner) := by
  simp [event, below, Placed.below, List.append_assoc]

/-- The leaves that are not dropped. -/
def kept (recordings : List Recording) : List Placed :=
  (recordings.filter (!·.dropped)).map (·.placed)

@[simp] theorem kept_append (xs ys : List Recording) : kept (xs ++ ys) = kept xs ++ kept ys := by
  simp [kept]

theorem kept_below (place : DataPath) (recordings : List Recording) :
    kept (recordings.map (below place)) = (kept recordings).map (Placed.below place) := by
  simp [kept, List.filter_map, Function.comp_def, below]

/-- The recordings of leaves, all of them dropped or none. -/
theorem kept_ofLeaves (dropped : Bool) (leaves : List Placed) :
    kept (leaves.map (⟨·, dropped⟩)) = if dropped then [] else leaves := by
  cases dropped <;> simp [kept, List.filter_map, Function.comp_def]

end Recording

/-- Whether an event tells of a leaf. -/
def Event.isLeaf (e : Event) : Bool := e.type != .pathSkipped

namespace Event

theorem type_ofLeaf (origin : String) (place : DataPath) (leaf : Leaf) :
    (ofLeaf origin place leaf).type = .errorAdded ∨
      (ofLeaf origin place leaf).type = .warningAdded := by
  unfold ofLeaf
  cases leaf.severity <;> simp

@[simp] theorem isLeaf_ofLeaf (origin : String) (place : DataPath) (leaf : Leaf) :
    (ofLeaf origin place leaf).isLeaf = true := by
  rcases type_ofLeaf origin place leaf with h | h <;> simp [isLeaf, h]

/-- Between its first and its last event a run sends such events only. -/
structure OfCheck (origin : String) (e : Event) : Prop where
  type : e.type = .errorAdded ∨ e.type = .warningAdded ∨ e.type = .pathSkipped
  origin : e.origin = origin

theorem ofCheck_ofLeaf (origin : String) (place : DataPath) (leaf : Leaf) :
    OfCheck origin (ofLeaf origin place leaf) :=
  ⟨(type_ofLeaf origin place leaf).imp_right .inl, rfl⟩

theorem ofCheck_ofSkip (origin : String) (place : DataPath) (target : Segment) (v : Value) :
    OfCheck origin (ofSkip origin place target v) := ⟨.inr (.inr rfl), rfl⟩

end Event

namespace Trace

mutual

/-- Everything that was recorded, in order.  `dropped` says whether a group around the trace has
dropped it. -/
def recordings (dropped : Bool) : Trace → List Recording
  | .group .all tests subs =>
      (failures tests).map (⟨·, dropped⟩) ++ recordingsOf dropped subs
  | .group .any tests subs =>
      let dropped := dropped || passed (.group .any tests subs)
      (failures tests).map (⟨·, dropped⟩) ++ recordingsOf dropped subs
  | .step target _ inner =>
      (recordings dropped inner).map (Recording.below (DataPath.ofSegments [target]))
  | .skipped .. | .absent _ | .unruled .. => []
  | .missing target => [⟨⟨Leaf.required, DataPath.ofSegments [target]⟩, dropped⟩]
  | .elements _ _ visits => recordingsOf dropped visits
  | .repeated v => [⟨⟨Leaf.repeated v, []⟩, dropped⟩]
  | .expanded _ _ _ rules => recordings dropped rules
termination_by structural trace => trace

def recordingsOf (dropped : Bool) : List Trace → List Recording
  | [] => []
  | t :: ts => recordings dropped t ++ recordingsOf dropped ts
termination_by structural traces => traces

end

theorem recordings_group_any (dropped : Bool) (tests : List (Option Leaf)) (subs : List Trace) :
    recordings dropped (.group .any tests subs) =
      (failures tests).map (⟨·, dropped || passed (.group .any tests subs)⟩) ++
        recordingsOf (dropped || passed (.group .any tests subs)) subs := rfl

mutual

/-- What is reported is what was recorded, but for what a group has dropped. -/
theorem kept_recordings (dropped : Bool) :
    (t : Trace) → Recording.kept (t.recordings dropped) = if dropped then [] else t.leaves
  | .group .all tests subs => by
    rw [recordings, Recording.kept_append, Recording.kept_ofLeaves, kept_recordingsOf dropped subs,
      leaves]
    cases dropped <;> simp
  | .group .any tests subs => by
    rw [recordings_group_any, Recording.kept_append, Recording.kept_ofLeaves,
      kept_recordingsOf _ subs, leaves]
    cases dropped <;> cases passed (.group .any tests subs) <;> simp
  | .step target part inner => by
    rw [recordings, Recording.kept_below, kept_recordings dropped inner, leaves]
    cases dropped <;> rfl
  | .skipped .. | .absent _ | .unruled .. => by cases dropped <;> rfl
  | .missing target => by cases dropped <;> rfl
  | .elements kind v visits => by
    rw [recordings, kept_recordingsOf dropped visits, leaves, leavesOf_eq_flatMap]
  | .repeated v => by cases dropped <;> rfl
  | .expanded registry cls v rules => kept_recordings dropped rules
termination_by structural t => t

theorem kept_recordingsOf (dropped : Bool) : (ts : List Trace) →
    Recording.kept (recordingsOf dropped ts) = if dropped then [] else ts.flatMap leaves
  | [] => by cases dropped <;> rfl
  | t :: ts => by
    rw [recordingsOf, Recording.kept_append, kept_recordings dropped t, kept_recordingsOf dropped ts]
    cases dropped <;> simp
termination_by structural ts => ts

end

theorem event_failures (origin : String) (place : DataPath) (dropped : Bool)
    (tests : List (Option Leaf)) :
    ((failures tests).map fun p => (⟨p, dropped⟩ : Recording)).map (Recording.event origin place) =
      (tests.filterMap id).map (Event.ofLeaf origin place) := by
  simp [failures, Recording.event, Function.comp_def]

theorem filter_ofLeaf (origin : String) (place : DataPath) (leaves : List Leaf) :
    (leaves.map (Event.ofLeaf origin place)).filter Event.isLeaf =
      leaves.map (Event.ofLeaf origin place) :=
  List.filter_eq_self.mpr fun _ member => by
    obtain ⟨leaf, -, rfl⟩ := List.mem_map.mp member
    exact Event.isLeaf_ofLeaf origin place leaf

mutual

/-- Observers are told of every recording, at the place that the recording has. -/
theorem events_eq_recordings (origin : String) (dropped : Bool) : (t : Trace) →
    ∀ place : DataPath, (t.events origin place).filter Event.isLeaf =
      (t.recordings dropped).map (Recording.event origin place)
  | .group .all tests subs, place => by
    rw [events, recordings, List.filter_append, List.map_append, filter_ofLeaf, event_failures,
      eventsOf_eq_recordingsOf origin dropped subs place]
  | .group .any tests subs, place => by
    rw [events, recordings_group_any, List.filter_append, List.map_append, filter_ofLeaf,
      event_failures, eventsOf_eq_recordingsOf origin _ subs place]
  | .step target part inner, place => by
    rw [events, recordings, events_eq_recordings origin dropped inner, DataPath.snoc_eq_append,
      List.map_map]
    exact List.map_congr_left fun r _ => (Recording.event_below origin place _ r).symm
  | .skipped .., _ | .absent _, _ | .unruled .., _ => rfl
  | .missing target, place => by
    simp [events, recordings, Recording.event, DataPath.snoc_eq_append]
  | .elements kind v visits, place => eventsOf_eq_recordingsOf origin dropped visits place
  | .repeated v, place => by simp [events, recordings, Recording.event]
  | .expanded registry cls v rules, place => events_eq_recordings origin dropped rules place
termination_by structural t => t

theorem eventsOf_eq_recordingsOf (origin : String) (dropped : Bool) : (ts : List Trace) →
    ∀ place : DataPath, (eventsOf origin place ts).filter Event.isLeaf =
      (recordingsOf dropped ts).map (Recording.event origin place)
  | [], _ => rfl
  | t :: ts, place => by
    rw [eventsOf, recordingsOf, List.filter_append, List.map_append,
      events_eq_recordings origin dropped t place, eventsOf_eq_recordingsOf origin dropped ts place]
termination_by structural ts => ts

end

mutual

/-- Each event tells of a leaf or of a step that was not taken. -/
theorem events_ofCheck (origin : String) : (t : Trace) →
    ∀ place : DataPath, ∀ e ∈ t.events origin place, e.OfCheck origin
  | .group sign tests subs, place, e, he => by
    rw [events] at he
    rcases List.mem_append.mp he with own | nested
    · obtain ⟨leaf, -, rfl⟩ := List.mem_map.mp own
      exact Event.ofCheck_ofLeaf origin place leaf
    · exact eventsOf_ofCheck origin subs place e nested
  | .step target part inner, place, e, he => events_ofCheck origin inner _ e he
  | .skipped target v, place, e, he => by
    rw [List.mem_singleton.mp he]
    exact Event.ofCheck_ofSkip origin place target v
  | .absent _, _, _, he | .unruled .., _, _, he => nomatch he
  | .missing _, _, e, he | .repeated _, _, e, he => by
    rw [List.mem_singleton.mp he]
    exact Event.ofCheck_ofLeaf origin _ _
  | .elements kind v visits, place, e, he => eventsOf_ofCheck origin visits place e he
  | .expanded registry cls v rules, place, e, he => events_ofCheck origin rules place e he
termination_by structural t => t

theorem eventsOf_ofCheck (origin : String) : (ts : List Trace) →
    ∀ place : DataPath, ∀ e ∈ eventsOf origin place ts, e.OfCheck origin
  | [], _, _, he => nomatch he
  | t :: ts, place, e, he => by
    rcases List.mem_append.mp he with first | later
    · exact events_ofCheck origin t place e first
    · exact eventsOf_ofCheck origin ts place e later
termination_by structural ts => ts

end

mutual

/-- No group of the trace is one of which any check may pass. -/
def AllGroups : Trace → Prop
  | .group sign _ subs => sign = .all ∧ AllGroupsIn subs
  | .step _ _ inner => AllGroups inner
  | .elements _ _ visits => AllGroupsIn visits
  | .expanded _ _ _ rules => AllGroups rules
  | .skipped .. | .absent _ | .unruled .. | .missing _ | .repeated _ => True
termination_by structural trace => trace

def AllGroupsIn : List Trace → Prop
  | [] => True
  | t :: ts => AllGroups t ∧ AllGroupsIn ts
termination_by structural traces => traces

end

mutual

/-- Only a group of which any check may pass drops what was recorded. -/
theorem recordings_of_allGroups : (t : Trace) → t.AllGroups →
    t.recordings false = t.leaves.map (⟨·, false⟩)
  | .group .all tests subs, h => by
    rw [recordings, recordingsOf_of_allGroups subs h.2, leaves, leavesOf_eq_flatMap, List.map_append]
  | .group .any tests subs, h => nomatch h.1
  | .step target part inner, h => by
    rw [recordings, recordings_of_allGroups inner h, leaves, List.map_map, List.map_map]
    rfl
  | .skipped .., _ | .absent _, _ | .unruled .., _ | .missing _, _ | .repeated _, _ => rfl
  | .elements kind v visits, h => by
    rw [recordings, recordingsOf_of_allGroups visits h, leaves, leavesOf_eq_flatMap]
  | .expanded registry cls v rules, h => recordings_of_allGroups rules h
termination_by structural t => t

theorem recordingsOf_of_allGroups : (ts : List Trace) → AllGroupsIn ts →
    recordingsOf false ts = (ts.flatMap leaves).map (⟨·, false⟩)
  | [], _ => rfl
  | t :: ts, h => by
    rw [recordingsOf, recordings_of_allGroups t h.1, recordingsOf_of_allGroups ts h.2]
    simp
termination_by structural ts => ts

end

end Trace

end PathRules
