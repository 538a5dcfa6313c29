import PathRules.Proofs.Model.Expanding
import PathRules.Proofs.Run.Meaning

/-!
# The guard against cycles

What a run of a model validation explores, its outcome tells: `Guarded` lists what is expanded and
what is reported as met again, and how the two are counted along the relations of instances.
-/

namespace PathRules

variable {g : ObjectGraph}

/-- The run once observers were told that it starts. -/
def Validation.started (g : ObjectGraph) (validation : Validation) (v : Value) (run : Run) : Run :=
  ((RunM.emit .started [("value", v), ("validation", .str validation.className)]).runOn g run).2

theorem Validation.started_eq (validation : Validation) (v : Value) (run : Run) :
    ∃ events, validation.started g v run = { run with events } :=
  ⟨_, congrArg Prod.snd (RunM.runOn_emit .started _ run)⟩

/-- What is reported of an evaluation that left a node at the root. -/
theorem Validation.runOn_reporting {validation : Validation} {v : Value} {evaluation : RunM Bool}
    {run after : Run} {passed : Bool} {node : Option (Node Leaf)}
    (ran : evaluation.runOn g (validation.started g v run) = (.ok passed, after))
    (stack : after.stack = { root := node }) :
    ∃ done, (validation.reporting v evaluation).runOn g run =
        (.ok (outcomeOf v passed ((Node.path .this node).placed [])), done) ∧
      done.store = after.store := by
  have finished : RunM.finish.runOn g after = (.ok (.path .this node), after) := by
    simp [RunM.finish, RunM.runOn_bind, stack, Stack.tree]
  have emitted : (RunM.emit .started [("value", v), ("validation", .str validation.className)]).runOn
      g run = (.ok (), validation.started g v run) := rfl
  unfold reporting
  rw [RunM.runOn_bind, emitted]
  dsimp only
  rw [RunM.runOn_bind, ran]
  dsimp only
  rw [RunM.runOn_bind, finished]
  dsimp only
  rw [RunM.runOn_bind, RunM.runOn_modify]
  refine ⟨_, RunM.runOn_pure _ _, ?_⟩
  split <;> rfl

/-- As many models can be nested as there are objects. -/
theorem ObjectGraph.unseen_lt_expansions (g : ObjectGraph) (seen : List Value) (v : Value)
    (sources : List (List Value)) : g.unseen seen < g.expansions v sources := by
  have objects : g.unseen seen ≤ g.objects.size := by
    simpa [unseen] using List.length_filter_le _ (List.range g.objects.size)
  have within : g.objects.size ≤ (g.within v sources).length := by
    simp [ObjectGraph.within]
    omega
  unfold expansions
  omega

/-- What the guard against cycles makes of a run on an instance of a class: whom it meets, which
rules it applies, and what the outcome is. -/
structure Guarded (g : ObjectGraph) (schema : Schema) (registry : Registry) (P : Applied → Prop)
    (start : Arrival) (met : List Meeting) (applied : List Applied) (outcome : Outcome) : Prop where
  /-- A value is expanded if and only if it is met for the first time. -/
  first_iff (before : List Meeting) (m : Meeting) (later : List Meeting) :
    met = before ++ m :: later → (m.first = true ↔ ∀ earlier ∈ before, earlier.value ≠ m.value)
  /-- Nothing is expanded twice. -/
  nodup : ((Meeting.firsts met).map (·.value)).Nodup
  /-- Whom it meets are those that the relations of expanded instances lead to, with the class that
  the relation declares. -/
  arrivals : (met.map Meeting.arrival).Perm
    (start :: (Meeting.firsts met).flatMap fun m => g.edges schema m.arrival)
  instances : ∀ m ∈ met, g.HasInstance m.cls m.value
  /-- All that relations lead to from expanded instances is expanded. -/
  reached (b : Value) : Relation.ReflTransGen (Explores.Leads (g.edges schema) met) start.value b →
    ∃ m ∈ Meeting.firsts met, m.value = b
  /-- The rules of each expanded instance are applied, each once, whether others fail or not. -/
  applications : (applied.map Applied.toApplication).Perm
    ((Meeting.firsts met).flatMap fun m => Task.applications (g.tasks schema registry m.arrival))
  results : ∀ a ∈ applied, P a
  isAccepted_iff : outcome.isAccepted = true ↔
    (∀ a ∈ applied, a.passed = true) ∧ Meeting.repeats met = []
  /-- Besides what rules left there is one leaf for each repeat. -/
  failures : outcome.isAccepted = false → (outcome.failures.map (·.leaf)).Perm
    (applied.flatMap (·.leaves) ++ (Meeting.repeats met).map fun m => .repeated m.value)
  /-- There is one repeat for each edge that leaves an expanded instance, but for those edges by
  which all expanded instances but the first were met. -/
  repeats : (Meeting.repeats met).length + (Meeting.firsts met).length =
    ((Meeting.firsts met).flatMap fun m => g.edges schema m.arrival).length + 1

section Counting

variable {run : Run} {name cls : String} {v : Value} {I : Store → Prop} {P : Applied → Prop}

/-- What was explored from one instance on has been expanded, and the store holds nothing else. -/
theorem Explored.visited {book : Rulebook} {a : Arrival} {before after : Run} {passed : Bool}
    {f : Findings} (h : Explored g book name I P [] [.meet a] before passed f after) :
    f.seen = (Meeting.firsts f.met).map (·.value) ∧
      after.store.get? visitedKey = some (.set f.seen) := by
  have seen : f.seen = (Meeting.firsts f.met).map (·.value) := h.explores.after_eq
  obtain ⟨m, expanded, -⟩ := h.explores.reached .refl
  refine ⟨seen, h.ready.tracks.resolve_right fun none => ?_⟩
  rw [seen, List.map_eq_nil_iff] at none
  exact List.ne_nil_of_mem expanded none.2

/-- The whole run of a model validation explores from the instance on, and its outcome says so. -/
theorem validate_explores (fresh : run.stack = {}) (unvisited : run.store.get? visitedKey = none)
    (holds : I run.store) (notes : ∀ store seen, I store → I (store.put visitedKey (.set seen)))
    (current : (run.rulebook.registry name).Current run.rulebook.schema name)
    (behaves : (run.rulebook.registry name).Behaves g run.rulebook.schema I P)
    (typed : g.Typed run.rulebook.schema) (isInstance : g.HasInstance cls v) :
    ∃ outcome after passed f,
      ((Validation.model name cls).validate v).runOn g run = (.ok outcome, after) ∧
      after.store.get? visitedKey = some (.set f.seen) ∧
      outcome = Validation.outcomeOf v passed ((Node.path .this f.node).placed []) ∧
      ∃ before done, Explored g run.rulebook name I P [] [.meet ⟨cls, v⟩] before passed f done := by
  obtain ⟨events, started⟩ := (Validation.model name cls).started_eq (g := g) v run
  obtain ⟨passed, f, after, ran, explored⟩ := expandModel_discovers typed notes current behaves
    (g.expansions v run.store.sources) isInstance { run with events } [] (by rw [fresh]; rfl)
    ⟨.inr ⟨unvisited, rfl⟩, holds, .refl _⟩ (g.unseen_lt_expansions _ _ _)
  have checked : ((Validation.model name cls).check v).runOn g
      ((Validation.model name cls).started g v run) = (.ok passed, after) := by
    rw [started, Validation.runOn_check, Validation.evaluate]
    exact ran
  have root : after.stack = { root := f.node } := by
    rw [explored.stack_eq, fresh, Stack.receive_empty]
  obtain ⟨done, reported, store⟩ := Validation.runOn_reporting checked root
  refine ⟨_, done, passed, f, reported, ?_, rfl, _, after, explored⟩
  rw [store]
  exact explored.visited.2

/-- What was explored from one instance on, as the outcome tells it. -/
theorem Explored.guarded {book : Rulebook} {before after : Run} {passed : Bool} {f : Findings}
    (h : Explored g book name I P [] [.meet ⟨cls, v⟩] before passed f after)
    (typed : g.Typed book.schema) (isInstance : g.HasInstance cls v) :
    Guarded g book.schema (book.registry name) P ⟨cls, v⟩ f.met f.applied
      (Validation.outcomeOf v passed ((Node.path .this f.node).placed [])) := by
  have edges : Task.arrivals ∘ g.tasks book.schema (book.registry name) = g.edges book.schema :=
    funext fun a => ObjectGraph.arrivals_tasks ..
  have marked := h.explores.marked
  refine
    { first_iff := fun _ _ _ => marked.first_iff
      nodup := marked.nodup.1
      arrivals := ?_
      instances := ?_
      reached := fun b leads => h.explores.reached (edges ▸ leads)
      applications := h.explores.applications_perm
      results := h.applied
      isAccepted_iff := by
        rw [Validation.isAccepted_outcomeOf]
        exact h.passed_iff
      failures := ?_
      repeats := ?_ }
  · simpa [ObjectGraph.arrivals_tasks] using h.explores.arrivals_perm
  · refine h.explores.forall_met (Q := fun a => g.HasInstance a.cls a.value) ?_ ?_
    · intro a known b task
      refine typed.hasInstance_of_mem_edges known ?_
      rw [← edges]
      exact List.mem_filterMap.mpr ⟨_, task, rfl⟩
    · intro a only
      cases List.mem_singleton.mp only
      exact isInstance
  · rw [Validation.isAccepted_outcomeOf]
    rintro rfl
    have leaves : (Node.path Via.this f.node).leaves = Node.leavesOf f.node.toList := by
      cases f.node <;> simp [Node.leaves, Node.leavesBelow, Node.leavesOf]
    change ((Node.placed [] (Node.path .this f.node)).leaves.map (·.leaf)).Perm _
    rw [Node.leaves_placed, leaves]
    exact h.leaves
  · simpa [ObjectGraph.arrivals_tasks] using h.explores.repeats_length

/-- If no rule leaves such an error, the errors that read as repeats are the repeats. -/
theorem Guarded.errors {schema : Schema} {registry : Registry} {start : Arrival}
    {met : List Meeting} {applied : List Applied} {outcome : Outcome}
    (h : Guarded g schema registry P start met applied outcome)
    (differs : ∀ a ∈ applied, ∀ leaf ∈ a.leaves, leaf.message ≠ "already validated") :
    (outcome.failures.filter fun p => p.isError && p.leaf.message == "already validated").length =
      (Meeting.repeats met).length := by
  cases accepted : outcome.isAccepted with
  | true =>
    rw [(h.isAccepted_iff.mp accepted).2]
    cases outcome with
    | accepted => rfl
    | rejected => cases accepted
  | false =>
    let reads (leaf : Leaf) : Bool := leaf.severity == .error && leaf.message == "already validated"
    have none : (applied.flatMap (·.leaves)).filter reads = [] :=
      List.filter_eq_nil_iff.mpr fun leaf member => by
        obtain ⟨a, listed, left⟩ := List.mem_flatMap.mp member
        simp [reads, differs a listed leaf left]
    have all : ((Meeting.repeats met).map fun m => Leaf.repeated m.value).filter reads =
        (Meeting.repeats met).map fun m => Leaf.repeated m.value := by
      refine List.filter_eq_self.mpr fun leaf member => ?_
      obtain ⟨m, -, rfl⟩ := List.mem_map.mp member
      simp [reads, Leaf.repeated]
    have filtered := ((h.failures accepted).filter reads).length_eq
    rw [List.filter_append, none, all, List.nil_append, List.length_map, List.filter_map,
      List.length_map] at filtered
    exact filtered

/-- The guard against cycles counts the graph.  A value is expanded if and only if it is met for
the first time, with the class that the relation declares by which it was met, and nothing is
expanded twice.  All that relations lead to from expanded instances is expanded, also where rules
fail; the store holds the expanded instances in the order of a depth-first exploration.  As long as
rules do not say so themselves, the errors that an instance was validated already are as many as the
edges that leave expanded instances, less one for each expanded instance but the first. -/
theorem cycle_guard_counts_edges (g : ObjectGraph) (run : Run) (name cls : String) (v : Value)
    (fresh : run.stack = {}) (unvisited : run.store.get? visitedKey = none)
    (holds : I run.store) (notes : ∀ store seen, I store → I (store.put visitedKey (.set seen)))
    (current : (run.rulebook.registry name).Current run.rulebook.schema name)
    (behaves : (run.rulebook.registry name).Behaves g run.rulebook.schema I P)
    (typed : g.Typed run.rulebook.schema) (isInstance : g.HasInstance cls v) :
    ∃ outcome after met applied,
      ((Validation.model name cls).validate v).runOn g run = (.ok outcome, after) ∧
      Explores name (g.tasks run.rulebook.schema (run.rulebook.registry name)) [] [.meet ⟨cls, v⟩]
        met applied ((Meeting.firsts met).map (·.value)) ∧
      after.store.get? visitedKey = some (.set ((Meeting.firsts met).map (·.value))) ∧
      Guarded g run.rulebook.schema (run.rulebook.registry name) P ⟨cls, v⟩ met applied outcome ∧
      ((∀ a ∈ applied, ∀ leaf ∈ a.leaves, leaf.message ≠ "already validated") →
        (outcome.failures.filter fun p =>
            p.isError && p.leaf.message == "already validated").length +
            (Meeting.firsts met).length =
          ((Meeting.firsts met).flatMap fun m =>
            g.edges run.rulebook.schema m.arrival).length + 1) := by
  obtain ⟨outcome, after, passed, f, ran, visited, rfl, _, _, explored⟩ :=
    validate_explores fresh unvisited holds notes current behaves typed isInstance
  have guarded := explored.guarded typed isInstance
  have seen := explored.visited.1
  refine ⟨_, after, f.met, f.applied, ran, seen ▸ explored.explores, seen ▸ visited, guarded,
    fun differs => ?_⟩
  rw [guarded.errors differs, guarded.repeats]

end Counting

/-- Two nodes that refer to each other. -/
def ring : ObjectGraph where
  objects := #[⟨"Node", true, [("to", .object 1)], []⟩, ⟨"Node", true, [("to", .object 0)], []⟩]

/-- A part that no value has. -/
def nameless : Validation :=
  .step .required [] (.property "name" Extract.nothing) (.object [] [] false false)

/-- Every node is rejected for the want of a name, and nodes refer to nodes. -/
def ringRules : Rulebook where
  schema := [⟨"Node", ["Node"], [("to", .model "Node")], by decide⟩]
  registries := [("main", { classRules := [("Node", [nameless])] })]

theorem ring_hasInstance {cls : String} {v : Value} :
    ring.HasInstance cls v ↔ cls = "Node" ∧ (v = .object 0 ∨ v = .object 1) := by
  constructor
  · rintro ⟨ref, o, rfl, found, member⟩
    match ref with
    | 0 =>
      obtain rfl := Option.some.inj found
      exact ⟨List.mem_singleton.mp member, .inl rfl⟩
    | 1 =>
      obtain rfl := Option.some.inj found
      exact ⟨List.mem_singleton.mp member, .inr rfl⟩
    | ref + 2 => cases found
  · rintro ⟨rfl, rfl | rfl⟩
    · exact ⟨0, _, rfl, rfl, List.mem_singleton_self _⟩
    · exact ⟨1, _, rfl, rfl, List.mem_singleton_self _⟩

theorem ring_followAttributes :
    (Value.object 0).followAttributes ring "to" = .ok (.object 1) ∧
      (Value.object 1).followAttributes ring "to" = .ok (.object 0) :=
  ⟨rfl, rfl⟩

theorem ring_typed : ring.Typed ringRules.schema := by
  refine ⟨fun h declared relates _ => ?_, fun h declared relates many => ?_⟩
  all_goals
    obtain ⟨rfl, node⟩ := ring_hasInstance.mp h
    obtain rfl := List.mem_singleton.mp declared
    cases relates
  · rcases node with rfl | rfl
    · exact ⟨_, ring_followAttributes.1, .inr (ring_hasInstance.mpr ⟨rfl, .inr rfl⟩)⟩
    · exact ⟨_, ring_followAttributes.2, .inr (ring_hasInstance.mpr ⟨rfl, .inl rfl⟩)⟩
  · cases many

theorem ringRules_behaves : (ringRules.registry "main").Behaves ring ringRules.schema
    (fun _ => True) fun a => ∀ leaf ∈ a.leaves, leaf.message ≠ "already validated" where
  classRules := by
    intro cls rule v member h
    obtain ⟨rfl, -⟩ := ring_hasInstance.mp h
    obtain rfl : rule = nameless := List.mem_singleton.mp member
    refine Validation.behaves_of_traces ⟨trivial, trivial, by simp, trivial⟩
      ⟨trivial, fun _ => .any _, ⟨by simp, trivial⟩⟩ fun store _ => ?_
    refine ⟨.missing (.property "name" Extract.nothing), store, rfl, fun leaf listed => ?_, rfl,
      trivial⟩
    rw [List.mem_singleton.mp listed]
    decide
  fieldRules := by
    intro cls field rule v _ member
    obtain ⟨c, -, registered⟩ := List.mem_flatMap.mp member
    cases registered

/-- Every node of the ring leads to one node. -/
theorem length_edges_ring {a : Arrival} (h : ring.HasInstance a.cls a.value) :
    (ring.edges ringRules.schema a).length = 1 := by
  obtain ⟨cls, v⟩ := a
  obtain ⟨rfl, node⟩ := ring_hasInstance.mp h
  have fields : ringRules.schema.fields "Node" = [("to", .model "Node")] := rfl
  have relation : (FieldType.model "Node").relation? = some ⟨"Node", false⟩ := rfl
  rcases node with rfl | rfl <;>
    simp [ObjectGraph.edges, fields, relation, ObjectGraph.along, ring_followAttributes,
      Relation.arrivals]

/-- In a ring of two nodes that are both rejected, one is met again. -/
theorem cycle_guard_counts_ring :
    (Value.object 0).followAttributes ring "to" = .ok (.object 1) ∧
      (Value.object 1).followAttributes ring "to" = .ok (.object 0) ∧
      ∃ outcome after,
        ((Validation.model "main" "Node").validate (.object 0)).runOn ring
          { rulebook := ringRules } = (.ok outcome, after) ∧
        (outcome.failures.filter fun p =>
          p.isError && p.leaf.message == "already validated").length = 1 := by
  obtain ⟨outcome, after, met, applied, ran, -, -, guarded, errors⟩ :=
    cycle_guard_counts_edges ring { rulebook := ringRules } "main" "Node" (.object 0) rfl rfl trivial
      (fun _ _ _ => trivial)
      (Registry.current_of_empty rfl) ringRules_behaves ring_typed
      (ring_hasInstance.mpr ⟨rfl, .inl rfl⟩)
  refine ⟨ring_followAttributes.1, ring_followAttributes.2, outcome, after, ran, ?_⟩
  have edges : ((Meeting.firsts met).flatMap fun m =>
      ring.edges ringRules.schema m.arrival).length = (Meeting.firsts met).length := by
    have each : ∀ m ∈ Meeting.firsts met, (ring.edges ringRules.schema m.arrival).length = 1 :=
      fun m member => length_edges_ring (a := m.arrival)
        (guarded.instances m (List.mem_of_mem_filter member))
    rw [List.length_flatMap, List.map_congr_left each]
    simp
  have count : _ = ((Meeting.firsts met).flatMap fun m =>
      ring.edges ringRules.schema m.arrival).length + 1 := errors guarded.results
  omega

end PathRules
