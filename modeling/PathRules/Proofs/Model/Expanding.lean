import PathRules.Proofs.Model.Discovers
import PathRules.Proofs.Model.Schedule
import PathRules.Proofs.Model.Termination
import PathRules.Proofs.Run.Simulation

/-!
# Expanding models

The rules of a class explore what its relations lead to, and models expand each instance that is
met for the first time.  The rules are black boxes that do what every validation has to.
-/

namespace PathRules

variable {g : ObjectGraph}

/-- A validation does with a value what every validation has to do, from stores that satisfy `I`.
It contains no models, it returns, it leaves the open nodes as they were but for what it attached,
and it leaves the visited alone.  What comes of it satisfies `P`. -/
structure Validation.Behaves (g : ObjectGraph) (I : Store → Prop) (P : Applied → Prop)
    (rule : Validation) (v : Value) : Prop where
  plain : rule.Keeps g (fun _ _ => True) False
  returns (run : Run) (below : Stack) (children : List (Node Leaf)) :
    run.stack = below.push (.group .all true children) → I run.store →
      ∃ passed nodes after, (rule.check v).runOn g run = (.ok passed, after) ∧
        after.stack = below.push (.group .all true (children ++ nodes)) ∧
        P ⟨⟨rule, v⟩, passed, Node.leavesOf nodes⟩ ∧
        after.store.get? visitedKey = run.store.get? visitedKey ∧ I after.store

/-- The rules that apply to a class behave on its instances, and those for a field on what
instances have there. -/
structure Registry.Behaves (g : ObjectGraph) (schema : Schema) (I : Store → Prop)
    (P : Applied → Prop) (registry : Registry) : Prop where
  classRules {cls : String} {rule : Validation} {v : Value} :
    rule ∈ registry.rulesForClass schema cls → g.HasInstance cls v → rule.Behaves g I P v
  fieldRules {cls : String} {field : String × FieldType} {rule : Validation} {v : Value} :
    field ∈ schema.fields cls → rule ∈ registry.rulesForField schema cls field.1 →
      g.HasInstance cls v →
        ∃ part, v.followAttributes g field.1 = .ok part ∧ rule.Behaves g I P part

/-- The same run twice, with the given rulebook. -/
structure SameRun (book : Rulebook) (run run' : Run) : Prop where
  same : run' = run
  rulebook_eq : run.rulebook = book

theorem SameRun.congruence {book : Rulebook} : Congruence (fun _ _ => True) (SameRun book) := by
  refine .of_rulebook (fun related => by rw [related.same]) ?_
  rintro run run' after ⟨rfl, rulebook⟩ - - kept
  exact ⟨by rw [← kept], kept.trans rulebook⟩

/-- A validation without models does not ask how they are expanded, and compiles no rules. -/
theorem Validation.Keeps.evaluate_eq {rule : Validation}
    (plain : rule.Keeps g (fun _ _ => True) False) (expand expand' : Expand) (v : Value)
    (run : Run) :
    (rule.evaluate expand v).runOn g run = (rule.evaluate expand' v).runOn g run ∧
      ((rule.evaluate expand v).runOn g run).2.rulebook = run.rulebook := by
  have lockstep : Lockstep g (SameRun run.rulebook) (rule.evaluate expand v)
      (rule.evaluate expand' v) :=
    evaluate_lockstep SameRun.congruence Store.Permits.any False.elim rule plain v
  obtain ⟨same, left⟩ := lockstep run run ⟨rfl, rfl⟩
  exact ⟨Prod.ext same left.same.symm, left.rulebook_eq⟩

/-- A validation without scripts behaves if it comes to a trace, of which `P` holds, and leaves the
visited alone. -/
theorem Validation.behaves_of_traces {rule : Validation} {v : Value} {I : Store → Prop}
    {P : Applied → Prop} (made : rule.MadeOf .any) (plain : rule.Keeps g (fun _ _ => True) False)
    (traces : ∀ store, I store → ∃ t after,
      (rule.traceWith (fun _ _ _ => throw .endless) v).runOn g store = (.ok t, after) ∧
        P ⟨⟨rule, v⟩, t.passed, t.leaves.map (·.leaf)⟩ ∧
        after.get? visitedKey = store.get? visitedKey ∧ I after) :
    rule.Behaves g I P v where
  plain := plain
  returns run below children onTop holds := by
    have isOpen : run.stack.isOpen = true := by rw [onTop]; rfl
    have tells : Told g (run.rulebook.rules g) (rule.evaluate (fun _ _ _ => throw .endless) v)
        (rule.traceWith (fun _ _ _ => throw .endless) v) :=
      evaluate_told (fun _ _ _ _ _ _ => Follows.of_throw .endless) rule made v
    have told := tells run isOpen rfl
    obtain ⟨t, store, traced, satisfied, visited⟩ := traces run.store holds
    unfold Follows at told
    rw [traced] at told
    rcases ran : (rule.evaluate (fun _ _ _ => throw .endless) v).runOn g run with
      ⟨fault | passed, after⟩ <;> rw [ran] at told
    · exact told.elim
    · obtain ⟨rfl, rfl, advanced⟩ := told
      refine ⟨t.passed, t.node.toList.flatMap (·.splicedInto .all), after, ?_, ?_, ?_, visited⟩
      · rw [Validation.runOn_check, (plain.evaluate_eq _ _ v run).1]
        exact ran
      · rw [advanced.stack_eq, onTop, Stack.receive_push_group]
      · have recorded : t.leaves.map (·.leaf) = Node.leavesOf t.node.toList := by
          have placed := congrArg (List.map (·.leaf)) (t.leaves_node [])
          rw [Node.leavesOf_placedAll, List.map_map] at placed
          exact placed.symm
        rwa [leavesOf_received, ← recorded]

section Models

variable {book : Rulebook} {name : String} {I : Store → Prop} {P : Applied → Prop} {fuel : Nat}
  {expand : Expand}

/-- A rule without models is applied and nothing else, however models are expanded. -/
theorem Validation.Behaves.discovers {rule : Validation} {v : Value} (h : rule.Behaves g I P v) :
    Discovers g book name I P Stack.InGroup fuel [.apply ⟨rule, v⟩] (rule.evaluate expand v) := by
  rintro run seen ⟨below, children, onTop⟩ ready few
  obtain ⟨passed, nodes, after, ran, stack, satisfied, visited, holds⟩ :=
    h.returns run below children onTop ready.holds
  rw [Validation.runOn_check] at ran
  obtain ⟨same, rulebook⟩ := h.plain.evaluate_eq expand
    (expandModel (g.expansions v run.store.sources)) v run
  have alike := same.trans ran
  rw [alike] at rulebook
  let applied : Applied := ⟨⟨rule, v⟩, passed, Node.leavesOf nodes⟩
  refine ⟨passed, { applied := [applied], node := some (.group .all nodes), seen }, after, alike,
    ?_⟩
  exact
    { explores := .apply applied (.done seen)
      ready :=
        { tracks := by
            rw [Store.Tracks, visited]
            exact ready.tracks
          holds := holds
          extended := rulebook ▸ ready.extended }
      stack_eq := by
        rw [stack, onTop, Stack.receive_push_group]
        simp [Node.splicedInto]
      leaves := by simp [Node.leavesOf, Node.leaves, Meeting.repeats, applied]
      applied := List.forall_mem_singleton.mpr satisfied
      passed_iff := by simp [Meeting.repeats, applied] }

/-- Instances of typed data have what is checked of them. -/
theorem Registry.Behaves.fits {registry : Registry} {schema : Schema} {cls : String} {v : Value}
    (behaves : registry.Behaves g schema I P) (typed : g.Typed schema)
    (isInstance : g.HasInstance cls v) : registry.Fits g schema cls v where
  checked declared checked := by
    obtain ⟨rule, registered⟩ := List.exists_mem_of_ne_nil _ checked
    obtain ⟨part, taken, -⟩ := behaves.fieldRules declared registered isInstance
    exact ⟨part, taken⟩
  related declared relates := by
    obtain ⟨part, taken, holds⟩ := typed.taken isInstance declared relates
    refine ⟨part, taken, fun many present => ?_⟩
    obtain ⟨items, found, -⟩ := (holds present).2 many
    exact ⟨items, found⟩

theorem forall₂_flatMap {α β γ : Type} {R : β → γ → Prop} {f : α → List β} {f' : α → List γ}
    {as : List α} (h : ∀ a ∈ as, List.Forall₂ R (f a) (f' a)) :
    List.Forall₂ R (as.flatMap f) (as.flatMap f') := by
  have same : List.Forall₂ (fun a b => a = b ∧ a ∈ as) as as :=
    List.forall₂_same.mpr fun a member => ⟨rfl, member⟩
  refine List.rel_flatMap same ?_
  rintro a _ ⟨rfl, member⟩
  exact h a member

section Turns

variable {cls : String} {v : Value} {registry : Registry}

/-- A turn explores along a task. -/
abbrev Performs (g : ObjectGraph) (book : Rulebook) (name : String) (I : Store → Prop)
    (P : Applied → Prop) (fuel : Nat) (expand : Expand) (task : Task) (turn : Turn) : Prop :=
  Discovers g book name I P Stack.InGroup fuel [task] (turn.rule.evaluate expand turn.value)

/-- A rule that behaves from any store returns. -/
theorem Validation.Behaves.to_returns {rule : Validation} {v : Value}
    (h : rule.Behaves g (fun _ => True) P v) : rule.Returns g expand v := by
  intro run below children
  obtain ⟨passed, nodes, after, ran, stack, -⟩ :=
    h.returns { run with stack := below.push (.group .all true children) } below children rfl
      trivial
  refine ⟨passed, nodes, after, ?_, stack⟩
  rw [Validation.runOn_check] at ran
  exact (h.plain.evaluate_eq expand _ v _).1.trans ran

/-- Rules are applied in their turns. -/
theorem each_performs {rules : List Validation} (h : ∀ rule ∈ rules, rule.Behaves g I P v)
    (place : DataPath) : List.Forall₂ (Performs g book name I P fuel expand)
      (rules.map fun rule => .apply ⟨rule, v⟩) (Turn.each rules v place) := by
  rw [Turn.each, List.forall₂_map_left_iff, List.forall₂_map_right_iff]
  exact List.forall₂_same.mpr fun rule member => (h rule member).discovers

variable (models : ∀ cls a, g.HasInstance cls a →
    Discovers g book name I P (·.isOpen = true) fuel [.meet ⟨cls, a⟩] (expand name cls a))

include models

/-- Whom a relation leads to is met in the turns of the relation. -/
theorem relation_performs {relation : Relation} {part : Value} (holds : part ≠ .null →
      (relation.isCollection = false → g.HasInstance relation.target part) ∧
      (relation.isCollection = true → ∃ items, part.items? g = some items ∧
        ∀ a ∈ items, g.HasInstance relation.target a)) (place : DataPath) :
    List.Forall₂ (Performs g book name I P fuel expand)
      ((relation.arrivals g part).map .meet) (relation.turns g name part place) := by
  by_cases absent : part = .null
  · subst absent
    exact .nil
  rw [relation.arrivals_eq absent, relation.turns_eq absent]
  cases many : relation.isCollection with
  | false => exact .cons (Discovers.inGroup (models _ _ ((holds absent).1 many))) .nil
  | true =>
    obtain ⟨items, found, instances⟩ := (holds absent).2 many
    rw [if_pos rfl, if_pos rfl, found, Option.getD_some, List.map_map,
      List.forall₂_map_left_iff, List.forall₂_iff_get]
    refine ⟨by simp, fun index present present' => ?_⟩
    simp only [List.get_eq_getElem, List.getElem_mapIdx]
    exact Discovers.inGroup (models _ _ (instances _ (List.getElem_mem present)))

/-- What there is to do for an instance is done in the turns of its schedule. -/
theorem turnsFor_performs (typed : g.Typed book.schema)
    (behaves : registry.Behaves g book.schema I P) (isInstance : g.HasInstance cls v)
    (place : DataPath) : List.Forall₂ (Performs g book name I P fuel expand)
      (g.tasks book.schema registry ⟨cls, v⟩)
      (Registry.turnsFor g book.schema name registry cls v place) := by
  refine List.rel_append (forall₂_flatMap fun field declared => List.rel_append ?_ ?_)
    (each_performs (fun rule registered => behaves.classRules registered isInstance) place)
  · by_cases unchecked : registry.rulesForField book.schema cls field.1 = []
    · simp [unchecked]
    · obtain ⟨part, taken⟩ := (behaves.fits typed isInstance).checked declared unchecked
      rw [g.turnsAt_eq taken, g.ruleTasks_eq _ taken]
      refine each_performs (fun rule registered => ?_) _
      obtain ⟨other, read, behaved⟩ := behaves.fieldRules declared registered isInstance
      obtain rfl : other = part := Except.ok.inj (read.symm.trans taken)
      exact behaved
  · rw [List.map_flatMap]
    refine forall₂_flatMap fun relation present => ?_
    have relates : field.2.relation? = some relation := Option.mem_toList.mp present
    obtain ⟨part, taken, holds⟩ := typed.taken isInstance declared relates
    rw [g.turnsAt_eq taken, ObjectGraph.along_eq relation taken]
    exact relation_performs models holds _

/-- The validation that a class compiles to does what it takes to expand an instance. -/
theorem form_discovers (typed : g.Typed book.schema) (behaves : registry.Behaves g book.schema I P)
    (isInstance : g.HasInstance cls v) :
    Discovers g book name I P (·.isOpen = true) fuel (g.tasks book.schema registry ⟨cls, v⟩)
      ((Registry.form book.schema name registry cls).evaluate expand v) :=
  (Registry.form_takes (behaves.fits typed isInstance)).discovers
    (turnsFor_performs models typed behaves isInstance)

end Turns

variable {cls : String} {v : Value}

namespace Ready

variable {seen : List Value} {run : Run}

/-- The rules that are found for a class are those of the registry. -/
theorem compiled (ready : Ready g book I seen run)
    (current : (book.registry name).Current book.schema name) (cls : String) :
    (run.rulebook.compiled g name cls).1 =
      some (Registry.form book.schema name (book.registry name) cls) := by
  have extended := ready.extended.registry name
  rw [Rulebook.compiled_fst, Rulebook.rules, ready.extended.schema_eq,
    (extended.current current).rules_eq, Registry.form_congr extended.sameRules]

end Ready

section Expanding

variable (run : Run) {seen : List Value}

/-- A value that was met before is a repeat. -/
theorem expandMet_again (lookUp : LookUp) (nested : Expand) (isOpen : run.stack.isOpen = true)
    (ready : Ready g book I seen run) (known : v ∈ seen) :
    ∃ f after, (expandMet lookUp nested name cls v false).runOn g run = (.ok false, after) ∧
      Explored g book name I P seen [.meet ⟨cls, v⟩] run false f after := by
  let meeting : Meeting := ⟨name, cls, v, false⟩
  obtain ⟨after, recorded, same, advanced⟩ :=
    RunM.runOn_recordAlone (g := g) (Leaf.repeated v) isOpen
  have permits := Store.Permits.any
  have blind : (RunM.recordAlone (Leaf.repeated v)).Blind g fun _ _ => True :=
    (RunM.Blind.of_modifyStack permits _).bind permits fun _ =>
      (RunM.Blind.of_record permits _).bind permits fun _ =>
        (RunM.Blind.of_attach permits).bind permits fun _ => .of_pure permits _
  have rulebook := blind.rulebook_eq run
  rw [recorded] at rulebook
  refine ⟨{ met := [meeting], node := some (.group .all [.leaf (.repeated v)]), seen }, after,
    ?_, ?_⟩
  · have whole : (expandMet lookUp nested name cls v false).runOn g run =
        (RunM.recordAlone (Leaf.repeated v) >>= fun _ => pure false).runOn g run := by
      simp only [RunM.recordAlone, bind_assoc]
      rfl
    rw [whole, RunM.runOn_bind, recorded]
    rfl
  · exact
      { explores := .again known (.done seen)
        ready := ⟨same ▸ ready.tracks, same ▸ ready.holds, rulebook ▸ ready.extended⟩
        stack_eq := advanced.stack_eq
        leaves := by
          simp [Node.leavesOf, Node.leaves, Meeting.repeats, meeting]
        applied := List.forall_mem_nil _
        passed_iff := by simp [Meeting.repeats, meeting] }

/-- A value that is met for the first time is expanded. -/
theorem expandMet_first {nested : Expand} (isOpen : run.stack.isOpen = true)
    (ready : Ready g book I (seen ++ [v]) run) (new : v ∉ seen)
    (current : (book.registry name).Current book.schema name)
    (few : g.unseen (seen ++ [v]) < fuel)
    (rules : Discovers g book name I P (·.isOpen = true) fuel
      (g.tasks book.schema (book.registry name) ⟨cls, v⟩)
      ((Registry.form book.schema name (book.registry name) cls).evaluate nested v)) :
    ∃ passed f after,
      (expandMet lookUpRules nested name cls v true).runOn g run = (.ok passed, after) ∧
        Explored g book name I P seen [.meet ⟨cls, v⟩] run passed f after := by
  let meeting : Meeting := ⟨name, cls, v, true⟩
  have extended := ready.extended.trans (Rulebook.compiled_extends g run.rulebook name cls)
  obtain ⟨passed, f, after, ran, explored⟩ :=
    rules (run.expanding g name cls) (seen ++ [v]) isOpen
      ⟨ready.tracks, ready.holds, extended⟩ few
  refine ⟨passed, { f with met := meeting :: f.met }, after, ?_, ?_⟩
  · rw [runOn_expandMet_first nested v (ready.compiled current cls)]
    exact ran
  · exact
      { explores := .firstAlone new explored.explores
        ready := explored.ready
        stack_eq := explored.stack_eq
        leaves := by simpa [Meeting.repeats, meeting] using explored.leaves
        applied := explored.applied
        passed_iff := by simpa [Meeting.repeats, meeting] using explored.passed_iff }

/-- Expanding a model explores from the instance on. -/
theorem expandModel_discovers (typed : g.Typed book.schema)
    (notes : ∀ store seen, I store → I (store.put visitedKey (.set seen)))
    (current : (book.registry name).Current book.schema name)
    (behaves : (book.registry name).Behaves g book.schema I P) (fuel : Nat)
    (isInstance : g.HasInstance cls v) :
    Discovers g book name I P (·.isOpen = true) fuel [.meet ⟨cls, v⟩]
      (expandModel fuel name cls v) := by
  induction fuel generalizing cls v with
  | zero => exact fun _ _ _ _ few => absurd few (Nat.not_lt_zero _)
  | succ fuel ih =>
    intro run seen isOpen ready few
    obtain ⟨first, store, ran, marks, tracks, holds⟩ :=
      ready.tracks.visit isInstance notes ready.holds
    have begun : (expandModel (fuel + 1) name cls v).runOn g run =
        (expandMet lookUpRules (expandModel fuel) name cls v first).runOn g
          { run with store } := by
      change (RunM.ofCheck (visit v) >>= fun first =>
        expandMet lookUpRules (expandModel fuel) name cls v first).runOn g run = _
      rw [RunM.runOn_bind, RunM.runOn_ofCheck, ran]
    rw [begun]
    cases first with
    | false =>
      have known : v ∈ seen := Classical.not_not.mp fun new => Bool.false_ne_true (marks.mpr new)
      obtain ⟨f, after, done, explored⟩ := expandMet_again (P := P) { run with store } lookUpRules
        (expandModel fuel) isOpen ⟨tracks, holds, ready.extended⟩ known
      exact ⟨false, f, after, done, { explored with }⟩
    | true =>
      have new := marks.mp rfl
      have fewer : g.unseen (seen ++ [v]) < fuel :=
        Nat.lt_of_lt_of_le (g.unseen_lt isInstance new) (Nat.le_of_lt_succ few)
      obtain ⟨passed, f, after, done, explored⟩ := expandMet_first { run with store } isOpen
        ⟨tracks, holds, ready.extended⟩ new current fewer
        (form_discovers (fun _ _ other => ih other) typed behaves isInstance)
      exact ⟨passed, f, after, done, { explored with }⟩

end Expanding

end Models

end PathRules
