import PathRules.Proofs.Trace.Recordings
import PathRules.Proofs.Trace.Thorough

/-!
# Errors turned into warnings

Some constraints of a validation are chosen and turned into warnings.  Where no group is left
early, the validation then makes the same checks with the same answers: its trace is the trace
that it had, with the leaves of the chosen constraints as warnings.  A trace that passed still
passes.
-/

namespace PathRules

variable {g : ObjectGraph}

/-- Chooses constraints by the positions of the further validations that lead to their group and
their position in it.  Steps and validations of elements lead to one validation and count for
nothing. -/
abbrev Choice := List Nat → Nat → Bool

/-- What is chosen in a further validation. -/
def Choice.within (chosen : Choice) (position : Nat) : Choice :=
  fun positions => chosen (position :: positions)

def Leaf.asWarning (leaf : Leaf) : Leaf := { leaf with severity := .warning }

/-- A leaf after the constraint that recorded it was turned into a warning, if it was chosen. -/
def Leaf.demoted (chosen : Bool) (leaf : Leaf) : Leaf := if chosen then leaf.asWarning else leaf

def Placed.demoted (chosen : Bool) (p : Placed) : Placed := { p with leaf := p.leaf.demoted chosen }

def Constraint.demoted (chosen : Bool) (c : Constraint) : Constraint :=
  if chosen then c.asWarning else c

namespace Validation

mutual

/-- The validation with the chosen constraints turned into warnings.  Guards stay as they are. -/
def demoted (chosen : Choice) : Validation → Validation
  | .object constraints subs anyOf short =>
      .object (constraints.mapIdx fun i c => c.demoted (chosen [] i))
        (allDemoted chosen.within subs) anyOf short
  | .step presence guards target inner => .step presence guards target (demoted chosen inner)
  | .elements kind inner => .elements kind (demoted chosen inner)
  | .script steps answer => .script steps answer
  | .model registry cls => .model registry cls
termination_by structural validation => validation

def allDemoted (chosen : Nat → Choice) : List Validation → List Validation
  | [] => []
  | sub :: subs => demoted (chosen 0) sub :: allDemoted (fun i => chosen (i + 1)) subs
termination_by structural validations => validations

end

end Validation

namespace Trace

mutual

/-- The trace with the leaves of the chosen constraints turned into warnings. -/
def demoted (chosen : Choice) : Trace → Trace
  | .group sign tests subs =>
      .group sign (tests.mapIdx fun i test => test.map (·.demoted (chosen [] i)))
        (allDemoted chosen.within subs)
  | .step target part inner => .step target part (demoted chosen inner)
  | .elements kind v visits => .elements kind v (allDemoted (fun _ => chosen) visits)
  | .skipped target v => .skipped target v
  | .absent target => .absent target
  | .missing target => .missing target
  | .repeated v => .repeated v
  | .unruled registry cls v => .unruled registry cls v
  | .expanded registry cls v rules => .expanded registry cls v rules
termination_by structural trace => trace

def allDemoted (chosen : Nat → Choice) : List Trace → List Trace
  | [] => []
  | t :: ts => demoted (chosen 0) t :: allDemoted (fun i => chosen (i + 1)) ts
termination_by structural traces => traces

end

theorem allDemoted_eq_mapIdx (chosen : Nat → Choice) (ts : List Trace) :
    allDemoted chosen ts = ts.mapIdx fun i t => t.demoted (chosen i) := by
  induction ts generalizing chosen with
  | nil => rfl
  | cons t ts ih => rw [allDemoted, ih, List.mapIdx_cons]

end Trace

namespace Sign

theorem counts_demoted {sign : Sign} {test : Option Leaf} (h : sign.counts test = true)
    (chosen : Bool) : sign.counts (test.map (·.demoted chosen)) = true := by
  cases test with
  | none => cases sign <;> rfl
  | some leaf =>
    cases sign with
    | all =>
      cases chosen with
      | true => rfl
      | false => exact h
    | any => cases h

end Sign

namespace Trace

mutual

/-- A warning takes nothing from a verdict: what passed still passes. -/
theorem passed_demoted (chosen : Choice) : (t : Trace) → t.passed = true →
    (t.demoted chosen).passed = true
  | .group .all tests subs, h => by
    simp only [passed, Bool.and_eq_true, List.all_eq_true, allPassed_eq_all] at h
    have own := List.all_eq_true.mpr fun test (member : test ∈ tests.mapIdx fun i test =>
        test.map (·.demoted (chosen [] i))) => by
      obtain ⟨i, inside, rfl⟩ := List.mem_mapIdx.mp member
      exact Sign.counts_demoted (h.1 _ (List.getElem_mem inside)) (chosen [] i)
    have further := all_passed_demoted chosen.within subs h.2
    rw [demoted, passed, allPassed_eq_all, own, List.all_eq_true.mpr further, Bool.true_and]
  | .group .any tests subs, h => by
    simp only [passed, Bool.or_eq_true, anyPassed_eq_any] at h
    simp only [demoted, passed, Bool.or_eq_true, anyPassed_eq_any]
    rcases h with (unchecked | own) | further
    · simp only [Bool.and_eq_true, List.isEmpty_iff] at unchecked
      rw [unchecked.1, unchecked.2]
      exact .inl (.inl rfl)
    · obtain ⟨test, member, counted⟩ := List.any_eq_true.mp own
      obtain ⟨i, inside, rfl⟩ := List.mem_iff_getElem.mp member
      refine .inl (.inr (List.any_eq_true.mpr ⟨_, List.mem_mapIdx.mpr ⟨i, inside, rfl⟩, ?_⟩))
      exact Sign.counts_demoted counted _
    · exact .inr (any_passed_demoted chosen.within subs further)
  | .step _ _ inner, h => passed_demoted chosen inner h
  | .skipped .., _ | .absent _, _ | .unruled .., _ => rfl
  | .missing _, h | .repeated _, h => h
  | .elements _ _ visits, h => by
    rw [passed, allPassed_eq_all, List.all_eq_true] at h
    rw [demoted, passed, allPassed_eq_all, List.all_eq_true]
    exact all_passed_demoted (fun _ => chosen) visits h
  | .expanded _ _ _ _, h => h
termination_by structural t => t

theorem all_passed_demoted (chosen : Nat → Choice) : (ts : List Trace) →
    (∀ t ∈ ts, t.passed = true) → ∀ t ∈ allDemoted chosen ts, t.passed = true
  | [], _, _, member => nomatch member
  | t :: ts, h, u, member => by
    rcases List.mem_cons.mp member with rfl | later
    · exact passed_demoted (chosen 0) t (h t List.mem_cons_self)
    · exact all_passed_demoted (fun i => chosen (i + 1)) ts
        (fun t member => h t (List.mem_cons_of_mem _ member)) u later
termination_by structural ts => ts

theorem any_passed_demoted (chosen : Nat → Choice) : (ts : List Trace) →
    ts.any passed = true → (allDemoted chosen ts).any passed = true
  | [], h => nomatch h
  | t :: ts, h => by
    rw [List.any_cons, Bool.or_eq_true] at h
    rw [allDemoted, List.any_cons, Bool.or_eq_true]
    exact h.imp (passed_demoted (chosen 0) t) (any_passed_demoted (fun i => chosen (i + 1)) ts)
termination_by structural ts => ts

end

/-- The leaves of failed tests, each with whether its constraint was chosen. -/
def markedFailures (chosen : Nat → Bool) (tests : List (Option Leaf)) : List (Bool × Placed) :=
  (tests.mapIdx fun i test => test.map fun leaf => (chosen i, (⟨leaf, []⟩ : Placed))).filterMap id

mutual

/-- The leaves that a trace reports, each with whether its constraint was chosen.  Leaves that no
constraint recorded are not. -/
def marked (chosen : Choice) : Trace → List (Bool × Placed)
  | .group .all tests subs => markedFailures (chosen []) tests ++ markedIn chosen.within subs
  | .group .any tests subs =>
      if passed (.group .any tests subs) then []
      else markedFailures (chosen []) tests ++ markedIn chosen.within subs
  | .step target _ inner =>
      (marked chosen inner).map (Prod.map id (Placed.below (DataPath.ofSegments [target])))
  | .skipped .. | .absent _ | .unruled .. => []
  | .missing target => [(false, ⟨Leaf.required, DataPath.ofSegments [target]⟩)]
  | .elements _ _ visits => markedIn (fun _ => chosen) visits
  | .repeated v => [(false, ⟨Leaf.repeated v, []⟩)]
  | .expanded _ _ _ rules => rules.leaves.map (Prod.mk false)
termination_by structural trace => trace

def markedIn (chosen : Nat → Choice) : List Trace → List (Bool × Placed)
  | [] => []
  | t :: ts => marked (chosen 0) t ++ markedIn (fun i => chosen (i + 1)) ts
termination_by structural traces => traces

end

theorem map_snd_markedFailures (chosen : Nat → Bool) (tests : List (Option Leaf)) :
    (markedFailures chosen tests).map Prod.snd = failures tests := by
  unfold markedFailures failures
  induction tests generalizing chosen with
  | nil => rfl
  | cons test tests ih =>
    have later := ih fun i => chosen (i + 1)
    cases test <;> simpa [List.mapIdx_cons] using later

mutual

theorem map_snd_marked (chosen : Choice) : (t : Trace) → (t.marked chosen).map Prod.snd = t.leaves
  | .group .all tests subs => by
    rw [marked, leaves, List.map_append, map_snd_markedFailures, map_snd_markedIn _ subs]
  | .group .any tests subs => by
    rw [marked, leaves]
    split
    · rfl
    · rw [List.map_append, map_snd_markedFailures, map_snd_markedIn _ subs]
  | .step target _ inner => by
    rw [marked, leaves, ← map_snd_marked chosen inner, List.map_map, List.map_map]
    rfl
  | .skipped .. | .absent _ | .unruled .. | .missing _ | .repeated _ => rfl
  | .elements _ _ visits => map_snd_markedIn (fun _ => chosen) visits
  | .expanded _ _ _ rules => by
    rw [marked, leaves, List.map_map]
    exact List.map_id _
termination_by structural t => t

theorem map_snd_markedIn (chosen : Nat → Choice) : (ts : List Trace) →
    (markedIn chosen ts).map Prod.snd = leavesOf ts
  | [] => rfl
  | t :: ts => by
    rw [markedIn, leavesOf, List.map_append, map_snd_marked (chosen 0) t,
      map_snd_markedIn (fun i => chosen (i + 1)) ts]
termination_by structural ts => ts

end

theorem failures_demoted (chosen : Nat → Bool) (tests : List (Option Leaf)) :
    failures (tests.mapIdx fun i test => test.map (·.demoted (chosen i))) =
      (markedFailures chosen tests).map fun marked => marked.2.demoted marked.1 := by
  unfold markedFailures failures
  induction tests generalizing chosen with
  | nil => rfl
  | cons test tests ih =>
    have later := ih fun i => chosen (i + 1)
    cases test with
    | none => simpa [List.mapIdx_cons] using later
    | some leaf => simpa [List.mapIdx_cons, Placed.demoted] using later

mutual

/-- Where all checks have to pass, the leaves of chosen constraints are warnings now, and nothing
else is different. -/
theorem leaves_demoted (chosen : Choice) : (t : Trace) → t.AllGroups →
    (t.demoted chosen).leaves = (t.marked chosen).map fun marked => marked.2.demoted marked.1
  | .group .all tests subs, h => by
    rw [demoted, leaves, marked, failures_demoted, leavesOf_demoted _ subs h.2, List.map_append]
  | .group .any _ _, h => nomatch h.1
  | .step target _ inner, h => by
    rw [demoted, leaves, leaves_demoted chosen inner h, marked, List.map_map, List.map_map]
    rfl
  | .skipped .., _ | .absent _, _ | .unruled .., _ | .missing _, _ | .repeated _, _ => rfl
  | .elements _ _ visits, h => leavesOf_demoted (fun _ => chosen) visits h
  | .expanded _ _ _ rules, _ => by
    rw [demoted, leaves, marked, List.map_map]
    exact (List.map_id _).symm
termination_by structural t => t

theorem leavesOf_demoted (chosen : Nat → Choice) : (ts : List Trace) → AllGroupsIn ts →
    leavesOf (allDemoted chosen ts) =
      (markedIn chosen ts).map fun marked => marked.2.demoted marked.1
  | [], _ => rfl
  | t :: ts, h => by
    rw [allDemoted, leavesOf, leaves_demoted (chosen 0) t h.1,
      leavesOf_demoted (fun i => chosen (i + 1)) ts h.2, markedIn, List.map_append]
termination_by structural ts => ts

end

end Trace

namespace Check

variable {α β : Type}

/-- Checks that are all made, with answers that are changed by their position. -/
theorem inTurn_mapIdx {ends : α → Bool} {ends' : β → Bool} (never : ∀ a, ends a = false)
    (never' : ∀ b, ends' b = false) (f : Nat → α → β) (checks : List (Check α)) :
    inTurn ends' (checks.mapIdx fun i check => f i <$> check) =
      List.mapIdx f <$> inTurn ends checks := by
  induction checks generalizing f with
  | nil => simp [inTurn]
  | cons check checks ih =>
    simp [inTurn, List.mapIdx_cons, never, never', ih fun i => f (i + 1)]

theorem inTurn_map {ends : α → Bool} {ends' : β → Bool} (never : ∀ a, ends a = false)
    (never' : ∀ b, ends' b = false) (f : α → β) (checks : List (Check α)) :
    inTurn ends' (checks.map fun check => f <$> check) = List.map f <$> inTurn ends checks := by
  induction checks with
  | nil => simp [inTurn]
  | cons check checks ih => simp [inTurn, never, never', ih]

end Check

/-- Turning a constraint into a warning changes nothing but the severity of its leaf. -/
theorem Constraint.tested_demoted (c : Constraint) (chosen : Bool) (v : Value) :
    (c.demoted chosen).tested v = Option.map (·.demoted chosen) <$> c.tested v := by
  cases chosen with
  | true =>
    simp only [demoted, if_true, tested, asWarning, map_bind]
    congr 1
    funext passed
    split
    · rfl
    · simp [Leaf.demoted, Leaf.asWarning, render, fill]
  | false =>
    have same : (fun leaf : Leaf => leaf.demoted false) = id := rfl
    simp [demoted, same]

namespace Trace

section Elements

variable {chosen : Choice} {visit visit' : Value → Check Trace}
  (h : ∀ v, visit' v = demoted chosen <$> visit v)

include h

theorem ofPart_demoted (part : Segment × Check Value) :
    ofPart visit' part = demoted chosen <$> ofPart visit part := by
  simp [ofPart, h, demoted]

theorem ofSource_demoted (graph : ObjectGraph) (indices : List Value) (number fuel index : Nat) :
    ofSource visit' graph indices number fuel index =
      List.map (demoted chosen) <$> ofSource visit graph indices number fuel index := by
  induction fuel generalizing index with
  | zero => simp [ofSource]
  | succ fuel ih =>
    simp only [ofSource, map_bind]
    congr 1
    funext next
    cases next with
    | none => simp
    | some v =>
      by_cases selected : Validation.selected graph indices (.int index) = true
      · simp [selected, ofPart_demoted h, ih]
      · simp [selected, ih]

theorem ofElements_demoted (v : Value) (kind : Elements) :
    ofElements visit' v kind = List.map (demoted chosen) <$> ofElements visit v kind := by
  simp only [ofElements, map_bind]
  congr 1
  funext graph
  split
  · simp [ofSource_demoted h]
  · simp only [map_bind]
    congr 1
    funext parts
    rw [← Check.inTurn_map (fun _ => rfl) fun _ => rfl, List.map_map]
    exact congrArg _ (List.map_congr_left fun part _ => ofPart_demoted h part)

end Elements

theorem allDemoted_const (chosen : Choice) (ts : List Trace) :
    allDemoted (fun _ => chosen) ts = ts.map (demoted chosen) := by
  induction ts with
  | nil => rfl
  | cons t ts ih => rw [allDemoted, ih, List.map_cons]

theorem ofGroup_demoted (sign : Sign) (chosen : Choice) (tests : List (Check (Option Leaf)))
    (subs : List (Check Trace)) :
    ofGroup sign false
        (tests.mapIdx fun i test => Option.map (·.demoted (chosen [] i)) <$> test)
        (subs.mapIdx fun i sub => demoted (chosen.within i) <$> sub) =
      demoted chosen <$> ofGroup sign false tests subs := by
  have undecided (made : List (Option Leaf)) :
      (made.any fun test => false && sign.decidedBy (sign.counts test)) = false :=
    List.any_eq_false.mpr fun _ _ => Bool.false_ne_true
  simp only [ofGroup, undecided]
  simp [Check.inTurn_mapIdx (fun _ => rfl) (fun _ => rfl), demoted, allDemoted_eq_mapIdx]

end Trace

namespace Validation

/-- No group is left early. -/
abbrev Unhurried : Validation → Prop := EachGroup fun _ _ _ short => short = false

variable {expand : TraceModel}

mutual

/-- If no group is left early, the trace is the same but for the leaves of chosen constraints. -/
theorem traceWith_demoted (chosen : Choice) : (validation : Validation) → validation.Unhurried →
    validation.Keeps g (fun _ _ => True) False → ∀ v,
      (validation.demoted chosen).traceWith expand v =
        Trace.demoted chosen <$> validation.traceWith expand v
  | .object constraints subs anyOf short, unhurried, free, v => by
    obtain ⟨rfl, further⟩ := unhurried
    have tests : (constraints.mapIdx fun i c => c.demoted (chosen [] i)).map (·.tested v) =
        (constraints.map (·.tested v)).mapIdx fun i test =>
          Option.map (·.demoted (chosen [] i)) <$> test := by
      exact List.ext_getElem (by simp) fun i _ _ => by simp [Constraint.tested_demoted]
    rw [demoted, traceWith, traceWith, ← Trace.ofGroup_demoted,
      tracesWith_demoted chosen.within subs further free.2 v, tests]
  | .step presence guards target inner, unhurried, free, v => by
    rw [demoted, traceWith, traceWith, map_bind]
    congr 1
    funext held
    cases held with
    | false => simp [Trace.demoted]
    | true =>
      rw [if_pos rfl, if_pos rfl, map_bind]
      congr 1
      funext part
      split
      · simp [Trace.demoted]
      · simp [Trace.demoted]
      · simp [traceWith_demoted chosen inner unhurried free.2.2 part, Trace.demoted]
  | .elements kind inner, unhurried, free, v => by
    have visited := Trace.ofElements_demoted
      (fun v => traceWith_demoted chosen inner unhurried free v) v kind
    rw [demoted, traceWith, traceWith, visited]
    simp [Trace.demoted, Trace.allDemoted_const]
  | .script .., _, _, _ => rfl
  | .model .., _, free, _ => free.elim
termination_by structural validation => validation

theorem tracesWith_demoted (chosen : Nat → Choice) : (subs : List Validation) →
    EachGroupIn (fun _ _ _ short => short = false) subs →
    AllKeep g (fun _ _ => True) False subs → ∀ v,
      tracesWith expand (allDemoted chosen subs) v =
        (tracesWith expand subs v).mapIdx fun i sub => Trace.demoted (chosen i) <$> sub
  | [], _, _, _ => rfl
  | sub :: subs, unhurried, free, v => by
    rw [allDemoted, tracesWith, tracesWith, List.mapIdx_cons,
      traceWith_demoted (chosen 0) sub unhurried.1 free.1 v,
      tracesWith_demoted (fun i => chosen (i + 1)) subs unhurried.2 free.2 v]
termination_by structural subs => subs

end

end Validation

end PathRules
