import PathRules.Proofs.Model.Material
import PathRules.Proofs.Trace.Groups
import PathRules.Proofs.Trace.Leaves
import PathRules.Proofs.Value.Parts

/-!
# Places lead to values

A trace is grounded in a value if the parts it tells of are parts of the value, each of the one
before.  Evaluation with steady extractors answers with a trace that is grounded in what was
evaluated.  If each move of the trace can be made again, then every leaf of it is reached from
the value by the segments of its place.
-/

namespace PathRules

variable {α β : Type} {g : ObjectGraph} {rules : Rules}

/-- Follows the segments one after the other. -/
def DataPath.walk (path : DataPath) (v : Value) : Check Value :=
  path.foldlM (fun part s => s.get part) v

/-- What an evaluation does with a value to get to others. -/
inductive Move
  /-- Takes a part of it. -/
  | step (v : Value)
  /-- Goes through the elements. -/
  | elements (v : Value) (kind : Elements)

/-- A move that can be made again: no one-shot source is read, elements by position are those
of a sequence, and entries are those of a map. -/
def Move.CanRepeat (g : ObjectGraph) : Move → Prop
  | .step v => v.isSource = false
  | .elements v kind => kind.Suits g v

/-- Extractors that take the same part whenever they are applied to a value that is there to
stay. -/
def Material.steady (g : ObjectGraph) : Material where
  constraint _ := True
  segment s := ∀ extract ∈ s.extract?, ∀ v, v.isSource = false → (extract v).IsSteady g

namespace Trace

mutual

/-- The moves that a trace tells of, seen from the value it starts from. -/
def moves (v : Value) : Trace → List Move
  | .group _ _ subs => movesOf v subs
  | .step _ part inner => .step v :: moves part inner
  | .missing _ => [.step v]
  | .elements kind _ visits => .elements v kind :: movesOf v visits
  | .expanded _ _ _ rules => moves v rules
  | .skipped .. | .absent _ | .repeated _ | .unruled .. => []
termination_by structural t => t

def movesOf (v : Value) : List Trace → List Move
  | [] => []
  | t :: ts => moves v t ++ movesOf v ts
termination_by structural ts => ts

end

mutual

/-- The parts that the trace tells of are parts of `v`, and its leaves tell of the values they
were recorded for.  Nothing is said of parts that may not be found again. -/
def Grounded (g : ObjectGraph) (v : Value) : Trace → Prop
  | .group _ tests subs => (∀ leaf, some leaf ∈ tests → leaf.value = v) ∧ AllGrounded g v subs
  | .step target part inner =>
      (v.isSource = false → (target.get v).Answers g part) ∧ Grounded g part inner
  | .missing target => v.isSource = false → (target.get v).Answers g .null
  | .elements kind _ visits => kind.Suits g v → AllGrounded g v visits
  | .repeated w => w = v
  | .expanded _ _ _ rules => Grounded g v rules
  | .skipped .. | .absent _ | .unruled .. => True
termination_by structural t => t

def AllGrounded (g : ObjectGraph) (v : Value) : List Trace → Prop
  | [] => True
  | t :: ts => Grounded g v t ∧ AllGrounded g v ts
termination_by structural ts => ts

end

theorem allGrounded_iff {v : Value} {ts : List Trace} :
    AllGrounded g v ts ↔ ∀ t ∈ ts, t.Grounded g v := by
  induction ts with
  | nil => simp [AllGrounded]
  | cons t ts ih => simp [AllGrounded, ih]

end Trace

/-! ## Walking along a place -/

namespace DataPath

theorem walk_cons (s : Segment) (path : DataPath) (v : Value) :
    walk (s :: path) v = s.get v >>= walk path := by
  rw [walk, List.foldlM_cons]
  rfl

/-- A step that stays in place is left out of a place, and leads nowhere else. -/
theorem answers_walk_ofSegments {target : Segment} {v part w : Value} {path : DataPath}
    (step : (target.get v).Answers g part) (rest : (walk path part).Answers g w) :
    (walk (ofSegments [target] ++ path) v).Answers g w := by
  cases target with
  | this =>
    have stays : part = v := by
      have answered := step {}
      cases answered
      rfl
    rw [← stays]
    exact rest
  | _ =>
    change (walk (_ :: path) v).Answers g w
    rw [walk_cons]
    exact step.bind rest

end DataPath

namespace Trace

/-- A leaf is reached from `v` along its place. -/
def Reached (g : ObjectGraph) (v : Value) (p : Placed) : Prop :=
  (p.place.walk v).Answers g p.leaf.value

theorem reached_failures {v : Value} {tests : List (Option Leaf)}
    (h : ∀ leaf, some leaf ∈ tests → leaf.value = v) : ∀ p ∈ failures tests, Reached g v p := by
  intro p member
  obtain ⟨leaf, among, rfl⟩ := List.mem_map.mp member
  obtain ⟨test, tested, rfl⟩ := List.mem_filterMap.mp among
  exact fun store => by rw [← h leaf tested]; rfl

mutual

/-- Where every move can be made again, every leaf is reached along its place. -/
theorem reached_of_grounded : (t : Trace) → ∀ v : Value, t.Grounded g v →
    (∀ move ∈ t.moves v, move.CanRepeat g) → ∀ p ∈ t.leaves, Reached g v p
  | .group .all tests subs, v, grounded, repeats, p, hp => by
    rw [leaves, leavesOf_eq_flatMap] at hp
    rcases List.mem_append.mp hp with own | nested
    · exact reached_failures grounded.1 p own
    · exact reached_of_allGrounded subs v grounded.2 repeats p nested
  | .group .any tests subs, v, grounded, repeats, p, hp => by
    rw [leaves] at hp
    split at hp
    · cases hp
    · rw [leavesOf_eq_flatMap] at hp
      rcases List.mem_append.mp hp with own | nested
      · exact reached_failures grounded.1 p own
      · exact reached_of_allGrounded subs v grounded.2 repeats p nested
  | .step target part inner, v, grounded, repeats, p, hp => by
    obtain ⟨notSource, later⟩ := List.forall_mem_cons.mp repeats
    obtain ⟨q, among, rfl⟩ := List.mem_map.mp hp
    exact DataPath.answers_walk_ofSegments (grounded.1 notSource)
      (reached_of_grounded inner part grounded.2 later q among)
  | .skipped .., _, _, _, _, hp | .absent _, _, _, _, _, hp | .unruled .., _, _, _, _, hp =>
    nomatch hp
  | .missing target, v, grounded, repeats, p, hp => by
    obtain rfl := List.mem_singleton.mp hp
    have notSource := repeats _ List.mem_cons_self
    have ended : (DataPath.walk [] .null).Answers g .null := fun _ => rfl
    have reached := DataPath.answers_walk_ofSegments (grounded notSource) ended
    rwa [List.append_nil] at reached
  | .elements kind w visits, v, grounded, repeats, p, hp => by
    obtain ⟨suits, later⟩ := List.forall_mem_cons.mp repeats
    rw [leaves, leavesOf_eq_flatMap] at hp
    exact reached_of_allGrounded visits v (grounded suits) later p hp
  | .repeated w, v, grounded, _, p, hp => by
    obtain rfl := List.mem_singleton.mp hp
    obtain rfl : w = v := grounded
    exact fun _ => rfl
  | .expanded _ _ w rules, v, grounded, repeats, p, hp =>
    reached_of_grounded rules v grounded repeats p hp
termination_by structural t => t

theorem reached_of_allGrounded : (ts : List Trace) → ∀ v : Value, AllGrounded g v ts →
    (∀ move ∈ movesOf v ts, move.CanRepeat g) → ∀ p ∈ ts.flatMap leaves, Reached g v p
  | [], _, _, _, _, hp => nomatch hp
  | t :: ts, v, grounded, repeats, p, hp => by
    obtain ⟨first, later⟩ := List.forall_mem_append.mp repeats
    rcases List.mem_append.mp hp with here | there
    · exact reached_of_grounded t v grounded.1 first p here
    · exact reached_of_allGrounded ts v grounded.2 later p there
termination_by structural ts => ts

end

end Trace

/-! ## Evaluation is grounded -/

open Check.Meets

theorem Material.steady_holdsFields : (steady g).HoldsFields where
  this := fun _ h => nomatch h
  field := by
    rintro name _ ⟨⟩ v -
    exact Check.IsSteady.of_read.bind fun _ => Check.IsSteady.of_ofExcept _

/-- A failure tells of the value that was tested. -/
theorem Constraint.ensures_tested (c : Constraint) (v : Value) :
    (c.tested v).Ensures g fun test => ∀ leaf, test = some leaf → leaf.value = v := by
  refine (Check.ensures_true _).bind fun passed _ => ?_
  refine of_ite (of_pure fun _ h => nomatch h) ?_
  refine (Check.ensures_true _).bind fun message _ => ?_
  apply of_pure
  rintro leaf ⟨⟩
  rfl

namespace Trace

theorem ensures_ofGroup {v : Value} {sign : Sign} {short : Bool} {constraints : List Constraint}
    {subs : List (Check Trace)} (h : ∀ sub ∈ subs, sub.Ensures g (Grounded g v)) :
    (ofGroup sign short (constraints.map (·.tested v)) subs).Ensures g (Grounded g v) := by
  have tested : ∀ check ∈ constraints.map (·.tested v),
      check.Ensures g fun test => ∀ leaf, test = some leaf → leaf.value = v := by
    intro check member
    obtain ⟨c, -, rfl⟩ := List.mem_map.mp member
    exact c.ensures_tested v
  refine (Check.ensures_inTurn tested).bind fun tests own => ?_
  refine (of_ite (of_pure (by simp)) (Check.ensures_inTurn h)).bind fun ts nested => of_pure ?_
  exact ⟨fun leaf member => own _ member leaf rfl, allGrounded_iff.mpr nested⟩

theorem ensures_ofElements {visit : Value → Check Trace}
    (h : ∀ part, (visit part).Ensures g (Grounded g part)) (v : Value) (kind : Elements) :
    (ofElements visit v kind).Ensures g fun visits => kind.Suits g v → AllGrounded g v visits := by
  by_cases suits : kind.Suits g v
  · refine of_read.bind fun graph same => ?_
    subst same
    split
    · cases suits.notSource
    · refine (Elements.ensures_parts suits).bind fun parts reached => ?_
      have visited : ∀ check ∈ parts.map (ofPart visit), check.Ensures graph (Grounded graph v) := by
        intro check member
        obtain ⟨part, among, rfl⟩ := List.mem_map.mp member
        refine (Check.ensures_canAnswer part.2).bind fun element can => ?_
        refine (h element).bind fun inner grounded => of_pure ⟨fun _ => ?_, grounded⟩
        exact reached part among element can
      exact (Check.ensures_inTurn visited).mono (fun ts all _ => allGrounded_iff.mpr all)
        fun _ => id
  · exact Check.Ensures.of_forall fun _ found => absurd found suits

end Trace

namespace Validation

variable {expand : TraceModel}

mutual

/-- What is evaluated grounds the trace. -/
theorem ensures_traceWith
    (h : ∀ registry cls v, (expand registry cls v).Ensures g (Trace.Grounded g v)) :
    (validation : Validation) → validation.MadeOf (.steady g) → ∀ v : Value,
      (validation.traceWith expand v).Ensures g (Trace.Grounded g v)
  | .object constraints subs anyOf short, made, v =>
    Trace.ensures_ofGroup (ensures_tracesWith h subs made.2 v)
  | .step presence guards target inner, made, v => by
    have steady : v.isSource = false → (target.get v).IsSteady g := fun notSource =>
      Segment.isSteady_get notSource fun extract member => made.2.1 extract member v notSource
    have taken : (target.get v).Ensures g fun part =>
        v.isSource = false → (target.get v).Answers g part :=
      (Check.ensures_canAnswer (target.get v)).mono
        (fun part can notSource => (steady notSource).answers can) fun _ => id
    refine (Check.ensures_true _).bind fun held _ => ?_
    refine of_ite (taken.bind fun part again => ?_) (of_pure trivial)
    split
    · exact of_pure trivial
    · exact of_pure again
    · refine (ensures_traceWith h inner made.2.2 part).bind fun t grounded => ?_
      exact of_pure ⟨again, grounded⟩
  | .elements kind inner, made, v =>
    (Trace.ensures_ofElements (ensures_traceWith h inner made) v kind).bind
      fun _ grounded => of_pure grounded
  | .model registry cls, _, v => h registry cls v
termination_by structural validation => validation

theorem ensures_tracesWith
    (h : ∀ registry cls v, (expand registry cls v).Ensures g (Trace.Grounded g v)) :
    (subs : List Validation) → AllMadeOf (.steady g) subs → ∀ v : Value,
      ∀ check ∈ tracesWith expand subs v, check.Ensures g (Trace.Grounded g v)
  | [], _, _, _, member => nomatch member
  | sub :: subs, made, v, check, member => by
    rcases List.mem_cons.mp member with rfl | later
    · exact ensures_traceWith h sub made.1 v
    · exact ensures_tracesWith h subs made.2 v check later
termination_by structural subs => subs

end

theorem ensures_traceModel
    (served : ∀ registry cls rule, rules registry cls = some rule → rule.MadeOf (.steady g))
    (fuel : Nat) (registry cls : String) (v : Value) :
    (traceModel rules fuel registry cls v).Ensures g (Trace.Grounded g v) := by
  induction fuel generalizing registry cls v with
  | zero => exact of_throw trivial
  | succ fuel ih =>
    refine (Check.ensures_true _).bind fun first _ => ?_
    refine of_ite ?_ (of_pure rfl)
    cases found : rules registry cls with
    | none => exact of_pure trivial
    | some rule =>
      exact (ensures_traceWith ih rule (served registry cls rule found) v).bind
        fun _ grounded => of_pure grounded

/-- Every evaluation answers with a trace that is grounded in the value. -/
theorem ensures_trace
    (served : ∀ registry cls rule, rules registry cls = some rule → rule.MadeOf (.steady g))
    {validation : Validation} (made : validation.MadeOf (.steady g)) (v : Value) :
    (validation.trace rules v).Ensures g (Trace.Grounded g v) :=
  of_read.bind fun _ _ => of_get.bind fun _ _ =>
    ensures_traceWith (ensures_traceModel served _) validation made v

end Validation

end PathRules
