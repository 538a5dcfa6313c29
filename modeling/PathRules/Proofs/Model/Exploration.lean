import Mathlib.Data.List.Basic
import Mathlib.Logic.Relation
import PathRules.Run.Validate

/-!
# Exploring what refers to each other

A run of the rules of a model explores the instances that relations lead to, depth first: an
instance that was not seen yet is expanded before the exploration goes on, any other is passed
over.  `Explores` says so of the meetings and of the rules that were applied on the way.  Whatever
refers to what, each instance is expanded once, all that the expanded ones refer to are expanded,
and all other arrivals are repeats.
-/

namespace PathRules

/-- A value that is to be validated with the rules of a class. -/
structure Arrival where
  cls : String
  value : Value

/-- A value was to be validated with the rules of a model. -/
structure Meeting where
  registry : String
  cls : String
  value : Value
  /-- Whether the value was met for the first time, so that its rules were looked up. -/
  first : Bool

def Meeting.arrival (m : Meeting) : Arrival := ⟨m.cls, m.value⟩

/-- A rule that is to be applied to a value. -/
structure Application where
  rule : Validation
  value : Value

/-- What came of applying a rule. -/
structure Applied extends Application where
  passed : Bool
  leaves : List Leaf

/-- What an exploration has to do. -/
inductive Task
  | apply (application : Application)
  | meet (arrival : Arrival)

namespace Task

def application? : Task → Option Application
  | .apply application => some application
  | .meet _ => none

def arrival? : Task → Option Arrival
  | .apply _ => none
  | .meet arrival => some arrival

/-- The applications among some tasks. -/
def applications (tasks : List Task) : List Application := tasks.filterMap application?

/-- The arrivals among some tasks. -/
def arrivals (tasks : List Task) : List Arrival := tasks.filterMap arrival?

@[simp] theorem arrivals_meet (a : Arrival) : arrivals [.meet a] = [a] := rfl

end Task

/-- The meetings in which a value was expanded. -/
def Meeting.firsts (met : List Meeting) : List Meeting := met.filter (·.first)

/-- The meetings in which a value was not expanded again. -/
def Meeting.repeats (met : List Meeting) : List Meeting := met.filter (!·.first)

/-- From the seen values, exploring along some tasks comes to some meetings, applies some rules and
leaves others seen; `tasks` says what has to be done to expand an arrival. -/
inductive Explores (name : String) (tasks : Arrival → List Task) :
    (seen : List Value) → List Task → List Meeting → List Applied → (after : List Value) → Prop
  | done (seen : List Value) : Explores name tasks seen [] [] [] seen
  | apply {seen after : List Value} {rest : List Task} {met : List Meeting}
      {applied : List Applied} (a : Applied) :
      Explores name tasks seen rest met applied after →
      Explores name tasks seen (.apply a.toApplication :: rest) met (a :: applied) after
  | again {seen after : List Value} {a : Arrival} {rest : List Task} {met : List Meeting}
      {applied : List Applied} :
      a.value ∈ seen → Explores name tasks seen rest met applied after →
      Explores name tasks seen (.meet a :: rest) (⟨name, a.cls, a.value, false⟩ :: met) applied
        after
  | first {seen middle after : List Value} {a : Arrival} {rest : List Task}
      {inner met : List Meeting} {within applied : List Applied} :
      a.value ∉ seen → Explores name tasks (seen ++ [a.value]) (tasks a) inner within middle →
      Explores name tasks middle rest met applied after →
      Explores name tasks seen (.meet a :: rest) (⟨name, a.cls, a.value, true⟩ :: (inner ++ met))
        (within ++ applied) after

namespace Meeting

@[simp] theorem firsts_append (xs ys : List Meeting) : firsts (xs ++ ys) = firsts xs ++ firsts ys :=
  List.filter_append ..

@[simp] theorem repeats_append (xs ys : List Meeting) :
    repeats (xs ++ ys) = repeats xs ++ repeats ys :=
  List.filter_append ..

theorem firsts_length_add_repeats_length (met : List Meeting) :
    (firsts met).length + (repeats met).length = met.length :=
  (List.length_eq_length_filter_add Meeting.first).symm

/-- Each meeting is a first one if and only if its value was not seen. -/
def Marked (seen : List Value) : List Meeting → Prop
  | [] => True
  | m :: met =>
      (m.first = true ↔ m.value ∉ seen) ∧
        Marked (if m.first then seen ++ [m.value] else seen) met

theorem marked_append {seen : List Value} {xs ys : List Meeting} :
    Marked seen (xs ++ ys) ↔ Marked seen xs ∧ Marked (seen ++ (firsts xs).map (·.value)) ys := by
  induction xs generalizing seen with
  | nil => simp [Marked, firsts]
  | cons m xs ih => cases first : m.first <;> simp [Marked, firsts, first, ih, and_assoc]

/-- What was met has been seen or was expanded. -/
theorem Marked.exists_first {seen : List Value} {met : List Meeting} (h : Marked seen met)
    {m : Meeting} (member : m ∈ met) :
    m.value ∈ seen ∨ ∃ f ∈ firsts met, f.value = m.value := by
  obtain ⟨before, later, rfl⟩ := List.append_of_mem member
  have marked := (marked_append.mp h).2.1
  cases first : m.first with
  | true =>
    refine .inr ⟨m, ?_, rfl⟩
    exact List.mem_filter.mpr ⟨member, first⟩
  | false =>
    have known : m.value ∈ seen ++ (firsts before).map (·.value) := by
      refine Classical.not_not.mp fun new => ?_
      rw [marked.mpr new] at first
      cases first
    refine (List.mem_append.mp known).imp_right fun earlier => ?_
    obtain ⟨f, present, same⟩ := List.mem_map.mp earlier
    exact ⟨f, by simp [present], same⟩

/-- No value is expanded twice, and none that was seen. -/
theorem Marked.nodup {seen : List Value} {met : List Meeting} (h : Marked seen met) :
    ((firsts met).map (·.value)).Nodup ∧ ∀ f ∈ firsts met, f.value ∉ seen := by
  induction met generalizing seen with
  | nil => simp [firsts]
  | cons m met ih =>
    obtain ⟨here, rest⟩ := h
    cases first : m.first with
    | false => simpa [firsts, first] using ih (by simpa [first] using rest)
    | true =>
      obtain ⟨nodup, fresh⟩ := ih (by simpa [first] using rest)
      have new : m.value ∉ seen := here.mp first
      have others : ∀ f ∈ firsts met, f.value ∉ seen ∧ f.value ≠ m.value := by
        intro f member
        simpa [not_or] using fresh f member
      have cons : firsts (m :: met) = m :: firsts met := by simp [firsts, first]
      rw [cons, List.map_cons, List.nodup_cons]
      refine ⟨⟨?_, nodup⟩, ?_⟩
      · intro member
        obtain ⟨f, present, same⟩ := List.mem_map.mp member
        exact (others f present).2 same
      · intro f member
        rcases List.mem_cons.mp member with rfl | later
        · exact new
        · exact (others f later).1

/-- A meeting expands a value if and only if no meeting before it was with the same value. -/
theorem Marked.first_iff {met before later : List Meeting} {m : Meeting} (h : Marked [] met)
    (split : met = before ++ m :: later) :
    m.first = true ↔ ∀ earlier ∈ before, earlier.value ≠ m.value := by
  subst split
  obtain ⟨soFar, here, -⟩ := marked_append.mp h
  rw [here]
  refine ⟨fun new earlier member same => new ?_, fun none known => ?_⟩
  · rcases soFar.exists_first member with seen | ⟨f, present, value⟩
    · cases seen
    · exact List.mem_append_right _ (List.mem_map.mpr ⟨f, present, value.trans same⟩)
  · rcases List.mem_append.mp known with seen | expanded
    · cases seen
    · obtain ⟨f, present, same⟩ := List.mem_map.mp expanded
      exact none f (List.mem_of_mem_filter present) same

end Meeting

namespace Explores

open Meeting

variable {name : String} {tasks : Arrival → List Task} {seen middle after : List Value}
  {todo more : List Task} {met met' : List Meeting} {applied applied' : List Applied}

theorem append (h : Explores name tasks seen todo met applied middle)
    (h' : Explores name tasks middle more met' applied' after) :
    Explores name tasks seen (todo ++ more) (met ++ met') (applied ++ applied') after := by
  induction h with
  | done => exact h'
  | apply a _ ih => exact .apply a (ih h')
  | again known _ ih => exact .again known (ih h')
  | first new inner _ _ ih =>
    rw [List.cons_append, List.cons_append, List.append_assoc, List.append_assoc]
    exact .first new inner (ih h')

/-- An arrival that is expanded, with nothing to do after it. -/
theorem firstAlone {a : Arrival} (new : a.value ∉ seen)
    (h : Explores name tasks (seen ++ [a.value]) (tasks a) met applied after) :
    Explores name tasks seen [.meet a] (⟨name, a.cls, a.value, true⟩ :: met) applied after := by
  simpa using Explores.first new h (.done after)

/-- The expanded values are seen from then on. -/
theorem after_eq (h : Explores name tasks seen todo met applied after) :
    after = seen ++ (firsts met).map (·.value) := by
  induction h with
  | done => simp [firsts]
  | apply _ _ ih => exact ih
  | again _ _ ih => simpa [firsts] using ih
  | @first _ _ _ a _ inner rest _ _ _ _ _ ihInner ihRest =>
    have cons : firsts (⟨name, a.cls, a.value, true⟩ :: (inner ++ rest)) =
        ⟨name, a.cls, a.value, true⟩ :: (firsts inner ++ firsts rest) := by simp [firsts]
    rw [ihRest, ihInner, cons]
    simp

theorem marked (h : Explores name tasks seen todo met applied after) : Marked seen met := by
  induction h with
  | done => trivial
  | apply _ _ ih => exact ih
  | again known _ ih => exact ⟨by simp [known], by simpa using ih⟩
  | first new inner _ ihInner ihRest =>
    refine ⟨by simp [new], ?_⟩
    rw [if_pos rfl, marked_append]
    exact ⟨ihInner, inner.after_eq ▸ ihRest⟩

/-- What was done: the tasks that were given and those of the expanded arrivals, each once. -/
theorem tasks_perm (h : Explores name tasks seen todo met applied after) :
    (met.map (Task.meet ·.arrival) ++ applied.map (Task.apply ·.toApplication)).Perm
      (todo ++ (firsts met).flatMap fun m => tasks m.arrival) := by
  induction h with
  | done => exact .nil
  | apply a _ ih => exact List.perm_middle.trans (ih.cons _)
  | again _ _ ih => simpa [firsts, arrival] using ih
  | @first _ _ _ a rest inner met within applied _ _ _ ihInner ihRest =>
    have cons : firsts (⟨name, a.cls, a.value, true⟩ :: (inner ++ met)) =
        ⟨name, a.cls, a.value, true⟩ :: (firsts inner ++ firsts met) := by simp [firsts]
    rw [cons, List.map_cons, List.map_append, List.map_append, List.flatMap_cons,
      List.flatMap_append, List.cons_append, List.cons_append]
    -- First bring together what was done for the arrival and what was done after it.
    have split := (List.perm_append_comm_assoc (met.map (Task.meet ·.arrival))
      (within.map (Task.apply ·.toApplication)) (applied.map (Task.apply ·.toApplication))).append_left
        (inner.map (Task.meet ·.arrival))
    have both := ihInner.append ihRest
    simp only [List.append_assoc] at split both ⊢
    refine .cons _ ((split.trans both).trans ?_)
    refine ((List.perm_append_comm_assoc _ rest _).append_left (tasks a)).trans ?_
    exact List.perm_append_comm_assoc (tasks a) rest _

/-- The arrivals are those that were given and those that expanded ones lead to. -/
theorem arrivals_perm (h : Explores name tasks seen todo met applied after) :
    (met.map Meeting.arrival).Perm
      (Task.arrivals todo ++ (firsts met).flatMap fun m => Task.arrivals (tasks m.arrival)) := by
  simpa [Task.arrivals, List.filterMap_append, List.filterMap_map, List.filterMap_flatMap,
    Function.comp_def, Task.arrival?] using h.tasks_perm.filterMap Task.arrival?

/-- The rules that were applied are those that were given and those of expanded arrivals. -/
theorem applications_perm (h : Explores name tasks seen todo met applied after) :
    (applied.map Applied.toApplication).Perm (Task.applications todo ++
      (firsts met).flatMap fun m => Task.applications (tasks m.arrival)) := by
  simpa [Task.applications, List.filterMap_append, List.filterMap_map, List.filterMap_flatMap,
    Function.comp_def, Task.application?] using h.tasks_perm.filterMap Task.application?

/-- What holds of the first arrivals, and passes on from the expanded ones, holds of all that are
met. -/
theorem forall_met {Q : Arrival → Prop}
    (passes : ∀ a, Q a → ∀ b, .meet b ∈ tasks a → Q b)
    (h : Explores name tasks seen todo met applied after) (start : ∀ a, .meet a ∈ todo → Q a) :
    ∀ m ∈ met, Q m.arrival := by
  induction h with
  | done => nofun
  | apply _ _ ih => exact ih fun a member => start a (List.mem_cons_of_mem _ member)
  | again _ _ ih =>
    refine List.forall_mem_cons.mpr ⟨start _ List.mem_cons_self, ?_⟩
    exact ih fun a member => start a (List.mem_cons_of_mem _ member)
  | first _ _ _ ihInner ihRest =>
    have here := start _ List.mem_cons_self
    refine List.forall_mem_cons.mpr ⟨here, fun m member => ?_⟩
    refine (List.mem_append.mp member).elim (ihInner (passes _ here) m) (ihRest ?_ m)
    exact fun a member => start a (List.mem_cons_of_mem _ member)

/-- Where an arrival leads that was expanded. -/
def Leads (edges : Arrival → List Arrival) (met : List Meeting) (a b : Value) : Prop :=
  ∃ m ∈ firsts met, m.value = a ∧ ∃ next ∈ edges m.arrival, next.value = b

/-- From one arrival on, all is expanded that can be reached from expanded values. -/
theorem reached {start : Arrival} (h : Explores name tasks [] [.meet start] met applied after)
    {b : Value}
    (reachable : Relation.ReflTransGen (Leads (Task.arrivals ∘ tasks) met) start.value b) :
    ∃ m ∈ firsts met, m.value = b := by
  have arrived (a : Arrival)
      (member : a ∈ start :: (firsts met).flatMap fun m => Task.arrivals (tasks m.arrival)) :
      ∃ m ∈ firsts met, m.value = a.value := by
    obtain ⟨m, present, same⟩ := List.mem_map.mp (h.arrivals_perm.mem_iff.mpr member)
    rcases h.marked.exists_first present with seen | expanded
    · cases seen
    · rwa [← same]
  induction reachable with
  | refl => exact arrived start List.mem_cons_self
  | tail _ leads _ =>
    obtain ⟨m, present, -, next, edge, rfl⟩ := leads
    exact arrived next (List.mem_cons_of_mem _ (List.mem_flatMap.mpr ⟨m, present, edge⟩))

/-- All arrivals but those that were expanded are repeats. -/
theorem repeats_length {start : Arrival}
    (h : Explores name tasks [] [.meet start] met applied after) :
    (repeats met).length + (firsts met).length =
      ((firsts met).flatMap fun m => Task.arrivals (tasks m.arrival)).length + 1 := by
  have arrivals := h.arrivals_perm.length_eq
  rw [List.length_map, ← firsts_length_add_repeats_length] at arrivals
  simpa [Nat.add_comm] using arrivals

end Explores

end PathRules
