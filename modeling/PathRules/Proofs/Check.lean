import PathRules.Store

/-!
# Checks

What a check does is known by what it does on every store.  `Check.Meets` says what a check
answers and which faults it raises, whatever the store holds.
-/

namespace PathRules

variable {α β : Type} {Q : α → Prop} {P : Fault → Prop} {g : ObjectGraph}

namespace Check

@[simp] theorem runOn_pure (a : α) (store : Store) :
    (pure a : Check α).runOn g store = (.ok a, store) := rfl

/-- The second of two checks is reached if the first answers. -/
theorem runOn_bind (m : Check α) (f : α → Check β) (store : Store) :
    (m >>= f).runOn g store =
      match m.runOn g store with
      | (.ok a, after) => (f a).runOn g after
      | (.error fault, after) => (.error fault, after) := by
  unfold runOn
  simp only [ReaderT.run_bind, ExceptT.run_bind, StateT.run_bind]
  change _ = match StateT.run (ExceptT.run (ReaderT.run m g)) store with | _ => _
  generalize StateT.run (ExceptT.run (ReaderT.run m g)) store = x
  rcases x with ⟨_ | a, after⟩ <;> rfl

@[simp] theorem runOn_read (store : Store) :
    (read : Check ObjectGraph).runOn g store = (.ok g, store) := rfl

@[simp] theorem runOn_get (store : Store) : (get : Check Store).runOn g store = (.ok store, store) :=
  rfl

@[simp] theorem runOn_ofExcept (outcome : Except Fault α) (store : Store) :
    (ofExcept outcome).runOn g store = (outcome, store) := by
  cases outcome <;> rfl

/-- Whatever the check answers satisfies `Q`, and whatever fault it raises satisfies `P`. -/
def Meets (g : ObjectGraph) (m : Check α) (Q : α → Prop) (P : Fault → Prop) : Prop :=
  ∀ store, match (m.runOn g store).1 with
    | .ok a => Q a
    | .error fault => P fault

/-- Whatever fault the check raises satisfies `P`. -/
def RaisesOnly (g : ObjectGraph) (P : Fault → Prop) (m : Check α) : Prop :=
  m.Meets g (fun _ => True) P

namespace Meets

theorem of_pure {a : α} (h : Q a) : Meets g (pure a) Q P := fun _ => h

theorem of_throw {fault : Fault} (h : P fault) : Meets g (throw fault : Check α) Q P := fun _ => h

theorem bind {m : Check α} {f : α → Check β} {R : β → Prop} (h : Meets g m Q P)
    (hf : ∀ a, Q a → Meets g (f a) R P) : Meets g (m >>= f) R P := by
  intro store
  have first := h store
  rw [runOn_bind]
  rcases ran : m.runOn g store with ⟨fault | a, after⟩ <;> rw [ran] at first
  · exact first
  · exact hf a first after

theorem of_ite {c : Prop} [Decidable c] {m m' : Check α} (h : Meets g m Q P)
    (h' : Meets g m' Q P) : Meets g (if c then m else m') Q P := by
  split
  · exact h
  · exact h'

theorem mono {m : Check α} {Q' : α → Prop} {P' : Fault → Prop} (h : Meets g m Q P)
    (imp : ∀ a, Q a → Q' a) (impFault : ∀ fault, P fault → P' fault) : Meets g m Q' P' := by
  intro store
  have here := h store
  rcases ran : m.runOn g store with ⟨fault | a, after⟩ <;> rw [ran] at here
  · exact impFault fault here
  · exact imp a here

/-- Nothing more need be known of an answer. -/
theorem raisesOnly {m : Check α} (h : Meets g m Q P) : RaisesOnly g P m :=
  h.mono (fun _ _ => trivial) fun _ => id

theorem of_read : Meets g read (· = g) P := fun _ => rfl

theorem of_get : RaisesOnly g P (get : Check Store) := fun _ => trivial

theorem of_set (store : Store) : RaisesOnly g P (set store : Check Unit) := fun _ => trivial

theorem of_modify (f : Store → Store) : RaisesOnly g P (modify f : Check Unit) :=
  fun _ => trivial

theorem of_ofExcept {outcome : Except Fault α} (h : ∀ a, outcome = .ok a → Q a)
    (hfault : ∀ fault, outcome = .error fault → P fault) : Meets g (ofExcept outcome) Q P := by
  intro store
  rw [runOn_ofExcept]
  cases outcome with
  | error fault => exact hfault fault rfl
  | ok a => exact h a rfl

theorem of_mapM {f : α → Check β} {R : β → Prop} {as : List α} (h : ∀ a ∈ as, Meets g (f a) R P) :
    Meets g (as.mapM f) (fun bs => ∀ b ∈ bs, R b) P := by
  induction as with
  | nil => exact of_pure (by simp)
  | cons a as ih =>
    rw [List.mapM_cons]
    refine (h a List.mem_cons_self).bind fun b holds => ?_
    refine (ih fun a' member => h a' (List.mem_cons_of_mem a member)).bind fun bs all => ?_
    exact of_pure (List.forall_mem_cons.mpr ⟨holds, all⟩)

end Meets

/-- Whatever the check answers satisfies `Q`. -/
def Ensures (g : ObjectGraph) (m : Check α) (Q : α → Prop) : Prop := m.Meets g Q fun _ => True

theorem Ensures.of_forall {m : Check α} (h : ∀ a, Q a) : Ensures g m Q := by
  intro store
  split
  · exact h _
  · trivial

theorem ensures_true (m : Check α) : Ensures g m fun _ => True := .of_forall fun _ => trivial

theorem Ensures.and {m : Check α} {Q' : α → Prop} (h : Ensures g m Q) (h' : Ensures g m Q') :
    Ensures g m fun a => Q a ∧ Q' a := by
  intro store
  have first := h store
  have second := h' store
  rcases ran : m.runOn g store with ⟨fault | a, after⟩ <;> rw [ran] at first second
  · trivial
  · exact ⟨first, second⟩

/-- The check answers `a` on some store. -/
def CanAnswer (g : ObjectGraph) (m : Check α) (a : α) : Prop :=
  ∃ store, (m.runOn g store).1 = .ok a

/-- The check answers `a` on every store. -/
def Answers (g : ObjectGraph) (m : Check α) (a : α) : Prop :=
  ∀ store, (m.runOn g store).1 = .ok a

/-- The check answers the same on every store, or always raises the same fault. -/
def IsSteady (g : ObjectGraph) (m : Check α) : Prop :=
  ∀ store store', (m.runOn g store).1 = (m.runOn g store').1

theorem ensures_canAnswer (m : Check α) : Ensures g m (CanAnswer g m) := by
  intro store
  rcases ran : m.runOn g store with ⟨fault | a, after⟩
  · trivial
  · exact ⟨store, by rw [ran]⟩

namespace Answers

theorem of_pure (a : α) : Answers g (pure a) a := fun _ => rfl

theorem bind {m : Check α} {f : α → Check β} {a : α} {b : β} (h : Answers g m a)
    (hf : Answers g (f a) b) : Answers g (m >>= f) b := by
  intro store
  have first := h store
  rw [runOn_bind]
  rcases ran : m.runOn g store with ⟨fault | a', after⟩ <;> rw [ran] at first
  · cases first
  · cases first
    exact hf after

end Answers

namespace IsSteady

theorem answers {m : Check α} {a : α} (h : IsSteady g m) (can : CanAnswer g m a) :
    Answers g m a := by
  obtain ⟨store, answered⟩ := can
  exact fun store' => (h store' store).trans answered

theorem of_pure (a : α) : IsSteady g (pure a) := fun _ _ => rfl

theorem of_throw (fault : Fault) : IsSteady g (throw fault : Check α) := fun _ _ => rfl

theorem of_read : IsSteady g (read : Check ObjectGraph) := fun _ _ => rfl

theorem of_ofExcept (outcome : Except Fault α) : IsSteady g (ofExcept outcome) := by
  intro store store'
  rw [runOn_ofExcept, runOn_ofExcept]

theorem of_ite {c : Prop} [Decidable c] {m m' : Check α} (h : IsSteady g m) (h' : IsSteady g m') :
    IsSteady g (if c then m else m') := by
  split
  · exact h
  · exact h'

theorem bind {m : Check α} {f : α → Check β} (h : IsSteady g m) (hf : ∀ a, IsSteady g (f a)) :
    IsSteady g (m >>= f) := by
  intro store store'
  have first := h store store'
  rw [runOn_bind, runOn_bind]
  rcases ran : m.runOn g store with ⟨fault | a, after⟩ <;>
    rcases ran' : m.runOn g store' with ⟨fault' | a', after'⟩ <;>
    rw [ran, ran'] at first <;> cases first
  · rfl
  · exact hf a after after'

end IsSteady

end Check

end PathRules
