import PathRules.Proofs.Check
import PathRules.Proofs.Run.Frames

/-!
# Runs that follow checks

`Follows` relates a computation on a run to one that knows only the store: both answer or both
fail with the same fault, and they leave the same store.  What else the run does is said by a
relation between the answers and the run it leaves.  The relation composes along sequences.
-/

namespace PathRules

variable {α β γ δ : Type} {g : ObjectGraph}

namespace RunM

@[simp] theorem runOn_pure (a : α) (run : Run) :
    (pure a : RunM α).runOn g run = (.ok a, run) := rfl

theorem runOn_bind (m : RunM α) (f : α → RunM β) (run : Run) :
    (m >>= f).runOn g run =
      match m.runOn g run with
      | (.ok a, after) => (f a).runOn g after
      | (.error fault, after) => (.error fault, after) := by
  unfold runOn
  simp only [ReaderT.run_bind, ExceptT.run_bind, StateT.run_bind]
  change _ = match StateT.run (ExceptT.run (ReaderT.run m g)) run with | _ => _
  generalize StateT.run (ExceptT.run (ReaderT.run m g)) run = x
  rcases x with ⟨_ | a, after⟩ <;> rfl

/-- A computation in two steps that comes to something, as its steps do. -/
theorem runOn_bind_ok {m : RunM α} {f : α → RunM β} {run after : Run} {b : β}
    (h : (m >>= f).runOn g run = (.ok b, after)) :
    ∃ a between, m.runOn g run = (.ok a, between) ∧ (f a).runOn g between = (.ok b, after) := by
  rw [runOn_bind] at h
  rcases ran : m.runOn g run with ⟨fault | a, between⟩ <;> rw [ran] at h
  · cases h
  · exact ⟨a, between, rfl, h⟩

theorem runOn_map (f : α → β) (m : RunM α) (run : Run) :
    (f <$> m).runOn g run =
      match m.runOn g run with
      | (.ok a, after) => (.ok (f a), after)
      | (.error fault, after) => (.error fault, after) := by
  rw [← bind_pure_comp, runOn_bind]
  rfl

/-- Computations that do the same on every run, one after the other. -/
theorem runOn_bind_congr {m m' : RunM α} {f f' : α → RunM β} (h : m.runOn g = m'.runOn g)
    (hf : ∀ a, (f a).runOn g = (f' a).runOn g) : (m >>= f).runOn g = (m' >>= f').runOn g := by
  funext run
  rw [runOn_bind, runOn_bind, h]
  rcases m'.runOn g run with ⟨fault | a, after⟩
  · rfl
  · exact congrFun (hf a) after

@[simp] theorem runOn_get (run : Run) : (get : RunM Run).runOn g run = (.ok run, run) := rfl

@[simp] theorem runOn_modify (f : Run → Run) (run : Run) :
    (modify f : RunM Unit).runOn g run = (.ok (), f run) := rfl

@[simp] theorem runOn_modifyStack (f : Stack → Stack) (run : Run) :
    (modifyStack f).runOn g run = (.ok (), { run with stack := f run.stack }) := rfl

@[simp] theorem runOn_ofCheck (check : Check α) (run : Run) :
    (ofCheck check).runOn g run =
      ((check.runOn g run.store).1, { run with store := (check.runOn g run.store).2 }) := rfl

@[simp] theorem runOn_apart (m : RunM α) (run : Run) :
    (apart m).runOn g run =
      ((m.runOn g { run with stack := {}, observed := false }).1,
        { (m.runOn g { run with stack := {}, observed := false }).2 with
          stack := run.stack, observed := run.observed }) := rfl

theorem runOn_changeStack (f : Stack → Except Fault Stack) (run : Run) {stack : Stack}
    (h : f run.stack = .ok stack) :
    (changeStack f).runOn g run = (.ok (), { run with stack }) := by
  simp [changeStack, runOn_bind, h]

theorem runOn_changeStack_error (f : Stack → Except Fault Stack) (run : Run) {fault : Fault}
    (h : f run.stack = .error fault) :
    (changeStack f).runOn g run = (.error fault, run) := by
  simp [changeStack, runOn_bind, h]
  rfl

theorem runOn_emit (type : EventType) (data : List (String × Value)) (run : Run) :
    (emit type data).runOn g run =
      (.ok (), { run with
        events := run.events ++
          if run.observed then [⟨type, run.origin, data, none⟩] else [] }) := by
  rcases run with ⟨stack, store, rulebook, events, _ | _, origin⟩ <;> simp [emit]

end RunM

/-- The run `m` does to the store what `check` does; where they answer, the answers and the run
that is left are related by `R`. -/
def Follows (g : ObjectGraph) (m : RunM α) (run : Run) (check : Check β)
    (R : α → β → Run → Prop) : Prop :=
  match check.runOn g run.store, m.runOn g run with
  | (.ok b, store), (.ok a, after) => after.store = store ∧ R a b after
  | (.error fault, store), (.error fault', after) => fault' = fault ∧ after.store = store
  | _, _ => False

namespace Follows

variable {m : RunM α} {check : Check β} {run : Run} {R : α → β → Run → Prop}

theorem of_pure {a : α} {b : β} (h : R a b run) :
    Follows g (pure a) run (pure b) R := ⟨rfl, h⟩

theorem of_throw (fault : Fault) : Follows g (throw fault) run (throw fault) R := ⟨rfl, rfl⟩

/-- A check that a run performs changes nothing but the store. -/
theorem of_check (check : Check α) :
    Follows g (RunM.ofCheck check) run check
      fun a b after => a = b ∧ after = { run with store := after.store } := by
  unfold Follows
  rw [RunM.runOn_ofCheck]
  rcases check.runOn g run.store with ⟨_ | a, store⟩
  · exact ⟨rfl, rfl⟩
  · exact ⟨rfl, rfl, rfl⟩

theorem mono {S : α → β → Run → Prop} (h : Follows g m run check R)
    (imp : ∀ a b after, R a b after → S a b after) : Follows g m run check S := by
  unfold Follows at h ⊢
  revert h
  rcases check.runOn g run.store with ⟨_ | b, store⟩ <;>
    rcases m.runOn g run with ⟨_ | a, after⟩ <;> intro h
  · exact h
  · exact h
  · exact h
  · exact ⟨h.1, imp a b after h.2⟩

/-- A run whose answers are read off those of the check. -/
theorem runOn_eq {f : β → α} (h : Follows g m run check R)
    (read : ∀ a b after, R a b after → a = f b) :
    (m.runOn g run).1 = (check.runOn g run.store).1.map f ∧
      (m.runOn g run).2.store = (check.runOn g run.store).2 := by
  unfold Follows at h
  rcases hc : check.runOn g run.store with ⟨_ | b, store⟩ <;>
    rcases hm : m.runOn g run with ⟨_ | a, after⟩ <;> rw [hc, hm] at h
  · obtain ⟨rfl, same⟩ := h
    exact ⟨rfl, same⟩
  · exact h.elim
  · exact h.elim
  · obtain ⟨same, related⟩ := h
    exact ⟨congrArg Except.ok (read a b after related), same⟩

/-- A run raises what the check raises. -/
theorem fault_of_raisesOnly {P : Fault → Prop} (h : Follows g m run check R)
    (raises : check.RaisesOnly g P) {fault : Fault} (raised : (m.runOn g run).1 = .error fault) :
    P fault := by
  have allowed := raises run.store
  unfold Follows at h
  rcases hc : check.runOn g run.store with ⟨first | b, store⟩ <;>
    rcases hm : m.runOn g run with ⟨fault' | a, after⟩ <;> rw [hc, hm] at h <;>
    rw [hm] at raised <;> rw [hc] at allowed <;> cases raised
  · obtain ⟨rfl, -⟩ := h
    exact allowed
  · exact h.elim

/-- Sequences follow sequences. -/
theorem bind {f : α → RunM γ} {k : β → Check δ} {S : γ → δ → Run → Prop}
    (h : Follows g m run check R) (hk : ∀ a b after, R a b after → Follows g (f a) after (k b) S) :
    Follows g (m >>= f) run (check >>= k) S := by
  unfold Follows at h ⊢
  rw [RunM.runOn_bind, Check.runOn_bind]
  rcases hc : check.runOn g run.store with ⟨_ | b, store⟩ <;>
    rcases hm : m.runOn g run with ⟨_ | a, after⟩ <;> rw [hc, hm] at h
  · exact h
  · exact h.elim
  · exact h.elim
  · obtain ⟨rfl, related⟩ := h
    exact hk a b after related

/-- A step of the run alone comes first. -/
theorem before {f : α → RunM γ} {S : γ → β → Run → Prop} {a : α} {mid : Run}
    (hm : m.runOn g run = (.ok a, mid)) (same : mid.store = run.store)
    (h : Follows g (f a) mid check S) : Follows g (m >>= f) run check S := by
  unfold Follows at h ⊢
  rw [RunM.runOn_bind, hm, ← same]
  exact h

/-- A run that answers without touching the store follows an answer. -/
theorem answer {a : α} {b : β} {after : Run} (hm : m.runOn g run = (.ok a, after))
    (same : after.store = run.store) (h : R a b after) : Follows g m run (pure b) R := by
  unfold Follows
  rw [hm]
  exact ⟨same, h⟩

/-- Only the answers differ. -/
theorem map {f : α → γ} {k : β → δ} {S : γ → δ → Run → Prop} (h : Follows g m run check R)
    (imp : ∀ a b after, R a b after → S (f a) (k b) after) :
    Follows g (do let a ← m; pure (f a)) run (do let b ← check; pure (k b)) S :=
  h.bind fun a b after related => of_pure (imp a b after related)

end Follows

end PathRules
