import PathRules.Proofs.Run.Follows
import PathRules.Run.Validate

/-!
# What a run may do to the store

A relation on stores says which changes are permitted.  Whoever reads from a one-shot source
takes values out of it, so a relation has to permit that.  `Validation.Keeps` asks it of every
test, extractor and action that a validation is made of, scripts included.

The operations on the stack do not look at the rulebook, at who sends the events of the run or at
those that were sent before; `RunM.Blind` says so for all that a run consists of, except looking up
the rules of a model.
-/

namespace PathRules

variable {α β : Type} {g : ObjectGraph}

namespace Store

/-- Values were taken out of one-shot sources; nothing else was changed. -/
structure Takes (before after : Store) : Prop where
  entries_eq : after.entries = before.entries
  journal_eq : after.journal = before.journal
  length_eq : after.sources.length = before.sources.length
  suffix (number : Nat) : after.remaining number <:+ before.remaining number

namespace Takes

theorem refl (store : Store) : store.Takes store :=
  ⟨rfl, rfl, rfl, fun _ => List.suffix_rfl⟩

theorem trans {a b c : Store} (first : a.Takes b) (second : b.Takes c) : a.Takes c where
  entries_eq := second.entries_eq.trans first.entries_eq
  journal_eq := second.journal_eq.trans first.journal_eq
  length_eq := second.length_eq.trans first.length_eq
  suffix number := (second.suffix number).trans (first.suffix number)

/-- One source is left with a suffix of what it held. -/
theorem of_set {store : Store} {number : Nat} {left : List Value}
    (h : left <:+ store.remaining number) :
    store.Takes { store with sources := store.sources.set number left } := by
  refine ⟨rfl, rfl, by simp, fun other => ?_⟩
  unfold remaining
  rw [List.getElem?_set]
  split
  · next same =>
    subst same
    split
    · exact h
    · exact List.nil_suffix
  · exact List.suffix_rfl

theorem of_next (store : Store) (number : Nat) : store.Takes (store.next number).2 := by
  unfold next
  split
  · next v rest held =>
    refine of_set ?_
    rw [remaining, held]
    exact List.suffix_cons v rest
  · exact refl store

theorem of_drain (store : Store) (number : Nat) : store.Takes (store.drain number) :=
  of_set List.nil_suffix

end Takes

/-- A relation that permits taking values out of sources, and one change after another. -/
structure Permits (A : Store → Store → Prop) : Prop where
  takes {before after : Store} : before.Takes after → A before after
  trans {a b c : Store} : A a b → A b c → A a c

theorem Permits.refl {A : Store → Store → Prop} (permits : Permits A) (store : Store) :
    A store store :=
  permits.takes (.refl store)

theorem Permits.takings : Permits Takes := ⟨id, Takes.trans⟩

theorem Permits.any : Permits fun _ _ => True := ⟨fun _ => trivial, fun _ _ => trivial⟩

end Store

variable {A : Store → Store → Prop}

namespace Check

/-- The check changes the store in a permitted way, whatever it answers. -/
def Keeps (g : ObjectGraph) (A : Store → Store → Prop) (m : Check α) : Prop :=
  ∀ store, A store (m.runOn g store).2

namespace Keeps

theorem any (m : Check α) : m.Keeps g fun _ _ => True := fun _ => trivial

variable (permits : Store.Permits A)

include permits

theorem of_pure (a : α) : (pure a : Check α).Keeps g A := fun store => permits.refl store

theorem of_throw (fault : Fault) : (throw fault : Check α).Keeps g A :=
  fun store => permits.refl store

theorem of_read : (read : Check ObjectGraph).Keeps g A := fun store => permits.refl store

theorem of_ofExcept (outcome : Except Fault α) : (ofExcept outcome).Keeps g A := by
  intro store
  rw [runOn_ofExcept]
  exact permits.refl store

theorem bind {m : Check α} {f : α → Check β} (h : m.Keeps g A) (hf : ∀ a, (f a).Keeps g A) :
    (m >>= f).Keeps g A := by
  intro store
  have first := h store
  rw [runOn_bind]
  rcases ran : m.runOn g store with ⟨fault | a, after⟩ <;> rw [ran] at first
  · exact first
  · exact permits.trans first (hf a after)

theorem of_mapM {f : α → Check β} (as : List α) (hf : ∀ a, (f a).Keeps g A) :
    (as.mapM f).Keeps g A := by
  induction as with
  | nil => exact of_pure permits []
  | cons a as ih =>
    rw [List.mapM_cons]
    exact (hf a).bind permits fun b => ih.bind permits fun bs => of_pure permits (b :: bs)

theorem of_render (c : Constraint) (v : Value) : (c.render v).Keeps g A := by
  unfold Constraint.render
  refine (of_read permits).bind permits fun g' => ?_
  split
  · exact of_pure permits _
  · exact of_throw permits _

/-- Iterating a value takes all out of a source. -/
theorem of_elements (v : Value) : v.elements.Keeps g A := by
  unfold Value.elements
  split
  · exact fun store => permits.takes (.of_drain store _)
  · refine (of_read permits).bind permits fun g' => ?_
    split
    · exact of_pure permits _
    · exact of_throw permits _

theorem of_pairs (v : Value) : v.pairs.Keeps g A := by
  unfold Value.pairs
  split
  · exact of_pure permits _
  · refine (of_read permits).bind permits fun g' => ?_
    refine (of_ofExcept permits _).bind permits fun found => ?_
    refine (of_elements permits found).bind permits fun rows => ?_
    refine of_mapM permits rows fun row => (of_elements permits row).bind permits fun items => ?_
    split
    · exact of_pure permits _
    · exact of_throw permits _

end Keeps

end Check

/-- The event as another validation sends it. -/
def Event.sentBy (origin : String) (e : Event) : Event := { e with origin }

namespace RunM

/-- The computation does not look at the rulebook or change it, at the origin of the run or at what
was sent before it; it changes the store in a permitted way. -/
structure Blind (g : ObjectGraph) (A : Store → Store → Prop) (m : RunM α) : Prop where
  unseen (run : Run) : ∃ sent : List Event, ∀ rulebook origin events,
    m.runOn g { run with rulebook, origin, events } =
      ((m.runOn g run).1,
        { (m.runOn g run).2 with
          rulebook, origin, events := events ++ sent.map (·.sentBy origin) })
  store (run : Run) : A run.store (m.runOn g run).2.store

namespace Blind

theorem rulebook_eq {m : RunM α} (h : m.Blind g A) (run : Run) :
    (m.runOn g run).2.rulebook = run.rulebook := by
  obtain ⟨sent, unseen⟩ := h.unseen run
  exact congrArg (·.2.rulebook) (unseen run.rulebook run.origin run.events)

variable (permits : Store.Permits A)

include permits

theorem of_pure (a : α) : (pure a : RunM α).Blind g A where
  unseen _ := ⟨[], fun _ _ events => by rw [List.map_nil, List.append_nil]; rfl⟩
  store run := permits.refl run.store

theorem of_throw (fault : Fault) : (throw fault : RunM α).Blind g A where
  unseen _ := ⟨[], fun _ _ events => by rw [List.map_nil, List.append_nil]; rfl⟩
  store run := permits.refl run.store

theorem bind {m : RunM α} {f : α → RunM β} (h : m.Blind g A) (hf : ∀ a, (f a).Blind g A) :
    (m >>= f).Blind g A where
  unseen run := by
    obtain ⟨sent, same⟩ := h.unseen run
    rw [runOn_bind]
    rcases ran : m.runOn g run with ⟨fault | a, after⟩ <;> rw [ran] at same
    · exact ⟨sent, fun rulebook origin events => by rw [runOn_bind, same]⟩
    · obtain ⟨later, same'⟩ := (hf a).unseen after
      refine ⟨sent ++ later, fun rulebook origin events => ?_⟩
      rw [runOn_bind, same, List.map_append, ← List.append_assoc]
      exact same' rulebook origin _
  store run := by
    have first := h.store run
    rw [runOn_bind]
    rcases ran : m.runOn g run with ⟨fault | a, after⟩ <;> rw [ran] at first
    · exact first
    · exact permits.trans first ((hf a).store after)

omit permits in
theorem of_ite {c : Prop} [Decidable c] {m m' : RunM α} (h : m.Blind g A) (h' : m'.Blind g A) :
    (if c then m else m').Blind g A := by
  split
  · exact h
  · exact h'

omit permits in
/-- What is read off a run must not depend on what is not looked at. -/
theorem of_get {k : Run → RunM α}
    (same : ∀ run rulebook origin events, k { run with rulebook, origin, events } = k run)
    (h : ∀ run, (k run).Blind g A) : (get >>= k).Blind g A where
  unseen run := by
    obtain ⟨sent, same'⟩ := (h run).unseen run
    refine ⟨sent, fun rulebook origin events => ?_⟩
    rw [runOn_bind, runOn_bind, runOn_get, runOn_get]
    dsimp only
    rw [same]
    exact same' rulebook origin events
  store run := by
    rw [runOn_bind, runOn_get]
    exact (h run).store run

theorem of_modifyStack (f : Stack → Stack) : (modifyStack f).Blind g A where
  unseen _ := ⟨[], fun _ _ events => by rw [List.map_nil, List.append_nil]; rfl⟩
  store run := permits.refl run.store

/-- Events are sent by the origin of the run, behind those that were sent before. -/
theorem of_send {f : Run → Run} (e : Event)
    (sends : ∀ run : Run, f run =
      if run.observed then { run with events := run.events ++ [e.sentBy run.origin] } else run) :
    (modify f : RunM Unit).Blind g A where
  unseen run := by
    refine ⟨if run.observed then [e] else [], fun rulebook origin events => ?_⟩
    rw [runOn_modify, runOn_modify, sends, sends]
    cases observed : run.observed <;> simp [observed]
  store run := by
    rw [runOn_modify, sends]
    split <;> exact permits.refl run.store

theorem of_changeStack (f : Stack → Except Fault Stack) : (changeStack f).Blind g A := by
  refine of_get (fun _ _ _ _ => rfl) fun run => ?_
  cases f run.stack with
  | error fault => exact of_throw permits fault
  | ok stack => exact of_modifyStack permits _

theorem of_emit (type : EventType) (data : List (String × Value)) :
    (emit type data).Blind g A :=
  of_send permits { type, origin := "", data } fun _ => rfl

theorem of_record (leaf : Leaf) : (record leaf).Blind g A :=
  (of_changeStack permits _).bind permits fun _ =>
    of_get (fun _ _ _ _ => rfl) fun _ => of_emit permits _ _

theorem of_discard : discard.Blind g A := by
  refine of_get (fun _ _ _ _ => rfl) fun run => ?_
  cases run.stack.pop? with
  | none => exact of_throw permits _
  | some popped => exact (of_modifyStack permits _).bind permits fun _ => of_pure permits _

theorem of_attach : attach.Blind g A := by
  refine (of_discard permits).bind permits fun frame => ?_
  split
  · exact (of_changeStack permits _).bind permits fun _ => of_pure permits _
  · exact of_throw permits _

theorem of_close (valid keepWarnings : Bool) : (close valid keepWarnings).Blind g A := by
  refine of_get (fun _ _ _ _ => rfl) fun run => of_ite ?_ ?_
  · exact (of_attach permits).bind permits fun _ => of_pure permits _
  · exact (of_discard permits).bind permits fun _ => of_pure permits _

theorem of_finish : finish.Blind g A := by
  refine of_get (fun _ _ _ _ => rfl) fun run => of_ite ?_ ?_
  · exact of_pure permits _
  · exact of_throw permits _

omit permits

theorem of_ofCheck {check : Check α} (h : check.Keeps g A) : (ofCheck check).Blind g A :=
  { unseen := fun _ => ⟨[], fun _ _ events => by rw [List.map_nil, List.append_nil]; rfl⟩
    store := fun run => h run.store }

end Blind

end RunM

namespace Action

open RunM

/-- The action changes the store in a permitted way, whatever value it is performed for. -/
def Keeps (g : ObjectGraph) (A : Store → Store → Prop) (action : Action) : Prop :=
  ∀ v run, A run.store ((action.perform v).runOn g run).2.store

theorem perform_blind_any (action : Action) (v : Value) :
    (action.perform v).Blind g fun _ _ => True := by
  have permits := Store.Permits.any
  have checked (check : Check Value) : (ofCheck check).Blind g fun _ _ => True :=
    .of_ofCheck (.any check)
  have silent {m : RunM Unit} (h : m.Blind g fun _ _ => True) :
      (do m; pure Reply.none).Blind g fun _ _ => True :=
    h.bind permits fun _ => .of_pure permits _
  cases action with
  | openGroup | openPath => exact silent (.of_modifyStack permits _)
  | record => exact silent (.of_record permits _)
  | discard => exact (Blind.of_discard permits).bind permits fun _ => .of_pure permits _
  | attach => exact (Blind.of_attach permits).bind permits fun _ => .of_pure permits _
  | close => exact (Blind.of_close permits _ _).bind permits fun _ => .of_pure permits _
  | note => exact silent (.of_get (fun _ _ _ _ => rfl) fun _ => .of_ofCheck (.any _))
  | put | erase | update | clear => exact silent (.of_ofCheck (.any _))
  | lookup | lookupD | setDefault | takeFirst =>
    exact (checked _).bind permits fun _ => .of_pure permits _
  | has | count | entries | describe =>
    exact .of_get (fun _ _ _ _ => rfl) fun _ => .of_pure permits _
  | emit => exact silent (.of_emit permits _ _)
  | finish | outcome => exact (Blind.of_finish permits).bind permits fun _ => .of_pure permits _
  | derive => exact .of_pure permits _

/-- No action looks at the rulebook. -/
theorem Keeps.blind {action : Action} (h : action.Keeps g A) (v : Value) :
    (action.perform v).Blind g A :=
  { action.perform_blind_any v with store := h v }

end Action

namespace Validation

mutual

/-- Every test, extractor and action changes the store in a permitted way; model validations are
part of it only if `models` holds. -/
def Keeps (g : ObjectGraph) (A : Store → Store → Prop) (models : Prop) : Validation → Prop
  | .object constraints subs _ _ =>
      (∀ c ∈ constraints, ∀ v, (c.test v).Keeps g A) ∧ AllKeep g A models subs
  | .step _ guards target inner =>
      GuardsKeep g A models guards ∧ (∀ v, (target.get v).Keeps g A) ∧ Keeps g A models inner
  | .elements _ inner => Keeps g A models inner
  | .script steps _ => StepsKeep g A models steps
  | .model .. => models
termination_by structural validation => validation

def AllKeep (g : ObjectGraph) (A : Store → Store → Prop) (models : Prop) :
    List Validation → Prop
  | [] => True
  | sub :: subs => Keeps g A models sub ∧ AllKeep g A models subs
termination_by structural validations => validations

def GuardsKeep (g : ObjectGraph) (A : Store → Store → Prop) (models : Prop) : List Guard → Prop
  | [] => True
  | .mk _ condition :: guards => Keeps g A models condition ∧ GuardsKeep g A models guards
termination_by structural guards => guards

def StepsKeep (g : ObjectGraph) (A : Store → Store → Prop) (models : Prop) : List Step → Prop
  | [] => True
  | .act action :: steps => action.Keeps g A ∧ StepsKeep g A models steps
  | .fail _ :: steps => StepsKeep g A models steps
  | .evaluate validation :: steps => Keeps g A models validation ∧ StepsKeep g A models steps
termination_by structural steps => steps

end

mutual

/-- Any validation does if everything is permitted. -/
theorem keeps_any : (validation : Validation) → validation.Keeps g (fun _ _ => True) True
  | .object _ subs _ _ => ⟨fun _ _ _ => .any _, allKeep_any subs⟩
  | .step _ guards _ inner => ⟨guardsKeep_any guards, fun _ => .any _, keeps_any inner⟩
  | .elements _ inner => keeps_any inner
  | .script steps _ => stepsKeep_any steps
  | .model .. => trivial
termination_by structural validation => validation

theorem allKeep_any : (subs : List Validation) → AllKeep g (fun _ _ => True) True subs
  | [] => trivial
  | sub :: subs => ⟨keeps_any sub, allKeep_any subs⟩
termination_by structural subs => subs

theorem guardsKeep_any : (guards : List Guard) → GuardsKeep g (fun _ _ => True) True guards
  | [] => trivial
  | .mk _ condition :: guards => ⟨keeps_any condition, guardsKeep_any guards⟩
termination_by structural guards => guards

theorem stepsKeep_any : (steps : List Step) → StepsKeep g (fun _ _ => True) True steps
  | [] => trivial
  | .act _ :: steps => ⟨fun _ _ => trivial, stepsKeep_any steps⟩
  | .fail _ :: steps => stepsKeep_any steps
  | .evaluate validation :: steps => ⟨keeps_any validation, stepsKeep_any steps⟩
termination_by structural steps => steps

end

end Validation

end PathRules
