import PathRules.Proofs.Run.Keeps
import PathRules.Proofs.Run.Simulation

/-!
# Runs in lockstep

Two computations on two related runs give the same result and leave related runs.  A relation is
a congruence if related runs differ only in what checks do not look at, which is the rulebook, who
sends the events and what was sent before, and if it is not disturbed by what a run does besides
looking up rules.  Evaluations are in lockstep for every congruence, as soon as models are expanded
in lockstep.
-/

namespace PathRules

variable {α β : Type} {g : ObjectGraph} {A : Store → Store → Prop} {R : Run → Run → Prop}

def Lockstep (g : ObjectGraph) (R : Run → Run → Prop) (m m' : RunM α) : Prop :=
  ∀ run run', R run run' →
    (m.runOn g run).1 = (m'.runOn g run').1 ∧ R (m.runOn g run).2 (m'.runOn g run').2

/-- Related runs differ in their rulebook, their origin and their events only, and remain related
whatever else is changed, the store in a permitted way, and whatever events both send. -/
structure Congruence (A : Store → Store → Prop) (R : Run → Run → Prop) : Prop where
  agree {run run' : Run} : R run run' →
    run' = { run with rulebook := run'.rulebook, origin := run'.origin, events := run'.events }
  move {run run' after : Run} {sent : List Event} : R run run' → A run.store after.store →
    after.rulebook = run.rulebook → after.origin = run.origin →
      after.events = run.events ++ sent.map (·.sentBy run.origin) →
        R after { after with
          rulebook := run'.rulebook, origin := run'.origin
          events := run'.events ++ sent.map (·.sentBy run'.origin) }

/-- If related runs differ in their rulebook only, they have sent the same events. -/
theorem Congruence.of_rulebook
    (agree : ∀ {run run' : Run}, R run run' → run' = { run with rulebook := run'.rulebook })
    (move : ∀ {run run' after : Run}, R run run' → A run.store after.store →
      after.origin = run.origin → after.rulebook = run.rulebook →
        R after { after with rulebook := run'.rulebook }) : Congruence A R where
  agree related := by
    rw [agree related]
  move {run run' after sent} related permitted rulebook origin events := by
    have origin' : run'.origin = run.origin := by rw [agree related]
    have events' : run'.events = run.events := by rw [agree related]
    rw [origin', events', ← events, ← origin]
    exact move related permitted origin rulebook

/-- The stack and whether the run is observed are the same on both sides. -/
theorem Congruence.enclose (congruence : Congruence A R) (permits : Store.Permits A)
    {run run' : Run} (related : R run run') (stack : Stack) (observed : Bool) :
    R { run with stack, observed } { run' with stack, observed } := by
  have moved : R { run with stack, observed } { run with
      stack, observed, rulebook := run'.rulebook, origin := run'.origin
      events := run'.events ++ ([] : List Event).map (·.sentBy run'.origin) } :=
    congruence.move related (permits.refl run.store) rfl rfl (by simp)
  rw [List.map_nil, List.append_nil] at moved
  rw [congruence.agree related]
  exact moved

namespace Lockstep

theorem of_pure (a : α) : Lockstep g R (pure a) (pure a) := fun _ _ related => ⟨rfl, related⟩

theorem of_throw (fault : Fault) : Lockstep g R (throw fault : RunM α) (throw fault) :=
  fun _ _ related => ⟨rfl, related⟩

/-- The rest has to be in lockstep for what the first part returns on related runs. -/
theorem bind_of {m m' : RunM α} {f f' : α → RunM β} (h : Lockstep g R m m')
    (hf : ∀ a run run', R run run' → (m.runOn g run).1 = .ok a → Lockstep g R (f a) (f' a)) :
    Lockstep g R (m >>= f) (m' >>= f') := by
  intro run run' related
  have first := h run run' related
  rw [RunM.runOn_bind, RunM.runOn_bind]
  rcases ran : m.runOn g run with ⟨fault | a, after⟩ <;>
    rcases ran' : m'.runOn g run' with ⟨fault' | a', after'⟩ <;>
    rw [ran, ran'] at first <;> obtain ⟨same, left⟩ := first <;> cases same
  · exact ⟨rfl, left⟩
  · exact hf a run run' related (by rw [ran]) after after' left

theorem bind {m m' : RunM α} {f f' : α → RunM β} (h : Lockstep g R m m')
    (hf : ∀ a, Lockstep g R (f a) (f' a)) : Lockstep g R (m >>= f) (m' >>= f') :=
  h.bind_of fun a _ _ _ _ => hf a

theorem of_ite {c : Prop} [Decidable c] {m m' n n' : RunM α} (h : Lockstep g R m m')
    (h' : Lockstep g R n n') : Lockstep g R (if c then m else n) (if c then m' else n') := by
  split
  · exact h
  · exact h'

theorem of_read {k k' : ObjectGraph → RunM α} (h : Lockstep g R (k g) (k' g)) :
    Lockstep g R (read >>= k) (read >>= k') := h

variable (congruence : Congruence A R)

include congruence

/-- What is read off a run must not depend on what related runs differ in. -/
theorem of_get {k k' : Run → RunM α}
    (same : ∀ run rulebook origin events, k' { run with rulebook, origin, events } = k' run)
    (h : ∀ run run', R run run' → Lockstep g R (k run) (k' run)) :
    Lockstep g R (get >>= k) (get >>= k') := by
  intro run run' related
  rw [RunM.runOn_bind, RunM.runOn_bind, RunM.runOn_get, RunM.runOn_get]
  dsimp only
  have other : k' run' = k' run := by
    rw [congruence.agree related]
    exact same run _ _ _
  rw [other]
  exact h run run' related run run' related

/-- What does not look at the rulebook, the origin and the events is in lockstep with itself. -/
theorem of_blind {m : RunM α} (blind : m.Blind g A) : Lockstep g R m m := by
  intro run run' related
  obtain ⟨sent, unseen⟩ := blind.unseen run
  have here := unseen run.rulebook run.origin run.events
  have there := unseen run'.rulebook run'.origin run'.events
  rw [← congruence.agree related] at there
  rw [there]
  have left : (m.runOn g run).2 = { (m.runOn g run).2 with
      rulebook := run.rulebook, origin := run.origin
      events := run.events ++ sent.map (·.sentBy run.origin) } := congrArg Prod.snd here
  refine ⟨rfl, congruence.move related (blind.store run) ?_ ?_ ?_⟩ <;> rw [left]

theorem of_check {check : Check α} (h : check.Keeps g A) :
    Lockstep g R (RunM.ofCheck check) (RunM.ofCheck check) :=
  of_blind congruence (.of_ofCheck h)

theorem apart (permits : Store.Permits A) {m m' : RunM α} (h : Lockstep g R m m') :
    Lockstep g R (RunM.apart m) (RunM.apart m') := by
  intro run run' related
  obtain ⟨same, left⟩ := h _ _ (congruence.enclose permits related {} false)
  have stack : run'.stack = run.stack := by rw [congruence.agree related]
  have observed : run'.observed = run.observed := by rw [congruence.agree related]
  rw [RunM.runOn_apart, RunM.runOn_apart, stack, observed]
  exact ⟨same, congruence.enclose permits left run.stack run.observed⟩

end Lockstep

namespace Validation

open RunM

variable (congruence : Congruence A R) (permits : Store.Permits A)

include congruence permits

theorem recordFailure_lockstep (c : Constraint) (v : Value) :
    Lockstep g R (recordFailure c v) (recordFailure c v) :=
  (Lockstep.of_check congruence (.of_render permits c v)).bind fun _ =>
    .of_blind congruence (.of_record permits _)

theorem allConstraints_lockstep (short : Bool) (v : Value) (constraints : List Constraint)
    (keeps : ∀ c ∈ constraints, ∀ v, (c.test v).Keeps g A) :
    Lockstep g R (allConstraints short v constraints) (allConstraints short v constraints) := by
  induction constraints with
  | nil => exact .of_pure _
  | cons c cs ih =>
    have rest := ih fun c' member => keeps c' (List.mem_cons_of_mem c member)
    unfold allConstraints
    refine (Lockstep.of_check congruence (keeps c List.mem_cons_self v)).bind
      fun passed => .of_ite rest ?_
    refine (recordFailure_lockstep congruence permits c v).bind fun _ => .of_ite (.of_pure _) ?_
    exact rest.bind fun _ => .of_pure _

theorem anyConstraint_lockstep (short : Bool) (v : Value) (constraints : List Constraint)
    (keeps : ∀ c ∈ constraints, ∀ v, (c.test v).Keeps g A) :
    Lockstep g R (anyConstraint short v constraints) (anyConstraint short v constraints) := by
  induction constraints with
  | nil => exact .of_pure _
  | cons c cs ih =>
    have rest := ih fun c' member => keeps c' (List.mem_cons_of_mem c member)
    unfold anyConstraint
    refine (Lockstep.of_check congruence (keeps c List.mem_cons_self v)).bind
      fun passed => .of_ite ?_ ?_
    · exact .of_ite (.of_pure _) (rest.bind fun _ => .of_pure _)
    · exact (recordFailure_lockstep congruence permits c v).bind fun _ => rest

theorem descend_lockstep {check check' : Value → RunM Bool} (target : Segment) {part : Value}
    (h : Lockstep g R (check part) (check' part)) :
    Lockstep g R (descend check target part) (descend check' target part) :=
  (Lockstep.of_blind congruence (.of_modifyStack permits _)).bind fun _ =>
    h.bind fun valid => .of_blind congruence (.of_close permits valid true)

theorem recordMissing_lockstep (target : Segment) :
    Lockstep g R (recordMissing target) (recordMissing target) := by
  refine .of_blind congruence ?_
  refine (Blind.of_modifyStack permits _).bind permits fun _ => ?_
  refine (Blind.of_modifyStack permits _).bind permits fun _ => ?_
  refine (Blind.of_record permits _).bind permits fun _ => ?_
  refine (Blind.of_attach permits).bind permits fun _ => ?_
  exact (Blind.of_attach permits).bind permits fun _ => .of_pure permits _

omit congruence permits in
theorem eachOf_lockstep {check check' : α → RunM Bool} (items : List α)
    (h : ∀ a ∈ items, Lockstep g R (check a) (check' a)) :
    Lockstep g R (eachOf check items) (eachOf check' items) := by
  induction items with
  | nil => exact .of_pure true
  | cons a items ih =>
    unfold eachOf
    refine (h a List.mem_cons_self).bind fun valid => ?_
    exact (ih fun b member => h b (List.mem_cons_of_mem a member)).bind fun others => .of_pure _

omit congruence in
theorem takeNext_keeps (number : Nat) : (Check.takeNext number).Keeps g A :=
  fun store => permits.takes (.of_next store number)

omit congruence permits in
/-- What is taken from a source was held in it. -/
theorem mem_of_takeNext {number : Nat} {store : Store} {v : Value}
    (taken : ((Check.takeNext number).runOn g store).1 = .ok (some v)) :
    v ∈ store.remaining number := by
  have found : (store.next number).1 = some v := Except.ok.inj taken
  unfold Store.next at found
  unfold Store.remaining
  split at found
  · next held =>
    obtain rfl := Option.some.inj found
    simp [held]
  · cases found

omit congruence permits in
theorem mem_of_mem_numbered {items : List Value} {a : Nat × Value} (h : a ∈ numbered items) :
    a.2 ∈ items := by
  obtain ⟨⟨v, index⟩, member, rfl⟩ := List.mem_map.mp h
  exact (List.mem_zipIdx member).2.2 ▸ List.getElem_mem _

/-- The elements of a source are those that related runs hold in it. -/
theorem eachFromSource_lockstep {check check' : Nat × Value → RunM Bool} {number : Nat}
    {P : Value → Prop}
    (held : ∀ run run', R run run' → ∀ v ∈ run.store.remaining number, P v)
    (h : ∀ a, P a.2 → Lockstep g R (check a) (check' a)) (fuel index : Nat) :
    Lockstep g R (eachFromSource check number fuel index)
      (eachFromSource check' number fuel index) := by
  induction fuel generalizing index with
  | zero => exact .of_pure true
  | succ fuel ih =>
    rw [eachFromSource_succ, eachFromSource_succ]
    refine (Lockstep.of_check congruence (takeNext_keeps permits number)).bind_of
      fun next run run' related taken => ?_
    cases next with
    | none => exact .of_pure true
    | some v =>
      have present := held run run' related v (mem_of_takeNext (g := g) taken)
      refine (h (index, v) present).bind fun valid => ?_
      rw [map_eq_pure_bind, map_eq_pure_bind]
      exact (ih (index + 1)).bind fun others => .of_pure _

/-- The elements that an iteration visits satisfy `P`. -/
structure Yields (g : ObjectGraph) (R : Run → Run → Prop) (P : Value → Prop) (v : Value) :
    Prop where
  items (items : List Value) : v.items? g = some items → ∀ a ∈ items, P a
  source (number : Nat) : v = .source number →
    ∀ run run', R run run' → ∀ a ∈ run.store.remaining number, P a

theorem iterated_lockstep {check check' : Value → RunM Bool} {P : Value → Prop} {v : Value}
    (yields : Yields g R P v) (h : ∀ a, P a → Lockstep g R (check a) (check' a))
    (indices : List Value) :
    Lockstep g R (eachElement check v (.iterated indices))
      (eachElement check' v (.iterated indices)) := by
  have visited (index : Nat) (a : Value) (good : P a) :
      Lockstep g R
        (if selected g indices (.int index) then descend check (.ofIndex index) a else pure true)
        (if selected g indices (.int index) then descend check' (.ofIndex index) a
          else pure true) :=
    .of_ite (descend_lockstep congruence permits _ (h a good)) (.of_pure true)
  by_cases source : ∃ number, v = .source number
  · obtain ⟨number, rfl⟩ := source
    refine Lockstep.of_read (.of_get congruence (fun _ _ _ _ => rfl) fun run run' related => ?_)
    exact eachFromSource_lockstep congruence permits (yields.source number rfl)
      (fun a good => visited a.1 a.2 good) _ _
  · have listed : ∀ number, v ≠ .source number := not_exists.mp source
    rw [eachElement_iterated check indices listed, eachElement_iterated check' indices listed]
    refine Lockstep.of_read ?_
    cases found : v.items? g with
    | none => exact .of_throw _
    | some items =>
      refine eachOf_lockstep _ fun a member => visited a.1 a.2 ?_
      exact yields.items items found a.2 (mem_of_mem_numbered member)

theorem eachElement_lockstep {check check' : Value → RunM Bool}
    (h : ∀ a, Lockstep g R (check a) (check' a)) (v : Value) (kind : Elements) :
    Lockstep g R (eachElement check v kind) (eachElement check' v kind) := by
  have entered (target : Segment) (part : Value) :=
    descend_lockstep congruence permits target (h part)
  cases kind with
  | iterated indices =>
    exact iterated_lockstep congruence permits
      (P := fun _ => True) ⟨fun _ _ _ _ => trivial, fun _ _ _ _ _ _ _ => trivial⟩
      (fun a _ => h a) indices
  | positions indices =>
    refine Lockstep.of_read ?_
    cases v.size? with
    | none => exact .of_throw _
    | some size =>
      refine eachOf_lockstep _ fun index _ => .of_ite ?_ (.of_pure true)
      exact (Lockstep.of_check congruence (.of_ofExcept permits _)).bind
        fun element => entered _ element
  | entries keys =>
    refine Lockstep.of_read ?_
    refine (Lockstep.of_check congruence (.of_pairs permits v)).bind fun pairs => ?_
    exact eachOf_lockstep _ fun pair _ => .of_ite (entered _ _) (.of_pure true)

variable {expand expand' : Expand} {models : Prop}

/-- A group of checks, of which each may fail and none is kept from being recorded. -/
theorem group_lockstep {tests tests' : RunM (Option Bool)} {subs subs' : RunM Bool} (sign : Sign)
    (empty : Bool) (h : Lockstep g R tests tests') (h' : Lockstep g R subs subs') :
    Lockstep g R (groupOf sign empty tests subs) (groupOf sign empty tests' subs') := by
  refine (Lockstep.of_blind congruence (.of_modifyStack permits _)).bind fun _ => ?_
  refine Lockstep.bind (h.bind fun answer => ?_) fun valid =>
    .of_blind congruence (.of_close permits valid _)
  cases answer with
  | none => exact .of_pure _
  | some passed =>
    dsimp only
    rw [map_eq_pure_bind, map_eq_pure_bind]
    exact h'.bind fun others => .of_pure _

theorem object_lockstep {constraints : List Constraint} {subs : List Validation} {v : Value}
    (anyOf short : Bool) (keeps : ∀ c ∈ constraints, ∀ v, (c.test v).Keeps g A)
    (all : Lockstep g R (allOf? expand short subs v) (allOf? expand' short subs v))
    (any : Lockstep g R (anyOf? expand short subs v) (anyOf? expand' short subs v)) :
    Lockstep g R (evaluate expand (.object constraints subs anyOf short) v)
      (evaluate expand' (.object constraints subs anyOf short) v) := by
  cases anyOf with
  | false =>
    rw [evaluate_all, evaluate_all]
    exact group_lockstep congruence permits .all _
      (allConstraints_lockstep congruence permits short v constraints keeps) all
  | true =>
    rw [evaluate_any, evaluate_any]
    exact group_lockstep congruence permits .any _
      (anyConstraint_lockstep congruence permits short v constraints keeps) any

omit congruence permits in
/-- Validations one after the other, each in lockstep. -/
theorem allOf_lockstep_of_forall (short : Bool) (v : Value) (subs : List Validation)
    (h : ∀ sub ∈ subs, Lockstep g R (evaluate expand sub v) (evaluate expand' sub v)) :
    Lockstep g R (allOf? expand short subs v) (allOf? expand' short subs v) := by
  induction subs with
  | nil => exact .of_pure true
  | cons sub subs ih =>
    have rest := ih fun other member => h other (List.mem_cons_of_mem sub member)
    rw [allOf?, allOf?]
    refine (h sub List.mem_cons_self).bind fun passed => .of_ite rest (.of_ite (.of_pure _) ?_)
    exact rest.bind fun _ => .of_pure false

omit congruence permits in
theorem anyOf_lockstep_of_forall (short : Bool) (v : Value) (subs : List Validation)
    (h : ∀ sub ∈ subs, Lockstep g R (evaluate expand sub v) (evaluate expand' sub v)) :
    Lockstep g R (anyOf? expand short subs v) (anyOf? expand' short subs v) := by
  induction subs with
  | nil => exact .of_pure false
  | cons sub subs ih =>
    have rest := ih fun other member => h other (List.mem_cons_of_mem sub member)
    rw [anyOf?, anyOf?]
    refine (h sub List.mem_cons_self).bind fun passed => .of_ite (.of_ite (.of_pure _) ?_) rest
    exact rest.bind fun _ => .of_pure true

/-- A group of further validations, each in lockstep. -/
theorem subs_lockstep {v : Value} (subs : List Validation)
    (h : ∀ sub ∈ subs, Lockstep g R (evaluate expand sub v) (evaluate expand' sub v)) :
    Lockstep g R (evaluate expand (.object [] subs false false) v)
      (evaluate expand' (.object [] subs false false) v) :=
  object_lockstep congruence permits false false nofun (allOf_lockstep_of_forall false v subs h)
    (anyOf_lockstep_of_forall false v subs h)

/-- What a step leads to is a part that it can take from the value. -/
theorem step_lockstep {guards : List Guard} {target : Segment} {inner : Validation} {v : Value}
    (presence : Presence)
    (passes : Lockstep g R (guardsPass expand target guards v) (guardsPass expand' target guards v))
    (keeps : (target.get v).Keeps g A)
    (h : ∀ part, Check.CanAnswer g (target.get v) part →
      Lockstep g R (evaluate expand inner part) (evaluate expand' inner part)) :
    Lockstep g R (evaluate expand (.step presence guards target inner) v)
      (evaluate expand' (.step presence guards target inner) v) := by
  rw [evaluate, evaluate]
  refine passes.bind fun held => .of_ite ?_ (.of_pure true)
  refine (Lockstep.of_check congruence keeps).bind_of fun part run run' _ taken => ?_
  have entered := descend_lockstep congruence permits target (h part ⟨run.store, taken⟩)
  have missing := recordMissing_lockstep (g := g) congruence permits target
  cases presence with
  | undefined => exact entered
  | optional =>
    cases part with
    | null => exact .of_pure true
    | _ => exact entered
  | required =>
    cases part with
    | null => exact missing
    | _ => exact entered

omit congruence permits in
/-- One step of a script that evaluates what is no script itself. -/
theorem performEvaluate_lockstep {validation : Validation} {steps : List Step} {v : Value}
    {last : Reply} (plain : ∀ inner answer, validation ≠ .script inner answer)
    (h : Lockstep g R (evaluate expand validation v) (evaluate expand' validation v))
    (rest : ∀ last, Lockstep g R (performAll expand steps v last)
      (performAll expand' steps v last)) :
    Lockstep g R (performAll expand (.evaluate validation :: steps) v last)
      (performAll expand' (.evaluate validation :: steps) v last) := by
  rw [performAll.eq_5 _ _ _ _ _ plain, performAll.eq_5 _ _ _ _ _ plain]
  exact h.bind fun valid => rest _

omit congruence permits

/-- Models are expanded in lockstep, if there are any. -/
abbrev ExpandsAlike (g : ObjectGraph) (R : Run → Run → Prop) (models : Prop)
    (expand expand' : Expand) : Prop :=
  models → ∀ registry cls v, Lockstep g R (expand registry cls v) (expand' registry cls v)

mutual

/-- Evaluations are in lockstep if models are expanded in lockstep. -/
theorem evaluate_lockstep (congruence : Congruence A R) (permits : Store.Permits A)
    (expands : ExpandsAlike g R models expand expand') :
    (validation : Validation) → validation.Keeps g A models → ∀ v,
      Lockstep g R (evaluate expand validation v) (evaluate expand' validation v)
  | .object constraints subs anyOf short, keeps, v => by
    have parts := fun sub member =>
      all_lockstep congruence permits expands subs keeps.2 sub member v
    exact object_lockstep congruence permits anyOf short keeps.1
      (allOf_lockstep_of_forall short v subs parts)
      (anyOf_lockstep_of_forall short v subs parts)
  | .step presence guards target inner, keeps, v =>
    step_lockstep congruence permits presence
      (guardsPass_lockstep congruence permits expands target guards keeps.1 v) (keeps.2.1 v)
      fun part _ => evaluate_lockstep congruence permits expands inner keeps.2.2 part
  | .elements kind inner, keeps, v => by
    rw [evaluate, evaluate]
    refine (Lockstep.of_blind congruence (.of_modifyStack permits _)).bind fun _ => ?_
    refine (eachElement_lockstep congruence permits
      (fun a => evaluate_lockstep congruence permits expands inner keeps a) v kind).bind
        fun valid => ?_
    exact .of_blind congruence (.of_close permits valid true)
  | .script steps answer, keeps, v => by
    rw [evaluate, evaluate]
    exact (performAll_lockstep congruence permits expands steps keeps v .none).bind
      fun _ => .of_pure _
  | .model registry cls, keeps, v => expands keeps registry cls v
termination_by structural validation => validation

theorem all_lockstep (congruence : Congruence A R) (permits : Store.Permits A)
    (expands : ExpandsAlike g R models expand expand') :
    (subs : List Validation) → AllKeep g A models subs → ∀ sub ∈ subs, ∀ v,
      Lockstep g R (evaluate expand sub v) (evaluate expand' sub v)
  | [], _, _, member, _ => nomatch member
  | sub :: subs, keeps, other, member, v => by
    rcases List.mem_cons.mp member with same | later
    · rw [same]
      exact evaluate_lockstep congruence permits expands sub keeps.1 v
    · exact all_lockstep congruence permits expands subs keeps.2 other later v
termination_by structural subs => subs

theorem guardsPass_lockstep (congruence : Congruence A R) (permits : Store.Permits A)
    (expands : ExpandsAlike g R models expand expand') (target : Segment) :
    (guards : List Guard) → GuardsKeep g A models guards → ∀ v,
      Lockstep g R (guardsPass expand target guards v) (guardsPass expand' target guards v)
  | [], _, _ => .of_pure true
  | .mk _ condition :: guards, keeps, v => by
    have rest := guardsPass_lockstep congruence permits expands target guards keeps.2 v
    rw [guardsPass, guardsPass]
    refine Lockstep.bind (.apart congruence permits ?_) fun passed => .of_ite rest ?_
    · refine (evaluate_lockstep congruence permits expands condition keeps.1 v).bind fun passed => ?_
      exact (Lockstep.of_blind congruence (.of_finish permits)).bind fun _ => .of_pure passed
    · refine .of_blind congruence (.of_get (fun _ _ _ _ => rfl) fun _ => ?_)
      exact (Blind.of_emit permits _ _).bind permits fun _ => .of_pure permits false
termination_by structural guards => guards

theorem performAll_lockstep (congruence : Congruence A R) (permits : Store.Permits A)
    (expands : ExpandsAlike g R models expand expand') :
    (steps : List Step) → StepsKeep g A models steps → ∀ v last,
      Lockstep g R (performAll expand steps v last) (performAll expand' steps v last)
  | [], _, _, last => .of_pure last
  | .act action :: steps, keeps, v, _ => by
    rw [performAll, performAll]
    refine (Lockstep.of_blind congruence (keeps.1.blind v)).bind fun reply => ?_
    exact performAll_lockstep congruence permits expands steps keeps.2 v reply
  | .fail fault :: _, _, _, _ => .of_throw fault
  | .evaluate (.script inner answer) :: steps, keeps, v, _ => by
    rw [performAll, performAll]
    refine (performAll_lockstep congruence permits expands inner keeps.1 v .none).bind
      fun reply => ?_
    exact performAll_lockstep congruence permits expands steps keeps.2 v _
  | .evaluate (.object constraints subs anyOf short) :: steps, keeps, v, _ =>
    performEvaluate_lockstep (fun _ _ => nofun)
      (evaluate_lockstep congruence permits expands (.object constraints subs anyOf short) keeps.1 v)
      (performAll_lockstep congruence permits expands steps keeps.2 v)
  | .evaluate (.step presence guards target inner) :: steps, keeps, v, _ =>
    performEvaluate_lockstep (fun _ _ => nofun)
      (evaluate_lockstep congruence permits expands (.step presence guards target inner) keeps.1 v)
      (performAll_lockstep congruence permits expands steps keeps.2 v)
  | .evaluate (.elements kind inner) :: steps, keeps, v, _ =>
    performEvaluate_lockstep (fun _ _ => nofun)
      (evaluate_lockstep congruence permits expands (.elements kind inner) keeps.1 v)
      (performAll_lockstep congruence permits expands steps keeps.2 v)
  | .evaluate (.model registry cls) :: steps, keeps, v, _ =>
    performEvaluate_lockstep (fun _ _ => nofun)
      (evaluate_lockstep congruence permits expands (.model registry cls) keeps.1 v)
      (performAll_lockstep congruence permits expands steps keeps.2 v)
termination_by structural steps => steps

end

end Validation

section Models

open RunM

variable (congruence : Congruence A R) (permits : Store.Permits A)
  {lookUp lookUp' : LookUp}

include congruence permits

/-- A value that was met is expanded in lockstep if the rules found for it are checked so. -/
theorem expandMet_lockstep {nested nested' : Expand} {registry cls : String} {v : Value}
    (first : Bool) (look : Lockstep g R (lookUp registry cls) (lookUp' registry cls))
    (rules : first = true → ∀ rules run run', R run run' →
      ((lookUp registry cls).runOn g run).1 = .ok (some rules) →
        Lockstep g R (rules.evaluate nested v) (rules.evaluate nested' v)) :
    Lockstep g R (expandMet lookUp nested registry cls v first)
      (expandMet lookUp' nested' registry cls v first) := by
  cases first with
  | false =>
    refine .of_blind congruence ?_
    refine (Blind.of_modifyStack permits _).bind permits fun _ => ?_
    refine (Blind.of_record permits _).bind permits fun _ => ?_
    exact (Blind.of_attach permits).bind permits fun _ => .of_pure permits false
  | true =>
    refine look.bind_of fun found run run' related answered => ?_
    cases found with
    | none => exact .of_pure true
    | some found => exact rules rfl found run run' related answered

variable (visits : ∀ v, (visit v).Keeps g A)
  (look : ∀ registry cls, Lockstep g R (lookUp registry cls) (lookUp' registry cls))
  (keeps : ∀ registry cls rules run run', R run run' →
    ((lookUp registry cls).runOn g run).1 = .ok (some rules) → rules.Keeps g A True)

include visits look keeps

/-- Two ways of looking up rules that are in lockstep expand models in lockstep. -/
theorem expandBy_lockstep (fuel : Nat) (registry cls : String) (v : Value) :
    Lockstep g R (expandBy lookUp fuel registry cls v) (expandBy lookUp' fuel registry cls v) := by
  induction fuel generalizing registry cls v with
  | zero => exact .of_throw .endless
  | succ fuel ih =>
    refine (Lockstep.of_check congruence (visits v)).bind fun first => ?_
    refine expandMet_lockstep congruence permits first (look registry cls)
      fun _ rules run run' related answered => ?_
    exact Validation.evaluate_lockstep congruence permits (fun _ => ih) rules
      (keeps registry cls rules run run' related answered) v

theorem checkBy_lockstep {validation : Validation} (made : validation.Keeps g A True) (v : Value) :
    Lockstep g R (validation.checkBy lookUp v) (validation.checkBy lookUp' v) := by
  refine Lockstep.of_read (.of_get congruence (fun _ _ _ _ => rfl) fun run _ _ => ?_)
  exact Validation.evaluate_lockstep congruence permits
    (fun _ => expandBy_lockstep congruence permits visits look keeps _) validation made v

end Models

/-- What is reported of evaluations in lockstep is the same. -/
theorem reporting_lockstep (congruence : Congruence A R) (permits : Store.Permits A)
    {evaluation evaluation' : RunM Bool} (h : Lockstep g R evaluation evaluation')
    (validation : Validation) (v : Value) :
    Lockstep g R (validation.reporting v evaluation) (validation.reporting v evaluation') := by
  refine (Lockstep.of_blind congruence (.of_emit permits _ _)).bind fun _ => ?_
  refine h.bind fun passed => ?_
  refine (Lockstep.of_blind congruence (.of_finish permits)).bind fun tree => ?_
  refine (Lockstep.of_blind congruence ?_).bind fun _ => .of_pure _
  exact .of_send permits { type := .completed, origin := "", data := _, outcome := some _ }
    fun _ => rfl

end PathRules
