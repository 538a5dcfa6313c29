import PathRules.Proofs.Run.Meaning
import PathRules.Proofs.Trace.Grounded
import PathRules.Proofs.Trace.Recordings

/-!
# Events and outcome of a run

An observed run sends one event when it starts, then one for every recorded leaf and every step
that was not taken, and one when it is completed.  The leaves that observers are told of are those
of the outcome, in the same order and at the same places, with those in between that a group
dropped of which any check may pass.  What happens inside a guard is told to nobody.
-/

namespace PathRules

variable {g : ObjectGraph} {rules : Rules}

namespace Validation

mutual

/-- No group of the validation is one of which any check may pass, guards left aside. -/
def AllGroups : Validation → Prop
  | .object _ subs anyOf _ => anyOf = false ∧ AllGroupsIn subs
  | .step _ _ _ inner => AllGroups inner
  | .elements _ inner => AllGroups inner
  | .script .. | .model .. => True
termination_by structural validation => validation

def AllGroupsIn : List Validation → Prop
  | [] => True
  | sub :: subs => AllGroups sub ∧ AllGroupsIn subs
termination_by structural validations => validations

end

mutual

theorem eachGroup_of_allGroups : (validation : Validation) → validation.AllGroups →
    validation.EachGroup fun _ _ anyOf _ => anyOf = false
  | .object _ subs _ _, h => ⟨h.1, eachGroupIn_of_allGroups subs h.2⟩
  | .step _ _ _ inner, h => eachGroup_of_allGroups inner h
  | .elements _ inner, h => eachGroup_of_allGroups inner h
  | .script .., _ | .model .., _ => trivial
termination_by structural validation => validation

theorem eachGroupIn_of_allGroups : (subs : List Validation) → AllGroupsIn subs →
    EachGroupIn (fun _ _ anyOf _ => anyOf = false) subs
  | [], _ => trivial
  | sub :: subs, h => ⟨eachGroup_of_allGroups sub h.1, eachGroupIn_of_allGroups subs h.2⟩
termination_by structural subs => subs

end

end Validation

namespace Trace

mutual

theorem allGroups_of_eachGroup : (t : Trace) → t.EachGroup (fun sign _ _ => sign = .all) →
    t.AllGroups
  | .group _ _ subs, h => ⟨h.1, allGroupsIn_of_eachGroup subs h.2⟩
  | .step _ _ inner, h => allGroups_of_eachGroup inner h
  | .elements _ _ visits, h => allGroupsIn_of_eachGroup visits h
  | .expanded _ _ _ rules, h => allGroups_of_eachGroup rules h
  | .skipped .., _ | .absent _, _ | .unruled .., _ | .missing _, _ | .repeated _, _ => trivial
termination_by structural t => t

theorem allGroupsIn_of_eachGroup : (ts : List Trace) →
    EachGroupIn (fun sign _ _ => sign = .all) ts → AllGroupsIn ts
  | [], _ => trivial
  | t :: ts, h => ⟨allGroups_of_eachGroup t h.1, allGroupsIn_of_eachGroup ts h.2⟩
termination_by structural ts => ts

end

end Trace

namespace Validation

/-- A validation all of whose groups need all their checks has such traces. -/
theorem ensures_allGroups_trace
    (served : ∀ registry cls rule, rules registry cls = some rule → rule.AllGroups)
    {validation : Validation} (plain : validation.AllGroups) (v : Value) :
    (validation.trace rules v).Ensures g Trace.AllGroups := by
  have determines : Determines g (fun _ _ anyOf _ => anyOf = false) fun sign _ _ => sign = .all := by
    rintro constraints subs _ short rfl v checks -
    exact .of_forall fun _ => rfl
  refine (ensures_eachGroup_trace determines (fun registry cls rule found => ?_)
    (eachGroup_of_allGroups validation plain) v).mono Trace.allGroups_of_eachGroup fun _ => id
  exact eachGroup_of_allGroups rule (served registry cls rule found)

/-- Whatever a guard does, observers are told of nothing but the step that is not taken. -/
theorem guardsPass_silent (fuel : Nat) {run : Run}
    (served : ∀ registry cls rule, run.rulebook.rules g registry cls = some rule →
      rule.MadeOf .any)
    {guards : List Guard} (made : GuardsMadeOf .any guards) (target : Segment) (v : Value)
    {held : Bool} {after : Run}
    (returned : (guardsPass (expandModel fuel) target guards v).runOn g run = (.ok held, after)) :
    after.events = run.events ++
      if run.observed && !held then [.ofSkip run.origin run.stack.place target v] else [] := by
  have followed := guardsPass_follows (expandModel_told served fuel) guards made target v run rfl
  unfold Follows at followed
  rw [returned] at followed
  rcases asked : (guardsHold (traceModel (run.rulebook.rules g) fuel) guards v).runOn g run.store
    with ⟨fault | passed, store⟩ <;> rw [asked] at followed
  · exact followed.elim
  · obtain ⟨-, rfl, advanced⟩ := followed
    rw [advanced.events_eq]
    cases run.observed <;> cases held <;> rfl

/-- The event that tells of a reported leaf. -/
def reported (origin : String) (p : Placed) : Event := .ofLeaf origin p.place p.leaf

theorem map_reported_kept (origin : String) (recordings : List Recording) :
    (Recording.kept recordings).map (reported origin) =
      (recordings.filter (!·.dropped)).map (Recording.event origin []) := by
  rw [Recording.kept, List.map_map]
  rfl

/-- What observers are told of a run that returned.  The first event opens the run and the last
one ends it.  In between, in order, they are told of all recordings of the trace; the outcome
reports those that no group dropped which passed although only any of its checks had to, and
where there is no such group it reports them all.  Guards tell of nothing but the step that they
keep from being taken.  All events come from the validation that is run; if nobody observes that
one, nothing is sent. -/
theorem events_tell_outcome {validation : Validation} (made : validation.MadeOf .any) {run : Run}
    (book : run.rulebook.MadeOf .any) (fresh : run.stack = {}) (watched : run.observed = true)
    {v : Value} {outcome : Outcome} {after : Run}
    (returned : (validation.validate v).runOn g run = (.ok outcome, after)) :
    ∃ t sent, ((validation.trace (run.rulebook.rules g) v).runOn g run.store).1 = .ok t ∧
      after.events = run.events ++ .ofStart run.origin validation v ::
        (sent ++ [.ofEnd run.origin validation v outcome]) ∧
      (∀ e ∈ sent, e.OfCheck run.origin) ∧
      sent.filter Event.isLeaf = (t.recordings false).map (Recording.event run.origin []) ∧
      outcome.recorded = Recording.kept (t.recordings false) ∧
      (outcome.recorded.map (reported run.origin)).Sublist sent ∧
      (validation.AllGroups →
        (∀ registry cls rule, run.rulebook.rules g registry cls = some rule → rule.AllGroups) →
          sent.filter Event.isLeaf = outcome.recorded.map (reported run.origin)) ∧
      (∀ fuel guards target part held before done, GuardsMadeOf .any guards →
        before.rulebook.rules g = run.rulebook.rules g →
        (guardsPass (expandModel fuel) target guards part).runOn g before = (.ok held, done) →
          done.events = before.events ++ if before.observed && !held
            then [.ofSkip before.origin before.stack.place target part] else []) ∧
      ((validation.validate v).runOn g { run with observed := false }).2.events = run.events := by
  have served := book.served (g := g) Material.any_holdsFields
  have followed := validate_follows made served fresh v
  have unwatched := @validate_follows g validation made { run with observed := false } served fresh v
  unfold Follows at followed unwatched
  rw [returned] at followed
  rcases traced : (validation.trace (run.rulebook.rules g) v).runOn g run.store with
    ⟨fault | t, store⟩ <;> rw [traced] at followed
  · exact followed.elim
  obtain ⟨-, rfl, -, told⟩ := followed
  rw [watched, if_pos rfl] at told
  have leaves : (t.events run.origin []).filter Event.isLeaf =
      (t.recordings false).map (Recording.event run.origin []) :=
    t.events_eq_recordings run.origin false []
  have kept : (t.outcome v).recorded = Recording.kept (t.recordings false) := by
    rw [t.recorded_outcome, t.kept_recordings]
    rfl
  refine ⟨t, t.events run.origin [], rfl, told, t.events_ofCheck run.origin [], leaves, kept, ?_,
    fun plain plainRules => ?_, ?_, ?_⟩
  · rw [kept, map_reported_kept]
    refine ((List.filter_sublist).map _).trans ?_
    rw [← leaves]
    exact List.filter_sublist
  · have groups := ensures_allGroups_trace (g := g) plainRules plain v run.store
    rw [traced] at groups
    rw [leaves, t.recordings_of_allGroups groups, t.recorded_outcome, List.map_map]
    rfl
  · intro fuel guards target part held before done guardsMade same asked
    rw [← same] at served
    exact guardsPass_silent fuel served guardsMade target part asked
  · dsimp only at unwatched
    rw [traced] at unwatched
    rcases quiet : (validation.validate v).runOn g { run with observed := false } with
      ⟨fault | outcome, done⟩ <;> rw [quiet] at unwatched
    · exact unwatched.elim
    · obtain ⟨-, -, -, silent⟩ := unwatched
      simpa using silent

/-- A part that is required twice: once in a group of which any check may pass. -/
def requiredTwice : Validation :=
  let missing : Validation :=
    .step .required [] (.property "name" Extract.nothing) (.object [] [] false false)
  .object [] [.object [] [missing, .object [] [] false false] true false, missing] false false

/-- The trace of `requiredTwice`, which does not depend on the value. -/
def missedTwice : Trace :=
  let missing : Trace := .missing (.property "name" Extract.nothing)
  .group .all [] [.group .any [] [missing, .group .all [] []], missing]

theorem traceWith_requiredTwice (g : ObjectGraph) (expand : TraceModel) (v : Value)
    (store : Store) : (requiredTwice.traceWith expand v).runOn g store = (.ok missedTwice, store) :=
  rfl

/-- Observers are told of both failures, and one of them is reported. -/
theorem events_tell_outcome_of_dropped :
    ∃ outcome after, (requiredTwice.validate .null).runOn {} { observed := true } =
        (.ok outcome, after) ∧
      (after.events.filter Event.isLeaf).map (·.type) =
        [.started, .errorAdded, .errorAdded, .completed] ∧
      outcome.recorded = [⟨Leaf.required, [.property "name" Extract.nothing]⟩] ∧
      (outcome.recorded.map (reported "")).Sublist after.events := by
  have made : requiredTwice.MadeOf .any := by
    simp [requiredTwice, MadeOf, AllMadeOf, GuardsMadeOf, Material.any]
  have book : ({ observed := true } : Run).rulebook.MadeOf .any := by simp [Rulebook.MadeOf]
  have found (rules : Rules) : (requiredTwice.trace rules .null).runOn {} {} =
      (.ok missedTwice, {}) := by
    rw [runOn_trace, traceWith_requiredTwice]
  have returned := (@validate_eq_outcome {} _ made { observed := true }
    (book.served Material.any_holdsFields) rfl .null).1
  rw [found] at returned
  have ran := (Prod.eta ((requiredTwice.validate .null).runOn {} { observed := true })).symm
  rw [returned] at ran
  obtain ⟨t, sent, traced, told, -, shown, recorded, among, -⟩ :=
    events_tell_outcome made book rfl rfl ran
  rw [found] at traced
  cases traced
  refine ⟨_, _, ran, ?_, recorded, ?_⟩
  · rw [told]
    simp only [List.filter_append, List.filter_cons, List.map_append, shown]
    rfl
  · rw [told]
    exact (among.trans (List.sublist_append_left _ _)).cons _

end Validation

end PathRules
