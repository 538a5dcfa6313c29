import PathRules.Proofs.Run.Lockstep
import PathRules.Proofs.Run.Meaning
import PathRules.Proofs.Value.Parts

/-!
# Selected elements of a sequence

The elements of a sequence can be enumerated, or be taken by their positions.  With one selection
both come to the same: the same elements are visited in the same order, in the same state of the
run.  A run tells the two apart only by the name under which its validation sends events.
-/

namespace PathRules

variable {g : ObjectGraph} {v : Value} {items : List Value}

namespace Value

theorem same_int (m n : Int) : same g (.int m) (.int n) = decide (m = n) := by
  have read (k : Int) : Number.signed (decide (k < 0)) k.natAbs = k := by
    simp only [Number.signed, decide_eq_true_eq]
    split <;> omega
  have compared : same g (.int m) (.int n) =
      ((Number.ofInt m).compare? (.ofInt n) == some .eq) := rfl
  rw [compared, Bool.eq_iff_iff]
  simp [Number.ofInt, Number.compare?, twoTo, read]

/-- Integers are found by their value. -/
theorem isMember_map_int (n : Int) (ns : List Int) :
    isMember g (.int n) (ns.map .int) = decide (n ∈ ns) := by
  induction ns with
  | nil => rfl
  | cons m ns ih =>
    rw [isMember] at ih
    rw [List.map_cons, isMember, List.any_cons, ih, same_int]
    simp [eq_comm]

theorem isSequence_of_sequenceItems (listed : v.sequenceItems? = some items) :
    v.isSequence = true := by
  cases v <;> first | rfl | cases listed

theorem items_of_sequenceItems (listed : v.sequenceItems? = some items) (g : ObjectGraph) :
    v.items? g = some items := by
  cases v <;> first | exact listed | cases listed

theorem size_of_sequenceItems (listed : v.sequenceItems? = some items) :
    v.size? = some items.length := by
  cases v <;> simp only [sequenceItems?, Option.some.injEq, reduceCtorEq] at listed <;>
    subst listed <;> simp [size?, characters, String.length]

end Value

namespace Validation

variable {α β : Type} {inner : Validation} {expand : Expand}

theorem eachOf_map (check : β → RunM Bool) (f : α → β) (as : List α) :
    eachOf check (as.map f) = eachOf (fun a => check (f a)) as := by
  induction as with
  | nil => rfl
  | cons a as ih => rw [List.map_cons, eachOf, eachOf, ih]

theorem eachOf_congr {check check' : α → RunM Bool} {as : List α}
    (same : ∀ a ∈ as, check a = check' a) : eachOf check as = eachOf check' as := by
  induction as with
  | nil => rfl
  | cons a as ih =>
    obtain ⟨first, others⟩ := List.forall_mem_cons.mp same
    rw [eachOf, eachOf, first, ih others]

theorem map_fst_numbered (items : List Value) :
    (numbered items).map (·.1) = List.range items.length := by
  simp [numbered, List.map_map, Function.comp_def, List.zipIdx_map_snd, List.range_eq_range']

theorem mem_numbered_iff {entry : Nat × Value} :
    entry ∈ numbered items ↔ items[entry.1]? = some entry.2 := by
  obtain ⟨index, element⟩ := entry
  simp [numbered, List.mem_zipIdx_iff_getElem?]

/-- The selected items, each with its position. -/
def chosen (g : ObjectGraph) (selection items : List Value) : List (Nat × Value) :=
  (numbered items).filter fun entry => selected g selection (.int entry.1)

/-- Positions that there are not select nothing, those counted from the end among them; without a
selection all items are selected. -/
theorem chosen_map_int (g : ObjectGraph) (indices : List Int) (items : List Value) :
    chosen g (indices.map .int) items =
      (numbered items).filter fun entry => decide (indices = [] ∨ (entry.1 : Int) ∈ indices) := by
  have same (entry : Nat × Value) : selected g (indices.map .int) (.int entry.1) =
      decide (indices = [] ∨ (entry.1 : Int) ∈ indices) := by
    rw [selected, Value.isMember_map_int]
    cases indices <;> simp
  simp only [chosen, same]

/-- Visits the chosen items, each under its position. -/
def visitChosen (check : Value → RunM Bool) (selection items : List Value) : RunM Bool :=
  read >>= fun g =>
    eachOf (fun entry => descend check (.ofIndex entry.1) entry.2) (chosen g selection items)

variable (check : Value → RunM Bool) (selection : List Value)
  (listed : v.sequenceItems? = some items)

include listed

/-- Enumerating the items passes over those that are not selected. -/
theorem eachElement_iterated_eq :
    eachElement check v (.iterated selection) = visitChosen check selection items := by
  have single : ∀ number, v ≠ .source number := by
    rintro number rfl
    cases listed
  rw [eachElement_iterated check selection single]
  simp only [v.items_of_sequenceItems listed, eachOf_filter]
  rfl

/-- Counting positions passes over those that are not selected, and the others are there. -/
theorem eachElement_positions_eq :
    eachElement check v (.positions selection) = visitChosen check selection items := by
  have sequence := v.isSequence_of_sequenceItems listed
  rw [eachElement, visitChosen]
  simp only [v.size_of_sequenceItems listed, eachOf_filter, ← map_fst_numbered,
    eachOf_map]
  congr 1
  funext g
  refine eachOf_congr fun entry member => ?_
  have there := mem_numbered_iff.mp (List.mem_filter.mp member).1
  rw [v.item_eq_ok sequence (v.items_of_sequenceItems listed g) there]
  rfl

theorem evaluate_iterated_eq :
    evaluate expand (.elements (.iterated selection) inner) v =
      evaluate expand (.elements (.positions selection) inner) v := by
  rw [evaluate, evaluate, eachElement_iterated_eq _ _ listed, eachElement_positions_eq _ _ listed]

end Validation

/-- The same event, sent by another validation, which may have introduced itself in the data. -/
structure Event.Renamed (name name' : String) (e e' : Event) : Prop where
  type_eq : e'.type = e.type
  outcome_eq : e'.outcome = e.outcome
  origin : e.origin = name
  origin' : e'.origin = name'
  data : List.Forall₂ (fun entry entry' => entry' = entry ∨
    entry = ("validation", .str name) ∧ entry' = ("validation", .str name')) e.data e'.data

theorem Event.renamed_sentBy (name name' : String) (e : Event) :
    Renamed name name' (e.sentBy name) (e.sentBy name') :=
  ⟨rfl, rfl, rfl, rfl, List.forall₂_same.mpr fun _ _ => .inl rfl⟩

/-- The same run under another name, which has sent the same events after what was sent before. -/
def Run.Renamed (past past' : List Event) (name name' : String) (run run' : Run) : Prop :=
  run.origin = name ∧ ∃ sent : List Event, run.events = past ++ sent.map (·.sentBy name) ∧
    run' = { run with origin := name', events := past' ++ sent.map (·.sentBy name') }

namespace Run.Renamed

variable {past past' : List Event} {name name' : String}

theorem congruence : Congruence (fun _ _ => True) (Renamed past past' name name') where
  agree := by
    rintro run _ ⟨-, sent, -, rfl⟩
    rfl
  move := by
    rintro run _ after later ⟨rfl, sent, events, rfl⟩ - rulebook origin told
    refine ⟨origin, sent ++ later, ?_, ?_⟩
    · rw [told, events, List.map_append, List.append_assoc]
    · dsimp only
      rw [← rulebook, List.map_append, List.append_assoc]

theorem lookUp_lockstep (registry cls : String) :
    Lockstep g (Renamed past past' name name') (lookUpRules registry cls)
      (lookUpRules registry cls) := by
  rintro run _ ⟨named, sent, events, rfl⟩
  exact ⟨rfl, named, sent, events, rfl⟩

/-- Under whatever name, a check comes to the same. -/
theorem check_lockstep (validation : Validation) (v : Value) :
    Lockstep g (Renamed past past' name name') (validation.check v) (validation.check v) :=
  checkBy_lockstep congruence .any (fun v => .any (visit v)) lookUp_lockstep
    (fun _ _ rules _ _ _ _ => rules.keeps_any) validation.keeps_any v

theorem events_renamed {run run' : Run} (h : Renamed past past' name name' run run')
    (before : List.Forall₂ (Event.Renamed name name') past past') :
    List.Forall₂ (Event.Renamed name name') run.events run'.events := by
  obtain ⟨-, sent, events, rfl⟩ := h
  rw [events]
  refine List.rel_append before (List.forall₂_map_left_iff.mpr (List.forall₂_map_right_iff.mpr ?_))
  exact List.forall₂_same.mpr fun e _ => e.renamed_sentBy name name'

end Run.Renamed

namespace Validation

/-- Checks a value and closes the tree. -/
def ending (validation : Validation) (v : Value) : RunM Outcome := do
  let passed ← validation.check v
  let tree ← RunM.finish
  pure (outcomeOf v passed (tree.placed []))

/-- The run of which only the start was told. -/
def opened (validation : Validation) (v : Value) (run : Run) : Run :=
  { run with events := if run.observed then [.ofStart run.origin validation v] else [] }

/-- The run once its end was told. -/
def concluded (validation : Validation) (v : Value) (outcome : Outcome) (run : Run) : Run :=
  if run.observed then
    { run with events := run.events ++ [.ofEnd run.origin validation v outcome] }
  else run

/-- A run is an ending between two events that give the name of the validation. -/
theorem runOn_validate (validation : Validation) (v : Value) {run : Run} (first : run.events = []) :
    (validation.validate v).runOn g run =
      match (validation.ending v).runOn g (validation.opened v run) with
      | (.ok outcome, after) => (.ok outcome, validation.concluded v outcome after)
      | (.error fault, after) => (.error fault, after) := by
  have emitted : (RunM.emit .started
      [("value", v), ("validation", .str validation.className)]).runOn g run =
        (.ok (), validation.opened v run) := by
    rw [RunM.runOn_emit, first]
    rfl
  rw [validate, reporting, RunM.runOn_bind, emitted]
  dsimp only
  rw [ending, RunM.runOn_bind, RunM.runOn_bind]
  rcases (validation.check v).runOn g (validation.opened v run) with ⟨fault | passed, mid⟩
  · rfl
  dsimp only
  rw [RunM.runOn_bind, RunM.runOn_bind]
  rcases RunM.finish.runOn g mid with ⟨fault | tree, after⟩ <;> rfl

variable {a b : Validation}

theorem renamed_ofStart (a b : Validation) (v : Value) :
    Event.Renamed a.className b.className (.ofStart a.className a v) (.ofStart b.className b v) :=
  ⟨rfl, rfl, rfl, rfl, .cons (.inl rfl) (.cons (.inr ⟨rfl, rfl⟩) .nil)⟩

theorem renamed_ofEnd (a b : Validation) (v : Value) (outcome : Outcome) :
    Event.Renamed a.className b.className (.ofEnd a.className a v outcome)
      (.ofEnd b.className b v outcome) :=
  ⟨rfl, rfl, rfl, rfl, .cons (.inl rfl) (.cons (.inr ⟨rfl, rfl⟩)
    (List.forall₂_same.mpr fun _ _ => .inl rfl))⟩

/-- Two validations that evaluate a value in the same way tell the same of it, each under its own
name. -/
theorem validate_renamed (same : ∀ expand, evaluate expand a v = evaluate expand b v) (run : Run)
    (named : run.origin = a.className) (first : run.events = []) :
    let ran := (a.validate v).runOn g run
    let ran' := (b.validate v).runOn g { run with origin := b.className }
    ran'.1 = ran.1 ∧
      ran'.2 = { ran.2 with origin := b.className, events := ran'.2.events } ∧
      List.Forall₂ (Event.Renamed a.className b.className) ran.2.events ran'.2.events := by
  have alike : a.ending v = b.ending v := by simp [ending, check, checkBy, same]
  let opening (validation : Validation) : List Event :=
    if run.observed then [.ofStart validation.className validation v] else []
  have openings :
      List.Forall₂ (Event.Renamed a.className b.className) (opening a) (opening b) := by
    cases observed : run.observed <;> simp [opening, observed, renamed_ofStart]
  have told : Lockstep g (Run.Renamed (opening a) (opening b) a.className b.className)
      (b.ending v) (b.ending v) := by
    refine (Run.Renamed.check_lockstep b v).bind fun passed => ?_
    exact (Lockstep.of_blind Run.Renamed.congruence (.of_finish .any)).bind fun tree => .of_pure _
  obtain ⟨agree, left⟩ := told (a.opened v run) (b.opened v { run with origin := b.className })
    ⟨named, [], by simp [opened, opening, named], by simp [opened, opening]⟩
  have first' : ({ run with origin := b.className } : Run).events = [] := first
  rw [runOn_validate a v first, runOn_validate b v first', alike]
  revert agree left
  generalize (b.ending v).runOn g (b.opened v { run with origin := b.className }) = there
  obtain ⟨result', after'⟩ := there
  rcases (b.ending v).runOn g (a.opened v run) with ⟨result, after⟩
  intro agree left
  obtain rfl : result = result' := agree
  replace left : Run.Renamed _ _ _ _ after after' := left
  have events := left.events_renamed openings
  obtain ⟨origin, sent, -, rfl⟩ := left
  cases result with
  | error fault => exact ⟨rfl, rfl, events⟩
  | ok outcome =>
    dsimp only [concluded]
    cases observed : after.observed with
    | false => exact ⟨rfl, by simp [observed], events⟩
    | true =>
      refine ⟨rfl, by simp, ?_⟩
      simp only [if_true, origin]
      exact List.rel_append events (.cons (renamed_ofEnd a b v outcome) .nil)

/-- A run that enumerates the items of a sequence and one that counts its positions. -/
theorem validate_iterated (listed : v.sequenceItems? = some items) (inner : Validation)
    (selection : List Value) (entries : List (String × Value)) (observed : Bool)
    (sources : List (List Value)) (rulebook : Rulebook) :
    let enumerated := elements (.iterated selection) inner
    let counted := elements (.positions selection) inner
    let ran := (enumerated.validate v).runOn g
      (.start enumerated entries observed sources rulebook)
    let ran' := (counted.validate v).runOn g (.start counted entries observed sources rulebook)
    ran'.1 = ran.1 ∧
      ran'.2 = { ran.2 with origin := counted.className, events := ran'.2.events } ∧
      List.Forall₂ (Event.Renamed enumerated.className counted.className) ran.2.events
        ran'.2.events := by
  intro enumerated counted
  let run : Run := .start enumerated entries observed sources rulebook
  have renamed := validate_renamed (g := g) (a := enumerated) (b := counted) (v := v)
    (fun expand => evaluate_iterated_eq selection listed) run rfl rfl
  have moved : ({ run with origin := counted.className } : Run) =
      .start counted entries observed sources rulebook := rfl
  rw [moved] at renamed
  exact renamed

end Validation

end PathRules
