import PathRules.Model.Instance
import PathRules.Proofs.Outcome.Summaries
import PathRules.Proofs.Run.Coherence
import PathRules.Run.Libraries

/-!
# The summaries of a run agree

Whatever a run that returned is asked for, the answers tell of the same leaves: the last event by
their numbers, a report and its log by severity, the groups by place, an outline in order, and the
fault of a strict model run as a list.  Labels of an outline leave out the characters that would
move a cursor, so that a message with such a character is not shown as it is.
-/

namespace PathRules

variable {g : ObjectGraph}

theorem Trace.coherent_outcome (v : Value) (t : Trace) : (t.outcome v).Coherent := by
  cases verdict : t.passed with
  | true =>
    rw [outcome, Validation.outcomeOf, verdict]
    exact .accepted v fun p member => (List.mem_filter.mp member).2
  | false =>
    rw [t.outcome_of_failed v verdict]
    exact .rejected (t.solid_tree verdict)

/-- The event that closes a run counts the errors and the warnings that were recorded. -/
theorem Outcome.Coherent.counts {outcome : Outcome} (coherent : outcome.Coherent) (origin : String)
    (validation : Validation) (v : Value) :
    let data := (Event.ofEnd origin validation v outcome).data
    data.lookup "error_count" = some (.int (outcome.recorded.filter (·.isError)).length) ∧
      data.lookup "warning_count" =
        some (.int (outcome.recorded.filter (·.isWarning)).length) := by
  rw [← coherent.errors_eq, ← coherent.warnings_eq]
  exact ⟨rfl, rfl⟩

namespace Validation

/-- A model run that is strict turns a rejection into a fault that lists the failures. -/
theorem runOn_validateInstance {registry cls : String} {v : Value} (own : v.ownModel? g = some cls)
    {run after : Run} {outcome : Outcome}
    (returned : ((Validation.model registry cls).validate v).runOn g run = (.ok outcome, after))
    (rejected : outcome.isAccepted = false) :
    (validateInstance registry true v).runOn g run = (.error (refusal cls outcome), after) := by
  have asked : (read : RunM ObjectGraph).runOn g run = (.ok g, run) := rfl
  rw [validateInstance, RunM.runOn_bind, asked]
  simp only [own]
  rw [RunM.runOn_bind, returned]
  simp only [rejected]
  rfl

/-- What a run returns is coherent, and the event that closes it is the last one. -/
theorem coherent_of_returned {validation : Validation} (made : validation.MadeOf .any) {run : Run}
    (book : run.rulebook.MadeOf .any) (fresh : run.stack = {}) {v : Value} {outcome : Outcome}
    {after : Run} (returned : (validation.validate v).runOn g run = (.ok outcome, after)) :
    outcome.Coherent ∧ (run.observed = true →
      after.events.getLast? = some (.ofEnd run.origin validation v outcome)) := by
  have followed := validate_follows made (book.served (g := g) Material.any_holdsFields) fresh v
  unfold Follows at followed
  rw [returned] at followed
  rcases traced : (validation.trace (run.rulebook.rules g) v).runOn g run.store with
    ⟨fault | t, store⟩ <;> rw [traced] at followed
  · exact followed.elim
  obtain ⟨-, rfl, -, events⟩ := followed
  refine ⟨t.coherent_outcome v, fun observed => ?_⟩
  rw [events, if_pos observed, ← List.cons_append, ← List.append_assoc, List.getLast?_append]
  rfl

/-- All summaries of a run that returned tell of the leaves that were recorded: the failures of a
rejected value, the warnings of an accepted one.  The event that closes the run counts them by
severity.  A report, which can be made if the values of the leaves can be written out, has a record
of each, the errors and the warnings in order, and its log has an entry of each, errors first.  The
groups of a rejected value hold the leaves, each under its place and in order.  An outline ends in
the leaves in order, shown by their messages without the characters that would move a cursor, after
their places if the value was accepted.  A strict model run raises a fault that lists them. -/
theorem summaries_agree [Display] {validation : Validation} (made : validation.MadeOf .any) {run : Run}
    (book : run.rulebook.MadeOf .any) (fresh : run.stack = {}) {v : Value} {outcome : Outcome}
    {after : Run} (returned : (validation.validate v).runOn g run = (.ok outcome, after)) :
    let leaves := outcome.recorded
    let errors := leaves.filter (·.isError)
    let warnings := leaves.filter (·.isWarning)
    let completed := Event.ofEnd run.origin validation v outcome
    (run.observed = true → after.events.getLast? = some completed) ∧
    completed.data.lookup "error_count" = some (.int errors.length) ∧
    completed.data.lookup "warning_count" = some (.int warnings.length) ∧
    (∀ timestamp,
      ((∀ p ∈ leaves, p.isWritable g = true) →
        ∃ report, Report.ofOutcome g timestamp outcome = .ok report) ∧
      ∀ report, Report.ofOutcome g timestamp outcome = .ok report →
        report.isValid = outcome.isAccepted ∧
        report.errors = errors.map (Record.describing g) ∧
        report.warnings = warnings.map (Record.describing g) ∧
        report.errors.length = errors.length ∧ report.warnings.length = warnings.length ∧
        ∀ source, (report.log source).map (·.record) = report.errors ++ report.warnings ∧
          (report.log source).length = leaves.length) ∧
    (outcome.isAccepted = false → Outcome.Sorts g (outcome.grouped g) leaves) ∧
    (∀ label, Outline.tipsOf (outcome.outline label).branches =
      leaves.map fun p => Outline.tip (outcome.told p) p) ∧
    (∀ registry cls, validation = .model registry cls → v.ownModel? g = some cls →
      outcome.isAccepted = false →
        let fault := Fault.refusedModel cls (leaves.map fun p => (p.place.text, p.leaf.message))
        (validateInstance registry true v).runOn g run = (.error fault, after) ∧
        fault.message? =
          some (cls ++ " failed validation with " ++ toString leaves.length ++ " error(s)")) := by
  obtain ⟨coherent, last⟩ := coherent_of_returned made book fresh returned
  obtain ⟨errors, warnings⟩ := coherent.counts run.origin validation v
  refine ⟨last, errors, warnings, fun timestamp => ⟨fun written => ?_, fun report made => ?_⟩,
    fun rejected => ?_, coherent.tipsOf_outline, fun registry cls model own rejected => ?_⟩
  · exact ⟨_, Report.ofOutcome_eq_ok.mpr ⟨written, rfl⟩⟩
  · obtain ⟨-, rfl⟩ := Report.ofOutcome_eq_ok.mp made
    exact ⟨rfl, rfl, rfl, List.length_map .., List.length_map ..,
      fun source => ⟨Report.map_record_log _ source, Report.length_log timestamp outcome source⟩⟩
  · rw [← Outcome.failures_of_rejected rejected]
    exact outcome.sorts_grouped
  · subst model
    rw [runOn_validateInstance own returned rejected, refusal,
      Outcome.failures_of_rejected rejected]
    refine ⟨rfl, ?_⟩
    rw [Fault.message?, List.length_map]

/-- An error and a warning that any value leads to. -/
def doubted : Validation :=
  .object [{ hint := "odd", test := fun _ => pure false },
    { hint := "long", test := fun _ => pure false, isError := false }] [] false false

theorem traceWith_doubted (expand : TraceModel) (store : Store) :
    (doubted.traceWith expand .null).runOn {} store =
      (.ok (.group .all [some ⟨.error, "odd", .null⟩, some ⟨.warning, "long", .null⟩] []), store) :=
  rfl

/-- The error and the warning of `doubted` are counted, grouped and shown. -/
theorem summaries_agree_of_doubted :
    ∃ outcome after,
      (doubted.validate .null).runOn {} { observed := true } = (.ok outcome, after) ∧
      outcome.recorded.map (·.leaf.message) = ["odd", "long"] ∧
      (∃ completed, after.events.getLast? = some completed ∧
        completed.data.lookup "error_count" = some (.int 1) ∧
        completed.data.lookup "warning_count" = some (.int 1)) ∧
      Outcome.Sorts {} (outcome.grouped {}) outcome.recorded ∧
      Outline.tipsOf (outcome.outline "this").branches = [("odd", .error), ("long", .warning)] := by
  have made : doubted.MadeOf .any := by
    simp [doubted, MadeOf, AllMadeOf, Material.any]
  have book : ({ observed := true } : Run).rulebook.MadeOf .any := by simp [Rulebook.MadeOf]
  have ran := (@validate_eq_outcome {} _ made { observed := true }
    (book.served Material.any_holdsFields) rfl .null).1
  rw [runOn_trace, traceWith_doubted] at ran
  have returned := (Prod.eta ((doubted.validate .null).runOn {} { observed := true })).symm
  rw [ran] at returned
  obtain ⟨last, errors, warnings, -, sorted, shown, -⟩ := summaries_agree made book rfl returned
  exact ⟨_, _, returned, rfl, ⟨_, last rfl, errors, warnings⟩, sorted rfl, shown "this"⟩

/-- A constraint whose message ends its line without starting a new one. -/
def overwritten : Validation :=
  .object [{ hint := "a\rb", test := fun _ => pure false }] [] false false

/-- The label of a leaf can differ from its message. -/
theorem tips_of_overwritten :
    let root : Node Placed := .path .this (some (.group .all [.leaf ⟨⟨.error, "a\rb", .null⟩, []⟩]))
    ((overwritten.validate .null).runOn {} {}).1 = .ok (.rejected root) ∧
      root.leaves.map (·.leaf.message) = ["a\rb"] ∧
      Outline.tipsOf ((Outcome.rejected root).outline "this").branches = [("ab", .error)] ∧
      "ab" ≠ "a\rb" :=
  ⟨rfl, rfl, rfl, by decide⟩

end Validation

end PathRules
