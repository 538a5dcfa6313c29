import PathRules.Proofs.Outcome.Shape
import PathRules.Proofs.Run.Events

/-!
# Verdicts, severities and trees

What a run leaves fits its verdict.  An accepted value leaves warnings only; a rejected one leaves
a tree in which nothing is hollow.  Whether that tree tells of an error depends on the groups of
which any check may pass: if such a group has warnings only for its checks, it rejects a value
without an error.
-/

namespace PathRules

variable {g : ObjectGraph} {rules : Rules}

open Check.Meets

namespace GroupRule

/-- A group of which any check may pass, if it has checks, is not made of warnings alone. -/
def severe : GroupRule := fun constraints subs anyOf _ =>
  anyOf = true → constraints ≠ [] ∨ subs ≠ [] → (∃ c ∈ constraints, c.isError = true) ∨ subs ≠ []

end GroupRule

namespace Trace

theorem outcome_of_failed {t : Trace} (v : Value) (failed : t.passed = false) :
    t.outcome v = .rejected t.tree := by
  rw [outcome, Validation.outcomeOf, failed]
  rfl

/-- Nothing in the tree of a run that failed is hollow. -/
theorem solid_tree {t : Trace} (failed : t.passed = false) :
    ∀ m ∈ t.tree.subtrees, m.Solid := by
  intro m member
  obtain ⟨n, found, place, rfl⟩ := Node.mem_subtrees_placed [] _ member
  refine Node.Solid.placed ?_ place
  rcases List.mem_cons.mp found with rfl | below
  · refine ⟨rfl, Option.isSome_iff_ne_none.mpr fun hollow => t.leaves_ne_nil failed ?_⟩
    rw [← leaves_tree, tree, hollow]
    rfl
  · cases left : t.node with
    | none =>
      rw [left] at below
      cases below
    | some node =>
      rw [left] at below
      exact t.solid_node left n below

end Trace

theorem exists_of_forall₂ {α β : Type} {R : α → β → Prop} {as : List α} {bs : List β} {a : α}
    (h : List.Forall₂ R as bs) (member : a ∈ as) : ∃ b ∈ bs, R a b := by
  induction h with
  | nil => exact nomatch member
  | cons related rest ih =>
    rcases List.mem_cons.mp member with rfl | later
    · exact ⟨_, List.mem_cons_self, related⟩
    · obtain ⟨b, found, holds⟩ := ih later
      exact ⟨b, List.mem_cons_of_mem _ found, holds⟩

namespace Validation

/-- A group that is not made of warnings alone fails for an error. -/
theorem determines_severe :
    Determines g GroupRule.severe (Trace.FailsBy fun leaf => leaf.severity = .error) := by
  intro constraints subs anyOf short severe v checks sameEmpty
  cases anyOf with
  | false => exact .of_forall fun _ => Trace.failsBy_all
  | true =>
    refine (ensures_groupChecks_all (fun c : Constraint => c.tested v) constraints
      (fun c _ => c.ensures_severity v) checks).mono (fun made answered failed => ?_) fun _ => id
    obtain ⟨tests, ts⟩ := made
    simp only [if_true, Trace.passed, Trace.anyPassed_eq_any, Bool.or_eq_false_iff,
      List.any_eq_false, Bool.not_eq_true] at failed answered
    obtain ⟨⟨checked, own⟩, nested⟩ := failed
    obtain ⟨tested, sameLength⟩ := answered own nested
    have anyCheck : constraints ≠ [] ∨ subs ≠ [] := by
      by_contra none
      obtain ⟨rfl, rfl⟩ : constraints = [] ∧ subs = [] := by simpa using none
      simp_all
    rcases severe rfl anyCheck with ⟨c, member, isError⟩ | further
    · obtain ⟨test, tested, severity⟩ := exists_of_forall₂ tested member
      cases test with
      | none => exact nomatch own none tested
      | some leaf => exact .inl ⟨leaf, tested, (severity leaf rfl).trans (if_pos isError)⟩
    · cases ts with
      | nil =>
        have unchecked : checks = [] := List.length_eq_zero_iff.mp sameLength.symm
        rw [unchecked] at sameEmpty
        exact absurd (List.isEmpty_iff.mp sameEmpty.symm) further
      | cons t ts =>
        rw [List.all_cons, nested t List.mem_cons_self, Bool.false_and]
        exact .inr rfl


/-- A validation without groups of which any check may pass has none made of warnings alone. -/
theorem severe_of_allGroups {validation : Validation} (plain : validation.AllGroups) :
    validation.EachGroup .severe :=
  (eachGroup_of_allGroups validation plain).mono (fun _ _ _ _ all any => nomatch all.symm.trans any)
    validation

/-- If no group is made of warnings alone, a value is rejected exactly for an error. -/
theorem ensures_exists_error {validation : Validation} (severe : validation.EachGroup .severe)
    (served : ∀ registry cls rule, rules registry cls = some rule → rule.EachGroup .severe)
    (v : Value) : (validation.trace rules v).Ensures g fun t =>
      t.passed = false ↔ ∃ p ∈ t.leaves, p.isError = true := by
  refine (ensures_eachGroup_trace determines_severe served severe v).mono (fun t groups => ?_)
    fun _ => id
  constructor
  · intro failed
    have exists_leaf := Trace.exists_leaf_of_failed (Q := fun leaf => leaf.severity = .error) rfl
      fun _ => rfl
    obtain ⟨p, member, error⟩ := exists_leaf t groups failed
    exact ⟨p, member, beq_iff_eq.mpr error⟩
  · rintro ⟨p, member, error⟩
    cases verdict : t.passed with
    | false => rfl
    | true =>
      have warning := t.leaves_isWarning verdict p member
      simp only [Placed.isError, Placed.isWarning, beq_iff_eq] at error warning
      cases error.symm.trans warning

/-- What a run that returned leaves on its stack fits the verdict.  If the value was accepted,
every leaf that was attached is a warning, and the outcome keeps all of them.  If it was rejected,
the tree holds a leaf and none of its nodes is hollow: a step leads to one node, a group has a
child, and its message is that of an empty group only if a leaf below it has this message.  Where
every group of which any check may pass has an error or a further validation among its checks, if
it has any, and so where there is no such group, the value is rejected exactly if the tree holds
an error. -/
theorem validate_coherent {validation : Validation} (made : validation.MadeOf .any) {run : Run}
    (book : run.rulebook.MadeOf .any) (fresh : run.stack = {}) {v : Value} {outcome : Outcome}
    {after : Run} (returned : (validation.validate v).runOn g run = (.ok outcome, after)) :
    let tree := after.stack.tree.placed []
    let rules := run.rulebook.rules g
    (∀ kept warnings, outcome = .accepted kept warnings →
      warnings = tree.leaves ∧ ∀ p ∈ tree.leaves, p.isWarning = true) ∧
    (∀ root, outcome = .rejected root → root = tree ∧ root.leaves ≠ [] ∧
      ∀ node ∈ root.subtrees, node.Solid ∧
        (node.message = "()" → ∃ p ∈ node.leaves, p.leaf.message = "()")) ∧
    (validation.EachGroup .severe →
      (∀ registry cls rule, rules registry cls = some rule → rule.EachGroup .severe) →
        (outcome.isAccepted = false ↔ ∃ p ∈ tree.leaves, p.isError = true)) ∧
    (validation.AllGroups →
      (∀ registry cls rule, rules registry cls = some rule → rule.AllGroups) →
        (outcome.isAccepted = false ↔ ∃ p ∈ tree.leaves, p.isError = true)) := by
  have followed := validate_follows made (book.served (g := g) Material.any_holdsFields) fresh v
  unfold Follows at followed
  rw [returned] at followed
  rcases traced : (validation.trace (run.rulebook.rules g) v).runOn g run.store with
    ⟨fault | t, store⟩ <;> rw [traced] at followed
  · exact followed.elim
  obtain ⟨-, rfl, left, -⟩ := followed
  have tree : after.stack.tree.placed [] = t.tree := by
    rw [left]
    rfl
  have severe : validation.EachGroup .severe →
      (∀ registry cls rule, run.rulebook.rules g registry cls = some rule →
        rule.EachGroup .severe) → (t.passed = false ↔ ∃ p ∈ t.leaves, p.isError = true) := by
    intro own served
    have determined := ensures_exists_error (g := g) own served v run.store
    rw [traced] at determined
    exact determined
  dsimp only
  rw [tree, t.isAccepted_outcome, t.leaves_tree]
  refine ⟨fun kept warnings accepted => ?_, fun root rejected => ?_, severe, fun plain served => ?_⟩
  · have passed := t.isAccepted_outcome v
    have recorded := t.recorded_outcome v
    rw [accepted] at passed recorded
    exact ⟨recorded, t.leaves_isWarning passed.symm⟩
  · have failed := t.isAccepted_outcome v
    rw [rejected] at failed
    have root_eq := t.outcome_of_failed v failed.symm
    rw [rejected] at root_eq
    cases root_eq
    rw [t.leaves_tree]
    refine ⟨rfl, t.leaves_ne_nil failed.symm, fun node member => ?_⟩
    have solid := t.solid_tree failed.symm
    exact ⟨solid node member, Node.leaf_of_message node fun m below =>
      solid m (Node.mem_subtrees_trans _ member below)⟩
  · exact severe (severe_of_allGroups plain) fun registry cls rule found =>
      severe_of_allGroups (served registry cls rule found)

/-- Where nothing is registered, the rules of a class are an empty group. -/
theorem rules_of_unregistered (g : ObjectGraph) (registry cls : String) :
    ({} : Run).rulebook.rules g registry cls = some (.object [] [] false false) := by
  simp [Rulebook.rules, Rulebook.registry, Registry.rules, Registry.draftOf, Schema.fields,
    Schema.lineage, Schema.find?, Draft.empty, Draft.build, Draft.buildNested]

theorem runOn_requiredTwice : requiredTwice.MadeOf .any ∧ ({} : Run).rulebook.MadeOf .any ∧
    ∃ after, (requiredTwice.validate .null).runOn {} {} =
      (.ok (.rejected missedTwice.tree), after) := by
  have made : requiredTwice.MadeOf .any := by
    simp [requiredTwice, MadeOf, AllMadeOf, GuardsMadeOf, Material.any]
  have book : ({} : Run).rulebook.MadeOf .any := by simp [Rulebook.MadeOf]
  have ran := (@validate_eq_outcome {} _ made {} (book.served Material.any_holdsFields) rfl .null).1
  rw [runOn_trace, traceWith_requiredTwice] at ran
  have returned := (Prod.eta ((requiredTwice.validate .null).runOn {} {})).symm
  rw [ran] at returned
  exact ⟨made, book, _, returned⟩

/-- A group of which any check may pass, with two validations for its checks, hides no error. -/
theorem validate_coherent_of_requiredTwice :
    ∃ root after, (requiredTwice.validate .null).runOn {} {} = (.ok (.rejected root), after) ∧
      (∀ node ∈ root.subtrees, node.Solid) ∧
      ∃ p ∈ (after.stack.tree.placed []).leaves, p.isError = true := by
  obtain ⟨made, book, after, returned⟩ := runOn_requiredTwice
  obtain ⟨-, solid, severe, -⟩ := validate_coherent made book rfl returned
  obtain ⟨-, -, solid⟩ := solid _ rfl
  refine ⟨_, _, returned, fun node member => (solid node member).1, (severe ?_ ?_).mp rfl⟩
  · simp [requiredTwice, EachGroup, EachGroupIn, GroupRule.severe]
  · intro registry cls rule found
    rw [rules_of_unregistered] at found
    cases found
    simp [EachGroup, EachGroupIn, GroupRule.severe]

/-- The message of a constraint that always fails. -/
def emptyParentheses : Validation :=
  .object [{ hint := "()", test := fun _ => pure false }] [] false false

/-- A constraint may have the message of an empty group, and a group with one child shows it. -/
theorem message_of_emptyParentheses :
    ((emptyParentheses.validate .null).runOn {} {}).1 =
        .ok (.rejected (.path .this (some (.group .all [.leaf ⟨⟨.error, "()", .null⟩, []⟩])))) ∧
      (Node.group .all [.leaf ⟨⟨.error, "()", .null⟩, []⟩]).message = "()" :=
  ⟨rfl, rfl⟩

end Validation

end PathRules
