import Mathlib.Data.List.Forall2
import PathRules.Proofs.Check
import PathRules.Proofs.Trace.Evaluate

/-!
# The groups of an evaluation

A group of a validation leaves a group in its trace.  If what is known of each group of a
validation makes its checks answer in some way, then every group of a trace holds checks that
answered so.  Groups of guards have no trace.
-/

namespace PathRules

variable {α β : Type} {g : ObjectGraph} {rules : Rules}

/-- What is said of a group that is declared: its constraints, its further validations, whether
any of them may pass, and whether it is left early. -/
abbrev GroupRule := List Constraint → List Validation → Bool → Bool → Prop

namespace Validation

mutual

/-- The rule holds of every group of the validation, guards left aside. -/
def EachGroup (p : GroupRule) : Validation → Prop
  | .object constraints subs anyOf short => p constraints subs anyOf short ∧ EachGroupIn p subs
  | .step _ _ _ inner => EachGroup p inner
  | .elements _ inner => EachGroup p inner
  | .script .. | .model .. => True
termination_by structural validation => validation

def EachGroupIn (p : GroupRule) : List Validation → Prop
  | [] => True
  | sub :: subs => EachGroup p sub ∧ EachGroupIn p subs
termination_by structural validations => validations

end

variable {p q : GroupRule}

mutual

theorem EachGroup.mono (imp : ∀ constraints subs anyOf short,
    p constraints subs anyOf short → q constraints subs anyOf short) :
    (validation : Validation) → validation.EachGroup p → validation.EachGroup q
  | .object _ subs _ _, h => ⟨imp _ _ _ _ h.1, EachGroupIn.mono imp subs h.2⟩
  | .step _ _ _ inner, h => EachGroup.mono imp inner h
  | .elements _ inner, h => EachGroup.mono imp inner h
  | .script .., _ | .model .., _ => trivial
termination_by structural validation => validation

theorem EachGroupIn.mono (imp : ∀ constraints subs anyOf short,
    p constraints subs anyOf short → q constraints subs anyOf short) :
    (subs : List Validation) → EachGroupIn p subs → EachGroupIn q subs
  | [], _ => trivial
  | sub :: subs, h => ⟨EachGroup.mono imp sub h.1, EachGroupIn.mono imp subs h.2⟩
termination_by structural subs => subs

end

end Validation

open Check.Meets

namespace Check

theorem ensures_inTurn {Q : α → Prop} {ends : α → Bool} {checks : List (Check α)}
    (h : ∀ check ∈ checks, check.Ensures g Q) :
    (inTurn ends checks).Ensures g fun as => ∀ a ∈ as, Q a := by
  induction checks with
  | nil => exact of_pure (by simp)
  | cons check checks ih =>
    have first : check.Ensures g Q := h check List.mem_cons_self
    have later := ih fun c member => h c (List.mem_cons_of_mem check member)
    refine first.bind fun a holds => ?_
    refine (of_ite (of_pure (by simp)) later).bind fun rest all => ?_
    exact of_pure (List.forall_mem_cons.mpr ⟨holds, all⟩)

/-- Unless an answer ended them, all checks have answered. -/
theorem ensures_inTurn_all {Q : β → α → Prop} {ends : α → Bool} (check : β → Check α)
    (bs : List β) (h : ∀ b ∈ bs, (check b).Ensures g (Q b)) :
    (inTurn ends (bs.map check)).Ensures g fun as =>
      as.any ends = false → List.Forall₂ Q bs as := by
  induction bs with
  | nil => exact of_pure fun _ => .nil
  | cons b bs ih =>
    have first : (check b).Ensures g (Q b) := h b List.mem_cons_self
    have later := ih fun c member => h c (List.mem_cons_of_mem b member)
    refine first.bind fun a holds => ?_
    cases ended : ends a with
    | true => exact (ensures_true _).bind fun rest _ => of_pure (by simp [ended])
    | false =>
      refine later.bind fun rest all => of_pure fun continued => ?_
      rw [List.any_cons, ended, Bool.false_or] at continued
      exact .cons holds (all continued)

end Check

/-- The leaf of a failed test has the severity of the constraint. -/
theorem Constraint.ensures_severity (c : Constraint) (v : Value) :
    (c.tested v).Ensures g fun test => ∀ leaf, test = some leaf →
      leaf.severity = if c.isError then .error else .warning := by
  refine (Check.ensures_true _).bind fun passed _ => ?_
  refine of_ite (of_pure fun _ h => nomatch h) ?_
  refine (Check.ensures_true _).bind fun message _ => ?_
  apply of_pure
  rintro leaf ⟨⟩
  rfl

namespace Validation

/-- The checks of a group, as its trace holds them. -/
def groupChecks (sign : Sign) (short : Bool) (tests : List (Check (Option Leaf)))
    (subs : List (Check Trace)) : Check (List (Option Leaf) × List Trace) := do
  let decides := fun test => short && sign.decidedBy (sign.counts test)
  let tests ← Check.inTurn decides tests
  let subs ← (if tests.any decides then pure []
    else Check.inTurn (fun t => short && sign.decidedBy t.passed) subs)
  pure (tests, subs)

theorem ofGroup_eq (sign : Sign) (short : Bool) (tests : List (Check (Option Leaf)))
    (subs : List (Check Trace)) :
    Trace.ofGroup sign short tests subs = (do
      let checks ← groupChecks sign short tests subs
      pure (.group sign checks.1 checks.2)) := by
  simp [Trace.ofGroup, groupChecks]

/-- What every further validation ensures holds of all that were evaluated. -/
theorem ensures_groupChecks {sign : Sign} {short : Bool} {tests : List (Check (Option Leaf))}
    {subs : List (Check Trace)} {Q : Trace → Prop} (h : ∀ sub ∈ subs, sub.Ensures g Q) :
    (groupChecks sign short tests subs).Ensures g fun made => ∀ t ∈ made.2, Q t := by
  refine (Check.ensures_true _).bind fun tests _ => ?_
  refine (of_ite (of_pure (by simp)) (Check.ensures_inTurn h)).bind fun ts all => ?_
  exact of_pure all

/-- A group that no check decided has made all its checks. -/
theorem ensures_groupChecks_all {sign : Sign} {short : Bool} {Q : α → Option Leaf → Prop}
    (test : α → Check (Option Leaf)) (as : List α) (h : ∀ a ∈ as, (test a).Ensures g (Q a))
    (subs : List (Check Trace)) :
    (groupChecks sign short (as.map test) subs).Ensures g fun made =>
      (∀ test ∈ made.1, sign.decidedBy (sign.counts test) = false) →
        (∀ t ∈ made.2, sign.decidedBy t.passed = false) →
          List.Forall₂ Q as made.1 ∧ made.2.length = subs.length := by
  have turned (ends : Trace → Bool) : (Check.inTurn ends subs).Ensures g fun ts =>
      ts.any ends = false → List.Forall₂ (fun _ _ => True) subs ts := by
    simpa using Check.ensures_inTurn_all id subs fun _ _ => Check.ensures_true _
  refine (Check.ensures_inTurn_all test as h).bind fun tests answered => ?_
  split
  · next decided =>
    refine (Check.ensures_true _).bind fun ts _ => of_pure fun undecided => ?_
    obtain ⟨test, member, decides⟩ := List.any_eq_true.mp decided
    simp [undecided test member] at decides
  · next undecided =>
    refine (turned _).bind fun ts all => of_pure fun _ continued => ?_
    refine ⟨answered (Bool.eq_false_iff.mpr undecided), (all ?_).length_eq.symm⟩
    exact List.any_eq_false.mpr fun t member => by simp [continued t member]

theorem isEmpty_tracesWith {traced : TraceModel} (subs : List Validation) (v : Value) :
    (tracesWith traced subs v).isEmpty = subs.isEmpty := by
  cases subs <;> rfl

/-- A group of which the rule holds is checked so that the fact holds, whatever its further
validations answer. -/
def Determines (g : ObjectGraph) (p : GroupRule) (q : GroupFact) : Prop :=
  ∀ constraints subs anyOf short, p constraints subs anyOf short → ∀ v (checks : List (Check Trace)),
    checks.isEmpty = subs.isEmpty →
      (groupChecks (if anyOf then .any else .all) short (constraints.map (·.tested v))
        checks).Ensures g fun made => q (if anyOf then .any else .all) made.1 made.2

end Validation

namespace Trace

variable {q : GroupFact}

theorem ensures_eachGroup_ofSource {visit : Value → Check Trace} {graph : ObjectGraph}
    (h : ∀ v, (visit v).Ensures g (EachGroup q)) (indices : List Value) (number fuel index : Nat) :
    (ofSource visit graph indices number fuel index).Ensures g (EachGroupIn q) := by
  induction fuel generalizing index with
  | zero => exact of_pure trivial
  | succ fuel ih =>
    refine (Check.ensures_true _).bind fun next _ => ?_
    cases next with
    | none => exact of_pure trivial
    | some v =>
      have visited : (ofPart visit (.ofIndex index, pure v)).Ensures g (EachGroup q) :=
        (Check.ensures_true _).bind fun part _ => (h part).bind fun _ inner => of_pure inner
      refine of_ite (visited.bind fun first inner => ?_) (ih (index + 1))
      exact (ih (index + 1)).bind fun rest others => of_pure ⟨inner, others⟩

theorem ensures_eachGroup_ofElements {visit : Value → Check Trace}
    (h : ∀ v, (visit v).Ensures g (EachGroup q)) (v : Value) (kind : Elements) :
    (ofElements visit v kind).Ensures g (EachGroupIn q) := by
  refine of_read.bind fun graph _ => ?_
  split
  · exact (Check.ensures_true _).bind fun store _ => ensures_eachGroup_ofSource h _ _ _ _
  · refine (Check.ensures_true _).bind fun parts _ => ?_
    have visited : ∀ check ∈ parts.map (ofPart visit), check.Ensures g (EachGroup q) := by
      intro check member
      obtain ⟨part, -, rfl⟩ := List.mem_map.mp member
      exact (Check.ensures_true _).bind fun element _ => (h element).bind fun _ inner => of_pure inner
    exact (Check.ensures_inTurn visited).mono (fun _ => eachGroupIn_iff.mpr) fun _ => id

end Trace

namespace Validation

variable {expand : TraceModel} {p : GroupRule} {q : GroupFact}

mutual

theorem ensures_eachGroup_traceWith (determines : Determines g p q)
    (h : ∀ registry cls v, (expand registry cls v).Ensures g (Trace.EachGroup q)) :
    (validation : Validation) → validation.EachGroup p → ∀ v : Value,
      (validation.traceWith expand v).Ensures g (Trace.EachGroup q)
  | .object constraints subs anyOf short, ruled, v => by
    have own := determines constraints subs anyOf short ruled.1 v (tracesWith expand subs v)
      (isEmpty_tracesWith subs v)
    have nested := ensures_eachGroup_tracesWith determines h subs ruled.2 v
    rw [traceWith, ofGroup_eq]
    refine (own.and (ensures_groupChecks nested)).bind fun made both => of_pure ?_
    exact ⟨both.1, Trace.eachGroupIn_iff.mpr both.2⟩
  | .step presence guards target inner, ruled, v => by
    refine (Check.ensures_true _).bind fun held _ => ?_
    refine of_ite ((Check.ensures_true _).bind fun part _ => ?_) (of_pure trivial)
    split
    · exact of_pure trivial
    · exact of_pure trivial
    · exact (ensures_eachGroup_traceWith determines h inner ruled part).bind fun _ inner => of_pure inner
  | .elements kind inner, ruled, v =>
    (Trace.ensures_eachGroup_ofElements (ensures_eachGroup_traceWith determines h inner ruled) v
      kind).bind fun _ visits => of_pure visits
  | .script .., _, _ => of_throw trivial
  | .model registry cls, _, v => h registry cls v
termination_by structural validation => validation

theorem ensures_eachGroup_tracesWith (determines : Determines g p q)
    (h : ∀ registry cls v, (expand registry cls v).Ensures g (Trace.EachGroup q)) :
    (subs : List Validation) → EachGroupIn p subs → ∀ v : Value,
      ∀ check ∈ tracesWith expand subs v, check.Ensures g (Trace.EachGroup q)
  | [], _, _, _, member => nomatch member
  | sub :: subs, ruled, v, check, member => by
    rcases List.mem_cons.mp member with rfl | later
    · exact ensures_eachGroup_traceWith determines h sub ruled.1 v
    · exact ensures_eachGroup_tracesWith determines h subs ruled.2 v check later
termination_by structural subs => subs

end

theorem ensures_eachGroup_traceModel (determines : Determines g p q)
    (served : ∀ registry cls rule, rules registry cls = some rule → rule.EachGroup p)
    (fuel : Nat) (registry cls : String) (v : Value) :
    (traceModel rules fuel registry cls v).Ensures g (Trace.EachGroup q) := by
  induction fuel generalizing registry cls v with
  | zero => exact of_throw trivial
  | succ fuel ih =>
    refine (Check.ensures_true _).bind fun first _ => ?_
    refine of_ite ?_ (of_pure trivial)
    cases found : rules registry cls with
    | none => exact of_pure trivial
    | some rule =>
      exact (ensures_eachGroup_traceWith determines ih rule (served registry cls rule found) v).bind
        fun _ inner => of_pure inner

/-- Of every group of a trace the fact holds that the rule of its validation determines. -/
theorem ensures_eachGroup_trace (determines : Determines g p q)
    (served : ∀ registry cls rule, rules registry cls = some rule → rule.EachGroup p)
    {validation : Validation} (ruled : validation.EachGroup p) (v : Value) :
    (validation.trace rules v).Ensures g (Trace.EachGroup q) :=
  of_read.bind fun _ _ => of_get.bind fun _ _ =>
    ensures_eachGroup_traceWith determines (ensures_eachGroup_traceModel determines served _) validation
      ruled v

end Validation

end PathRules
