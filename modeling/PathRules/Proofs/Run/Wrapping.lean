import Mathlib.Logic.Function.Iterate
import PathRules.Proofs.Declaration.Soundness
import PathRules.Proofs.Outcome.Alike
import PathRules.Proofs.Run.Queries

/-!
# Wrapping a validation

A draft of which all checks have to pass, with one validation for its only rule, is built to a
group around the validation.  However often a validation is wrapped so, its runs raise the same
faults and come to outcomes that are alike.
-/

namespace PathRules

variable {g : ObjectGraph}

open Check.Meets Declaring

namespace Trace

/-- The trace of a validation that is the only check of a group. -/
def enclosed (t : Trace) : Trace := .group .all [] [t]

@[simp] theorem passed_enclosed (t : Trace) : t.enclosed.passed = t.passed := by
  simp [enclosed, passed]

/-- What a group around a check leaves is the node of the check, enclosed. -/
theorem node_enclosed (t : Trace) : t.enclosed.node = t.node.map Node.enclosed := by
  have nodes : t.enclosed.node =
      (Node.group .all (t.node.toList.flatMap (·.splicedInto .all))).kept t.passed := by
    rw [← t.passed_enclosed]
    simp [enclosed, node, nodesIn, failureNodes]
  rw [nodes]
  cases left : t.node with
  | none =>
    have passed : t.passed = true := by
      by_contra failed
      have told := leaves_node [] t
      rw [left] at told
      have unmoved : Placed.below [] = id := rfl
      have silent : t.leaves = [] := by
        simpa [Node.placedAll, Node.leavesOf, unmoved] using told.symm
      exact t.leaves_ne_nil (by simpa using failed) silent
    simp [Node.kept, Node.leaves, Node.leavesOf, passed]
  | some n =>
    have holds := leaves_ne_nil_of_node left
    simp [Node.kept, Node.leaves, Node.enclosed, holds]

theorem tree_enclosed (t : Trace) : t.enclosed.tree.Alike g t.tree := by
  rw [tree, node_enclosed, tree]
  cases t.node with
  | none => exact .refl _
  | some n =>
    simp only [Option.map_some, Node.placed, Node.placedBelow, Node.placed_enclosed]
    exact (Node.alike_enclosed _).path _

theorem outcome_enclosed (v : Value) (t : Trace) :
    (t.enclosed.outcome v).Alike g (t.outcome v) := by
  unfold outcome Validation.outcomeOf
  rw [passed_enclosed, (tree_enclosed (g := g) t).leaves]
  split
  · exact .refl _
  · exact .of_rejected t.tree_enclosed

/-- Whether a trace leaves nothing but groups of checks that all have to pass. -/
def Gathers (t : Trace) : Prop := ∀ n, t.node = some n → ∃ children, n = .group .all children

theorem gathers_enclosed (t : Trace) : t.enclosed.Gathers := by
  intro n left
  rw [node_enclosed] at left
  obtain ⟨m, -, rfl⟩ := Option.map_eq_some_iff.mp left
  exact ⟨_, rfl⟩

/-- A node of such a group hands its children over, and none is added. -/
theorem Gathers.outcome_eq {t : Trace} (h : t.Gathers) (v : Value) :
    t.enclosed.outcome v = t.outcome v := by
  have same : t.enclosed.node = t.node := by
    rw [node_enclosed]
    cases left : t.node with
    | none => rfl
    | some n =>
      obtain ⟨children, rfl⟩ := h n left
      rfl
  rw [outcome, outcome, passed_enclosed, tree, same, tree]

theorem outcome_enclosed_iterate (v : Value) (t : Trace) (n : Nat) :
    ((enclosed^[n] t).outcome v).Alike g (t.outcome v) := by
  induction n with
  | zero => exact .refl _
  | succ n ih =>
    rw [Function.iterate_succ_apply']
    exact (outcome_enclosed v _).trans ih

theorem Gathers.outcome_iterate {t : Trace} (h : t.Gathers) (v : Value) (n : Nat) :
    (enclosed^[n] t).outcome v = t.outcome v ∧ (enclosed^[n] t).Gathers := by
  induction n with
  | zero => exact ⟨rfl, h⟩
  | succ n ih =>
    rw [Function.iterate_succ_apply']
    exact ⟨(ih.2.outcome_eq v).trans ih.1, gathers_enclosed _⟩

end Trace

namespace Validation

/-- The validation that is declared on a draft with a validation for its only rule. -/
def enclosed (validation : Validation) : Validation :=
  ((Draft.empty false).addPrebuilt validation).build

theorem traceWith_enclosed (validation : Validation) (expand : TraceModel) (v : Value) :
    validation.enclosed.traceWith expand v = Trace.enclosed <$> validation.traceWith expand v := by
  simp [enclosed, Draft.empty, Draft.addPrebuilt, Draft.build, Draft.buildNested, traceWith,
    tracesWith, Trace.ofGroup, Check.inTurn]
  rfl

theorem runOn_trace_enclosed (validation : Validation) (rules : Rules) (v : Value) (store : Store) :
    (validation.enclosed.trace rules v).runOn g store =
      (((validation.trace rules v).runOn g store).1.map Trace.enclosed,
        ((validation.trace rules v).runOn g store).2) := by
  rw [runOn_trace, runOn_trace, traceWith_enclosed, map_eq_pure_bind, Check.runOn_bind]
  rcases (validation.traceWith _ v).runOn g store with ⟨fault | t, after⟩ <;> rfl

theorem madeOf_enclosed {validation : Validation} (made : validation.MadeOf .any) :
    validation.enclosed.MadeOf .any := by
  simpa [enclosed, Draft.empty, Draft.addPrebuilt, Draft.build, Draft.buildNested, MadeOf,
    AllMadeOf] using made

/-- Validations whose checks all have to pass: groups of that sign and validations of elements. -/
def combinesAll : Validation → Bool
  | .object _ _ anyOf _ => !anyOf
  | .elements .. => true
  | _ => false

theorem ensures_gathers {validation : Validation} (all : validation.combinesAll = true)
    (expand : TraceModel) (v : Value) :
    (validation.traceWith expand v).Ensures g Trace.Gathers := by
  cases validation with
  | object constraints subs anyOf short =>
    obtain rfl : anyOf = false := by simpa [combinesAll] using all
    refine (Check.ensures_true _).bind fun tests _ => ?_
    refine (Check.ensures_true _).bind fun ts _ => of_pure fun n left => ?_
    exact ⟨_, Node.eq_of_kept left⟩
  | elements kind inner =>
    refine (Check.ensures_true _).bind fun visits _ => of_pure fun n left => ?_
    exact ⟨_, Node.eq_of_kept left⟩
  | _ => cases all

section Iterate

variable (validation : Validation) (n : Nat)

theorem runOn_trace_iterate (rules : Rules) (v : Value) (store : Store) :
    ((enclosed^[n] validation).trace rules v).runOn g store =
      (((validation.trace rules v).runOn g store).1.map Trace.enclosed^[n],
        ((validation.trace rules v).runOn g store).2) := by
  induction n with
  | zero => simp [Except.map_id]
  | succ n ih =>
    rw [Function.iterate_succ_apply', runOn_trace_enclosed, ih]
    cases ((validation.trace rules v).runOn g store).1 with
    | error fault => rfl
    | ok t => exact congrArg (fun t => (Except.ok t, _)) (Function.iterate_succ_apply' ..).symm

theorem madeOf_iterate {validation : Validation} (made : validation.MadeOf .any) (n : Nat) :
    (enclosed^[n] validation).MadeOf .any := by
  induction n with
  | zero => exact made
  | succ n ih =>
    rw [Function.iterate_succ_apply']
    exact madeOf_enclosed ih

end Iterate

/-- A draft whose only rule is a named validation is built to the validation, enclosed. -/
theorem runOn_make_enclosed {name : String} {made : Numbered} {shop : Workshop}
    (held : shop.validations.lookup name = some made) :
    ∃ wrapped, ((ValidationSpec.declared false [.run (.named name)]).make.runOn g shop).1 =
      .ok wrapped ∧ wrapped.validation = made.validation.enclosed := by
  refine ⟨⟨shop.next, _⟩, ?_, rfl⟩
  simp [ValidationSpec.make, PathRules.performAll, Rule.perform, addValidation, runOn_bind, held,
    Workshop.draft, Workshop.declared, Draft.at?, Draft.modifyAt, Draft.after]
  rfl

/-- Wrapping a validation, however often, is seen nowhere.  Its run raises the same fault, or it
comes to an outcome that is alike; the store is left the same.  The outcomes are equal if all
checks of the validation have to pass.  A wrapper is what a draft with the validation for its
only rule is built to. -/
theorem validate_enclosed {validation : Validation} (made : validation.MadeOf .any) {run : Run}
    (book : run.rulebook.MadeOf .any) (fresh : run.stack = {}) (v : Value) (n : Nat) :
    let plain := (validation.validate v).runOn g run
    let wrapped := ((enclosed^[n] validation).validate v).runOn g run
    ((∃ fault, plain.1 = .error fault ∧ wrapped.1 = .error fault) ∨
      ∃ outcome outcome', plain.1 = .ok outcome ∧ wrapped.1 = .ok outcome' ∧
        outcome'.Alike g outcome ∧ (validation.combinesAll = true → outcome' = outcome)) ∧
    wrapped.2.store = plain.2.store ∧
    ∀ shop name number, shop.validations.lookup name = some ⟨number, validation⟩ →
      ∃ wrapper, ((ValidationSpec.declared false [.run (.named name)]).make.runOn g shop).1 =
        .ok wrapper ∧ wrapper.validation = validation.enclosed := by
  have served := book.served (g := g) Material.any_holdsFields
  obtain ⟨returned, left⟩ := validate_eq_outcome made served fresh v
  obtain ⟨returned', left'⟩ := validate_eq_outcome (madeOf_iterate made n) served fresh v
  rw [runOn_trace_iterate] at returned' left'
  refine ⟨?_, left'.trans left.symm, fun shop name number held => runOn_make_enclosed held⟩
  rw [returned, returned']
  rcases traced : (validation.trace (run.rulebook.rules g) v).runOn g run.store with
    ⟨fault | t, store⟩
  · exact .inl ⟨fault, rfl, rfl⟩
  · refine .inr ⟨_, _, rfl, rfl, t.outcome_enclosed_iterate v n, fun all => ?_⟩
    have gathers := ensures_gathers (g := g) all (traceModel (run.rulebook.rules g)
      (g.expansions v run.store.sources)) v run.store
    rw [← runOn_trace, traced] at gathers
    exact (Trace.Gathers.outcome_iterate gathers v n).1

/-- The leaf of a step to a part stays the only one in three wrappers, which leave one group above
the step. -/
theorem validate_enclosed_of_requiredInPlace :
    ∃ outcome outcome', ((requiredInPlace.validate .null).runOn {} {}).1 = .ok outcome ∧
      ((enclosed^[3] requiredInPlace).validate .null |>.runOn {} {}).1 = .ok outcome' ∧
      outcome'.Alike {} outcome ∧
      outcome.recorded = [⟨Leaf.required, [.property "name" Extract.nothing]⟩] := by
  have made : requiredInPlace.MadeOf .any := by
    simp [requiredInPlace, MadeOf, AllMadeOf, GuardsMadeOf, Material.any]
  have book : ({} : Run).rulebook.MadeOf .any := by simp [Rulebook.MadeOf]
  have missed : (requiredInPlace.meaning (({} : Run).rulebook.rules {}) .null).runOn {} {} =
      (.ok (false, [⟨Leaf.required, [.property "name" Extract.nothing]⟩]), {}) := rfl
  have meaning := congrArg Prod.fst (validate_eq_meaning (g := {}) made book rfl .null)
  rcases (validate_enclosed (g := {}) made book rfl .null 3).1 with
    ⟨fault, plain, -⟩ | ⟨outcome, outcome', plain, wrapped, alike, -⟩
  · rw [plain] at meaning
    cases missed.symm.trans (Prod.ext meaning rfl)
  · rw [plain] at meaning
    refine ⟨outcome, outcome', plain, wrapped, alike, ?_⟩
    have told := (congrArg Prod.fst missed).symm.trans meaning
    exact (congrArg Prod.snd (Except.ok.inj told)).symm

end Validation

end PathRules
