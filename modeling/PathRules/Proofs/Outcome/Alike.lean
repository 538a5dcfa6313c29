import PathRules.Outcome.Outline
import PathRules.Proofs.Trace.Leaves

/-!
# Outcomes that look alike

Two outcomes are alike if nobody who looks at them sees a difference: the verdict, the leaves, the
message, the layout, the answers to questions and the outline are the same.  A node that is put
into a group of its own is like the node itself.
-/

namespace PathRules

variable {g : ObjectGraph}

namespace Node

/-- What is shown of two nodes is the same. -/
structure Alike (g : ObjectGraph) (n m : Node Placed) : Prop where
  leaves : n.leaves = m.leaves
  message : n.message = m.message
  print : n.print = m.print
  errorsAt : ∀ below query, n.errorsAt g below query = m.errorsAt g below query
  outlines [Display] : n.outlines = m.outlines

theorem Alike.refl (n : Node Placed) : n.Alike g n := ⟨rfl, rfl, rfl, fun _ _ => rfl, rfl⟩

/-- A step shows of a node below it what is shown of the node. -/
theorem Alike.path {n m : Node Placed} (h : n.Alike g m) (via : Via) :
    (Node.path via (some n)).Alike g (Node.path via (some m)) where
  leaves := h.leaves
  message := h.message
  print := congrArg (under via) h.print
  errorsAt below query := by
    cases query <;> simp [Node.errorsAt, errorsBelow, h.errorsAt]
  outlines := by
    intro display
    simp [Node.outlines, outlinesBelow, h.outlines]

/-- The group of all checks with a node for its only check; a group of that sign hands over its
children. -/
def enclosed {α : Type} (n : Node α) : Node α := .group .all (n.splicedInto .all)

theorem placed_enclosed (place : DataPath) (n : Node Leaf) :
    n.enclosed.placed place = (n.placed place).enclosed := by
  rw [enclosed, placed, placedAll_splicedInto, enclosed]

theorem alike_alone (n : Node Placed) : (Node.group .all [n]).Alike g n where
  leaves := List.append_nil _
  message := rfl
  print := rfl
  errorsAt below query := by simp [errorsAt, errorsOf]
  outlines := by simp [outlines, outlinesOf]

theorem alike_enclosed (n : Node Placed) : n.enclosed.Alike g n := by
  cases n with
  | leaf content => exact alike_alone _
  | path via child => exact alike_alone _
  | group sign children =>
    cases sign with
    | all => exact .refl _
    | any => exact alike_alone _

end Node

namespace Outcome

/-- Nothing that is shown of two outcomes is different. -/
structure Alike (g : ObjectGraph) (o p : Outcome) : Prop where
  accepted : o.isAccepted = p.isAccepted
  failures : o.failures = p.failures
  warnings : o.warnings = p.warnings
  message : o.message? = p.message?
  print : o.print = p.print
  errorsAt : ∀ below query, o.errorsAt g below query = p.errorsAt g below query
  outline [Display] : ∀ label, o.outline label = p.outline label

namespace Alike

variable {o p q : Outcome}

theorem refl (o : Outcome) : o.Alike g o :=
  ⟨rfl, rfl, rfl, rfl, rfl, fun _ _ => rfl, fun _ => rfl⟩

theorem trans (h : o.Alike g p) (h' : p.Alike g q) : o.Alike g q where
  accepted := h.accepted.trans h'.accepted
  failures := h.failures.trans h'.failures
  warnings := h.warnings.trans h'.warnings
  message := h.message.trans h'.message
  print := h.print.trans h'.print
  errorsAt below query := (h.errorsAt below query).trans (h'.errorsAt below query)
  outline label := (h.outline label).trans (h'.outline label)

theorem of_rejected {n m : Node Placed} (h : n.Alike g m) :
    (Outcome.rejected n).Alike g (.rejected m) where
  accepted := rfl
  failures := h.leaves
  warnings := congrArg (List.filter _) h.leaves
  message := congrArg some h.message
  print := h.print
  errorsAt := h.errorsAt
  outline label := congrArg (Outline.labelled label .title) h.outlines

end Alike

end Outcome

end PathRules
