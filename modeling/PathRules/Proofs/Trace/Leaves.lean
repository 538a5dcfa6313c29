import PathRules.Proofs.Trace.Basic

/-!
# Leaves of traces

The node of a trace holds exactly the leaves that the trace reports, wherever it is attached
and whether or not its children are handed over to a group of the same sign.  A trace that
passed reports warnings only, and one that failed reports at least one leaf.
-/

namespace PathRules

namespace Placed

@[simp] theorem below_below (outer inner : DataPath) (p : Placed) :
    (p.below inner).below outer = p.below (outer ++ inner) := by
  simp [below, List.append_assoc]

end Placed

theorem DataPath.snoc_eq_append (place : DataPath) (target : Segment) :
    place.snoc target = place ++ DataPath.ofSegments [target] := by
  cases target <;> simp [DataPath.snoc, DataPath.ofSegments, Segment.isThis]

namespace Node

variable {α : Type}

@[simp] theorem leavesOf_append (xs ys : List (Node α)) :
    leavesOf (xs ++ ys) = leavesOf xs ++ leavesOf ys := by
  induction xs with
  | nil => rfl
  | cons x xs ih => simp [leavesOf, ih, List.append_assoc]

@[simp] theorem placedAll_append (place : DataPath) (xs ys : List (Node Leaf)) :
    placedAll place (xs ++ ys) = placedAll place xs ++ placedAll place ys := by
  induction xs with
  | nil => rfl
  | cons x xs ih => simp [placedAll, ih]

/-- Handing its children over to a group loses no leaf of a node. -/
@[simp] theorem leavesOf_splicedInto (sign : Sign) (node : Node α) :
    leavesOf (node.splicedInto sign) = node.leaves := by
  cases node with
  | leaf content => simp [splicedInto, leavesOf]
  | path via child => simp [splicedInto, leavesOf]
  | group s children =>
    simp only [splicedInto]
    split
    · simp [leaves]
    · simp [leavesOf]

theorem placedAll_splicedInto (place : DataPath) (sign : Sign) (node : Node Leaf) :
    placedAll place (node.splicedInto sign) = (node.placed place).splicedInto sign := by
  cases node with
  | leaf content => rfl
  | path via child => rfl
  | group s children =>
    simp only [splicedInto, placed]
    split <;> rfl

theorem leaves_splicedInto (place : DataPath) (sign : Sign) (node : Node Leaf) :
    leavesOf (placedAll place (node.splicedInto sign)) = (node.placed place).leaves := by
  rw [placedAll_splicedInto, leavesOf_splicedInto]

theorem leavesBelow_placedBelow (place : DataPath) (child : Option (Node Leaf)) :
    leavesBelow (placedBelow place child) = leavesOf (placedAll place child.toList) := by
  cases child <;> simp [placedBelow, leavesBelow, placedAll, leavesOf]

mutual

/-- Placing a tree keeps its leaves and their order. -/
theorem leaves_placed (place : DataPath) :
    (node : Node Leaf) → (node.placed place).leaves.map (·.leaf) = node.leaves
  | .leaf content => by simp [placed, leaves]
  | .path via none => by simp [placed, placedBelow, leaves, leavesBelow]
  | .path via (some child) => by
    simpa [placed, placedBelow, leaves, leavesBelow] using
      leaves_placed (place.snoc via.segment) child
  | .group sign children => by
    simpa [placed, leaves] using leavesOf_placedAll place children
termination_by structural node => node

theorem leavesOf_placedAll (place : DataPath) :
    (nodes : List (Node Leaf)) → (leavesOf (placedAll place nodes)).map (·.leaf) = leavesOf nodes
  | [] => rfl
  | node :: nodes => by
    simp [placedAll, leavesOf, leaves_placed place node, leavesOf_placedAll place nodes]
termination_by structural nodes => nodes

end

/-- Closing a node drops it only if it holds no leaf. -/
theorem leaves_kept (place : DataPath) (passed : Bool) (node : Node Leaf) :
    leavesOf (placedAll place (node.kept passed).toList) = (node.placed place).leaves := by
  unfold kept
  split
  · next dropped =>
    have empty : (node.placed place).leaves.map (·.leaf) = [] := by
      rw [leaves_placed]
      simp only [Bool.and_eq_true, List.isEmpty_iff] at dropped
      exact dropped.2
    rw [List.map_eq_nil_iff] at empty
    rw [empty]
    rfl
  · simp [placedAll, leavesOf]

end Node

namespace Trace

theorem leaves_failureNodes (place : DataPath) (tests : List (Option Leaf)) :
    Node.leavesOf (Node.placedAll place (failureNodes tests)) =
      (failures tests).map (Placed.below place) := by
  induction tests with
  | nil => rfl
  | cons test tests ih =>
    cases test with
    | none => exact ih
    | some leaf =>
      have nodes : failureNodes (some leaf :: tests) = .leaf leaf :: failureNodes tests := rfl
      have placed : failures (some leaf :: tests) = ⟨leaf, []⟩ :: failures tests := rfl
      rw [nodes, placed, Node.placedAll, Node.leavesOf, ih]
      simp [Node.placed, Node.leaves, Placed.below]

mutual

/-- The node of a trace holds the leaves of the trace, each below the place of the node. -/
theorem leaves_node (place : DataPath) :
    (t : Trace) → Node.leavesOf (Node.placedAll place t.node.toList) =
      t.leaves.map (Placed.below place)
  | .group .all tests subs => by
    rw [node, Node.leaves_kept]
    simp [Node.placed, Node.leaves, leaves, leaves_failureNodes, leaves_nodesIn place .all subs]
  | .group .any tests subs => by
    rw [node, leaves]
    split
    · rfl
    · simp [Node.placedAll, Node.placed, Node.leavesOf, Node.leaves, leaves_failureNodes,
        leaves_nodesIn place .any subs]
  | .step target part inner => by
    rw [node, Node.leaves_kept, Node.placed, Node.leaves, Node.leavesBelow_placedBelow,
      leaves_node _ inner, leaves, List.map_map]
    simp [DataPath.snoc_eq_append, Function.comp_def]
  | .skipped .. | .absent _ | .unruled .. => rfl
  | .missing target => by
    simp [node, leaves, Node.placedAll, Node.placed, Node.placedBelow, Node.leavesOf, Node.leaves,
      Node.leavesBelow, Placed.below, DataPath.snoc_eq_append]
  | .elements kind v visits => by
    rw [node, Node.leaves_kept]
    simp [Node.placed, Node.leaves, leaves, leaves_nodesIn place .all visits]
  | .repeated v => by
    simp [node, leaves, Node.placedAll, Node.placed, Node.leavesOf, Node.leaves, Placed.below]
  | .expanded registry cls v rules => leaves_node place rules
termination_by structural t => t

theorem leaves_nodesIn (place : DataPath) (sign : Sign) :
    (ts : List Trace) → Node.leavesOf (Node.placedAll place (nodesIn sign ts)) =
      (ts.flatMap leaves).map (Placed.below place)
  | [] => rfl
  | t :: ts => by
    have head := leaves_node place t
    have tail := leaves_nodesIn place sign ts
    cases h : t.node with
    | none =>
      rw [h] at head
      have silent : t.leaves = [] := List.map_eq_nil_iff.mp head.symm
      simpa [nodesIn, h, silent] using tail
    | some n =>
      rw [h] at head
      simp only [Option.toList_some, Node.placedAll, Node.leavesOf, List.append_nil] at head
      simp [nodesIn, h, Node.leaves_splicedInto, head, tail]
termination_by structural ts => ts

end

mutual

/-- A value is accepted with warnings only. -/
theorem leaves_isWarning :
    (t : Trace) → t.passed = true → ∀ p ∈ t.leaves, p.isWarning = true
  | .group .all tests subs, h, p, hp => by
    simp only [passed, allPassed_eq_all, Bool.and_eq_true] at h
    simp only [leaves, leavesOf_eq_flatMap, List.mem_append] at hp
    rcases hp with own | nested
    · simp only [failures, List.mem_map, List.mem_filterMap, id] at own
      obtain ⟨leaf, ⟨test, member, rfl⟩, rfl⟩ := own
      exact List.all_eq_true.mp h.1 _ member
    · exact allLeaves_isWarning subs h.2 p nested
  | .group .any tests subs, h, p, hp => by simp [leaves, h] at hp
  | .step target part inner, h, p, hp => by
    simp only [leaves, List.mem_map] at hp
    obtain ⟨q, member, rfl⟩ := hp
    exact leaves_isWarning inner h q member
  | .skipped .., _, _, hp | .absent _, _, _, hp | .unruled .., _, _, hp => nomatch hp
  | .missing _, h, _, _ | .repeated _, h, _, _ => nomatch h
  | .elements _ _ visits, h, p, hp => by
    simp only [passed, allPassed_eq_all] at h
    simp only [leaves, leavesOf_eq_flatMap] at hp
    exact allLeaves_isWarning visits h p hp
  | .expanded _ _ _ rules, h, p, hp => leaves_isWarning rules h p hp
termination_by structural t => t

theorem allLeaves_isWarning :
    (ts : List Trace) → ts.all passed = true → ∀ p ∈ ts.flatMap leaves, p.isWarning = true
  | [], _, _, hp => nomatch hp
  | t :: ts, h, p, hp => by
    simp only [List.all_cons, Bool.and_eq_true] at h
    simp only [List.flatMap_cons, List.mem_append] at hp
    rcases hp with first | later
    · exact leaves_isWarning t h.1 p first
    · exact allLeaves_isWarning ts h.2 p later
termination_by structural ts => ts

end

/-- Among the checks of a group that failed is a test whose leaf satisfies `Q`, or a further trace
that failed. -/
def FailsBy (Q : Leaf → Prop) : GroupFact := fun sign tests subs =>
  (group sign tests subs).passed = false →
    (∃ leaf, some leaf ∈ tests ∧ Q leaf) ∨ subs.all passed = false

mutual

/-- A trace that failed has a leaf for which its groups failed. -/
theorem exists_leaf_of_failed {Q : Leaf → Prop} (missing : Q Leaf.required)
    (repeated : ∀ v, Q (Leaf.repeated v)) : (t : Trace) → t.EachGroup (FailsBy Q) →
      t.passed = false → ∃ p ∈ t.leaves, Q p.leaf
  | .group sign tests subs, groups, h => by
    have reported : (Trace.group sign tests subs).leaves = failures tests ++ subs.flatMap leaves := by
      cases sign <;> simp [leaves, h]
    rw [reported]
    rcases groups.1 h with ⟨leaf, member, holds⟩ | nested
    · have recorded : ⟨leaf, []⟩ ∈ failures tests :=
        List.mem_map_of_mem (List.mem_filterMap.mpr ⟨some leaf, member, rfl⟩)
      exact ⟨_, List.mem_append_left _ recorded, holds⟩
    · obtain ⟨p, member, holds⟩ := exists_leaf_of_failedIn missing repeated subs groups.2 nested
      exact ⟨p, List.mem_append_right _ member, holds⟩
  | .step target part inner, groups, h => by
    obtain ⟨p, member, holds⟩ := exists_leaf_of_failed missing repeated inner groups h
    exact ⟨_, List.mem_map_of_mem member, holds⟩
  | .skipped .., _, h | .absent _, _, h | .unruled .., _, h => nomatch h
  | .missing _, _, _ => ⟨_, List.mem_cons_self, missing⟩
  | .repeated v, _, _ => ⟨_, List.mem_cons_self, repeated v⟩
  | .elements _ _ visits, groups, h => by
    rw [leaves, leavesOf_eq_flatMap]
    rw [passed, allPassed_eq_all] at h
    exact exists_leaf_of_failedIn missing repeated visits groups h
  | .expanded _ _ _ rules, groups, h => exists_leaf_of_failed missing repeated rules groups h
termination_by structural t => t

theorem exists_leaf_of_failedIn {Q : Leaf → Prop} (missing : Q Leaf.required)
    (repeated : ∀ v, Q (Leaf.repeated v)) : (ts : List Trace) → EachGroupIn (FailsBy Q) ts →
      ts.all passed = false → ∃ p ∈ ts.flatMap leaves, Q p.leaf
  | [], _, h => nomatch h
  | t :: ts, groups, h => by
    rw [List.all_cons, Bool.and_eq_false_iff] at h
    rcases h with first | later
    · obtain ⟨p, member, holds⟩ := exists_leaf_of_failed missing repeated t groups.1 first
      exact ⟨p, List.mem_append_left _ member, holds⟩
    · obtain ⟨p, member, holds⟩ := exists_leaf_of_failedIn missing repeated ts groups.2 later
      exact ⟨p, List.mem_append_right _ member, holds⟩
termination_by structural ts => ts

end

theorem failsBy_all {tests : List (Option Leaf)} {subs : List Trace}
    (h : (group .all tests subs).passed = false) :
    (∃ leaf, some leaf ∈ tests ∧ leaf.severity = .error) ∨ subs.all passed = false := by
  rw [passed, allPassed_eq_all, Bool.and_eq_false_iff] at h
  refine h.imp_left fun own => ?_
  obtain ⟨test, member, failed⟩ := List.all_eq_false.mp own
  cases test with
  | none => exact absurd rfl failed
  | some leaf =>
    refine ⟨leaf, member, ?_⟩
    cases severity : leaf.severity with
    | error => rfl
    | warning => simp [Sign.counts, severity] at failed

theorem failsBy_true (sign : Sign) (tests : List (Option Leaf)) (subs : List Trace) :
    FailsBy (fun _ => True) sign tests subs := by
  intro h
  cases sign with
  | all => exact (failsBy_all h).imp_left fun ⟨leaf, member, _⟩ => ⟨leaf, member, trivial⟩
  | any =>
    simp only [passed, anyPassed_eq_any, Bool.or_eq_false_iff] at h
    obtain ⟨⟨checked, own⟩, nested⟩ := h
    cases tests with
    | cons test tests =>
      cases test with
      | none => exact nomatch own
      | some leaf => exact .inl ⟨leaf, List.mem_cons_self, trivial⟩
    | nil =>
      cases subs with
      | nil => exact nomatch checked
      | cons sub subs =>
        rw [List.any_cons, Bool.or_eq_false_iff] at nested
        rw [List.all_cons, nested.1, Bool.false_and]
        exact .inr rfl

/-- A value is never rejected without a leaf that tells why. -/
theorem leaves_ne_nil (t : Trace) (h : t.passed = false) : t.leaves ≠ [] := by
  obtain ⟨p, member, -⟩ := exists_leaf_of_failed (Q := fun _ => True) trivial (fun _ => trivial) t
    (eachGroup_of_forall failsBy_true t) h
  exact List.ne_nil_of_mem member

/-- A trace leaves no bare leaf, but a step or a group. -/
theorem node_ne_leaf : (t : Trace) → (content : Leaf) → t.node ≠ some (.leaf content)
  | .group .all _ _, _ | .step .., _ | .elements .., _ => by
    simp only [node, Node.kept]
    split <;> simp
  | .group .any _ _, _ => by
    rw [node]
    split <;> simp
  | .skipped .., _ | .absent _, _ | .unruled .., _ | .missing _, _ | .repeated _, _ => by
    simp [node]
  | .expanded _ _ _ rules, content => node_ne_leaf rules content
termination_by structural t => t

end Trace

end PathRules
