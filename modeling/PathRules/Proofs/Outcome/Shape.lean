import PathRules.Outcome.Text
import PathRules.Proofs.Trace.Leaves

/-!
# The shape of failure trees

In the tree of a run nothing is hollow: every step leads to a node and every group has a child.
The message of a tree in which nothing is hollow is put together from the messages of its leaves.
-/

namespace PathRules

namespace Node

variable {α : Type}

mutual

/-- The node with all nodes below it. -/
def subtrees : Node α → List (Node α)
  | .leaf content => [.leaf content]
  | .path via child => .path via child :: subtreesBelow child
  | .group sign children => .group sign children :: subtreesOf children
termination_by structural node => node

def subtreesBelow : Option (Node α) → List (Node α)
  | none => []
  | some node => subtrees node
termination_by structural child => child

def subtreesOf : List (Node α) → List (Node α)
  | [] => []
  | node :: nodes => subtrees node ++ subtreesOf nodes
termination_by structural nodes => nodes

end

theorem mem_subtrees_self (node : Node α) : node ∈ node.subtrees := by
  cases node <;> simp [subtrees]

theorem mem_subtreesOf {m : Node α} {nodes : List (Node α)} :
    m ∈ subtreesOf nodes ↔ ∃ node ∈ nodes, m ∈ node.subtrees := by
  induction nodes with
  | nil => simp [subtreesOf]
  | cons node nodes ih => simp [subtreesOf, ih]

mutual

theorem mem_subtrees_trans {m k : Node α} : (node : Node α) → m ∈ node.subtrees →
    k ∈ m.subtrees → k ∈ node.subtrees
  | .leaf content, hm, hk => by
    rw [subtrees, List.mem_singleton] at hm
    exact hm ▸ hk
  | .path via child, hm, hk => by
    rcases List.mem_cons.mp hm with rfl | below
    · exact hk
    · exact List.mem_cons_of_mem _ (mem_subtreesBelow_trans child below hk)
  | .group sign children, hm, hk => by
    rcases List.mem_cons.mp hm with rfl | below
    · exact hk
    · exact List.mem_cons_of_mem _ (mem_subtreesOf_trans children below hk)
termination_by structural node => node

theorem mem_subtreesBelow_trans {m k : Node α} : (child : Option (Node α)) →
    m ∈ subtreesBelow child → k ∈ m.subtrees → k ∈ subtreesBelow child
  | none, hm, _ => nomatch hm
  | some node, hm, hk => mem_subtrees_trans node hm hk
termination_by structural child => child

theorem mem_subtreesOf_trans {m k : Node α} : (nodes : List (Node α)) →
    m ∈ subtreesOf nodes → k ∈ m.subtrees → k ∈ subtreesOf nodes
  | [], hm, _ => nomatch hm
  | node :: nodes, hm, hk => by
    rcases List.mem_append.mp hm with first | later
    · exact List.mem_append_left _ (mem_subtrees_trans node first hk)
    · exact List.mem_append_right _ (mem_subtreesOf_trans nodes later hk)
termination_by structural nodes => nodes

end

mutual

/-- Below a placed node stand nodes that were placed. -/
theorem mem_subtrees_placed {m : Node Placed} (place : DataPath) :
    (node : Node Leaf) → m ∈ (node.placed place).subtrees →
      ∃ n ∈ node.subtrees, ∃ here, m = n.placed here
  | .leaf content, hm => ⟨_, mem_subtrees_self _, place, List.mem_singleton.mp hm⟩
  | .path via child, hm => by
    rcases List.mem_cons.mp hm with rfl | below
    · exact ⟨_, mem_subtrees_self _, place, rfl⟩
    · obtain ⟨n, member, placed⟩ := mem_subtreesBelow_placed _ child below
      exact ⟨n, List.mem_cons_of_mem _ member, placed⟩
  | .group sign children, hm => by
    rcases List.mem_cons.mp hm with rfl | below
    · exact ⟨_, mem_subtrees_self _, place, rfl⟩
    · obtain ⟨n, member, placed⟩ := mem_subtreesOf_placed place children below
      exact ⟨n, List.mem_cons_of_mem _ member, placed⟩
termination_by structural node => node

theorem mem_subtreesBelow_placed {m : Node Placed} (place : DataPath) :
    (child : Option (Node Leaf)) → m ∈ subtreesBelow (placedBelow place child) →
      ∃ n ∈ subtreesBelow child, ∃ here, m = n.placed here
  | none, hm => nomatch hm
  | some node, hm => mem_subtrees_placed place node hm
termination_by structural child => child

theorem mem_subtreesOf_placed {m : Node Placed} (place : DataPath) :
    (nodes : List (Node Leaf)) → m ∈ subtreesOf (placedAll place nodes) →
      ∃ n ∈ subtreesOf nodes, ∃ here, m = n.placed here
  | [], hm => nomatch hm
  | node :: nodes, hm => by
    rcases List.mem_append.mp hm with first | later
    · obtain ⟨n, member, placed⟩ := mem_subtrees_placed place node first
      exact ⟨n, List.mem_append_left _ member, placed⟩
    · obtain ⟨n, member, placed⟩ := mem_subtreesOf_placed place nodes later
      exact ⟨n, List.mem_append_right _ member, placed⟩
termination_by structural nodes => nodes

end

/-- A node is solid if it is a leaf, a step without guards that leads to a node, or a group that
has a child. -/
def Solid : Node α → Prop
  | .leaf _ => True
  | .path via child => via.guards = [] ∧ child.isSome
  | .group _ children => children ≠ []

theorem Solid.placed {node : Node Leaf} (h : node.Solid) (place : DataPath) :
    (node.placed place).Solid := by
  cases node with
  | leaf content => trivial
  | path via child => cases child <;> simp_all [Solid, Node.placed, placedBelow]
  | group sign children => cases children <;> simp_all [Solid, Node.placed, placedAll]

theorem combined_eq_hollow {sign : Sign} {texts : List String}
    (h : combined sign.text texts = "()") : texts = [] ∨ texts = ["()"] := by
  match texts with
  | [] => exact .inl rfl
  | [text] => exact .inr (congrArg (· :: []) h)
  | first :: second :: rest =>
    have lengths := congrArg String.length h
    have hollow : "()".length = 2 := rfl
    have closing : ")".length = 1 := rfl
    have all : " and ".length = 5 := rfl
    have any : " or ".length = 4 := rfl
    cases sign <;>
      simp [combined, Text.joined, Sign.text, String.intercalate_cons_cons] at lengths <;> omega

mutual

/-- A tree in which every node is solid has the message of an empty group only from a leaf. -/
theorem leaf_of_message : (node : Node Placed) → (∀ m ∈ node.subtrees, m.Solid) →
    node.message = "()" → ∃ p ∈ node.leaves, p.leaf.message = "()"
  | .leaf content, _, h => ⟨content, List.mem_singleton_self _, h⟩
  | .path via none, solid, _ => nomatch (solid _ (mem_subtrees_self _)).2
  | .path via (some node), solid, h =>
    leaf_of_message node (fun m hm => solid m (List.mem_cons_of_mem _ hm)) h
  | .group sign [], solid, _ => absurd rfl (solid _ (mem_subtrees_self _))
  | .group sign (node :: nodes), solid, h => by
    rcases combined_eq_hollow h with none | one
    · exact nomatch none
    · obtain ⟨p, member, hollow⟩ := leaf_of_message node (fun m hm =>
        solid m (List.mem_cons_of_mem _ (List.mem_append_left _ hm))) (List.cons.inj one).1
      exact ⟨p, List.mem_append_left _ member, hollow⟩
termination_by structural node => node

end

/-- What a node adds to a group stands in the node already. -/
theorem mem_subtrees_of_splicedInto {sign : Sign} {node child m : Node α}
    (spliced : child ∈ node.splicedInto sign) (hm : m ∈ child.subtrees) : m ∈ node.subtrees := by
  cases node with
  | leaf content => exact List.mem_singleton.mp spliced ▸ hm
  | path via below => exact List.mem_singleton.mp spliced ▸ hm
  | group s children =>
    rw [splicedInto] at spliced
    split at spliced
    · exact List.mem_cons_of_mem _ (mem_subtreesOf.mpr ⟨child, spliced, hm⟩)
    · exact List.mem_singleton.mp spliced ▸ hm

theorem eq_of_kept {passed : Bool} {node n : Node Leaf} (h : node.kept passed = some n) :
    n = node := by
  unfold kept at h
  split at h <;> cases h
  rfl

theorem leaves_ne_nil_of_kept {node n : Node Leaf} (h : node.kept true = some n) :
    n.leaves ≠ [] := by
  have same := eq_of_kept h
  subst same
  intro silent
  rw [kept, silent] at h
  cases h

end Node

namespace Trace

theorem leaves_ne_nil_of_failed {t : Trace} {n : Node Leaf} (h : t.node = some n)
    (failed : t.passed = false) : n.leaves ≠ [] := by
  have told := leaves_node [] t
  rw [h] at told
  simp only [Option.toList_some, Node.placedAll, Node.leavesOf, List.append_nil] at told
  rw [← Node.leaves_placed [], told]
  simpa using leaves_ne_nil t failed

theorem leaves_ne_nil_of_passed {n : Node Leaf} : (t : Trace) → t.node = some n →
    t.passed = true → n.leaves ≠ []
  | .group .all _ _, h, done | .step .., h, done | .elements .., h, done => by
    rw [passed] at done
    rw [node] at h
    simp only [passed, done] at h
    exact Node.leaves_ne_nil_of_kept h
  | .group .any _ _, h, done => by
    rw [node, if_pos done] at h
    cases h
  | .skipped .., h, _ | .absent _, h, _ | .unruled .., h, _ => by cases h
  | .missing _, _, done | .repeated _, _, done => by cases done
  | .expanded _ _ _ rules, h, done => leaves_ne_nil_of_passed rules h done
termination_by structural t => t

/-- What a trace leaves holds a leaf. -/
theorem leaves_ne_nil_of_node {t : Trace} {n : Node Leaf} (h : t.node = some n) :
    n.leaves ≠ [] := by
  cases verdict : t.passed with
  | false => exact leaves_ne_nil_of_failed h verdict
  | true => exact leaves_ne_nil_of_passed t h verdict

theorem solid_group {sign : Sign} {children : List (Node Leaf)}
    (holds : (Node.group sign children).leaves ≠ [])
    (below : ∀ child ∈ children, ∀ m ∈ child.subtrees, m.Solid) :
    ∀ m ∈ (Node.group sign children).subtrees, m.Solid := by
  intro m hm
  rcases List.mem_cons.mp hm with rfl | inner
  · rintro rfl
    exact holds rfl
  · obtain ⟨child, member, found⟩ := Node.mem_subtreesOf.mp inner
    exact below child member m found

theorem solid_failureNodes (tests : List (Option Leaf)) :
    ∀ child ∈ failureNodes tests, ∀ m ∈ child.subtrees, m.Solid := by
  intro child member m hm
  obtain ⟨content, -, rfl⟩ := List.mem_map.mp member
  rw [List.mem_singleton.mp hm]
  trivial

mutual

/-- Nothing that a trace leaves is hollow. -/
theorem solid_node : (t : Trace) → {n : Node Leaf} → t.node = some n → ∀ m ∈ n.subtrees, m.Solid
  | .group .all tests subs, n, h => by
    have holds := leaves_ne_nil_of_node h
    obtain rfl := Node.eq_of_kept h
    refine solid_group holds fun child member => ?_
    rcases List.mem_append.mp member with own | nested
    · exact solid_failureNodes tests child own
    · exact solid_nodesIn .all subs child nested
  | .group .any tests subs, n, h => by
    have holds := leaves_ne_nil_of_node h
    rw [node] at h
    split at h <;> cases h
    refine solid_group holds fun child member => ?_
    rcases List.mem_append.mp member with own | nested
    · exact solid_failureNodes tests child own
    · exact solid_nodesIn .any subs child nested
  | .step target part inner, n, h => by
    have holds := leaves_ne_nil_of_node h
    obtain rfl := Node.eq_of_kept h
    cases below : inner.node with
    | none =>
      rw [below] at holds
      exact absurd rfl holds
    | some child =>
      intro m hm
      rcases List.mem_cons.mp hm with rfl | found
      · exact ⟨rfl, rfl⟩
      · exact solid_node inner below m found
  | .elements kind v visits, n, h => by
    have holds := leaves_ne_nil_of_node h
    obtain rfl := Node.eq_of_kept h
    exact solid_group holds (solid_nodesIn .all visits)
  | .missing target, n, h => by
    cases h
    intro m hm
    simp only [Node.subtrees, Node.subtreesBelow, Node.subtreesOf, List.append_nil, List.mem_cons,
      List.not_mem_nil, or_false] at hm
    rcases hm with rfl | rfl | rfl
    · exact ⟨rfl, rfl⟩
    · exact List.cons_ne_nil _ []
    · trivial
  | .repeated v, n, h => by
    cases h
    intro m hm
    simp only [Node.subtrees, Node.subtreesOf, List.append_nil, List.mem_cons, List.not_mem_nil,
      or_false] at hm
    rcases hm with rfl | rfl
    · exact List.cons_ne_nil _ []
    · trivial
  | .skipped .., _, h | .absent _, _, h | .unruled .., _, h => nomatch h
  | .expanded _ _ _ rules, _, h => solid_node rules h
termination_by structural t => t

theorem solid_nodesIn (sign : Sign) : (ts : List Trace) →
    ∀ child ∈ nodesIn sign ts, ∀ m ∈ child.subtrees, m.Solid
  | [], _, member => nomatch member
  | t :: ts, child, member => by
    rcases List.mem_append.mp member with first | later
    · obtain ⟨n, left, spliced⟩ := List.mem_flatMap.mp first
      intro m hm
      refine solid_node t (Option.mem_toList.mp left) m ?_
      exact Node.mem_subtrees_of_splicedInto spliced hm
    · exact solid_nodesIn sign ts child later
termination_by structural ts => ts

end

end Trace

end PathRules
