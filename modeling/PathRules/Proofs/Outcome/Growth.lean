import PathRules.Proofs.Outcome.Scaffold
import PathRules.Proofs.Trace.Leaves
import PathRules.Run.Stack

/-!
# Growing trees

What the open nodes of a run know of the tree is what can be read off a workbench.  Making a node
leaves every tree as it is, and attaching one changes the tree of its parent alone, as adding to an
open node does.
-/

namespace PathRules

variable {α : Type}

namespace Workbench

variable {bench after : Workbench} {levels : List Nat} {label : Nat → Leaf → α}

/-! ## Leaves with their numbers -/

/-- Naming the leaves of a tree is naming them in their order. -/
theorem leaves_treeWithin (bench : Workbench) (label : Nat → Leaf → α) (fuel number : Nat) :
    (bench.treeWithin label fuel number).leaves =
      (bench.treeWithin Prod.mk fuel number).leaves.map fun entry => label entry.1 entry.2 := by
  induction fuel generalizing number with
  | zero => rfl
  | succ fuel ih =>
    have below (nodes : List Nat) : Node.leavesOf (nodes.map (bench.treeWithin label fuel)) =
        (Node.leavesOf (nodes.map (bench.treeWithin Prod.mk fuel))).map
          fun entry => label entry.1 entry.2 := by
      induction nodes with
      | nil => rfl
      | cons node nodes each => simp [Node.leavesOf, ih, each]
    simp only [treeWithin]
    split
    · rfl
    · next via step =>
      cases bench.children number with
      | nil => rfl
      | cons node nodes => simp [Node.leaves, Node.leavesBelow, ih]
    · exact below _
    · rfl
    · rfl

theorem leaves_contents (bench : Workbench) (number : Nat) :
    (bench.contents number).leaves = (bench.leaves number).map (·.2) :=
  leaves_treeWithin bench _ _ number

/-! ## Trees that stay -/

theorem tree_add (ordered : bench.Ordered) (part : Part) (parent : Option Nat) {number : Nat}
    (present : number < bench.size) :
    (bench.add "" part parent).tree label number = bench.tree label number :=
  tree_congr ordered (· < bench.size) (fun number old => by rw [part?_add, if_neg old.ne])
    (fun number _ => children_add ..) (fun number _ node member => (ordered number node member).2)
    present present

/-- Attaching a node changes no tree but that of its parent. -/
theorem tree_taken {parent child : Nat} (h : bench.Scaffolded (child :: parent :: levels))
    (taken : Takes bench parent (bench.handed parent child) after) {number : Nat}
    (other : number ≠ parent) (present : number < bench.size) :
    after.tree label number = bench.tree label number := by
  have unheld := h.unheld parent (List.mem_cons_of_mem _ List.mem_cons_self)
  refine tree_congr h.ordered (· ≠ parent) (fun number _ => taken.part?_eq number)
    (fun number other => ?_) (fun number _ node member same => unheld number (same ▸ member))
    other present
  rw [taken.children_eq, if_neg other]

/-- The trees below a parent once a node was attached to it. -/
theorem map_tree_taken {parent child : Nat} (h : bench.Scaffolded (child :: parent :: levels))
    (taken : Takes bench parent (bench.handed parent child) after) :
    (after.children parent).map (after.tree label) =
      (bench.children parent).map (bench.tree label) ++
        (bench.handed parent child).map (bench.tree label) := by
  rw [taken.children_eq, if_pos rfl, ← List.map_append]
  refine List.map_congr_left fun node member => ?_
  have later : parent < node ∧ node < bench.size :=
    (List.mem_append.mp member).elim (h.ordered parent node) h.lt_handed
  exact tree_taken h taken later.1.ne' later.2

/-- A group takes over the trees that its child adds to a group of this sign. -/
theorem map_tree_handed {parent child : Nat} (h : bench.Scaffolded (child :: parent :: levels))
    {sign : Sign} (above : bench.part? parent = some (.group sign)) :
    (bench.handed parent child).map (bench.tree label) =
      (bench.tree label child).splicedInto sign := by
  have present := h.present child List.mem_cons_self
  obtain ⟨part, below⟩ := exists_part?_of_lt present
  have read : bench.tree label child = _ := tree_eq h.ordered present
  rw [below] at read
  unfold handed
  cases part with
  | group inner =>
    simp only [above, below, read, Node.splicedInto]
    split
    · rfl
    · rw [List.map_singleton, read]
  | leaf | path | accepted => simp [above, below, read, Node.splicedInto]

/-- A node that took another has its leaves behind those it had. -/
theorem leaves_taken {parent child : Nat} (h : bench.Scaffolded (child :: parent :: levels))
    (accepted : bench.accepts parent = true)
    (taken : Takes bench parent (bench.handed parent child) after) :
    after.leaves parent = bench.leaves parent ++ bench.leaves child := by
  have present := h.present parent (List.mem_cons_of_mem _ List.mem_cons_self)
  have before : bench.tree Prod.mk parent = _ := tree_eq h.ordered present
  have now : after.tree Prod.mk parent = _ :=
    tree_eq (h.ordered_taken taken) (taken.size_eq ▸ present)
  unfold leaves
  rw [taken.part?_eq, map_tree_taken h taken] at now
  rcases accepts_cases accepted with ⟨sign, here⟩ | ⟨⟨via, here⟩, empty⟩
  · rw [here] at before now
    rw [before, now, map_tree_handed h here]
    simp [Node.leaves]
  · have alone : bench.handed parent child = [child] := by simp [handed, here]
    rw [here] at before now
    rw [before, now, empty, alone]
    simp [Node.leaves, Node.leavesBelow]

/-! ## Open nodes -/

/-- The open node that a run has where the workbench has a step or a group. -/
def frame (bench : Workbench) (number : Nat) : Frame :=
  let below := (bench.children number).map bench.contents
  match bench.part? number with
  | some (.group sign) => .group sign (bench.parent? number).isSome below
  | some (.path via) => .path via below.head?
  | _ => .path .this none

theorem node_frame (ordered : bench.Ordered) {number : Nat} {part : Part}
    (found : bench.part? number = some part) (compound : part.isCompound = true) :
    (bench.frame number).node = bench.contents number := by
  have read : bench.contents number = _ := tree_eq ordered (lt_size_of_part? found)
  rw [found] at read
  unfold frame
  rw [found]
  cases part with
  | path | group => exact read.symm
  | leaf | accepted => cases compound

/-- Making a node leaves the open nodes as they are. -/
theorem frame_add (ordered : bench.Ordered) (part : Part) (parent : Option Nat) {number : Nat}
    (present : number < bench.size) :
    (bench.add "" part parent).frame number = bench.frame number := by
  have below : (bench.children number).map (bench.add "" part parent).contents =
      (bench.children number).map bench.contents :=
    List.map_congr_left fun node member => tree_add ordered part parent (ordered number node member).2
  unfold frame
  rw [children_add, below, part?_add, parent?_add, if_neg present.ne, if_neg present.ne]

/-- Attaching a node changes no open node but its parent. -/
theorem frame_taken {parent child : Nat} (h : bench.Scaffolded (child :: parent :: levels))
    (taken : Takes bench parent (bench.handed parent child) after) {level : Nat}
    (member : level ∈ levels) : after.frame level = bench.frame level := by
  have earlier : level < parent := (List.pairwise_cons.mp h.descending.of_cons).1 level member
  have unheld := h.unheld parent (List.mem_cons_of_mem _ List.mem_cons_self)
  have below : (bench.children level).map after.contents =
      (bench.children level).map bench.contents :=
    List.map_congr_left fun node member => tree_taken h taken
      (fun same => unheld level (same ▸ member)) (h.ordered level node member).2
  unfold frame
  rw [taken.children_eq, if_neg earlier.ne, below, taken.part?_eq, taken.parent?_eq,
    if_neg (h.not_mem_handed level (List.mem_cons_of_mem _ member))]

/-- The parent takes the attached node as an open node of a run does. -/
theorem add_frame {parent child : Nat} (h : bench.Scaffolded (child :: parent :: levels))
    (accepted : bench.accepts parent = true)
    (taken : Takes bench parent (bench.handed parent child) after) :
    (bench.frame parent).add (bench.contents child) = .ok (after.frame parent) := by
  have below : (after.children parent).map after.contents = _ := map_tree_taken h taken
  have unmoved := h.not_mem_handed parent List.mem_cons_self
  unfold frame
  rw [below, taken.part?_eq, taken.parent?_eq, if_neg unmoved]
  rcases accepts_cases accepted with ⟨sign, here⟩ | ⟨⟨via, here⟩, empty⟩
  · simp only [here, map_tree_handed h here]
    exact rfl
  · have alone : bench.handed parent child = [child] := by simp [handed, here]
    simp only [here, empty, alone]
    exact rfl

/-- A step that holds a node refuses another, as an open step of a run does. -/
theorem frame_refuses {parent : Nat} {via : Via} (step : bench.part? parent = some (.path via))
    (taken : bench.children parent ≠ []) (node : Node Leaf) :
    (bench.frame parent).add node = .error .secondChild := by
  unfold frame
  rw [step]
  cases held : bench.children parent with
  | nil => exact absurd held taken
  | cons first rest => rfl

end Workbench

end PathRules
