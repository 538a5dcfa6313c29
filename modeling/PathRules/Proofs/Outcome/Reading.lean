import PathRules.Proofs.Outcome.Pieces

/-!
# Trees read off a workbench

The tree below a node is read off the parts and the nodes that each holds.  If every node comes
before the nodes that it holds, as many levels as there are pieces suffice, and the tree is the
node with the trees of what it holds.
-/

namespace PathRules

variable {α : Type}

namespace Workbench

variable {bench after : Workbench} {label : Nat → Leaf → α}

/-- The tree below a node, at most `fuel` deep; `label` names a leaf by its number. -/
def treeWithin (bench : Workbench) (label : Nat → Leaf → α) : (fuel : Nat) → Nat → Node α
  | 0, _ => .path .this none
  | fuel + 1, number =>
      match bench.part? number with
      | some (.leaf content) => .leaf (label number content)
      | some (.path via) =>
          .path via ((bench.children number).map (bench.treeWithin label fuel)).head?
      | some (.group sign) =>
          .group sign ((bench.children number).map (bench.treeWithin label fuel))
      | some (.accepted ..) | none => .path .this none

/-- The tree below a node. -/
def tree (bench : Workbench) (label : Nat → Leaf → α) (number : Nat) : Node α :=
  bench.treeWithin label bench.size number

/-- The tree below a node with the leaves alone. -/
def contents (bench : Workbench) (number : Nat) : Node Leaf := bench.tree (fun _ leaf => leaf) number

/-- The leaves below a node in order, each with its number. -/
def leaves (bench : Workbench) (number : Nat) : List (Nat × Leaf) :=
  (bench.tree Prod.mk number).leaves

/-- A node comes before the nodes that it holds. -/
def Ordered (bench : Workbench) : Prop :=
  ∀ number, ∀ node ∈ bench.children number, number < node ∧ node < bench.size

/-- What is not yet made holds nothing. -/
theorem Ordered.children_size (ordered : bench.Ordered) : bench.children bench.size = [] :=
  List.eq_nil_iff_forall_not_mem.mpr fun node member => by
    have := ordered _ node member
    omega

/-- The same trees stand below nodes that are the same in all they hold, and more levels than
there are pieces change nothing. -/
theorem treeWithin_congr (ordered : bench.Ordered) (same : Nat → Prop)
    (part?_eq : ∀ number, same number → after.part? number = bench.part? number)
    (children_eq : ∀ number, same number → after.children number = bench.children number)
    (closed : ∀ number, same number → ∀ node ∈ bench.children number, same node)
    {fuel fuel' number : Nat} (here : same number) (present : number < bench.size)
    (enough : bench.size ≤ fuel + number) (enough' : after.size ≤ fuel' + number) :
    after.treeWithin label fuel' number = bench.treeWithin label fuel number := by
  -- A held node comes later, so that one level less still reaches the last piece.
  induction fuel generalizing fuel' number with
  | zero => omega
  | succ fuel ih =>
    have present' : number < after.size := by
      obtain ⟨part, found⟩ := exists_part?_of_lt present
      exact lt_size_of_part? ((part?_eq number here).trans found)
    obtain ⟨fuel', rfl⟩ : ∃ n, fuel' = n + 1 := ⟨fuel' - 1, by omega⟩
    have below : (bench.children number).map (after.treeWithin label fuel') =
        (bench.children number).map (bench.treeWithin label fuel) :=
      List.map_congr_left fun node member => by
        obtain ⟨later, inside⟩ := ordered number node member
        exact ih (closed number here node member) inside (by omega) (by omega)
    simp only [treeWithin, part?_eq number here, children_eq number here, below]

theorem tree_congr (ordered : bench.Ordered) (same : Nat → Prop)
    (part?_eq : ∀ number, same number → after.part? number = bench.part? number)
    (children_eq : ∀ number, same number → after.children number = bench.children number)
    (closed : ∀ number, same number → ∀ node ∈ bench.children number, same node)
    {number : Nat} (here : same number) (present : number < bench.size) :
    after.tree label number = bench.tree label number :=
  treeWithin_congr ordered same part?_eq children_eq closed here present (by omega) (by omega)

/-- The tree below a node is the node with the trees of what it holds. -/
theorem tree_eq (ordered : bench.Ordered) {number : Nat} (present : number < bench.size) :
    bench.tree label number =
      match bench.part? number with
      | some (.leaf content) => .leaf (label number content)
      | some (.path via) => .path via ((bench.children number).map (bench.tree label)).head?
      | some (.group sign) => .group sign ((bench.children number).map (bench.tree label))
      | some (.accepted ..) | none => .path .this none := by
  have more : bench.treeWithin label (bench.size + 1) number = bench.tree label number :=
    treeWithin_congr ordered (fun _ => True) (fun _ _ => rfl) (fun _ _ => rfl)
      (fun _ _ _ _ => trivial) trivial present (by omega) (by omega)
  exact more.symm

theorem tree_leaf (ordered : bench.Ordered) {number : Nat} {leaf : Leaf}
    (found : bench.part? number = some (.leaf leaf)) :
    bench.tree label number = .leaf (label number leaf) := by
  rw [tree_eq ordered (lt_size_of_part? found), found]

end Workbench

end PathRules
