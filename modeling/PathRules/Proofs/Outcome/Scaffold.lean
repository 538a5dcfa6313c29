import Mathlib.Data.List.Chain
import PathRules.Proofs.Outcome.Reading

/-!
# Nodes under construction

Some nodes of a workbench are being filled, each made under the next one; they are listed
innermost first and end with the root.  Nothing holds them yet, and all that is held by them or by
another node has that node as its parent.  This is kept when a node is made under the innermost
one, when the innermost one is given up, and when it is attached to its parent.
-/

namespace PathRules

namespace Workbench

variable {bench after : Workbench} {levels : List Nat}

/-- Whether a node is being filled or held by another.  A group that handed its nodes over is
neither. -/
def InUse (bench : Workbench) (levels : List Nat) (number : Nat) : Prop :=
  number ∈ levels ∨ ∃ holder, number ∈ bench.children holder

/-- Whether the part of a node admits that of another below it. -/
def Admits (bench : Workbench) (holder node : Nat) : Prop :=
  ∃ above below, bench.part? holder = some above ∧ bench.part? node = some below ∧
    above.admits below = true

/-- The nodes `levels` are being filled, and what is held has its holder as the parent. -/
structure Scaffolded (bench : Workbench) (levels : List Nat) : Prop where
  ordered : bench.Ordered
  present : ∀ level ∈ levels, level < bench.size
  descending : levels.Pairwise (· > ·)
  parents : levels.IsChain fun level below => bench.parent? level = some below
  unheld : ∀ level ∈ levels, ∀ number, level ∉ bench.children number
  held : ∀ number, bench.InUse levels number → ∀ node ∈ bench.children number,
    bench.parent? node = some number ∧ bench.Admits number node
  step_le_one : ∀ number via, bench.part? number = some (.path via) →
    (bench.children number).length ≤ 1

namespace Scaffolded

/-- A node is made under the innermost one. -/
theorem add {current : Nat} (h : bench.Scaffolded (current :: levels)) (part : Part) :
    (bench.add "" part (some current)).Scaffolded (bench.size :: current :: levels) := by
  have fresh : ∀ number, bench.size ∉ bench.children number := fun number member => by
    have := (h.ordered number _ member).2
    omega
  have older : ∀ level ∈ current :: levels, level ≠ bench.size := fun level member => by
    have := h.present level member
    omega
  refine ⟨?_, ?_, ?_, ?_, ?_, ?_, ?_⟩
  · intro number node member
    rw [children_add] at member
    obtain ⟨later, inside⟩ := h.ordered number node member
    exact ⟨later, by rw [size_add]; omega⟩
  · intro level member
    rw [size_add]
    rcases List.mem_cons.mp member with rfl | member
    · omega
    · have := h.present level member
      omega
  · exact List.pairwise_cons.mpr ⟨h.present, h.descending⟩
  · refine List.isChain_cons_cons.mpr ⟨by rw [parent?_add, if_pos rfl], ?_⟩
    refine h.parents.imp_of_mem_imp fun level below member _ made => ?_
    rw [parent?_add, if_neg (older level member)]
    exact made
  · intro level member number
    rw [children_add]
    rcases List.mem_cons.mp member with rfl | member
    · exact fresh number
    · exact h.unheld level member number
  · intro number inUse node member
    rw [children_add] at member
    have inside := (h.ordered number node member).2
    have used : bench.InUse (current :: levels) number := by
      rcases inUse with member' | ⟨holder, member'⟩
      · rcases List.mem_cons.mp member' with rfl | member'
        · have := (h.ordered _ node member).1
          omega
        · exact .inl member'
      · rw [children_add] at member'
        exact .inr ⟨holder, member'⟩
    obtain ⟨made, above, below, aboveAt, belowAt, admits⟩ := h.held number used node member
    refine ⟨?_, above, below, ?_, ?_, admits⟩
    · rw [parent?_add, if_neg (by omega)]
      exact made
    · have := lt_size_of_part? aboveAt
      rw [part?_add, if_neg (by omega)]
      exact aboveAt
    · rw [part?_add, if_neg (by omega)]
      exact belowAt
  · intro number via step
    rw [children_add]
    rw [part?_add] at step
    split at step
    · next here => simp [here, h.ordered.children_size]
    · exact h.step_le_one number via step

/-- The innermost node is given up. -/
theorem drop {level : Nat} (h : bench.Scaffolded (level :: levels)) : bench.Scaffolded levels where
  ordered := h.ordered
  present other member := h.present other (List.mem_cons_of_mem _ member)
  descending := h.descending.of_cons
  parents := h.parents.tail
  unheld other member := h.unheld other (List.mem_cons_of_mem _ member)
  held number inUse := h.held number (inUse.imp_left (List.mem_cons_of_mem _))
  step_le_one := h.step_le_one

end Scaffolded

/-- What a parent takes over with a node is the node, or what the node holds and then both are
groups of one sign. -/
theorem handed_cases (bench : Workbench) (parent child : Nat) :
    bench.handed parent child = [child] ∧ (∀ sign, bench.part? parent = some (.group sign) →
        bench.part? child ≠ some (.group sign)) ∨
      bench.handed parent child = bench.children child ∧
        ∃ sign, bench.part? parent = some (.group sign) ∧
          bench.part? child = some (.group sign) := by
  unfold handed
  split
  · next sign inner above below =>
    split
    · next same =>
      obtain rfl : inner = sign := by simpa using same
      exact .inr ⟨rfl, inner, above, below⟩
    · next other =>
      refine .inl ⟨rfl, fun sign' above' below' => ?_⟩
      simp_all
  · next other => exact .inl ⟨rfl, fun sign above below => other sign sign above below⟩

namespace Scaffolded

variable {parent child : Nat}

theorem parent?_eq (h : bench.Scaffolded (child :: parent :: levels)) :
    bench.parent? child = some parent :=
  (List.isChain_cons_cons.mp h.parents).1

theorem lt_innermost (h : bench.Scaffolded (child :: parent :: levels)) :
    ∀ level ∈ parent :: levels, level < child :=
  (List.pairwise_cons.mp h.descending).1

/-- None of the nodes that stay is taken over. -/
theorem not_mem_handed (h : bench.Scaffolded (child :: parent :: levels)) :
    ∀ level ∈ parent :: levels, level ∉ bench.handed parent child := by
  intro level member
  rcases bench.handed_cases parent child with ⟨alone, -⟩ | ⟨spliced, -⟩
  · rw [alone, List.mem_singleton]
    exact (h.lt_innermost level member).ne
  · rw [spliced]
    exact h.unheld level (List.mem_cons_of_mem _ member) child

theorem lt_handed (h : bench.Scaffolded (child :: parent :: levels)) {node : Nat}
    (member : node ∈ bench.handed parent child) : parent < node ∧ node < bench.size := by
  have earlier := h.lt_innermost parent List.mem_cons_self
  rcases bench.handed_cases parent child with ⟨alone, -⟩ | ⟨spliced, -⟩
  · rw [alone, List.mem_singleton] at member
    exact member ▸ ⟨earlier, h.present child List.mem_cons_self⟩
  · rw [spliced] at member
    obtain ⟨later, inside⟩ := h.ordered child node member
    exact ⟨by omega, inside⟩

/-- What is in use once a node was attached was in use before, and it is no node that handed over
what it held. -/
theorem inUse_of_taken (h : bench.Scaffolded (child :: parent :: levels))
    (taken : Takes bench parent (bench.handed parent child) after) {number : Nat}
    (inUse : after.InUse (parent :: levels) number) :
    bench.InUse (child :: parent :: levels) number ∧
      (bench.handed parent child = bench.children child → number ≠ child) := by
  have unheld := h.unheld child List.mem_cons_self
  rcases inUse with member | ⟨holder, member⟩
  · exact ⟨.inl (List.mem_cons_of_mem _ member), fun _ => (h.lt_innermost number member).ne⟩
  have cases : number ∈ bench.children holder ∨ number ∈ bench.handed parent child := by
    rw [taken.children_eq] at member
    split at member
    · next here => exact (List.mem_append.mp member).imp_left (here ▸ id)
    · exact .inl member
  rcases cases with member | member
  · exact ⟨.inr ⟨holder, member⟩, fun _ same => unheld holder (same ▸ member)⟩
  · refine ⟨?_, fun spliced same => unheld child (spliced ▸ same ▸ member)⟩
    rcases bench.handed_cases parent child with ⟨alone, -⟩ | ⟨spliced, -⟩
    · rw [alone, List.mem_singleton] at member
      exact .inl (member ▸ List.mem_cons_self)
    · exact .inr ⟨child, spliced ▸ member⟩

/-- Everything that is taken over may be held. -/
theorem admits_handed (h : bench.Scaffolded (child :: parent :: levels)) {above below : Part}
    (aboveAt : bench.part? parent = some above) (belowAt : bench.part? child = some below)
    (fits : above.takes below = true) {node : Nat}
    (member : node ∈ bench.handed parent child) : bench.Admits parent node := by
  rcases bench.handed_cases parent child with ⟨alone, apart⟩ | ⟨spliced, sign, signAt, innerAt⟩
  · rw [alone, List.mem_singleton] at member
    refine ⟨above, below, aboveAt, member ▸ belowAt, ?_⟩
    unfold Part.admits
    rw [fits, Bool.true_and]
    split
    · next sign inner =>
      exact bne_iff_ne.mpr fun same => apart sign aboveAt (same ▸ belowAt)
    · rfl
  · rw [spliced] at member
    obtain ⟨-, group, part, groupAt, partAt, admits⟩ :=
      h.held child (.inl List.mem_cons_self) node member
    exact ⟨group, part, signAt.trans (innerAt.symm.trans groupAt), partAt, admits⟩

theorem ordered_taken (h : bench.Scaffolded (child :: parent :: levels))
    (taken : Takes bench parent (bench.handed parent child) after) : after.Ordered := by
  intro number node member
  rw [taken.size_eq]
  rw [taken.children_eq] at member
  split at member
  · next here =>
    subst here
    exact (List.mem_append.mp member).elim (h.ordered number node) h.lt_handed
  · exact h.ordered number node member

/-- The innermost node is attached to its parent. -/
theorem attach (h : bench.Scaffolded (child :: parent :: levels)) {above below : Part}
    (aboveAt : bench.part? parent = some above) (belowAt : bench.part? child = some below)
    (fits : above.takes below = true) (accepted : bench.accepts parent = true)
    (taken : Takes bench parent (bench.handed parent child) after) :
    after.Scaffolded (parent :: levels) where
  ordered := h.ordered_taken taken
  present level member := by
    rw [taken.size_eq]
    exact h.present level (List.mem_cons_of_mem _ member)
  descending := h.descending.of_cons
  parents := h.parents.tail.imp_of_mem_imp fun level below member _ made => by
    rw [taken.parent?_eq, if_neg (h.not_mem_handed level member)]
    exact made
  unheld level member number := by
    have before := h.unheld level (List.mem_cons_of_mem _ member)
    rw [taken.children_eq]
    split
    · exact fun held => (List.mem_append.mp held).elim (before parent)
        (h.not_mem_handed level member)
    · exact before number
  held number inUse node member := by
    obtain ⟨used, stays⟩ := h.inUse_of_taken taken inUse
    have kept : node ∈ bench.children number →
        bench.parent? node = some number ∧ bench.Admits number node := h.held number used node
    simp only [Admits, taken.part?_eq, taken.parent?_eq]
    rw [taken.children_eq] at member
    split at member
    · next here =>
      subst here
      rcases List.mem_append.mp member with member | member
      · obtain ⟨made, admitted⟩ := kept member
        exact ⟨by rw [made, ite_self], admitted⟩
      · exact ⟨if_pos member, h.admits_handed aboveAt belowAt fits member⟩
    · next other =>
      obtain ⟨made, admitted⟩ := kept member
      refine ⟨?_, admitted⟩
      rw [if_neg, made]
      -- Only the attached node holds what moves, and if that is handed over it is no longer in use.
      intro moved
      rcases bench.handed_cases parent child with ⟨alone, -⟩ | ⟨spliced, -⟩
      · rw [alone, List.mem_singleton] at moved
        exact h.unheld child List.mem_cons_self number (moved ▸ member)
      · have ofChild := (h.held child (.inl List.mem_cons_self) node (spliced ▸ moved)).1
        exact stays spliced (Option.some.inj (made.symm.trans ofChild))
  step_le_one number via step := by
    rw [taken.part?_eq] at step
    rw [taken.children_eq]
    split
    · next here =>
      subst here
      have empty : bench.children number = [] := by
        rcases accepts_cases accepted with ⟨sign, group⟩ | ⟨-, empty⟩
        · rw [step] at group
          cases group
        · exact empty
      have alone : bench.handed number child = [child] := by simp [handed, step]
      simp [empty, alone]
    · exact h.step_le_one number via step

end Scaffolded

end Workbench

end PathRules
