import PathRules.Proofs.Run.Mirror

/-!
# What becomes of recorded leaves

A leaf stands below a level if all the nodes between them that were open when it was recorded have
been attached since.  The ledger lists the records level by level, each with the leaves that the
level was made to hold while no level above it was open, so that closing a node merges its records
with those of the level below.
-/

namespace PathRules

namespace LeafRecord

/-- The nodes that were open when the leaf was recorded, and the root. -/
def levels (r : LeafRecord) : List Nat := r.within ++ [0]

/-- Whether all nodes above a level in which the leaf was recorded have been attached. -/
def ReachesLevel (attached : List Nat) (level : Nat) (r : LeafRecord) : Prop :=
  ∀ node ∈ r.levels, level < node → node ∈ attached

instance (attached : List Nat) (level : Nat) (r : LeafRecord) :
    Decidable (r.ReachesLevel attached level) :=
  inferInstanceAs (Decidable (∀ node ∈ r.levels, level < node → node ∈ attached))

/-- The recorded leaves that stand below a level, in order of recording. -/
def reaching (attached : List Nat) (level : Nat) (records : List LeafRecord) :
    List (Nat × Leaf) :=
  (records.filter fun r => r.ReachesLevel attached level).map fun r => (r.number, r.leaf)

variable {attached attached' : List Nat} {level : Nat}

@[simp] theorem reaching_append (xs ys : List LeafRecord) :
    reaching attached level (xs ++ ys) =
      reaching attached level xs ++ reaching attached level ys := by
  simp [reaching]

theorem reaching_congr {level' : Nat} {records : List LeafRecord}
    (same : ∀ r ∈ records, r.ReachesLevel attached' level' ↔ r.ReachesLevel attached level) :
    reaching attached' level' records = reaching attached level records :=
  congrArg _ (List.filter_congr fun r member => decide_eq_decide.mpr (same r member))

theorem reaching_eq_nil {records : List LeafRecord}
    (none : ∀ r ∈ records, ¬ r.ReachesLevel attached level) :
    reaching attached level records = [] := by
  rw [reaching, List.filter_eq_nil_iff.mpr fun r member => by simpa using none r member]
  rfl

/-- Closing a node by attaching it lets through what has reached it, and discarding it nothing. -/
theorem reachesLevel_below {r : LeafRecord} {closed rest : List Nat} {outer : Nat}
    (place : r.levels = closed ++ level :: outer :: rest) (descending : r.levels.Pairwise (· > ·)) :
    r.ReachesLevel attached outer ↔ level ∈ attached ∧ r.ReachesLevel attached level := by
  have ordered := place ▸ descending
  have above : outer < level :=
    (List.pairwise_cons.mp (List.pairwise_append.mp ordered).2.1).1 outer List.mem_cons_self
  constructor
  · intro reaches
    have inside : level ∈ r.levels := by rw [place]; simp
    exact ⟨reaches level inside above, fun node member later =>
      reaches node member (above.trans later)⟩
  · rintro ⟨here, reaches⟩ node member later
    rw [place] at member
    rcases List.mem_append.mp member with closed | staying
    · have beyond : node > level :=
        (List.pairwise_append.mp ordered).2.2 node closed level List.mem_cons_self
      exact reaches node (place ▸ member) beyond
    · rcases List.mem_cons.mp staying with rfl | staying
      · exact here
      · have below := (List.pairwise_append.mp ordered).2.1
        have fits : outer ≥ node := by
          rcases List.mem_cons.mp staying with rfl | staying
          · exact le_rfl
          · exact ((List.pairwise_cons.mp below.of_cons).1 node staying).le
        omega

/-- A leaf reaches the root if all that was open around it has been attached. -/
theorem reachesLevel_zero {r : LeafRecord} (descending : r.levels.Pairwise (· > ·)) :
    r.ReachesLevel attached 0 ↔ r.within.all (attached.contains ·) = true := by
  have positive : ∀ node ∈ r.within, 0 < node := fun node member =>
    (List.pairwise_append.mp descending).2.2 node member 0 (List.mem_singleton_self 0)
  simp only [ReachesLevel, levels, List.mem_append, List.mem_singleton, List.all_eq_true,
    List.contains_iff_mem]
  constructor
  · exact fun reaches node member => reaches node (.inl member) (positive node member)
  · rintro attached node (member | rfl) later
    · exact attached node member
    · exact absurd later (lt_irrefl 0)

end LeafRecord

/-- The records of each level in turn, the innermost level having the last; `leaves` are the leaves
that stand below a level. -/
inductive LeafLedger (leaves : Nat → List (Nat × Leaf)) (attached : List Nat) :
    List Nat → List LeafRecord → Prop
  | nil : LeafLedger leaves attached [] []
  | cons {level : Nat} {levels : List Nat} {earlier own : List LeafRecord} :
      LeafLedger leaves attached levels earlier →
      (∀ r ∈ earlier, ∀ node ∈ r.levels, node < level) →
      (∀ r ∈ own, r.levels.Pairwise (· > ·) ∧ ∃ closed, r.levels = closed ++ level :: levels) →
      leaves level = LeafRecord.reaching attached level own →
      LeafLedger leaves attached (level :: levels) (earlier ++ own)

namespace LeafLedger

variable {leaves leaves' : Nat → List (Nat × Leaf)} {attached attached' levels : List Nat}
  {level outer : Nat} {records : List LeafRecord}

theorem congr (h : LeafLedger leaves attached levels records)
    (same : ∀ level ∈ levels, leaves' level = leaves level)
    (unseen : ∀ r ∈ records, ∀ node ∈ r.levels, node ∈ attached' ↔ node ∈ attached) :
    LeafLedger leaves' attached' levels records := by
  induction h with
  | nil => exact .nil
  | @cons level levels earlier own below older placed holds ih =>
    refine .cons (ih (fun other member => same other (List.mem_cons_of_mem _ member))
      fun r member => unseen r (List.mem_append_left _ member)) older placed ?_
    rw [same level List.mem_cons_self, holds]
    exact (LeafRecord.reaching_congr fun r member => forall₂_congr fun node inside => by
      rw [unseen r (List.mem_append_right _ member) node inside]).symm

theorem descending (h : LeafLedger leaves attached levels records) :
    ∀ r ∈ records, r.levels.Pairwise (· > ·) := by
  induction h with
  | nil => exact fun _ member => nomatch member
  | cons _ _ placed _ ih =>
    exact fun r member => (List.mem_append.mp member).elim (ih r) fun own => (placed r own).1

/-- A new level has no records. -/
theorem openLevel (h : LeafLedger leaves attached levels records)
    (older : ∀ r ∈ records, ∀ node ∈ r.levels, node < level) (empty : leaves level = []) :
    LeafLedger leaves attached (level :: levels) records := by
  have opened : LeafLedger leaves attached (level :: levels) (records ++ []) :=
    .cons h older (fun _ member => nomatch member) empty
  rwa [List.append_nil] at opened

/-- A leaf is recorded at the innermost level. -/
theorem record (h : LeafLedger leaves attached (level :: levels) records) {r : LeafRecord}
    (place : r.levels = level :: levels) (descending : (level :: levels).Pairwise (· > ·))
    (grown : leaves' level = leaves level ++ [(r.number, r.leaf)])
    (others : ∀ other ∈ levels, leaves' other = leaves other) :
    LeafLedger leaves' attached (level :: levels) (records ++ [r]) := by
  cases h with
  | @cons level levels earlier own below older placed holds =>
    rw [List.append_assoc]
    refine .cons (below.congr others fun _ _ _ _ => Iff.rfl) older (fun r' member => ?_) ?_
    · rcases List.mem_append.mp member with member | member
      · exact placed r' member
      · rw [List.mem_singleton.mp member]
        exact ⟨place ▸ descending, [], place⟩
    · have reaches : r.ReachesLevel attached level := fun node member later => by
        rw [place] at member
        rcases List.mem_cons.mp member with rfl | member
        · omega
        · have := (List.pairwise_cons.mp descending).1 node member
          omega
      rw [grown, holds, LeafRecord.reaching_append]
      simp [LeafRecord.reaching, reaches]

/-- The innermost node is closed, and its records go to the level below. -/
theorem close (h : LeafLedger leaves attached (level :: outer :: levels) records)
    (unseen : ∀ node, node ≠ level → (node ∈ attached' ↔ node ∈ attached))
    (grown : leaves' outer = leaves outer ++ if level ∈ attached' then leaves level else [])
    (others : ∀ other ∈ levels, leaves' other = leaves other) :
    LeafLedger leaves' attached' (outer :: levels) records := by
  cases h with
  | @cons _ _ earlier own below older placed holds =>
    cases below with
    | @cons _ _ earlier ownBelow below olderBelow placedBelow holdsBelow =>
      -- The closed level is newer than all records but its own.
      have untouched : ∀ r ∈ earlier ++ ownBelow, ∀ node ∈ r.levels,
          node ∈ attached' ↔ node ∈ attached := fun r member node inside =>
        unseen node (older r member node inside).ne
      rw [List.append_assoc]
      refine .cons (below.congr others fun r member => untouched r (List.mem_append_left _ member))
        olderBelow (fun r member => ?_) ?_
      · rcases List.mem_append.mp member with member | member
        · exact placedBelow r member
        · obtain ⟨descending, closed, place⟩ := placed r member
          exact ⟨descending, closed ++ [level], by simpa using place⟩
      · have passes : LeafRecord.reaching attached' outer own =
            if level ∈ attached' then LeafRecord.reaching attached level own else [] := by
          have merged : ∀ r ∈ own, r.ReachesLevel attached' outer ↔
              level ∈ attached' ∧ r.ReachesLevel attached level := fun r member => by
            obtain ⟨descending, closed, place⟩ := placed r member
            rw [LeafRecord.reachesLevel_below place descending]
            refine and_congr_right fun _ => forall₂_congr fun node _ => ?_
            exact imp_congr_right fun later => unseen node later.ne'
          split
          · next kept => exact LeafRecord.reaching_congr fun r member => by simp [merged r member, kept]
          · next lost =>
            exact LeafRecord.reaching_eq_nil fun r member reaches =>
              lost ((merged r member).mp reaches).1
        have stays : LeafRecord.reaching attached' outer ownBelow =
            LeafRecord.reaching attached outer ownBelow :=
          LeafRecord.reaching_congr fun r member => forall₂_congr fun node inside => by
            rw [untouched r (List.mem_append_right _ member) node inside]
        rw [grown, holdsBelow, holds, LeafRecord.reaching_append, passes, stays]

/-- What stands below the root are the leaves that reach it. -/
theorem root {opened : List Nat} (h : LeafLedger leaves attached (opened ++ [0]) records)
    (unattached : ∀ node ∈ opened, 0 < node ∧ node ∉ attached) :
    leaves 0 = LeafRecord.reaching attached 0 records := by
  -- What was recorded above an open level cannot reach the root yet.
  induction opened generalizing records with
  | nil =>
    cases h with
    | cons below older placed holds =>
      cases below
      simpa using holds
  | cons node opened ih =>
    cases h with
    | @cons _ _ earlier own below older placed holds =>
      obtain ⟨positive, notAttached⟩ := unattached node List.mem_cons_self
      have lost : LeafRecord.reaching attached 0 own = [] :=
        LeafRecord.reaching_eq_nil fun r member reaches => by
          obtain ⟨-, closed, place⟩ := placed r member
          exact notAttached (reaches node (by rw [place]; simp) positive)
      rw [ih below fun other member => unattached other (List.mem_cons_of_mem _ member),
        LeafRecord.reaching_append, lost, List.append_nil]

end LeafLedger

end PathRules
