import PathRules.Proofs.Outcome.Standing
import PathRules.Proofs.Run.LeafLedger

/-!
# Trees built by hand

Whatever operations a validation written by hand performs, in any order and carrying on after
faults, the open nodes hang below each other and below the root, all that is held has its holder
as the parent, no step holds a leaf or two nodes, no group holds one of its sign, and the root
holds exactly the recorded leaves whose surroundings were attached.
-/

namespace PathRules

variable {g : ObjectGraph} {a after : Assembly}

namespace Assembly

/-- The ledger of the levels is kept up, and what is named in it was made before. -/
structure Balanced (a : Assembly) : Prop where
  ledger : LeafLedger a.bench.leaves a.attached a.levels a.recordings
  older : ∀ r ∈ a.recordings, ∀ node ∈ r.levels, node < a.bench.size
  finished : ∀ node ∈ a.attached, node < a.bench.size ∧ node ∉ a.levels

namespace Balanced

theorem empty : ({} : Assembly).Balanced where
  ledger := .cons .nil (fun _ member => nomatch member) (fun _ member => nomatch member) rfl
  older _ member := nomatch member
  finished _ member := nomatch member

theorem openPart (balanced : a.Balanced) (h : a.Sound) {part : Part}
    (compound : part.isCompound = true) : (a.openPart part).Balanced where
  ledger := by
    have sound := (h.openPart compound).scaffolded
    refine LeafLedger.openLevel (balanced.ledger.congr (fun level member => ?_) fun _ _ _ _ => Iff.rfl)
      balanced.older ?_
    · exact congrArg Node.leaves
        (Workbench.tree_add h.scaffolded.ordered part _ (h.scaffolded.present level member))
    · have read : (a.openPart part).bench.tree Prod.mk a.bench.size = _ :=
        Workbench.tree_eq sound.ordered (sound.present _ List.mem_cons_self)
      have made : (a.openPart part).bench.part? a.bench.size = some part := by
        change (a.bench.add "" part (some a.current)).part? a.bench.size = _
        rw [Workbench.part?_add, if_pos rfl]
      have alone : (a.openPart part).bench.children a.bench.size = [] :=
        (Workbench.children_add ..).trans h.scaffolded.ordered.children_size
      unfold Workbench.leaves
      rw [read, made, alone]
      cases part with
      | path | group => rfl
      | leaf | accepted => cases compound
  older r member node inside := by
    change node < (a.bench.add "" part (some a.current)).size
    rw [Workbench.size_add]
    have := balanced.older r member node inside
    omega
  finished node member := by
    obtain ⟨old, closed⟩ := balanced.finished node member
    change node < (a.bench.add "" part (some a.current)).size ∧ node ∉ a.bench.size :: a.levels
    rw [Workbench.size_add]
    refine ⟨by omega, fun inside => ?_⟩
    rcases List.mem_cons.mp inside with rfl | inside
    · omega
    · exact closed inside

/-- A level that is closed without being attached takes its records along. -/
theorem discard (balanced : a.Balanced) : a.discard.Balanced := by
  by_cases opened : a.opened = []
  · exact discard_eq_self opened ▸ balanced
  obtain ⟨rest, levels, closed⟩ := levels_eq_of_opened opened
  have stays : a.discard.levels = a.outer :: rest := closed
  have open_ : a.current ∉ a.attached := fun member =>
    (balanced.finished a.current member).2 (levels ▸ List.mem_cons_self)
  refine ⟨?_, balanced.older, fun node member => ?_⟩
  · rw [stays]
    refine (levels ▸ balanced.ledger).close (fun _ _ => Iff.rfl) ?_ fun _ _ => rfl
    change a.bench.leaves a.outer =
      a.bench.leaves a.outer ++ if a.current ∈ a.attached then a.bench.leaves a.current else []
    rw [if_neg open_, List.append_nil]
  · obtain ⟨old, closed⟩ := balanced.finished node member
    exact ⟨old, fun inside => closed (levels ▸ List.mem_cons_of_mem _ (stays ▸ inside))⟩

theorem of_attached (balanced : a.Balanced) (h : a.Sound) (attached : a.Attached after) :
    after.Balanced := by
  cases attached with
  | nothingOpen => exact balanced
  | refused => exact balanced.discard
  | @taken bench opened accepted taken =>
    obtain ⟨rest, levels, closed⟩ := levels_eq_of_opened opened
    have scaffolded : a.bench.Scaffolded (a.current :: a.outer :: rest) := levels ▸ h.scaffolded
    refine ⟨?_, fun r member node inside => ?_, fun node member => ?_⟩
    · change LeafLedger bench.leaves (a.current :: a.attached) (a.opened.tail ++ [0]) a.recordings
      rw [closed]
      refine (levels ▸ balanced.ledger).close (fun node other => by simp [other]) ?_
        fun level member => ?_
      · rw [if_pos List.mem_cons_self]
        exact Workbench.leaves_taken scaffolded accepted taken
      · have earlier := (List.pairwise_cons.mp scaffolded.descending.of_cons).1 level member
        exact congrArg Node.leaves (Workbench.tree_taken scaffolded taken earlier.ne
          (h.scaffolded.present level (by simp [levels, member])))
    · rw [taken.size_eq]
      exact balanced.older r member node inside
    · change node < bench.size ∧ node ∉ a.opened.tail ++ [0]
      rw [taken.size_eq, closed]
      rcases List.mem_cons.mp member with rfl | member
      · exact ⟨scaffolded.present _ List.mem_cons_self,
          fun inside => (scaffolded.lt_innermost _ inside).false⟩
      · obtain ⟨old, apart⟩ := balanced.finished node member
        exact ⟨old, fun inside => apart (levels ▸ List.mem_cons_of_mem _ inside)⟩

theorem of_recorded {leaf : Leaf} (balanced : a.Balanced) (h : a.Sound)
    (recorded : a.Recorded leaf after) : after.Balanced := by
  cases recorded with
  | refused => exact balanced
  | @taken sign bench here taken =>
    obtain ⟨rest, levels⟩ := a.levels_eq
    obtain ⟨scaffolded, alone, made, -, accepted⟩ := h.scaffolded_leaf leaf here levels
    have size : bench.size = a.bench.size + 1 := by rw [taken.size_eq, Workbench.size_add]
    rw [← alone] at taken
    have leafAt : (a.bench.add "" (.leaf leaf) (some a.current)).leaves a.bench.size =
        [(a.bench.size, leaf)] :=
      congrArg Node.leaves (Workbench.tree_leaf scaffolded.ordered made)
    have before (level : Nat) (member : level ∈ a.levels) :
        (a.bench.add "" (.leaf leaf) (some a.current)).leaves level = a.bench.leaves level :=
      congrArg Node.leaves
        (Workbench.tree_add h.scaffolded.ordered _ _ (h.scaffolded.present level member))
    -- Making the leaf changes no level, and attaching it only the current one.
    refine ⟨?_, fun r member node inside => ?_, fun node member => ?_⟩
    · change LeafLedger bench.leaves a.attached a.levels _
      rw [levels]
      refine (levels ▸ balanced.ledger).record levels (levels ▸ h.scaffolded.descending) ?_
        fun level member => ?_
      · rw [Workbench.leaves_taken scaffolded accepted taken, leafAt,
          before _ (levels ▸ List.mem_cons_self)]
      · have inside : level ∈ a.levels := levels ▸ List.mem_cons_of_mem _ member
        have earlier := (List.pairwise_cons.mp (levels ▸ h.scaffolded.descending)).1 level member
        rw [← before level inside]
        exact congrArg Node.leaves (Workbench.tree_taken scaffolded taken earlier.ne
          (scaffolded.present level (List.mem_cons_of_mem _ (levels ▸ inside))))
    · rw [size]
      rcases List.mem_append.mp member with member | member
      · have := balanced.older r member node inside
        omega
      · rw [List.mem_singleton.mp member] at inside
        have := h.scaffolded.present node inside
        omega
    · obtain ⟨old, closed⟩ := balanced.finished node member
      exact ⟨by rw [size]; omega, closed⟩

theorem step (balanced : a.Balanced) (h : a.Sound) : (op : Operation) → (a.step op).Balanced
  | .openGroup _ => balanced.openPart h rfl
  | .openPath _ => balanced.openPart h rfl
  | .record leaf => balanced.of_recorded h (h.recorded leaf)
  | .discard => balanced.discard
  | .attach => balanced.of_attached h h.attached
  | .close valid keepWarnings => by
    change (if a.keeps valid keepWarnings then a.attach else a.discard).Balanced
    split
    · exact balanced.of_attached h h.attached
    · exact balanced.discard
  | .finish => balanced

end Balanced

/-- How the nodes hang together.  All nodes of the tree are in use: they are the root or held by
another. -/
structure WellBuilt (a : Assembly) : Prop where
  opened_parents : a.levels.IsChain fun level below => a.bench.parent? level = some below
  held_parents : ∀ number, a.bench.InUse a.levels number → ∀ node ∈ a.bench.children number,
    a.bench.parent? node = some number
  step_le_one : ∀ number via, a.bench.part? number = some (.path via) →
    (a.bench.children number).length ≤ 1
  step_no_leaf : ∀ number via, a.bench.InUse a.levels number →
    a.bench.part? number = some (.path via) →
      ∀ node ∈ a.bench.children number, ∀ leaf, a.bench.part? node ≠ some (.leaf leaf)
  group_no_like : ∀ number sign, a.bench.InUse a.levels number →
    a.bench.part? number = some (.group sign) →
      ∀ node ∈ a.bench.children number, a.bench.part? node ≠ some (.group sign)
  leaves_eq : a.bench.leaves 0 =
    (a.recordings.filter fun r => r.within.all (a.attached.contains ·)).map
      fun r => (r.number, r.leaf)

/-- All nodes open at the recording stand above the root. -/
theorem Balanced.reaching_root (balanced : a.Balanced) (h : a.Sound) :
    a.bench.leaves 0 =
      (a.recordings.filter fun r => r.within.all (a.attached.contains ·)).map
        fun r => (r.number, r.leaf) := by
  have closed : ∀ node ∈ a.opened, 0 < node ∧ node ∉ a.attached := fun node member => by
    have descending := h.scaffolded.descending
    exact ⟨(List.pairwise_append.mp descending).2.2 node member 0 (List.mem_singleton_self 0),
      fun attached => (balanced.finished node attached).2 (List.mem_append_left _ member)⟩
  rw [balanced.ledger.root closed, LeafRecord.reaching]
  refine congrArg _ (List.filter_congr fun r member => ?_)
  rw [Bool.eq_iff_iff, decide_eq_true_iff]
  exact LeafRecord.reachesLevel_zero (balanced.ledger.descending r member)

theorem Sound.wellBuilt (h : a.Sound) (balanced : a.Balanced) : a.WellBuilt where
  opened_parents := h.scaffolded.parents
  held_parents number inUse node member := (h.scaffolded.held number inUse node member).1
  step_le_one := h.scaffolded.step_le_one
  step_no_leaf number via inUse step node member leaf leafAt := by
    obtain ⟨-, above, below, aboveAt, belowAt, admits⟩ := h.scaffolded.held number inUse node member
    obtain rfl : above = .path via := Option.some.inj (aboveAt.symm.trans step)
    obtain rfl : below = .leaf leaf := Option.some.inj (belowAt.symm.trans leafAt)
    cases admits
  group_no_like number sign inUse group node member likeAt := by
    obtain ⟨-, above, below, aboveAt, belowAt, admits⟩ := h.scaffolded.held number inUse node member
    obtain rfl : above = .group sign := Option.some.inj (aboveAt.symm.trans group)
    obtain rfl : below = .group sign := Option.some.inj (belowAt.symm.trans likeAt)
    simp [Part.admits] at admits
  leaves_eq := balanced.reaching_root h

/-- The tree is read off with the places to which the parents of its leaves lead. -/
theorem Sound.node_root (h : a.Sound) :
    a.bench.node 0 = .ok ((a.bench.contents 0).placed []) := by
  obtain ⟨step, alone⟩ := h.root
  have present := Workbench.lt_size_of_part? step
  refine Workbench.nodeWithin_eq h.scaffolded (.inl a.zero_mem_levels) present
    (by simp only [Workbench.size]; omega) (fun _ _ accepted => ?_)
    (Workbench.standsAt_root step alone)
  rw [step] at accepted
  cases accepted

theorem sound_ofAll (ops : List Operation) : (ofAll ops).Sound ∧ (ofAll ops).Balanced :=
  ops.foldlRecOn Assembly.step (motive := fun a => a.Sound ∧ a.Balanced)
    ⟨sound_empty, Balanced.empty⟩ fun _ h op _ => ⟨h.1.step op, h.2.step h.1 op⟩

end Assembly

namespace Operation

/-- After any operations on an empty stack the open nodes and the tree of the run are those that
the operations made, and the parents of the leaves lead to their places in the tree.  The nodes are
well built, the leaves of the tree are in order of recording those whose surroundings have all been
attached, and the next operation fails as said. -/
theorem performAll_wellBuilt (g : ObjectGraph) {run : Run} (fresh : run.stack = {})
    (ops : List Operation) :
    ∃ after, (performAll ops).runOn g run = (.ok (), after) ∧
      let made := Assembly.ofAll ops
      after.stack.frames = made.opened.map made.bench.frame ∧
      after.stack.tree = made.bench.contents 0 ∧
      made.bench.node 0 = .ok (after.stack.tree.placed []) ∧
      after.stack.tree.leaves =
        (made.recordings.filter fun r => r.within.all (made.attached.contains ·)).map (·.leaf) ∧
      made.WellBuilt ∧
      ∀ op : Operation, op.perform.faultOn g after = made.fault? op := by
  have mirrored : run.stack.Mirrors {} := fresh ▸ rfl
  obtain ⟨after, ran, mirrors, sound⟩ :=
    Assembly.mirrors_performAll (g := g) ops Assembly.sound_empty mirrored
  have wellBuilt := sound.wellBuilt (Assembly.sound_ofAll ops).2
  have tree := mirrors.tree_eq sound
  refine ⟨after, ran, mirrors.frames_eq, tree, tree ▸ sound.node_root, ?_, wellBuilt,
    fun op => (Assembly.agrees_step sound mirrors op).1⟩
  rw [tree, Workbench.leaves_contents]
  refine (congrArg _ wellBuilt.leaves_eq).trans ?_
  rw [List.map_map]
  rfl

/-- A group of a group is handed over, and one that is given up is lost; the root takes no leaf. -/
def handedOver : List Operation :=
  [.openGroup .all, .openGroup .all, .record .required, .openGroup .any, .record (.repeated .null),
    .finish, .discard, .attach, .attach, .record .required, .attach]

/-- Of the two leaves that are recorded one stands in the tree, below the outer group. -/
theorem performAll_wellBuilt_of_handedOver :
    ({} : Run).stack = {} ∧
      ∃ after, (performAll handedOver).runOn {} {} = (.ok (), after) ∧
        after.stack.tree = .path .this (some (.group .all [.leaf .required])) ∧
        after.stack.tree.leaves = [.required] ∧
        (Assembly.ofAll handedOver).recordings.map (·.leaf) = [.required, .repeated .null] ∧
        (Assembly.ofAll handedOver).WellBuilt ∧
        finish.perform.faultOn {} after = none := by
  obtain ⟨after, ran, -, tree, -, leaves, wellBuilt, faults⟩ :=
    performAll_wellBuilt {} (rfl : ({} : Run).stack = {}) handedOver
  exact ⟨rfl, after, ran, tree.trans rfl, leaves.trans rfl, rfl, wellBuilt, (faults .finish).trans rfl⟩

end Operation

end PathRules
