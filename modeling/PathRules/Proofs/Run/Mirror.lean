import PathRules.Proofs.Run.Assembly

/-!
# The stack mirrors the workbench

The open nodes of a run are those on the workbench, each with the trees of what it holds.  Every
operation keeps it so, and fails with the fault that is read off the workbench.
-/

namespace PathRules

variable {g : ObjectGraph} {a after : Assembly} {stack : Stack} {run : Run}

/-- The levels of a stack are what stands on the workbench at the numbers of the levels. -/
def Stack.Mirrors (stack : Stack) (a : Assembly) : Prop :=
  stack.levels = a.levels.map a.bench.frame

namespace Stack.Mirrors

theorem frames_nil (h : stack.Mirrors a) (opened : a.opened = []) : stack.frames = [] := by
  have levels : a.levels = [0] := by rw [Assembly.levels, opened, List.nil_append]
  exact Stack.frames_eq_nil (h.trans (congrArg (List.map _) levels))

theorem current (h : stack.Mirrors a) : stack.current = a.bench.frame a.current := by
  obtain ⟨rest, levels⟩ := a.levels_eq
  exact Stack.current_eq (h.trans (congrArg (List.map _) levels))

/-- The current node can be closed, and the other levels stay. -/
theorem exists_push (h : stack.Mirrors a) (opened : a.opened ≠ []) :
    ∃ below : Stack, stack = below.push (a.bench.frame a.current) ∧ below.Mirrors a.discard := by
  obtain ⟨rest, levels, closed⟩ := Assembly.levels_eq_of_opened opened
  obtain ⟨below, pushed, levels'⟩ := Stack.exists_push (h.trans (congrArg (List.map _) levels))
  refine ⟨below, pushed, levels'.trans ?_⟩
  change _ = (a.opened.tail ++ [0]).map a.bench.frame
  rw [closed]
  rfl

/-- The number of open nodes is the depth. -/
theorem depth_eq (h : stack.Mirrors a) : stack.depth = a.opened.length := by
  have lengths := congrArg List.length h
  simpa [Stack.levels, Assembly.levels, Stack.depth] using lengths

theorem frames_eq (h : stack.Mirrors a) : stack.frames = a.opened.map a.bench.frame := by
  have same : stack.frames ++ [.path .this stack.root] =
      a.opened.map a.bench.frame ++ [a.bench.frame 0] := by
    have := h
    unfold Mirrors Stack.levels Assembly.levels at this
    rwa [List.map_append] at this
  exact List.append_inj_left' same rfl

/-- The tree of the run is the one below the root. -/
theorem tree_eq (h : stack.Mirrors a) (sound : a.Sound) : stack.tree = a.bench.contents 0 := by
  have root : (.path .this stack.root : Frame) = a.bench.frame 0 := by
    have same := congrArg List.getLast? h
    unfold Stack.levels Assembly.levels at same
    simpa using same
  obtain ⟨part, found, compound⟩ :=
    sound.compound 0 a.zero_mem_levels
  rw [← Workbench.node_frame sound.scaffolded.ordered found compound, ← root]
  rfl

end Stack.Mirrors

namespace Assembly

/-! ## Opening a node -/

/-- The levels below a new one are what they were. -/
theorem map_frame_add (h : a.Sound) (part : Part) :
    a.levels.map (a.bench.add "" part (some a.current)).frame = a.levels.map a.bench.frame :=
  List.map_congr_left fun level member =>
    Workbench.frame_add h.scaffolded.ordered part _ (h.scaffolded.present level member)

/-- A new node is opened with nothing below it. -/
theorem frame_new (h : a.Sound) (part : Part) :
    (a.bench.add "" part (some a.current)).frame a.bench.size =
      match part with
      | .group sign => .group sign true []
      | .path via => .path via none
      | .leaf _ | .accepted .. => .path .this none := by
  unfold Workbench.frame
  rw [Workbench.part?_add, if_pos rfl, Workbench.parent?_add, if_pos rfl, Workbench.children_add,
    h.scaffolded.ordered.children_size]
  cases part <;> rfl

theorem mirrors_openPart (h : a.Sound) (mirrors : stack.Mirrors a) {part : Part} {frame : Frame}
    (new : (a.bench.add "" part (some a.current)).frame a.bench.size = frame) :
    (stack.push frame).Mirrors (a.openPart part) :=
  List.cons_eq_cons.mpr ⟨new.symm, mirrors.trans (map_frame_add h _).symm⟩

/-! ## Attaching a node -/

/-- An operation does to the stack of a run what it does on the workbench, and fails as it does
there. -/
def Agrees (op : Operation) (g : ObjectGraph) (run : Run) (fault? : Option Fault)
    (after : Assembly) : Prop :=
  op.perform.faultOn g run = fault? ∧ ((op.perform.runOn g run).2.stack).Mirrors after

variable (h : a.Sound) (mirrors : run.stack.Mirrors a)

include mirrors in
theorem agrees_discard : Agrees .discard g run a.discardFault? a.discard := by
  unfold Agrees RunM.faultOn discardFault? Operation.perform
  rw [RunM.runOn_bind]
  by_cases opened : a.opened = []
  · rw [RunM.runOn_discard_nothing (mirrors.frames_nil opened), ← discard_eq_self opened, opened]
    exact ⟨rfl, mirrors⟩
  · obtain ⟨below, pushed, closed⟩ := mirrors.exists_push opened
    rw [RunM.runOn_discard pushed, if_neg (by simpa using opened)]
    exact ⟨rfl, closed⟩

/-- Every level was made under another, or is a step. -/
theorem hasParent_frame {level : Nat} {part : Part} (found : a.bench.part? level = some part)
    (compound : part.isCompound = true) (made : (a.bench.parent? level).isSome = true) :
    (a.bench.frame level).hasParent = true := by
  unfold Workbench.frame
  rw [found]
  cases part with
  | group sign => exact made
  | path via => rfl
  | leaf | accepted => cases compound

include h mirrors in
theorem agrees_attach : Agrees .attach g run a.attachFault? a.attach := by
  unfold Agrees RunM.faultOn attachFault? Operation.perform
  rw [RunM.runOn_bind]
  -- Both ways of ending close the current node first and differ in what the level below answers.
  have closes (opened : a.opened ≠ []) : ∃ below : Stack, below.Mirrors a.discard ∧
      run.stack = below.push (a.bench.frame a.current) ∧
      (a.bench.frame a.current).hasParent = true ∧
      (a.bench.frame a.current).node = a.bench.contents a.current := by
    obtain ⟨below, pushed, closed⟩ := mirrors.exists_push opened
    obtain ⟨part, found, compound⟩ := h.compound_current
    obtain ⟨rest, levels, -⟩ := levels_eq_of_opened opened
    have made : a.bench.parent? a.current = some a.outer := (levels ▸ h.scaffolded).parent?_eq
    exact ⟨below, closed, pushed, hasParent_frame found compound (Option.isSome_of_eq_some made),
      Workbench.node_frame h.scaffolded.ordered found compound⟩
  have attached := h.attached
  generalize a.attach = after at attached
  cases attached with
  | nothingOpen opened =>
    rw [RunM.runOn_attach_nothing (mirrors.frames_nil opened), opened]
    exact ⟨rfl, mirrors⟩
  | @refused via opened step held =>
    obtain ⟨below, closed, pushed, parent, node⟩ := closes opened
    obtain ⟨rest, -, stays⟩ := levels_eq_of_opened opened
    have levels : below.levels = a.bench.frame a.outer :: rest.map a.bench.frame :=
      closed.trans (congrArg (List.map a.bench.frame) stays)
    have full : a.bench.accepts a.outer = false := by simpa [Workbench.accepts, step] using held
    rw [RunM.runOn_attach_add pushed parent, node,
      Stack.add_refused levels (Workbench.frame_refuses step held _), full,
      if_neg (by simpa using opened)]
    exact ⟨rfl, closed⟩
  | @taken bench opened accepted taken =>
    obtain ⟨below, closed, pushed, parent, node⟩ := closes opened
    obtain ⟨rest, current, stays⟩ := levels_eq_of_opened opened
    have levels : below.levels = a.bench.frame a.outer :: rest.map a.bench.frame :=
      closed.trans (congrArg (List.map a.bench.frame) stays)
    have scaffolded : a.bench.Scaffolded (a.current :: a.outer :: rest) := current ▸ h.scaffolded
    obtain ⟨stack, added, grown⟩ :=
      Stack.levels_add levels (Workbench.add_frame scaffolded accepted taken)
    have others : rest.map a.bench.frame = rest.map bench.frame :=
      List.map_congr_left fun level member => (Workbench.frame_taken scaffolded taken member).symm
    rw [RunM.runOn_attach_add pushed parent, node, added, accepted, if_neg (by simpa using opened)]
    refine ⟨rfl, grown.trans ?_⟩
    change _ = (a.opened.tail ++ [0]).map bench.frame
    rw [stays, others]
    rfl

/-! ## Recording a leaf -/

include h mirrors in
theorem agrees_record (leaf : Leaf) :
    Agrees (.record leaf) g run (a.fault? (.record leaf)) (a.record leaf) := by
  unfold Agrees RunM.faultOn fault? Operation.perform isInGroup
  have current := mirrors.current
  have recorded := h.recorded leaf
  generalize a.record leaf = after at recorded
  cases recorded with
  | @refused via here =>
    have refused : run.stack.record leaf = .error .leafOnPath := by
      rw [Stack.record_eq, current, Workbench.frame, here]
    rw [RunM.runOn_record_error refused, here]
    exact ⟨rfl, mirrors⟩
  | @taken sign bench here taken =>
    obtain ⟨rest, levels⟩ := a.levels_eq
    obtain ⟨scaffolded, alone, made, -, accepted⟩ := h.scaffolded_leaf leaf here levels
    have present := h.scaffolded.present a.current (levels ▸ List.mem_cons_self)
    rw [← alone] at taken
    have leafAt : (a.bench.add "" (.leaf leaf) (some a.current)).contents a.bench.size =
        .leaf leaf := Workbench.tree_leaf scaffolded.ordered made
    have added := Workbench.add_frame scaffolded accepted taken
    rw [leafAt, Workbench.frame_add h.scaffolded.ordered _ _ present] at added
    obtain ⟨stack, grows, grown⟩ :=
      Stack.levels_add (mirrors.trans (congrArg (List.map _) levels)) added
    have takes : run.stack.record leaf = .ok stack := by
      rw [Stack.record_eq, current, Workbench.frame, here]
      exact grows
    obtain ⟨after, ran, stacked⟩ := RunM.runOn_record_ok (g := g) takes
    have others : rest.map a.bench.frame = rest.map bench.frame :=
      List.map_congr_left fun level member => by
        rw [Workbench.frame_taken scaffolded taken member,
          Workbench.frame_add h.scaffolded.ordered _ _
            (h.scaffolded.present level (levels ▸ List.mem_cons_of_mem _ member))]
    rw [ran, here]
    refine ⟨rfl, ?_⟩
    change after.stack.levels = a.levels.map bench.frame
    rw [stacked, grown, levels, others]
    rfl

/-! ## Every operation -/

include h mirrors in
theorem closing_eq (valid keepWarnings : Bool) :
    Operation.closing run.stack valid keepWarnings =
      if a.keeps valid keepWarnings then .attach else .discard := by
  unfold Operation.closing Operation.holdsLeaf keeps
  rw [mirrors.frames_eq]
  cases opened : a.opened with
  | nil => rfl
  | cons node below =>
    obtain ⟨part, found, compound⟩ := h.compound node (by simp [levels, opened])
    simp only [List.map_cons]
    rw [Workbench.node_frame h.scaffolded.ordered found compound, Workbench.leaves_contents,
      List.isEmpty_map]

include h mirrors in
theorem agrees_step (op : Operation) : Agrees op g run (a.fault? op) (a.step op) := by
  cases op with
  | openGroup sign => exact ⟨rfl, mirrors_openPart h mirrors (frame_new h (.group sign))⟩
  | openPath via => exact ⟨rfl, mirrors_openPart h mirrors (frame_new h (.path via))⟩
  | record leaf => exact agrees_record h mirrors leaf
  | discard => exact agrees_discard mirrors
  | attach => exact agrees_attach h mirrors
  | close valid keepWarnings =>
    unfold Agrees RunM.faultOn
    rw [Operation.runOn_close, closing_eq h mirrors, fault?, step]
    cases a.keeps valid keepWarnings with
    | true => exact agrees_attach h mirrors
    | false => exact agrees_discard mirrors
  | finish =>
    unfold Agrees RunM.faultOn fault? Operation.perform step RunM.finish
    rw [← mirrors.depth_eq]
    have empty : a.opened.isEmpty = run.stack.frames.isEmpty := by
      rw [mirrors.frames_eq, List.isEmpty_map]
    simp only [RunM.runOn_bind, RunM.runOn_get, empty]
    cases run.stack.frames.isEmpty with
    | true => exact ⟨rfl, mirrors⟩
    | false => exact ⟨rfl, mirrors⟩

/-- Whatever was performed, the run has on its stack what stands on the workbench. -/
theorem mirrors_performAll (ops : List Operation) : ∀ {a : Assembly} {run : Run}, a.Sound →
    run.stack.Mirrors a → ∃ after, (Operation.performAll ops).runOn g run = (.ok (), after) ∧
      after.stack.Mirrors (ops.foldl step a) ∧ (ops.foldl step a).Sound := by
  induction ops with
  | nil => exact fun h mirrors => ⟨_, rfl, mirrors, h⟩
  | cons op ops ih =>
    intro a run h mirrors
    obtain ⟨-, stepped⟩ := agrees_step (g := g) h mirrors op
    obtain ⟨after, ran, end_⟩ := ih (h.step op) stepped
    refine ⟨after, ?_, end_⟩
    rw [Operation.performAll, RunM.runOn_bind, RunM.runOn_tryCatch]
    rcases performed : op.perform.runOn g run with ⟨_ | _, next⟩ <;> rw [performed] at ran <;>
      exact ran

end Assembly

end PathRules
