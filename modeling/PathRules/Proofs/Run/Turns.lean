import PathRules.Proofs.Run.Lockstep
import PathRules.Proofs.Trace.Leaves

/-!
# Evaluations in turns

An evaluation takes turns if it consists of others that are evaluated one after the other, each
in a group that is open at the place of the turn.  Between turns nodes are opened and closed, and
nothing else happens.  `Turns` tells how a sequence of turns went, `TakesTurns` that an evaluation
is one and comes out as its turns do.
-/

namespace PathRules

/-- A value that is checked with a validation at a place. -/
structure Turn where
  rule : Validation
  value : Value
  place : DataPath

/-- A turn for each rule, at the same place. -/
def Turn.each (rules : List Validation) (v : Value) (place : DataPath) : List Turn :=
  rules.map (⟨·, v, place⟩)

/-- How a sequence of turns ended. -/
inductive Ending
  /-- All turns were taken. -/
  | complete (passed : Bool) (leaves : List Placed)
  /-- A turn raised a fault, or without one did not leave the open nodes as it found them. -/
  | stopped (turn : Turn) (fault : Option Fault)

namespace Ending

/-- The ending with what came of turns that were taken before. -/
def since (passed : Bool) (leaves : List Placed) : Ending → Ending
  | complete others more => complete (passed && others) (leaves ++ more)
  | stopped turn fault => stopped turn fault

theorem since_since (passed passed' : Bool) (leaves leaves' : List Placed) (ending : Ending) :
    (ending.since passed' leaves').since passed leaves =
      ending.since (passed && passed') (leaves ++ leaves') := by
  cases ending <;> simp [since, Bool.and_assoc]

end Ending

/-- The leaves of nodes that stand at a place. -/
def Node.leavesAt (place : DataPath) (nodes : List (Node Leaf)) : List Placed :=
  leavesOf (placedAll place nodes)

/-- Turns from one run to another, both up to their stacks: each turn begins in the run that the
turn before left, in a group of which all have to pass. -/
inductive Turns (g : ObjectGraph) (expand : Expand) : List Turn → Run → Ending → Run → Prop
  | done (run : Run) (stack : Stack) : Turns g expand [] run (.complete true []) { run with stack }
  | taken {turn : Turn} {turns : List Turn} {run mid after : Run} {below : Stack}
      {children nodes : List (Node Leaf)} {passed : Bool} {ending : Ending} :
      below.place = turn.place →
      (turn.rule.evaluate expand turn.value).runOn g
          { run with stack := below.push (.group .all true children) } =
        (.ok passed, { mid with stack := below.push (.group .all true (children ++ nodes)) }) →
      Turns g expand turns mid ending after →
      Turns g expand (turn :: turns) run (ending.since passed (Node.leavesAt turn.place nodes))
        after
  | raised {turn : Turn} {turns : List Turn} {run after : Run} {below : Stack}
      {children : List (Node Leaf)} {fault : Fault} :
      below.place = turn.place →
      (turn.rule.evaluate expand turn.value).runOn g
          { run with stack := below.push (.group .all true children) } = (.error fault, after) →
      Turns g expand (turn :: turns) run (.stopped turn (some fault)) after
  | disordered {turn : Turn} {turns : List Turn} {run after : Run} {below : Stack}
      {children : List (Node Leaf)} {passed : Bool} :
      below.place = turn.place →
      (turn.rule.evaluate expand turn.value).runOn g
          { run with stack := below.push (.group .all true children) } = (.ok passed, after) →
      (∀ nodes, after.stack ≠ below.push (.group .all true (children ++ nodes))) →
      Turns g expand (turn :: turns) run (.stopped turn none) after

/-- An evaluation from `run` comes out as turns did that ended in `after`.  If all were taken, it
has attached a node with the leaves that they left; if one raised a fault, so does it. -/
def Ending.Shows (g : ObjectGraph) (m : RunM Bool) (run after : Run) : Ending → Prop
  | complete passed leaves => ∃ node : Option (Node Leaf),
      m.runOn g run = (.ok passed, { after with stack := run.stack.receive node }) ∧
        Node.leavesAt run.stack.place node.toList = leaves
  | stopped _ (some fault) => m.runOn g run = (.error fault, after)
  | stopped _ none => True

/-- Turns that stopped are shown also by an evaluation that raises what another does. -/
theorem Ending.Shows.stopped {g : ObjectGraph} {m m' : RunM Bool} {run run' after : Run}
    {turn : Turn} {fault : Option Fault} (h : (stopped turn fault).Shows g m run after)
    (raises : ∀ f, m.runOn g run = (.error f, after) → m'.runOn g run' = (.error f, after)) :
    (stopped turn fault).Shows g m' run' after := by
  cases fault with
  | none => trivial
  | some fault => exact raises fault h

/-- From any run with a stack as said, an evaluation takes turns, which depend on the place. -/
def TakesTurns (g : ObjectGraph) (expand : Expand) (S : Stack → Prop)
    (turns : DataPath → List Turn) (m : RunM Bool) : Prop :=
  ∀ run, S run.stack → ∃ ending after,
    Turns g expand (turns run.stack.place) run ending after ∧ ending.Shows g m run after

/-- Wherever a group of which all have to pass is open, a validation returns and leaves the open
nodes as it found them, but for what it attaches to the group. -/
def Validation.Returns (g : ObjectGraph) (expand : Expand) (rule : Validation) (v : Value) : Prop :=
  ∀ (run : Run) (below : Stack) (children : List (Node Leaf)), ∃ passed nodes after,
    (rule.evaluate expand v).runOn g
        { run with stack := below.push (.group .all true children) } = (.ok passed, after) ∧
      after.stack = below.push (.group .all true (children ++ nodes))

/-- A group of which all have to pass is open. -/
def Stack.InGroup (stack : Stack) : Prop :=
  ∃ below children, stack = Stack.push below (.group .all true children)

namespace Stack.InGroup

variable {stack : Stack}

theorem isOpen (h : stack.InGroup) : stack.isOpen = true := by
  obtain ⟨below, children, rfl⟩ := h
  rfl

theorem receive (h : stack.InGroup) (node : Option (Node Leaf)) : (stack.receive node).InGroup := by
  obtain ⟨below, children, rfl⟩ := h
  exact ⟨below, _, Stack.receive_push_group ..⟩

theorem place_receive (h : stack.InGroup) (node : Option (Node Leaf)) :
    (stack.receive node).place = stack.place := by
  obtain ⟨below, children, rfl⟩ := h
  rw [Stack.receive_push_group, place_push_group, place_push_group]

/-- In a group two nodes are received as one group of what both hand over. -/
theorem receive_receive (h : stack.InGroup) (node node' : Option (Node Leaf)) :
    (stack.receive node).receive node' = stack.receive (some (.group .all
      (node.toList.flatMap (·.splicedInto .all) ++ node'.toList.flatMap (·.splicedInto .all)))) := by
  obtain ⟨below, children, rfl⟩ := h
  simp [Node.splicedInto]

end Stack.InGroup

namespace Node

variable {place : DataPath}

@[simp] theorem leavesAt_append (nodes more : List (Node Leaf)) :
    leavesAt place (nodes ++ more) = leavesAt place nodes ++ leavesAt place more := by
  simp [leavesAt]

@[simp] theorem leavesAt_group (sign : Sign) (nodes : List (Node Leaf)) :
    leavesAt place [.group sign nodes] = leavesAt place nodes := by
  simp [leavesAt, placedAll, placed, leavesOf, leaves]

theorem leavesAt_received (sign : Sign) (node : Option (Node Leaf)) :
    leavesAt place (node.toList.flatMap (·.splicedInto sign)) = leavesAt place node.toList := by
  cases node with
  | none => rfl
  | some node => simp [leavesAt, leaves_splicedInto, placedAll, leavesOf]

end Node

namespace Turns

variable {g : ObjectGraph} {expand : Expand} {turns more : List Turn} {run mid after : Run}
  {ending : Ending}

/-- The stack of the run does not matter to the turns that are taken from it. -/
theorem of_stack {stack : Stack} (h : Turns g expand turns { run with stack } ending after) :
    Turns g expand turns run ending after := by
  cases h with
  | done _ stack => exact .done run stack
  | taken at_ ran rest => exact .taken at_ ran rest
  | raised at_ ran => exact .raised at_ ran
  | disordered at_ ran kept => exact .disordered at_ ran kept

/-- More turns after turns that were all taken. -/
theorem append {passed : Bool} {leaves : List Placed}
    (h : Turns g expand turns run (.complete passed leaves) mid)
    (rest : Turns g expand more mid ending after) :
    Turns g expand (turns ++ more) run (ending.since passed leaves) after := by
  generalize complete : Ending.complete passed leaves = first at h
  induction h generalizing passed leaves with
  | done run stack =>
    cases complete
    have same : ending.since true [] = ending := by cases ending <;> rfl
    rw [same]
    exact rest.of_stack
  | @taken _ _ _ _ _ _ _ _ _ first at_ ran _ ih =>
    cases first with
    | stopped => cases complete
    | complete others left =>
      cases complete
      rw [← Ending.since_since]
      exact .taken at_ ran (ih rest rfl)
  | raised => cases complete
  | disordered => cases complete

/-- No more turns after one that stopped. -/
theorem append_stopped {turn : Turn} {fault : Option Fault}
    (h : Turns g expand turns run (.stopped turn fault) after) :
    Turns g expand (turns ++ more) run (.stopped turn fault) after := by
  generalize stopped : Ending.stopped turn fault = ending at h
  induction h with
  | done => cases stopped
  | @taken _ _ _ _ _ _ _ _ _ rest at_ ran _ ih =>
    cases rest with
    | complete => cases stopped
    | stopped _ _ =>
      cases stopped
      exact .taken at_ ran (ih rfl)
  | raised at_ ran =>
    cases stopped
    exact .raised at_ ran
  | disordered at_ ran kept =>
    cases stopped
    exact .disordered at_ ran kept

/-- Only a turn that does not return stops the others. -/
theorem stopped {turn : Turn} {fault : Option Fault}
    (h : Turns g expand turns run (.stopped turn fault) after) :
    turn ∈ turns ∧ ¬ turn.rule.Returns g expand turn.value := by
  generalize stops : Ending.stopped turn fault = ending at h
  induction h with
  | done => cases stops
  | @taken _ _ _ _ _ _ _ _ _ rest _ _ _ ih =>
    cases rest with
    | complete => cases stops
    | stopped _ _ =>
      cases stops
      exact ⟨List.mem_cons_of_mem _ (ih rfl).1, (ih rfl).2⟩
  | raised _ ran =>
    cases stops
    refine ⟨List.mem_cons_self, fun returns => ?_⟩
    obtain ⟨_, _, _, returned, -⟩ := returns _ _ _
    cases ran.symm.trans returned
  | disordered _ ran disordered =>
    cases stops
    refine ⟨List.mem_cons_self, fun returns => ?_⟩
    obtain ⟨_, nodes, _, returned, stack⟩ := returns _ _ _
    cases ran.symm.trans returned
    exact disordered nodes stack

end Turns

namespace Ending.Shows

variable {g : ObjectGraph} {ending : Ending} {run mid after : Run} {m m' : RunM Bool}

/-- What an ending shows depends on nothing but what the evaluation does from the run. -/
theorem congr (same : m.runOn g run = m'.runOn g run) (h : ending.Shows g m' run after) :
    ending.Shows g m run after := by
  unfold Ending.Shows at h ⊢
  rw [same]
  exact h

/-- After one evaluation in a group another one of which both have to pass. -/
theorem both {passed : Bool} {node : Option (Node Leaf)} (inGroup : run.stack.InGroup)
    (ran : m.runOn g run = (.ok passed, { mid with stack := run.stack.receive node }))
    (h : ending.Shows g m' { mid with stack := run.stack.receive node } after) :
    (ending.since passed (Node.leavesAt run.stack.place node.toList)).Shows g
      (do let passed ← m; (passed && ·) <$> m') run after := by
  cases ending with
  | stopped turn fault =>
    refine h.stopped fun f ran' => ?_
    rw [RunM.runOn_bind, ran]
    dsimp only
    rw [RunM.runOn_map, ran']
  | complete passed' leaves' =>
    obtain ⟨node', ran', left'⟩ := h
    dsimp only at ran' left'
    rw [inGroup.receive_receive] at ran'
    refine ⟨some (.group .all (node.toList.flatMap (·.splicedInto .all) ++
      node'.toList.flatMap (·.splicedInto .all))), ?_, ?_⟩
    · rw [RunM.runOn_bind, ran]
      dsimp only
      rw [RunM.runOn_map, ran']
    · rw [inGroup.place_receive] at left'
      rw [Option.toList_some, Node.leavesAt_group, Node.leavesAt_append, Node.leavesAt_received,
        Node.leavesAt_received, left']

/-- What an evaluation left in a node that is open when it is closed. -/
theorem enclosed {frame : Frame} {place : DataPath} (isOpen : run.stack.isOpen = true)
    (at_ : (run.stack.push frame).place = place)
    (holds : ∀ node, ∃ filled, (run.stack.push frame).receive node = run.stack.push filled ∧
      filled.hasParent = true ∧
      (filled.node.placed run.stack.place).leaves = Node.leavesAt place node.toList)
    (h : ending.Shows g m { run with stack := run.stack.push frame } after) :
    ending.Shows g (do RunM.modifyStack (·.push frame); let valid ← m; RunM.close valid true)
      run after := by
  cases ending with
  | stopped turn fault =>
    refine h.stopped fun f ran => ?_
    rw [RunM.runOn_bind, RunM.runOn_modifyStack]
    dsimp only
    rw [RunM.runOn_bind, ran]
  | complete passed leaves =>
    obtain ⟨node, ran, left⟩ := h
    obtain ⟨filled, received, parent, same⟩ := holds node
    refine ⟨filled.node.kept passed, ?_, ?_⟩
    · rw [RunM.runOn_bind, RunM.runOn_modifyStack]
      dsimp only
      rw [RunM.runOn_bind, ran]
      exact RunM.runOn_close_keeping passed received parent isOpen
    · dsimp only at left
      rw [at_] at left
      rw [Node.leavesAt, Node.leaves_kept, same, left]

/-- What is attached to an open group is there when the group is closed. -/
theorem group (isOpen : run.stack.isOpen = true)
    (h : ending.Shows g m { run with stack := run.stack.push (.group .all true []) } after) :
    ending.Shows g (do RunM.openGroup .all; let valid ← m; RunM.close valid true) run after := by
  refine enclosed isOpen (Stack.place_push_group ..) (fun node => ?_) h
  refine ⟨_, Stack.receive_push_group .., rfl, ?_⟩
  rw [List.nil_append, ← Node.leavesAt_received .all]
  rfl

end Ending.Shows

namespace TakesTurns

variable {g : ObjectGraph} {expand : Expand} {S : Stack → Prop} {turns more : DataPath → List Turn}
  {m m' : RunM Bool}

theorem inGroup (h : TakesTurns g expand (·.isOpen = true) turns m) :
    TakesTurns g expand Stack.InGroup turns m := fun run inGroup => h run inGroup.isOpen

theorem of_pure : TakesTurns g expand S (fun _ => []) (pure true) := fun run _ =>
  ⟨_, _, .done run run.stack, none, by simp, rfl⟩

/-- An evaluation in a group is a turn. -/
theorem one (rule : Validation) (v : Value) :
    TakesTurns g expand Stack.InGroup (fun place => [⟨rule, v, place⟩])
      (rule.evaluate expand v) := by
  intro run inGroup
  obtain ⟨below, children, onTop⟩ := inGroup
  have begun : { run with stack := below.push (.group .all true children) } = run := by rw [← onTop]
  have place : below.place = run.stack.place := by rw [onTop, Stack.place_push_group]
  rcases ran : (rule.evaluate expand v).runOn g run with ⟨fault | passed, after⟩
  · exact ⟨_, _, .raised place (begun.symm ▸ ran), ran⟩
  · by_cases kept : ∃ nodes, after.stack = below.push (.group .all true (children ++ nodes))
    · obtain ⟨nodes, stack⟩ := kept
      have same : { after with stack := below.push (.group .all true (children ++ nodes)) } =
          after := by
        rw [← stack]
      have answered : (rule.evaluate expand v).runOn g
          { run with stack := below.push (.group .all true children) } =
          (.ok passed,
            { after with stack := below.push (.group .all true (children ++ nodes)) }) := by
        rw [begun, same, ran]
      refine ⟨_, _, .taken place answered (.done after after.stack), some (.group .all nodes),
        ?_, ?_⟩
      · rw [ran, Bool.and_true, onTop, Stack.receive_push_group, ← same]
        simp [Node.splicedInto]
      · simp
    · exact ⟨_, _, .disordered place (begun.symm ▸ ran) (not_exists.mp kept), trivial⟩

/-- Two evaluations of which both have to pass. -/
theorem both (h : TakesTurns g expand Stack.InGroup turns m)
    (h' : TakesTurns g expand Stack.InGroup more m') :
    TakesTurns g expand Stack.InGroup (fun place => turns place ++ more place)
      (do let passed ← m; (passed && ·) <$> m') := by
  intro run inGroup
  obtain ⟨ending, mid, first, shows⟩ := h run inGroup
  cases ending with
  | stopped turn fault =>
    refine ⟨_, _, first.append_stopped, shows.stopped fun f ran => ?_⟩
    rw [RunM.runOn_bind, ran]
  | complete passed leaves =>
    obtain ⟨node, ran, left⟩ := shows
    obtain ⟨ending', after, second, shows'⟩ :=
      h' { mid with stack := run.stack.receive node } (inGroup.receive node)
    dsimp only at second
    rw [inGroup.place_receive] at second
    exact ⟨_, _, first.append second.of_stack, left ▸ shows'.both inGroup ran⟩

/-- A node that is opened and closed again holds what turns left meanwhile. -/
theorem enclosed {frame : Frame} {at_ : DataPath → DataPath}
    (place : ∀ stack, (Stack.push stack frame).place = at_ stack.place)
    (holds : ∀ (stack : Stack) node, ∃ filled, (stack.push frame).receive node = stack.push filled ∧
      filled.hasParent = true ∧
      (filled.node.placed stack.place).leaves = Node.leavesAt (at_ stack.place) node.toList)
    (enters : ∀ stack, S (Stack.push stack frame)) (h : TakesTurns g expand S turns m) :
    TakesTurns g expand (·.isOpen = true) (fun place => turns (at_ place))
      (do RunM.modifyStack (·.push frame); let valid ← m; RunM.close valid true) := by
  intro run isOpen
  obtain ⟨ending, after, taken, shows⟩ := h { run with stack := run.stack.push frame } (enters _)
  dsimp only at taken
  rw [place] at taken
  exact ⟨ending, after, taken.of_stack, shows.enclosed isOpen (place _) (holds _)⟩

theorem group (h : TakesTurns g expand Stack.InGroup turns m) :
    TakesTurns g expand (·.isOpen = true) turns
      (do RunM.openGroup .all; let valid ← m; RunM.close valid true) := by
  intro run isOpen
  obtain ⟨ending, after, taken, shows⟩ :=
    h { run with stack := run.stack.push (.group .all true []) } ⟨_, _, rfl⟩
  dsimp only at taken
  rw [Stack.place_push_group] at taken
  exact ⟨ending, after, taken.of_stack, shows.group isOpen⟩

/-- What is checked under a step of its own is checked below it. -/
theorem descend {check : Value → RunM Bool} {part : Value} (target : Segment)
    (h : TakesTurns g expand (·.isOpen = true) turns (check part)) :
    TakesTurns g expand (·.isOpen = true) (fun place => turns (place.snoc target))
      (Validation.descend check target part) := by
  refine enclosed (fun _ => rfl) (fun stack node => ?_) (fun _ => rfl) h
  exact ⟨_, Stack.receive_push_path .., rfl, Node.leavesBelow_placedBelow ..⟩

theorem after_check {α : Type} {check : Check α} {a : α} {next : α → RunM Bool}
    (answers : ∀ store, check.runOn g store = (.ok a, store))
    (h : TakesTurns g expand S turns (next a)) :
    TakesTurns g expand S turns (RunM.ofCheck check >>= next) := by
  intro run onStack
  obtain ⟨ending, after, taken, shows⟩ := h run onStack
  refine ⟨ending, after, taken, shows.congr ?_⟩
  rw [RunM.runOn_bind, RunM.runOn_ofCheck, answers]

theorem after_read {next : ObjectGraph → RunM Bool} (h : TakesTurns g expand S turns (next g)) :
    TakesTurns g expand S turns (read >>= next) := h

variable {v part : Value}

/-- Validations one after the other, each with its turns. -/
theorem allOf (parts : List ((DataPath → List Turn) × Validation))
    (h : ∀ part ∈ parts, TakesTurns g expand Stack.InGroup part.1 (part.2.evaluate expand v)) :
    TakesTurns g expand Stack.InGroup (fun place => parts.flatMap (·.1 place))
      (Validation.allOf? expand false (parts.map (·.2)) v) := by
  induction parts with
  | nil => exact of_pure
  | cons part parts ih =>
    rw [List.map_cons, Validation.allOf_cons]
    simp only [List.flatMap_cons, Bool.false_and, Bool.false_eq_true, if_false, Sign.join_all]
    exact (h part List.mem_cons_self).both
      (ih fun other member => h other (List.mem_cons_of_mem part member))

theorem eachOf {ι : Type} {check : ι → RunM Bool} {turns : ι → DataPath → List Turn}
    (items : List ι) (h : ∀ a ∈ items, TakesTurns g expand Stack.InGroup (turns a) (check a)) :
    TakesTurns g expand Stack.InGroup (fun place => items.flatMap (turns · place))
      (Validation.eachOf check items) := by
  induction items with
  | nil => exact of_pure
  | cons a items ih =>
    have rest := ih fun b member => h b (List.mem_cons_of_mem a member)
    have one := (h a List.mem_cons_self).both rest
    simp only [map_eq_pure_bind] at one
    exact one

/-- A group without constraints of its own. -/
theorem object (parts : List ((DataPath → List Turn) × Validation))
    (h : ∀ part ∈ parts, TakesTurns g expand Stack.InGroup part.1 (part.2.evaluate expand v)) :
    TakesTurns g expand (·.isOpen = true) (fun place => parts.flatMap (·.1 place))
      ((Validation.object [] (parts.map (·.2)) false false).evaluate expand v) := by
  have whole (empty : Bool) : Validation.conclude .all empty true = id := by
    funext others
    exact Bool.true_and others
  rw [Validation.evaluate_all, Validation.groupOf]
  simp only [Validation.allConstraints, pure_bind, whole, id_map]
  exact group (allOf parts h)

/-- A validation alone in a group. -/
theorem alone {rule : Validation}
    (h : TakesTurns g expand Stack.InGroup turns (rule.evaluate expand v)) :
    TakesTurns g expand (·.isOpen = true) turns
      ((Validation.object [] [rule] false false).evaluate expand v) := by
  have whole := object [(turns, rule)] fun part only => by
    rw [List.mem_singleton.mp only]
    exact h
  simpa using whole

/-- A group of validations, each of which is a turn. -/
theorem rules (rules : List Validation) (v : Value) :
    TakesTurns g expand (·.isOpen = true) (Turn.each rules v)
      ((Validation.object [] rules false false).evaluate expand v) := by
  have each : ∀ part ∈ rules.map fun rule => (fun place => [Turn.mk rule v place], rule),
      TakesTurns g expand Stack.InGroup part.1 (part.2.evaluate expand v) := by
    intro part member
    obtain ⟨rule, -, rfl⟩ := List.mem_map.mp member
    exact one rule v
  have whole := object _ each
  simp only [List.map_map, Function.comp_def, List.map_id', List.flatMap_map,
    ← List.map_eq_flatMap] at whole
  exact whole

/-- A step that reads a part and checks it. -/
theorem step {target : Segment} {inner : Validation} (presence : Presence)
    (answers : ∀ store, (target.get v).runOn g store = (.ok part, store))
    (applies : presence = .undefined ∨ presence = .optional ∧ part ≠ .null)
    (h : TakesTurns g expand (·.isOpen = true) turns (inner.evaluate expand part)) :
    TakesTurns g expand (·.isOpen = true) (fun place => turns (place.snoc target))
      ((Validation.step presence [] target inner).evaluate expand v) := by
  rw [Validation.evaluate, Validation.guardsPass, pure_bind, if_pos rfl]
  refine after_check answers ?_
  rcases applies with rfl | ⟨rfl, present⟩
  · exact descend target h
  · cases part with
    | null => exact absurd rfl present
    | _ => exact descend target h

/-- A step that reads null where that is allowed takes no turns. -/
theorem step_null {target : Segment} {inner : Validation}
    (answers : ∀ store, (target.get v).runOn g store = (.ok .null, store)) :
    TakesTurns g expand (·.isOpen = true) (fun _ => [])
      ((Validation.step .optional [] target inner).evaluate expand v) := by
  rw [Validation.evaluate, Validation.guardsPass, pure_bind, if_pos rfl]
  exact after_check answers of_pure

/-- The elements of a collection, each below its index. -/
theorem elements {inner : Validation} {items : List Value} {turns : Value → DataPath → List Turn}
    (found : v.items? g = some items)
    (h : ∀ a, TakesTurns g expand (·.isOpen = true) (turns a) (inner.evaluate expand a)) :
    TakesTurns g expand (·.isOpen = true)
      (fun place => (Validation.numbered items).flatMap fun a =>
        turns a.2 (place.snoc (.ofIndex a.1)))
      ((Validation.elements (.iterated []) inner).evaluate expand v) := by
  have listed : ∀ number, v ≠ .source number := by
    rintro number rfl
    cases found
  rw [Validation.evaluate]
  refine group ?_
  rw [Validation.eachElement_iterated _ _ listed]
  refine after_read ?_
  rw [found]
  exact eachOf (Validation.numbered items) fun a _ => (descend _ (h a.2)).inGroup

end TakesTurns

end PathRules
