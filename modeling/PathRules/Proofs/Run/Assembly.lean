import PathRules.Proofs.Outcome.Growth
import PathRules.Proofs.Run.Operations

/-!
# Operations on a workbench

The operations of a run are told once more for the nodes themselves: each is made on a workbench
under the current node and is attached to the parent that it was made under.  Whatever the
operations, the open nodes and the root stay scaffolded, they are what the run has on its stack,
and the faults of the next operation can be read off them.
-/

namespace PathRules

/-- A recorded leaf, and the nodes that were open then, innermost first. -/
structure LeafRecord where
  number : Nat
  leaf : Leaf
  within : List Nat

/-- The nodes that operations made, of which the first is the root, with the open ones innermost
first, the leaves that were recorded and the nodes that were attached. -/
structure Assembly where
  bench : Workbench := { pieces := [{ part := .path .this }] }
  opened : List Nat := []
  recordings : List LeafRecord := []
  attached : List Nat := []

namespace Assembly

/-- The open nodes and the root, innermost first. -/
def levels (a : Assembly) : List Nat := a.opened ++ [0]

def current (a : Assembly) : Nat := a.opened.headD 0

/-- The level below the current one. -/
def outer (a : Assembly) : Nat := a.opened.tail.headD 0

def isInGroup (a : Assembly) : Bool :=
  match a.bench.part? a.current with
  | some (.group _) => true
  | _ => false

def openPart (a : Assembly) (part : Part) : Assembly :=
  { a with
    bench := a.bench.add "" part (some a.current)
    opened := a.bench.size :: a.opened }

/-- Makes a leaf and attaches it to the current node. -/
def record (a : Assembly) (leaf : Leaf) : Assembly :=
  if a.isInGroup then
    match (a.bench.add "" (.leaf leaf) (some a.current)).attach a.current a.bench.size with
    | .ok bench =>
        { a with bench, recordings := a.recordings ++ [⟨a.bench.size, leaf, a.opened⟩] }
    | .error _ => a
  else a

def discard (a : Assembly) : Assembly := { a with opened := a.opened.tail }

/-- Closes the current node and attaches it to its parent. -/
def attach (a : Assembly) : Assembly :=
  match a.opened with
  | [] => a
  | node :: below =>
      match (a.bench.parent? node).map (a.bench.attach · node) with
      | some (.ok bench) => { a with bench, opened := below, attached := node :: a.attached }
      | _ => { a with opened := below }

/-- Whether a node that is closed so is attached. -/
def keeps (a : Assembly) (valid keepWarnings : Bool) : Bool :=
  !valid || (keepWarnings && match a.opened with
    | node :: _ => !(a.bench.leaves node).isEmpty
    | [] => false)

def step (a : Assembly) : Operation → Assembly
  | .openGroup sign => a.openPart (.group sign)
  | .openPath via => a.openPart (.path via)
  | .record leaf => a.record leaf
  | .discard => a.discard
  | .attach => a.attach
  | .close valid keepWarnings => if a.keeps valid keepWarnings then a.attach else a.discard
  | .finish => a

/-- What is made from nothing. -/
def ofAll (ops : List Operation) : Assembly := ops.foldl step {}

def discardFault? (a : Assembly) : Option Fault :=
  if a.opened.isEmpty then some .nothingOpen else none

def attachFault? (a : Assembly) : Option Fault :=
  if a.opened.isEmpty then some .nothingOpen
  else if a.bench.accepts a.outer then none
  else some .secondChild

/-- The fault of the next operation. -/
def fault? (a : Assembly) : Operation → Option Fault
  | .openGroup _ | .openPath _ => none
  | .record _ => if a.isInGroup then none else some .leafOnPath
  | .discard => a.discardFault?
  | .attach => a.attachFault?
  | .close valid keepWarnings =>
      if a.keeps valid keepWarnings then a.attachFault? else a.discardFault?
  | .finish => if a.opened.isEmpty then none else some (.stillOpen a.opened.length)

variable {a after : Assembly} {leaf : Leaf}

/-- All levels are steps or groups and scaffolded, the last one is a step without parent. -/
structure Sound (a : Assembly) : Prop where
  scaffolded : a.bench.Scaffolded a.levels
  compound : ∀ level ∈ a.levels, ∃ part, a.bench.part? level = some part ∧ part.isCompound = true
  root : a.bench.part? 0 = some (.path .this) ∧ a.bench.parent? 0 = none

theorem zero_mem_levels (a : Assembly) : 0 ∈ a.levels :=
  List.mem_append_right _ (List.mem_singleton_self 0)

theorem levels_eq (a : Assembly) : ∃ rest, a.levels = a.current :: rest := by
  unfold levels current
  cases a.opened with
  | nil => exact ⟨[], rfl⟩
  | cons node below => exact ⟨below ++ [0], rfl⟩

/-- The level that stays when the current node is closed, and those below. -/
theorem levels_eq_of_opened (h : a.opened ≠ []) :
    ∃ rest, a.levels = a.current :: a.outer :: rest ∧ a.opened.tail ++ [0] = a.outer :: rest := by
  unfold levels current outer
  rcases opened : a.opened with _ | ⟨node, _ | ⟨next, below⟩⟩
  · exact absurd opened h
  · exact ⟨[], rfl, rfl⟩
  · exact ⟨below ++ [0], rfl, rfl⟩

theorem discard_eq_self (h : a.opened = []) : a = a.discard := by
  rcases a with ⟨bench, _ | ⟨node, below⟩, recordings, attached⟩
  · rfl
  · cases h

/-! ## What an operation does -/

/-- The ways in which recording a leaf can end. -/
inductive Recorded (a : Assembly) (leaf : Leaf) : Assembly → Prop
  | refused {via : Via} : a.bench.part? a.current = some (.path via) → Recorded a leaf a
  | taken {sign : Sign} {bench : Workbench} : a.bench.part? a.current = some (.group sign) →
      Workbench.Takes (a.bench.add "" (.leaf leaf) (some a.current)) a.current [a.bench.size] bench →
      Recorded a leaf
        { a with bench, recordings := a.recordings ++ [⟨a.bench.size, leaf, a.opened⟩] }

/-- The ways in which attaching the current node can end. -/
inductive Attached (a : Assembly) : Assembly → Prop
  | nothingOpen : a.opened = [] → Attached a a
  | refused {via : Via} : a.opened ≠ [] → a.bench.part? a.outer = some (.path via) →
      a.bench.children a.outer ≠ [] → Attached a a.discard
  | taken {bench : Workbench} : a.opened ≠ [] → a.bench.accepts a.outer = true →
      Workbench.Takes a.bench a.outer (a.bench.handed a.outer a.current) bench →
      Attached a { a.discard with bench, attached := a.current :: a.attached }

namespace Sound

theorem compound_current (h : a.Sound) :
    ∃ part, a.bench.part? a.current = some part ∧ part.isCompound = true := by
  obtain ⟨rest, levels⟩ := a.levels_eq
  exact h.compound a.current (levels ▸ List.mem_cons_self)

theorem compound_outer (h : a.Sound) (opened : a.opened ≠ []) :
    ∃ part, a.bench.part? a.outer = some part ∧ part.isCompound = true := by
  obtain ⟨rest, levels, -⟩ := levels_eq_of_opened opened
  exact h.compound a.outer (levels ▸ List.mem_cons_of_mem _ List.mem_cons_self)

/-- A leaf that is made under a group is scaffolded there, and it is taken over alone. -/
theorem scaffolded_leaf (h : a.Sound) (leaf : Leaf) {sign : Sign}
    (here : a.bench.part? a.current = some (.group sign)) {rest : List Nat}
    (levels : a.levels = a.current :: rest) :
    let bench := a.bench.add "" (.leaf leaf) (some a.current)
    bench.Scaffolded (a.bench.size :: a.current :: rest) ∧
      bench.handed a.current a.bench.size = [a.bench.size] ∧
      bench.part? a.bench.size = some (.leaf leaf) ∧
      bench.part? a.current = some (.group sign) ∧ bench.accepts a.current = true := by
  have scaffolded : a.bench.Scaffolded (a.current :: rest) := levels ▸ h.scaffolded
  have older := scaffolded.present a.current List.mem_cons_self
  have made : (a.bench.add "" (.leaf leaf) (some a.current)).part? a.bench.size =
      some (.leaf leaf) := by rw [Workbench.part?_add, if_pos rfl]
  have same : (a.bench.add "" (.leaf leaf) (some a.current)).part? a.current =
      some (.group sign) := by rw [Workbench.part?_add, if_neg older.ne, here]
  refine ⟨scaffolded.add _, ?_, made, same, ?_⟩
  · rw [Workbench.handed, same, made]
  · rw [Workbench.accepts, same]

theorem recorded (h : a.Sound) (leaf : Leaf) : a.Recorded leaf (a.record leaf) := by
  obtain ⟨part, found, compound⟩ := h.compound_current
  unfold record isInGroup
  rw [found]
  cases part with
  | path via => exact .refused found
  | group sign =>
    obtain ⟨rest, levels⟩ := a.levels_eq
    obtain ⟨scaffolded, alone, -, -, accepted⟩ := h.scaffolded_leaf leaf found levels
    obtain ⟨bench, attached, taken⟩ := Workbench.attach_accepted accepted scaffolded.parent?_eq
      fun node member => (scaffolded.ordered _ node member).2
    simp only [if_true, attached]
    exact .taken found (alone ▸ taken)
  | leaf | accepted => cases compound

theorem attached (h : a.Sound) : a.Attached a.attach := by
  by_cases opened : a.opened = []
  · have stays : a.attach = a := by rw [attach, opened]
    exact stays.symm ▸ .nothingOpen opened
  obtain ⟨rest, levels, -⟩ := levels_eq_of_opened opened
  have scaffolded := levels ▸ h.scaffolded
  have made : a.bench.parent? a.current = some a.outer := scaffolded.parent?_eq
  obtain ⟨part, found, compound⟩ := h.compound_outer opened
  have closed : a.attach = match a.bench.attach a.outer a.current with
      | .ok bench => { a.discard with bench, attached := a.current :: a.attached }
      | .error _ => a.discard := by
    unfold attach discard
    unfold current at made ⊢
    split
    · next nothing => exact absurd nothing opened
    · next node below here =>
      simp only [here, List.headD_cons, List.tail_cons] at made ⊢
      rw [made, Option.map_some]
      cases a.bench.attach a.outer node <;> rfl
  rw [closed]
  cases accepted : a.bench.accepts a.outer with
  | true =>
    obtain ⟨bench, attached, taken⟩ := Workbench.attach_accepted accepted made
      fun node member => (h.scaffolded.ordered _ node member).2
    rw [attached]
    exact .taken opened accepted taken
  | false =>
    have full : ∃ via, a.bench.part? a.outer = some (.path via) ∧ a.bench.children a.outer ≠ [] := by
      rw [Workbench.accepts, found] at accepted
      cases part with
      | path via => exact ⟨via, found, by simpa using accepted⟩
      | group sign => cases accepted
      | leaf | accepted => cases compound
    obtain ⟨via, step, held⟩ := full
    rw [Workbench.attach_refused step held (scaffolded.present _ List.mem_cons_self)]
    exact .refused opened step held

end Sound

/-! ## All levels stay scaffolded -/

theorem sound_empty : ({} : Assembly).Sound := by
  have alone : ∀ number, ({} : Assembly).bench.children number = [] := by
    rintro (_ | number) <;> rfl
  refine ⟨⟨?_, ?_, ?_, ?_, ?_, ?_, ?_⟩, ?_, rfl, rfl⟩
  · simp [Workbench.Ordered, alone]
  · simp [levels, Workbench.size]
  · simp [levels]
  · simp [levels]
  · simp [alone]
  · simp [alone]
  · simp [alone]
  · simp [levels, Workbench.part?, Part.isCompound]

namespace Sound

theorem openPart (h : a.Sound) {part : Part} (compound : part.isCompound = true) :
    (a.openPart part).Sound := by
  obtain ⟨rest, levels⟩ := a.levels_eq
  have scaffolded : a.bench.Scaffolded (a.current :: rest) := levels ▸ h.scaffolded
  have old := (h.scaffolded.present 0 a.zero_mem_levels).ne
  refine ⟨?_, fun level member => ?_, ?_, ?_⟩
  · change (a.bench.add "" part (some a.current)).Scaffolded (a.bench.size :: a.levels)
    rw [levels]
    exact scaffolded.add part
  · change ∃ found, (a.bench.add "" part (some a.current)).part? level = some found ∧ _
    rw [Workbench.part?_add]
    rcases List.mem_cons.mp member with rfl | member
    · exact ⟨part, if_pos rfl, compound⟩
    · rw [if_neg (h.scaffolded.present level member).ne]
      exact h.compound level member
  · exact (Workbench.part?_add ..).trans ((if_neg old).trans h.root.1)
  · exact (Workbench.parent?_add ..).trans ((if_neg old).trans h.root.2)

theorem discard (h : a.Sound) : a.discard.Sound := by
  by_cases opened : a.opened = []
  · exact discard_eq_self opened ▸ h
  obtain ⟨rest, levels, below⟩ := levels_eq_of_opened opened
  have closed : a.discard.levels = a.outer :: rest := below
  have scaffolded : a.bench.Scaffolded (a.current :: a.outer :: rest) := levels ▸ h.scaffolded
  refine ⟨closed ▸ scaffolded.drop, fun level member => ?_, h.root⟩
  rw [closed] at member
  exact h.compound level (levels ▸ List.mem_cons_of_mem _ member)

theorem of_recorded (h : a.Sound) (recorded : a.Recorded leaf after) : after.Sound := by
  cases recorded with
  | refused => exact h
  | @taken sign bench here taken =>
    obtain ⟨rest, levels⟩ := a.levels_eq
    obtain ⟨scaffolded, alone, made, same, accepted⟩ := h.scaffolded_leaf leaf here levels
    have old := (h.scaffolded.present 0 a.zero_mem_levels).ne
    refine ⟨?_, fun level member => ?_, ?_, ?_⟩
    · change bench.Scaffolded a.levels
      rw [levels]
      exact scaffolded.attach same made rfl accepted (alone.symm ▸ taken)
    · obtain ⟨part, found, compound⟩ := h.compound level member
      refine ⟨part, ?_, compound⟩
      rw [taken.part?_eq, Workbench.part?_add, if_neg (h.scaffolded.present level member).ne, found]
    · rw [taken.part?_eq, Workbench.part?_add, if_neg old, h.root.1]
    · rw [taken.parent?_eq, if_neg (by simpa using old), Workbench.parent?_add, if_neg old, h.root.2]

theorem of_attached (h : a.Sound) (attached : a.Attached after) : after.Sound := by
  cases attached with
  | nothingOpen => exact h
  | refused => exact h.discard
  | @taken bench opened accepted taken =>
    obtain ⟨rest, levels, below⟩ := levels_eq_of_opened opened
    obtain ⟨above, aboveAt, takes⟩ := h.compound_outer opened
    obtain ⟨part, partAt, compound⟩ := h.compound_current
    have scaffolded : a.bench.Scaffolded (a.current :: a.outer :: rest) := levels ▸ h.scaffolded
    have stays : 0 ∈ a.outer :: rest := below ▸ a.discard.zero_mem_levels
    refine ⟨?_, fun level member => ?_, (taken.part?_eq 0).trans h.root.1, ?_⟩
    · change bench.Scaffolded (a.opened.tail ++ [0])
      rw [below]
      exact scaffolded.attach aboveAt partAt (Part.takes_of_compound takes compound) accepted taken
    · obtain ⟨part, found, compound⟩ := h.discard.compound level member
      exact ⟨part, (taken.part?_eq level).trans found, compound⟩
    · rw [taken.parent?_eq, if_neg (scaffolded.not_mem_handed 0 stays), h.root.2]

/-- Every operation keeps the levels scaffolded. -/
theorem step (h : a.Sound) : (op : Operation) → (a.step op).Sound
  | .openGroup _ => h.openPart rfl
  | .openPath _ => h.openPart rfl
  | .record leaf => h.of_recorded (h.recorded leaf)
  | .discard => h.discard
  | .attach => h.of_attached h.attached
  | .close valid keepWarnings => by
    change (if a.keeps valid keepWarnings then a.attach else a.discard).Sound
    split
    · exact h.of_attached h.attached
    · exact h.discard
  | .finish => h

end Sound

end Assembly

end PathRules
