import Mathlib.Data.List.Basic
import PathRules.Outcome.Workbench

/-!
# Pieces of a workbench

A workbench is seen through three questions about the number of a node: its part, the parent
that it was made or moved under, and the nodes that it holds.  Each action on a workbench is said
by its answers to them.  Where every node comes before the nodes that it holds, they make up a
tree, which depends on nothing but the nodes in it.
-/

namespace PathRules

namespace Part

/-- Whether a node can hold others. -/
def isCompound : Part → Bool
  | .path _ | .group _ => true
  | .leaf _ | .accepted .. => false

/-- Whether a node may be attached to one that holds nothing: a step takes no leaf. -/
def takes : Part → Part → Bool
  | .path _, below => below.isCompound
  | .group _, .accepted .. => false
  | .group _, _ => true
  | .leaf _, _ | .accepted .., _ => false

/-- Whether a node may be held: a group of one sign is not held by another. -/
def admits (above below : Part) : Bool :=
  above.takes below &&
    match above, below with
    | .group sign, .group inner => inner != sign
    | _, _ => true

/-- What holds others is a step or a group, and what is held is not an accepted value. -/
theorem of_admits {above below : Part} (h : above.admits below = true) :
    above.isCompound = true ∧ ∀ value warnings, below ≠ .accepted value warnings := by
  cases above <;> cases below <;> simp_all [admits, takes, isCompound]

theorem takes_of_compound {above below : Part} (h : above.isCompound = true)
    (h' : below.isCompound = true) : above.takes below = true := by
  cases above <;> cases below <;> simp_all [takes, isCompound]

end Part

namespace Workbench

variable {bench : Workbench}

def size (bench : Workbench) : Nat := bench.pieces.length

def parent? (bench : Workbench) (number : Nat) : Option Nat :=
  (bench.pieces[number]?).bind (·.parent)

def children (bench : Workbench) (number : Nat) : List Nat :=
  ((bench.pieces[number]?).map (·.children)).getD []

theorem lt_size_of_part? {number : Nat} {part : Part} (h : bench.part? number = some part) :
    number < bench.size := by
  obtain ⟨piece, found, -⟩ := Option.map_eq_some_iff.mp h
  exact (List.getElem?_eq_some_iff.mp found).1

theorem exists_part?_of_lt {number : Nat} (h : number < bench.size) :
    ∃ part, bench.part? number = some part :=
  ⟨bench.pieces[number].part, by rw [part?, List.getElem?_eq_getElem h]; rfl⟩

/-! ## Making a node -/

section Add

variable (name : String) (part : Part) (parent : Option Nat) (number : Nat)

@[simp] theorem size_add : (bench.add name part parent).size = bench.size + 1 := by
  simp [size, add]

private theorem getElem?_add : (bench.add name part parent).pieces[number]? =
    if number = bench.size then some { part, parent } else bench.pieces[number]? := by
  simp only [add, size, List.getElem?_append]
  grind

theorem part?_add : (bench.add name part parent).part? number =
    if number = bench.size then some part else bench.part? number := by
  rw [part?, getElem?_add]
  split <;> rfl

theorem parent?_add : (bench.add name part parent).parent? number =
    if number = bench.size then parent else bench.parent? number := by
  rw [parent?, getElem?_add]
  split <;> rfl

/-- A new node holds nothing. -/
@[simp] theorem children_add : (bench.add name part parent).children number =
    bench.children number := by
  rw [children, getElem?_add]
  split
  · next here => simp [children, size, here]
  · rfl

end Add

/-! ## Attaching a node -/

/-- What a change of pieces keeps is read as before. -/
private theorem read_changed {β : Type} (read : Piece → β) (change : Piece → Piece)
    (keeps : ∀ piece, read (change piece) = read piece) (i j : Nat) :
    (read ∘ fun piece => if i = j then change piece else piece) = read := by
  funext piece
  simp only [Function.comp]
  split
  · exact keeps piece
  · rfl

section Adopt

variable (parent : Nat) (nodes : List Nat) (number : Nat)

theorem part?_adopt : (bench.adopt parent nodes).part? number = bench.part? number := by
  simp only [part?, adopt, List.getElem?_modify, Option.map_eq_map, Option.map_map]
  rw [read_changed]
  exact fun _ => rfl

theorem parent?_adopt : (bench.adopt parent nodes).parent? number = bench.parent? number := by
  simp only [parent?, adopt, List.getElem?_modify, Option.map_eq_map, Option.bind_map]
  rw [read_changed]
  exact fun _ => rfl

theorem children_adopt (h : parent < bench.size) : (bench.adopt parent nodes).children number =
    if number = parent then bench.children parent ++ nodes else bench.children number := by
  simp only [children, adopt, List.getElem?_modify, Option.map_eq_map, Option.map_map]
  split
  · next here =>
    subst here
    rw [List.getElem?_eq_getElem h]
    simp
  · next other => cases bench.pieces[number]? <;> simp [Ne.symm other]

end Adopt

section Move

variable (parent child number : Nat) (nodes : List Nat)

theorem size_moveUnder : (bench.moveUnder parent child).size = bench.size := by
  simp [size, moveUnder]

theorem part?_moveUnder : (bench.moveUnder parent child).part? number = bench.part? number := by
  simp only [part?, moveUnder, List.getElem?_modify, Option.map_eq_map, Option.map_map]
  rw [read_changed]
  exact fun _ => rfl

theorem children_moveUnder :
    (bench.moveUnder parent child).children number = bench.children number := by
  simp only [children, moveUnder, List.getElem?_modify, Option.map_eq_map, Option.map_map]
  rw [read_changed]
  exact fun _ => rfl

theorem parent?_moveUnder (h : child < bench.size) :
    (bench.moveUnder parent child).parent? number =
      if number = child then some parent else bench.parent? number := by
  simp only [parent?, moveUnder, List.getElem?_modify, Option.map_eq_map, Option.bind_map]
  split
  · next here =>
    subst here
    rw [List.getElem?_eq_getElem h]
    simp
  · next other => cases bench.pieces[number]? <;> simp [Ne.symm other]

end Move

/-- `after` is the workbench once `parent` took over `nodes`. -/
structure Takes (bench : Workbench) (parent : Nat) (nodes : List Nat) (after : Workbench) :
    Prop where
  size_eq : after.size = bench.size
  part?_eq : ∀ number, after.part? number = bench.part? number
  parent?_eq : ∀ number,
    after.parent? number = if number ∈ nodes then some parent else bench.parent? number
  children_eq : ∀ number, after.children number =
    if number = parent then bench.children parent ++ nodes else bench.children number

theorem takes_adopt {parent : Nat} {nodes : List Nat} (h : parent < bench.size)
    (made : ∀ node ∈ nodes, bench.parent? node = some parent) :
    Takes bench parent nodes (bench.adopt parent nodes) where
  size_eq := by simp [size, adopt]
  part?_eq := part?_adopt parent nodes
  parent?_eq number := by
    rw [parent?_adopt]
    split
    · next member => exact made number member
    · rfl
  children_eq number := children_adopt parent nodes number h

/-- Moving nodes changes nothing but their parents. -/
theorem moved (parent : Nat) {nodes : List Nat} (h : ∀ node ∈ nodes, node < bench.size) :
    let after := nodes.foldl (moveUnder · parent ·) bench
    after.size = bench.size ∧ (∀ number, after.part? number = bench.part? number) ∧
      (∀ number, after.children number = bench.children number) ∧
      ∀ number, after.parent? number =
        if number ∈ nodes then some parent else bench.parent? number := by
  induction nodes generalizing bench with
  | nil => simp
  | cons node nodes ih =>
    have present : node < bench.size := h node List.mem_cons_self
    obtain ⟨size_eq, part_eq, children_eq, parent_eq⟩ :=
      @ih (bench.moveUnder parent node) fun other member => by
        rw [size_moveUnder]
        exact h other (List.mem_cons_of_mem _ member)
    refine ⟨size_eq.trans (size_moveUnder ..), fun number => ?_, fun number => ?_,
      fun number => ?_⟩
    · exact (part_eq number).trans (part?_moveUnder ..)
    · exact (children_eq number).trans (children_moveUnder ..)
    · rw [List.foldl_cons, parent_eq, parent?_moveUnder _ _ _ present]
      grind

theorem takes_moved {parent : Nat} {nodes : List Nat} (h : parent < bench.size)
    (present : ∀ node ∈ nodes, node < bench.size) :
    Takes bench parent nodes ((nodes.foldl (moveUnder · parent ·) bench).adopt parent nodes) := by
  obtain ⟨size_eq, part_eq, children_eq, parent_eq⟩ := moved parent present
  have taken := takes_adopt (size_eq ▸ h) fun node member => by rw [parent_eq, if_pos member]
  refine ⟨taken.size_eq.trans size_eq, fun number => ?_, fun number => ?_, fun number => ?_⟩
  · exact (taken.part?_eq number).trans (part_eq number)
  · rw [taken.parent?_eq, parent_eq]
    grind
  · rw [taken.children_eq, children_eq, children_eq]

/-- The nodes that a parent takes over where a node is attached to it. -/
def handed (bench : Workbench) (parent child : Nat) : List Nat :=
  match bench.part? parent, bench.part? child with
  | some (.group sign), some (.group inner) =>
      if inner == sign then bench.children child else [child]
  | _, _ => [child]

/-- Whether a node takes another: a group does, and a step that holds none. -/
def accepts (bench : Workbench) (number : Nat) : Bool :=
  match bench.part? number with
  | some (.group _) => true
  | some (.path _) => (bench.children number).isEmpty
  | _ => false

theorem accepts_cases {number : Nat} (h : bench.accepts number = true) :
    (∃ sign, bench.part? number = some (.group sign)) ∨
      (∃ via, bench.part? number = some (.path via)) ∧ bench.children number = [] := by
  unfold accepts at h
  cases found : bench.part? number with
  | none => rw [found] at h; cases h
  | some part =>
    rw [found] at h
    cases part with
    | group sign => exact .inl ⟨sign, rfl⟩
    | path via => exact .inr ⟨⟨via, rfl⟩, List.isEmpty_iff.mp h⟩
    | leaf | accepted => cases h

/-- A node is attached to the parent that it was made under if this accepts it. -/
theorem attach_accepted {parent child : Nat} (accepted : bench.accepts parent = true)
    (made : bench.parent? child = some parent)
    (below : ∀ node ∈ bench.children child, node < bench.size) :
    ∃ after, bench.attach parent child = .ok after ∧
      Takes bench parent (bench.handed parent child) after := by
  obtain ⟨inner, innerAt, -⟩ := Option.bind_eq_some_iff.mp made
  have held : bench.children child = inner.children := by simp [children, innerAt]
  have alone : ∀ node ∈ [child], bench.parent? node = some parent := by simpa using made
  unfold attach handed
  rcases accepts_cases accepted with ⟨sign, here⟩ | ⟨⟨via, here⟩, empty⟩
  · have room := lt_size_of_part? here
    obtain ⟨above, aboveAt, group⟩ := Option.map_eq_some_iff.mp here
    simp only [part?, aboveAt, innerAt, Option.map_some, group]
    cases inner.part with
    | group innerSign =>
      simp only
      split
      · refine ⟨_, rfl, ?_⟩
        rw [held] at below ⊢
        exact takes_moved room below
      · exact ⟨_, rfl, takes_adopt room alone⟩
    | path | leaf | accepted => exact ⟨_, rfl, takes_adopt room alone⟩
  · have room := lt_size_of_part? here
    obtain ⟨above, aboveAt, step⟩ := Option.map_eq_some_iff.mp here
    have none : above.children.isEmpty = true := by simpa [children, aboveAt] using empty
    simp only [part?, aboveAt, innerAt, Option.map_some, step, none, if_true]
    exact ⟨_, rfl, takes_adopt room alone⟩

/-- A step that holds a node takes no other. -/
theorem attach_refused {parent child : Nat} {via : Via}
    (step : bench.part? parent = some (.path via)) (taken : bench.children parent ≠ [])
    (present : child < bench.size) : bench.attach parent child = .error .secondChild := by
  obtain ⟨above, aboveAt, step⟩ := Option.map_eq_some_iff.mp step
  have full : above.children.isEmpty = false := by simpa [children, aboveAt] using taken
  have innerAt : bench.pieces[child]? = some bench.pieces[child] := List.getElem?_eq_getElem present
  unfold attach
  simp [aboveAt, innerAt, step, full]

end Workbench

end PathRules
