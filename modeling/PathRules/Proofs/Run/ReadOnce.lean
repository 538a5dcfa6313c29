import PathRules.Proofs.Trace.Sources

/-!
# Collections that can be read once

A check for the number or the distinctness of items and rules for the elements may be given a
one-shot source.  The first of them that reads it finds what it would find in a list of the items;
those that come after it find what they would find in an empty list.  So what is said of a list
holds of a source as far as no more than one check reads it.
-/

namespace PathRules

variable {g : ObjectGraph}

/-- A check of a collection, with whatever message and severity it was given. -/
structure ItemsConstraint (g : ObjectGraph) where
  constraint : Constraint
  check : ItemsCheck
  test_eq : constraint.test = (check.constraint g).test

/-- Rules for the elements of a value: which elements, and what each has to pass. -/
structure ElementRules where
  indices : List Value
  inner : Validation

namespace ElementRules

def validation (rules : ElementRules) : Validation :=
  .step .undefined [] .this (.elements (.iterated rules.indices) rules.inner)

theorem traceWith_validation (rules : ElementRules) (expand : TraceModel) (v : Value) :
    rules.validation.traceWith expand v =
      (fun visits => .step .this v (.elements (.iterated rules.indices) v visits)) <$>
        Trace.ofElements (rules.inner.traceWith expand) v (.iterated rules.indices) := by
  simp [validation, Validation.traceWith, Validation.guardsHold, Segment.get]

end ElementRules

/-- What is declared of a collection, in the order in which it is checked. -/
structure CollectionRules (g : ObjectGraph) where
  constraints : List (ItemsConstraint g)
  elements : List ElementRules

/-- The same fault, or related findings. -/
def Finding.Agree (R : Finding → Finding → Prop) :
    Except Fault Finding → Except Fault Finding → Prop
  | .ok a, .ok b => R a b
  | .error fault, .error fault' => fault = fault'
  | _, _ => False

/-- Leaves that are the same, or tell of the failure of one of the constraints on a source and on a
list: the message shows the container where it shows the value. -/
inductive Placed.Retold (g : ObjectGraph) (constraints : List Constraint) (number : Nat) :
    Placed → Placed → Prop
  | same (p : Placed) : Retold g constraints number p p
  | container {c : Constraint} (asked : c ∈ constraints) (items : List Value) :
      Retold g constraints number ⟨c.leafOn g (.source number), []⟩ ⟨c.leafOn g (.list items), []⟩

/-- The same verdict, and leaves retold one by one. -/
structure Finding.Retold (g : ObjectGraph) (constraints : List Constraint) (number : Nat)
    (a b : Finding) : Prop where
  verdict : a.1 = b.1
  leaves : List.Forall₂ (Placed.Retold g constraints number) a.2 b.2

namespace Finding.Retold

variable {constraints : List Constraint} {number : Nat} {a b c d : Finding}

theorem refl (a : Finding) : a.Retold g constraints number a :=
  ⟨rfl, List.forall₂_same.mpr fun p _ => .same p⟩

theorem join (h : a.Retold g constraints number b) (h' : c.Retold g constraints number d) :
    (a.join c).Retold g constraints number (b.join d) :=
  ⟨by simp [Finding.join, h.verdict, h'.verdict], List.rel_append h.leaves h'.leaves⟩

end Finding.Retold

namespace Validation

/-- On a value, the validation takes no notice of what a source holds and leaves it alone; it
expands no models. -/
def Overlooks (g : ObjectGraph) (number : Nat) (validation : Validation) (v : Value) : Prop :=
  ∀ (expand expand' : TraceModel) (left : List Value), Check.Mirrors g number left left
    (validation.traceWith expand v) (validation.traceWith expand' v) (· = ·)

/-- So does one that always finds the same and changes nothing. -/
theorem overlooks_of_settled {number : Nat} {validation : Validation} {v : Value} {t : Trace}
    (settled : ∀ expand store, (validation.traceWith expand v).runOn g store = (.ok t, store)) :
    validation.Overlooks g number v := by
  intro expand expand' left store present
  rw [settled, settled]
  exact ⟨rfl, rfl, present⟩

end Validation

namespace CollectionRules

variable {number : Nat}

def validation (rules : CollectionRules g) (short : Bool) : Validation :=
  .object (rules.constraints.map (·.constraint)) (rules.elements.map (·.validation)) false short

/-! ## The checks that read -/

/-- A check that reads the collection. -/
inductive Reader (g : ObjectGraph)
  | items (c : ItemsConstraint g)
  | elements (rules : ElementRules)

namespace Reader

/-- What the check finds in a collection. -/
def find (expand : TraceModel) (v : Value) : Reader g → Check Finding
  | .items c => Finding.ofTest <$> c.constraint.tested v
  | .elements rules => Finding.ofTrace <$> rules.validation.traceWith expand v

end Reader

def readers (rules : CollectionRules g) : List (Reader g) :=
  (rules.constraints.filter (·.check.reads)).map .items ++ rules.elements.map .elements

theorem find_of_reads_eq_false {c : ItemsConstraint g} (overlooks : c.check.reads = false)
    (v : Value) : Finding.ofTest <$> c.constraint.tested v = pure (true, []) := by
  simp [Constraint.tested, c.test_eq, ItemsCheck.test_of_reads_eq_false overlooks,
    Finding.ofTest, Sign.counts, Trace.failures]

/-- Checks that do not read the collection pass and take no part in what is found. -/
theorem find_eq_readers (rules : CollectionRules g) (short : Bool) (expand : TraceModel)
    (v : Value) :
    Finding.ofTrace <$> (rules.validation short).traceWith expand v =
      Check.allInTurn short (rules.readers.map (·.find expand v)) := by
  have silent (cs : List (ItemsConstraint g)) :
      Check.allInTurn short (cs.map fun c => Finding.ofTest <$> c.constraint.tested v) =
        Check.allInTurn short
          ((cs.filter (·.check.reads)).map fun c => Finding.ofTest <$> c.constraint.tested v) := by
    induction cs with
    | nil => rfl
    | cons c cs ih =>
      rw [List.map_cons, Check.allInTurn, ih, List.filter_cons]
      split
      · rfl
      · next overlooks =>
        rw [find_of_reads_eq_false (Bool.eq_false_iff.mpr overlooks), Finding.nothing_followedBy]
  rw [validation, Validation.find_object, List.map_map, List.map_map, Check.allInTurn_append]
  unfold readers
  rw [List.map_append, List.map_map, List.map_map, Check.allInTurn_append]
  exact congrArg (Finding.followedBy short · _) (silent rules.constraints)

/-! ## The first reading and the others -/

/-- The constraints up to the first that reads, and those after it. -/
def upToReading : List (ItemsConstraint g) → List (ItemsConstraint g) × List (ItemsConstraint g)
  | [] => ([], [])
  | c :: cs =>
      if c.check.reads then ([c], cs) else (c :: (upToReading cs).1, (upToReading cs).2)

/-- The rules up to the first that reads the collection. -/
def first (rules : CollectionRules g) : CollectionRules g :=
  if rules.constraints.any (·.check.reads) then ⟨(upToReading rules.constraints).1, []⟩
  else ⟨rules.constraints, rules.elements.take 1⟩

/-- The rules after the first that reads the collection. -/
def others (rules : CollectionRules g) : CollectionRules g :=
  if rules.constraints.any (·.check.reads) then
    ⟨(upToReading rules.constraints).2, rules.elements⟩
  else ⟨[], rules.elements.drop 1⟩

theorem filter_upToReading {cs : List (ItemsConstraint g)} (h : cs.any (·.check.reads) = true) :
    (upToReading cs).1.filter (·.check.reads) = (cs.filter (·.check.reads)).take 1 ∧
      (upToReading cs).2.filter (·.check.reads) = (cs.filter (·.check.reads)).drop 1 := by
  induction cs with
  | nil => cases h
  | cons c cs ih =>
    rw [upToReading]
    cases reads : c.check.reads with
    | true => simp [reads]
    | false =>
      rw [List.any_cons, reads, Bool.false_or] at h
      simpa [reads] using ih h

theorem readers_first (rules : CollectionRules g) : rules.first.readers = rules.readers.take 1 := by
  unfold first readers
  split
  · next some =>
    have chosen : rules.constraints.filter (·.check.reads) ≠ [] := by simpa using some
    obtain ⟨c, cs, split⟩ := List.exists_cons_of_ne_nil chosen
    simp [(filter_upToReading some).1, split]
  · next none =>
    have unread : rules.constraints.filter (·.check.reads) = [] := by simpa using none
    simp [unread]

theorem readers_others (rules : CollectionRules g) :
    rules.others.readers = rules.readers.drop 1 := by
  unfold others readers
  split
  · next some =>
    have chosen : rules.constraints.filter (·.check.reads) ≠ [] := by simpa using some
    obtain ⟨c, cs, split⟩ := List.exists_cons_of_ne_nil chosen
    simp [(filter_upToReading some).2, split]
  · next none =>
    have unread : rules.constraints.filter (·.check.reads) = [] := by simpa using none
    simp [unread]

/-! ## What readers find -/

namespace Reader

/-- The check reads the collection, and what it asks of its items leaves the source alone. -/
def Suits (g : ObjectGraph) (constraints : List Constraint) (number : Nat) (items : List Value) :
    Reader g → Prop
  | .items c => c.check.reads = true ∧ c.constraint ∈ constraints
  | .elements rules => ∀ x ∈ items, rules.inner.Overlooks g number x

variable {constraints : List Constraint} {items : List Value} {r : Reader g}

/-- A reader finds the same in a source as in a list of its items, and leaves the source empty. -/
theorem mirrors_find (suits : r.Suits g constraints number items)
    (writable : ((Value.list items).shown? g).isSome = true) (expand expand' : TraceModel) :
    Check.Mirrors g number items [] (r.find expand (.source number)) (r.find expand' (.list items))
      (Finding.Retold g constraints number) := by
  cases r with
  | items c =>
    refine (Constraint.mirrors_tested c.test_eq suits.1 writable).map fun a b outcomes => ?_
    rcases outcomes with ⟨rfl, rfl⟩ | ⟨rfl, rfl⟩
    · exact .refl _
    · refine ⟨rfl, ?_⟩
      simpa [Finding.ofTest, Trace.failures] using Placed.Retold.container suits.2 items
  | elements rules =>
    have visits : Check.Mirrors g number items []
        (Trace.ofElements (rules.inner.traceWith expand) (.source number) (.iterated rules.indices))
        (Trace.ofElements (rules.inner.traceWith expand') (.list items) (.iterated rules.indices))
        (· = ·) :=
      Trace.mirrors_ofElements rules.indices fun x member left => suits x member expand expand' left
    simp only [find, ElementRules.traceWith_validation, Functor.map_map]
    refine visits.map fun a b same => ?_
    subst same
    exact .refl _

/-- In an empty list a reader finds the same whatever is stored. -/
theorem isSteady_find_nil (r : Reader g) (expand : TraceModel) :
    (r.find expand (.list [])).IsSteady g := by
  cases r with
  | items c =>
    have steady : (c.constraint.tested (.list [])).IsSteady g :=
      Constraint.isSteady_tested (c.test_eq ▸ ItemsCheck.isSteady_test_list c.check [])
    rw [find, map_eq_pure_bind]
    exact steady.bind fun _ => .of_pure _
  | elements rules =>
    simp only [find, ElementRules.traceWith_validation, map_eq_pure_bind, bind_assoc]
    refine Check.IsSteady.bind ?_ fun _ => .of_pure _
    exact Check.IsSteady.of_read.bind fun _ => .of_pure _

theorem Suits.nil (suits : r.Suits g constraints number items) :
    r.Suits g constraints number [] := by
  cases r with
  | items c => exact suits
  | elements rules => exact fun x member => absurd member List.not_mem_nil

end Reader

variable {constraints : List Constraint} {items : List Value} {short : Bool}

/-- Readers that come to an empty source find what they find in an empty list. -/
theorem mirrors_readers_nil {readers : List (Reader g)}
    (suits : ∀ r ∈ readers, r.Suits g constraints number []) (expand expand' : TraceModel) :
    Check.Mirrors g number [] []
      (Check.allInTurn short (readers.map (·.find expand (.source number))))
      (Check.allInTurn short (readers.map (·.find expand' (.list []))))
      (Finding.Retold g constraints number) := by
  induction readers with
  | nil => exact .of_pure (.refl _)
  | cons r readers ih =>
    obtain ⟨here, later⟩ := List.forall_mem_cons.mp suits
    exact .followedBy (fun _ _ related => related.verdict) (fun _ _ _ _ => .join)
      (Reader.mirrors_find here rfl expand expand') (ih later)

/-- The first reader finds what there is in the source, and the others find nothing. -/
theorem mirrors_readers (short : Bool) {r : Reader g} {rest : List (Reader g)}
    (suits : ∀ reader ∈ r :: rest, reader.Suits g constraints number items)
    (writable : ((Value.list items).shown? g).isSome = true)
    (expand expand' expand'' : TraceModel) :
    Check.Mirrors g number items []
      (Check.allInTurn short ((r :: rest).map (·.find expand (.source number))))
      (Finding.followedBy short (r.find expand' (.list items))
        (Check.allInTurn short (rest.map (·.find expand'' (.list [])))))
      (Finding.Retold g constraints number) := by
  obtain ⟨here, later⟩ := List.forall_mem_cons.mp suits
  exact .followedBy (fun _ _ related => related.verdict) (fun _ _ _ _ => .join)
    (Reader.mirrors_find here writable expand expand')
    (mirrors_readers_nil (fun reader member => (later reader member).nil) expand expand'')

theorem isSteady_readers_nil (short : Bool) (readers : List (Reader g)) (expand : TraceModel) :
    (Check.allInTurn short (readers.map (·.find expand (.list [])))).IsSteady g := by
  induction readers with
  | nil => exact .of_pure _
  | cons r readers ih =>
    refine (r.isSteady_find_nil expand).bind fun found => .of_ite (.of_pure found) ?_
    exact ih.bind fun _ => .of_pure _

/-- What follows and depends on nothing that is stored can be run at once. -/
theorem runOn_followedBy {rest : Check Finding} (steady : rest.IsSteady g)
    (check : Check Finding) (store : Store) :
    ((Finding.followedBy short check rest).runOn g store).1 =
      Finding.followedBy short (check.runOn g store).1 (rest.runOn g store).1 := by
  rw [Finding.followedBy, Check.runOn_bind]
  rcases check.runOn g store with ⟨fault | found, after⟩
  · rfl
  · change ((if short && !found.1 then pure found
        else do
          let others ← rest
          pure (found.join others) : Check Finding).runOn g after).1 =
      if short && !found.1 then (pure found : Except Fault Finding)
      else do
        let others ← (rest.runOn g store).1
        pure (found.join others)
    split
    · rfl
    · rw [Check.runOn_bind, steady store after]
      rcases rest.runOn g after with ⟨fault | others, _⟩ <;> rfl

/-! ## Runs -/

theorem agree_of_mirrors {R : Finding → Finding → Prop} {m m' : Check Finding} {store : Store}
    {left : List Value} (held : store.sources[number]? = some items)
    (h : Check.Mirrors g number items left m m' R) :
    Finding.Agree R (m.runOn g store).1 (m'.runOn g store).1 := by
  obtain ⟨present, -⟩ := List.getElem?_eq_some_iff.mp held
  have here := h store present
  rw [Store.holding_of_held held] at here
  rcases ran : m.runOn g store with ⟨fault | a, after⟩ <;>
    rcases ran' : m'.runOn g store with ⟨fault' | b, after'⟩ <;> rw [ran, ran'] at here
  · exact here
  · exact here
  · exact here
  · exact here.1

theorem madeOf_validation {rules : CollectionRules g}
    (made : ∀ elements ∈ rules.elements, elements.inner.MadeOf .any) (short : Bool) :
    (rules.validation short).MadeOf .any := by
  refine ⟨fun _ _ => trivial, Validation.allMadeOf_iff.mpr fun sub member => ?_⟩
  obtain ⟨elements, declared, rfl⟩ := List.mem_map.mp member
  exact ⟨trivial, trivial, made elements declared⟩

/-- A run finds what the readers find in turn. -/
theorem finding_eq {run : Run} (fresh : run.stack = {}) (book : run.rulebook.MadeOf .any)
    (rules : CollectionRules g) (made : ∀ elements ∈ rules.elements, elements.inner.MadeOf .any)
    (short : Bool) (v : Value) :
    ∃ expand, (rules.validation short).finding g run v =
      ((Check.allInTurn short (rules.readers.map (·.find expand v))).runOn g run.store).1 := by
  refine ⟨Validation.traceModel (run.rulebook.rules g) (g.expansions v run.store.sources), ?_⟩
  rw [← find_eq_readers]
  exact Validation.finding_eq (madeOf_validation made short) book fresh v

theorem mem_elements_first {rules : CollectionRules g} {elements : ElementRules}
    (h : elements ∈ rules.first.elements) : elements ∈ rules.elements := by
  unfold first at h
  split at h
  · cases h
  · exact List.mem_of_mem_take h

theorem mem_elements_others {rules : CollectionRules g} {elements : ElementRules}
    (h : elements ∈ rules.others.elements) : elements ∈ rules.elements := by
  unfold others at h
  split at h
  · exact h
  · exact List.mem_of_mem_drop h

theorem suits_readers {rules : CollectionRules g}
    (overlooked : ∀ elements ∈ rules.elements, ∀ x ∈ items, elements.inner.Overlooks g number x) :
    ∀ r ∈ rules.readers, r.Suits g (rules.constraints.map (·.constraint)) number items := by
  intro r member
  rcases List.mem_append.mp member with member | member
  · obtain ⟨c, chosen, rfl⟩ := List.mem_map.mp member
    obtain ⟨declared, reads⟩ := List.mem_filter.mp chosen
    exact ⟨reads, List.mem_map_of_mem declared⟩
  · obtain ⟨elements, declared, rfl⟩ := List.mem_map.mp member
    exact overlooked elements declared

/-- On a one-shot source, the first of the rules that reads it finds what it finds in the list of
the items, and all that come after it find what they find in an empty list; leaves tell the
same apart from the text of the container.  So with no more than one rule that reads, a source
and a list come to the same. -/
theorem source_read_once (rules : CollectionRules g) (short : Bool) {run : Run}
    (fresh : run.stack = {}) (book : run.rulebook.MadeOf .any)
    (made : ∀ elements ∈ rules.elements, elements.inner.MadeOf .any)
    (held : run.store.sources[number]? = some items)
    (overlooked : ∀ elements ∈ rules.elements, ∀ x ∈ items, elements.inner.Overlooks g number x)
    (writable : ((Value.list items).shown? g).isSome = true) :
    let retold := Finding.Retold g (rules.constraints.map (·.constraint)) number
    let found := (rules.validation short).finding g run (.source number)
    Finding.Agree retold found
      (Finding.followedBy short ((rules.first.validation short).finding g run (.list items))
        ((rules.others.validation short).finding g run (.list []))) ∧
    (rules.constraints.countP (·.check.reads) + rules.elements.length ≤ 1 →
      Finding.Agree retold found ((rules.validation short).finding g run (.list items))) := by
  obtain ⟨expand, found⟩ := finding_eq fresh book rules made short (.source number)
  obtain ⟨expand₁, found₁⟩ := finding_eq fresh book rules.first
    (fun elements member => made elements (mem_elements_first member)) short (.list items)
  obtain ⟨expand₂, found₂⟩ := finding_eq fresh book rules.others
    (fun elements member => made elements (mem_elements_others member)) short (.list [])
  obtain ⟨expand', listed⟩ := finding_eq fresh book rules made short (.list items)
  have suits := suits_readers overlooked
  have counted : rules.readers.length =
      rules.constraints.countP (·.check.reads) + rules.elements.length := by
    simp [readers, List.countP_eq_length_filter]
  simp only [found, found₁, found₂, listed, readers_first, readers_others, ← counted]
  cases split : rules.readers with
  | nil =>
    have nothing : Finding.Retold g (rules.constraints.map (·.constraint)) number (true, [])
        (true, []) := .refl _
    exact ⟨by cases short <;> exact nothing, fun _ => nothing⟩
  | cons r rest =>
    rw [split] at suits
    have once (expand' expand'' : TraceModel) := agree_of_mirrors held
      (mirrors_readers short suits writable expand expand' expand'')
    have steady (expand : TraceModel) :=
      isSteady_readers_nil (g := g) short rest expand
    refine ⟨?_, fun single => ?_⟩
    · have both := once expand₁ expand₂
      rw [runOn_followedBy (steady expand₂)] at both
      simpa [Check.allInTurn] using both
    · obtain rfl : rest = [] := List.eq_nil_of_length_eq_zero (by simpa using single)
      simpa [Check.allInTurn] using once expand' expand'

/-- At least one item, no item twice, and no element that is null. -/
def severalChecks : CollectionRules {} where
  constraints := [⟨.minItems {} (.int 1), .atLeast (.int 1), rfl⟩,
    ⟨.uniqueItems true, .unique true, rfl⟩]
  elements := [⟨[], .object [.isNotNull] [] false false⟩]

def twoOnes : List Value := [.int 1, .int 1]

def holdingTwoOnes : Run := { store := { sources := [twoOnes] } }

theorem severalChecks_made :
    ∀ elements ∈ severalChecks.elements, elements.inner.MadeOf .any := by
  simp [severalChecks, Validation.MadeOf, Validation.AllMadeOf, Material.any]

theorem holdingTwoOnes_book : holdingTwoOnes.rulebook.MadeOf .any := by
  simp [holdingTwoOnes, Rulebook.MadeOf]

/-- What is in the source is counted, and nothing is left to be compared. -/
theorem source_read_once_of_severalChecks :
    Finding.Agree (Finding.Retold {} (severalChecks.constraints.map (·.constraint)) 0)
      ((severalChecks.validation false).finding {} holdingTwoOnes (.source 0))
      (Finding.followedBy false
        ((severalChecks.first.validation false).finding {} holdingTwoOnes (.list twoOnes))
        ((severalChecks.others.validation false).finding {} holdingTwoOnes (.list []))) := by
  have settled (expand : TraceModel) (store : Store) :
      ((Validation.object [.isNotNull] [] false false).traceWith expand (.int 1)).runOn {} store =
        (.ok (.group .all [none] []), store) := rfl
  have held : holdingTwoOnes.store.sources[0]? = some twoOnes := rfl
  refine (source_read_once severalChecks false rfl holdingTwoOnes_book severalChecks_made held ?_
    rfl).1
  simpa [severalChecks, twoOnes] using Validation.overlooks_of_settled settled

/-- The rules accept the source of a list that they reject: they count its items, and the search for
a repeated one comes to an empty source. -/
theorem repeats_in_source_accepted :
    ((severalChecks.validation false).finding {} holdingTwoOnes (.source 0)).map Prod.fst =
        .ok true ∧
      ((severalChecks.validation false).finding {} holdingTwoOnes (.list twoOnes)).map Prod.fst =
        .ok false := by
  constructor
  · obtain ⟨expand, found⟩ :=
      finding_eq rfl holdingTwoOnes_book severalChecks severalChecks_made false (.source 0)
    rw [found]
    rfl
  · obtain ⟨expand, found⟩ :=
      finding_eq rfl holdingTwoOnes_book severalChecks severalChecks_made false (.list twoOnes)
    rw [found]
    rfl

end CollectionRules

end PathRules
