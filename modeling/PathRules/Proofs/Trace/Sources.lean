import PathRules.Constraint.Catalog
import PathRules.Proofs.Check
import PathRules.Proofs.Trace.Findings

/-!
# One-shot sources

Two checks are compared, the first of which reads a one-shot source where the second looks at a list
of what the source holds.  They run on stores that differ in what is left in this source alone, and
a check that reads the source leaves nothing in it.
-/

namespace PathRules

variable {α β γ δ : Type} {g : ObjectGraph} {number : Nat}

namespace Store

/-- The store with `items` left in a source. -/
def holding (store : Store) (number : Nat) (items : List Value) : Store :=
  { store with sources := store.sources.set number items }

variable {store : Store} {items : List Value}

theorem holding_of_held (held : store.sources[number]? = some items) :
    store.holding number items = store := by
  obtain ⟨present, rfl⟩ := List.getElem?_eq_some_iff.mp held
  simp [holding]

end Store

namespace Check

/-- On stores that differ in one source, which holds `before` on the left, both checks raise the
same fault, or both answer, with related answers and with stores that differ in this source, which
then holds `after` on the left. -/
def Mirrors (g : ObjectGraph) (number : Nat) (before after : List Value) (m : Check α)
    (m' : Check β) (R : α → β → Prop) : Prop :=
  ∀ store : Store, number < store.sources.length →
    match m.runOn g (store.holding number before), m'.runOn g store with
    | (.ok a, left), (.ok b, left') =>
        R a b ∧ left = left'.holding number after ∧ number < left'.sources.length
    | (.error fault, _), (.error fault', _) => fault = fault'
    | _, _ => False

namespace Mirrors

variable {before mid after : List Value} {m : Check α} {m' : Check β} {R : α → β → Prop}

theorem of_pure {a : α} {b : β} (h : R a b) : Mirrors g number after after (pure a) (pure b) R :=
  fun _ present => ⟨h, rfl, present⟩

theorem of_throw (fault : Fault) :
    Mirrors g number before after (throw fault : Check α) (throw fault : Check β) R :=
  fun _ _ => rfl

theorem of_read : Mirrors g number after after (read : Check ObjectGraph) (read) (· = ·) :=
  fun _ present => ⟨rfl, rfl, present⟩

theorem of_ofExcept (outcome : Except Fault α) :
    Mirrors g number after after (ofExcept outcome) (ofExcept outcome) (· = ·) := by
  cases outcome with
  | error fault => exact of_throw fault
  | ok a => exact of_pure rfl

theorem bind {f : α → Check γ} {f' : β → Check δ} {S : γ → δ → Prop}
    (h : Mirrors g number before mid m m' R)
    (hf : ∀ a b, R a b → Mirrors g number mid after (f a) (f' b) S) :
    Mirrors g number before after (m >>= f) (m' >>= f') S := by
  intro store present
  have first := h store present
  rw [runOn_bind, runOn_bind]
  rcases ran : m.runOn g (store.holding number before) with ⟨fault | a, left⟩ <;>
    rcases ran' : m'.runOn g store with ⟨fault' | b, left'⟩ <;> rw [ran, ran'] at first
  · exact first
  · exact first.elim
  · exact first.elim
  · obtain ⟨related, rfl, present'⟩ := first
    exact hf a b related left' present'

theorem map {f : α → γ} {f' : β → δ} {S : γ → δ → Prop}
    (h : Mirrors g number before after m m' R) (imp : ∀ a b, R a b → S (f a) (f' b)) :
    Mirrors g number before after (f <$> m) (f' <$> m') S := by
  rw [map_eq_pure_bind, map_eq_pure_bind]
  exact h.bind fun a b related => of_pure (imp a b related)

/-- After a check that reads the source to its end, those that follow find nothing in it. -/
theorem followedBy {short : Bool} {first first' rest rest' : Check Finding}
    {R : Finding → Finding → Prop} (verdict : ∀ a b, R a b → a.1 = b.1)
    (joined : ∀ a b c d, R a b → R c d → R (a.join c) (b.join d))
    (h : Mirrors g number before after first first' R)
    (h' : Mirrors g number after after rest rest' R) :
    Mirrors g number before after (Finding.followedBy short first rest)
      (Finding.followedBy short first' rest') R := by
  refine h.bind fun a b related => ?_
  rw [verdict a b related]
  split
  · exact of_pure related
  · exact h'.bind fun c d later => of_pure (joined a b c d related later)

end Mirrors

end Check

namespace Value

theorem mirrors_elements (items : List Value) :
    Check.Mirrors g number items [] (source number).elements (list items).elements (· = ·) := by
  intro store present
  refine ⟨?_, ?_, present⟩
  · simp [Store.holding, Store.remaining, present]
  · simp [Store.holding, Store.drain]

end Value

/-- What a check of a collection asks of its items. -/
inductive ItemsCheck
  | atLeast (least : Value)
  | atMost (most : Value)
  | unique (asked : Bool)

namespace ItemsCheck

def constraint (g : ObjectGraph) : ItemsCheck → Constraint
  | atLeast least => .minItems g least
  | atMost most => .maxItems g most
  | unique asked => .uniqueItems asked

/-- Whether the check looks at the items at all. -/
def reads : ItemsCheck → Bool
  | unique asked => asked
  | _ => true

theorem mirrors_count (items : List Value) :
    Check.Mirrors g number items [] (Constraint.count (.source number))
      (Constraint.count (.list items)) (· = ·) :=
  (Value.mirrors_elements items).map fun _ _ same => congrArg List.length same

/-- A check that looks at the items of a source finds the same as with a list of them, and leaves
none. -/
theorem mirrors_test {check : ItemsCheck} (reads : check.reads = true) (items : List Value) :
    Check.Mirrors g number items [] ((check.constraint g).test (.source number))
      ((check.constraint g).test (.list items)) (· = ·) := by
  have compared (comparison : Comparison) (bound : Value) : Check.Mirrors g number items []
      (do let n ← Constraint.count (.source number)
          Check.ofExcept (Value.compareWith (← read) comparison (.int n) bound))
      (do let n ← Constraint.count (.list items)
          Check.ofExcept (Value.compareWith (← read) comparison (.int n) bound)) (· = ·) := by
    refine (mirrors_count items).bind fun n _ same => ?_
    subst same
    refine Check.Mirrors.of_read.bind fun graph _ same => ?_
    subst same
    exact .of_ofExcept _
  cases check with
  | atLeast least => exact compared .atLeast least
  | atMost most => exact compared .atMost most
  | unique asked =>
    cases reads
    refine Check.Mirrors.of_read.bind fun graph _ same => ?_
    subst same
    refine (Value.mirrors_elements items).bind fun listed _ same => ?_
    subst same
    exact .of_pure rfl

theorem test_of_reads_eq_false {check : ItemsCheck} (overlooks : check.reads = false) (v : Value) :
    (check.constraint g).test v = pure true := by
  cases check with
  | atLeast least => cases overlooks
  | atMost most => cases overlooks
  | unique asked =>
    cases overlooks
    rfl

/-- What a check finds in a list does not depend on what is stored. -/
theorem isSteady_test_list (check : ItemsCheck) (items : List Value) :
    ((check.constraint g).test (.list items)).IsSteady g := by
  have listed : (Value.list items).elements.IsSteady g :=
    Check.IsSteady.of_read.bind fun _ => .of_pure items
  have compared (comparison : Comparison) (bound : Value) : Check.IsSteady g
      (do let n ← Constraint.count (.list items)
          Check.ofExcept (Value.compareWith (← read) comparison (.int n) bound)) :=
    (Check.IsSteady.of_pure items.length).bind fun _ =>
      Check.IsSteady.of_read.bind fun _ => .of_ofExcept _
  cases check with
  | atLeast least => exact compared .atLeast least
  | atMost most => exact compared .atMost most
  | unique asked =>
    refine Check.IsSteady.of_ite ?_ (.of_pure true)
    exact Check.IsSteady.of_read.bind fun _ => listed.bind fun _ => .of_pure _

end ItemsCheck

namespace Constraint

theorem isSteady_render (c : Constraint) (v : Value) : (c.render v).IsSteady g := by
  refine Check.IsSteady.of_read.bind fun graph => ?_
  cases v.shown? graph with
  | none => exact .of_throw _
  | some text => exact .of_pure _

theorem isSteady_tested {c : Constraint} {v : Value} (h : (c.test v).IsSteady g) :
    (c.tested v).IsSteady g :=
  h.bind fun _ => .of_ite (.of_pure none) ((isSteady_render c v).bind fun _ => .of_pure _)

/-- The leaf of a failure on a value that can be written out. -/
def leafOn (g : ObjectGraph) (c : Constraint) (v : Value) : Leaf :=
  ⟨if c.isError then .error else .warning, c.fill (v.shown g), v⟩

theorem mirrors_render (c : Constraint) {v w : Value} (writable : (v.shown? g).isSome = true)
    (writable' : (w.shown? g).isSome = true) (left : List Value) :
    Check.Mirrors g number left left (c.render v) (c.render w) fun message message' =>
      message = c.fill (v.shown g) ∧ message' = c.fill (w.shown g) := by
  obtain ⟨text, shown⟩ := Option.isSome_iff_exists.mp writable
  obtain ⟨text', shown'⟩ := Option.isSome_iff_exists.mp writable'
  intro store present
  simp [render, Check.runOn_bind, Value.shown, shown, shown', present]

/-- A test of the source and the same test of a list of its items: both pass, or both fail with
leaves that differ in what they show of the container. -/
theorem mirrors_tested {c : Constraint} {check : ItemsCheck}
    (test_eq : c.test = (check.constraint g).test) (reads : check.reads = true)
    {items : List Value} (writable : ((Value.list items).shown? g).isSome = true) :
    Check.Mirrors g number items [] (c.tested (.source number)) (c.tested (.list items))
      fun a b => (a = none ∧ b = none) ∨
        (a = some (c.leafOn g (.source number)) ∧ b = some (c.leafOn g (.list items))) := by
  unfold tested
  rw [test_eq]
  refine (ItemsCheck.mirrors_test reads items).bind fun passed _ same => ?_
  subst same
  cases passed with
  | true => exact .of_pure (.inl ⟨rfl, rfl⟩)
  | false =>
    rw [if_neg Bool.false_ne_true]
    refine (mirrors_render c rfl writable []).bind fun message message' shown => ?_
    rw [shown.1, shown.2]
    exact .of_pure (.inr ⟨rfl, rfl⟩)

end Constraint

namespace Trace

variable {visit visit' : Value → Check Trace}

theorem mirrors_ofPart {x : Value} {left : List Value}
    (h : Check.Mirrors g number left left (visit x) (visit' x) (· = ·)) (target : Segment) :
    Check.Mirrors g number left left (ofPart visit (target, pure x))
      (ofPart visit' (target, pure x)) (· = ·) := by
  rw [ofPart, ofPart, pure_bind, pure_bind]
  refine h.bind fun inner _ same => ?_
  subst same
  exact .of_pure rfl

/-- Taking the next value out of a source that holds one. -/
theorem mirrors_takeNext (v : Value) (left : List Value) :
    Check.Mirrors g number (v :: left) left (Check.takeNext number) (pure ())
      fun next _ => next = some v := by
  intro store present
  have next : (store.holding number (v :: left)).next number =
      (some v, store.holding number left) := by
    simp [Store.holding, Store.next, present]
  have taken : (Check.takeNext number).runOn g (store.holding number (v :: left)) =
      (.ok ((store.holding number (v :: left)).next number).1,
        ((store.holding number (v :: left)).next number).2) := rfl
  rw [taken, next]
  exact ⟨rfl, rfl, present⟩

/-- The parts of a list that are visited, its first item being the one with the given number. -/
def listedParts (g : ObjectGraph) (indices : List Value) (index : Nat) (items : List Value) :
    List (Segment × Check Value) :=
  (((items.zipIdx index).map fun (v, i) => (i, v)).filter fun (i, _) =>
      Validation.selected g indices (.int (i : Nat))).map fun (i, element) =>
    (.ofIndex i, pure element)

theorem listedParts_cons (indices : List Value) (index : Nat) (v : Value) (items : List Value) :
    listedParts g indices index (v :: items) =
      (if Validation.selected g indices (.int index) then [(.ofIndex index, pure v)] else []) ++
        listedParts g indices (index + 1) items := by
  unfold listedParts
  cases chosen : Validation.selected g indices (.int index) <;> simp [List.zipIdx_cons, chosen]

/-- Visiting what a source yields is visiting the elements of a list, as long as the visits leave
the source alone. -/
theorem mirrors_ofSource (indices : List Value) {items : List Value} (index : Nat)
    (h : ∀ x ∈ items, ∀ left, Check.Mirrors g number left left (visit x) (visit' x) (· = ·)) :
    Check.Mirrors g number items [] (ofSource visit g indices number items.length index)
      (Check.inTurn (fun _ => false) ((listedParts g indices index items).map (ofPart visit')))
      (· = ·) := by
  induction items generalizing index with
  | nil => exact .of_pure rfl
  | cons v items ih =>
    have later := ih (index + 1) fun x member => h x (List.mem_cons_of_mem _ member)
    rw [listedParts_cons, List.length_cons, ofSource,
      ← pure_bind () fun _ => Check.inTurn _ (List.map (ofPart visit') _)]
    refine (mirrors_takeNext v items).bind fun next _ found => ?_
    subst found
    dsimp only
    split
    · refine (mirrors_ofPart (h v List.mem_cons_self items) _).bind fun first _ same => ?_
      subst same
      refine later.bind fun rest _ same => ?_
      subst same
      exact .of_pure rfl
    · exact later

theorem mirrors_ofElements (indices : List Value) {items : List Value}
    (h : ∀ x ∈ items, ∀ left, Check.Mirrors g number left left (visit x) (visit' x) (· = ·)) :
    Check.Mirrors g number items [] (ofElements visit (.source number) (.iterated indices))
      (ofElements visit' (.list items) (.iterated indices)) (· = ·) := by
  intro store present
  have left : (store.holding number items).remaining number = items := by
    simp [Store.holding, Store.remaining, present]
  have asked : (ofElements visit (.source number) (.iterated indices)).runOn g
        (store.holding number items) =
      (ofSource visit g indices number items.length 0).runOn g (store.holding number items) := by
    simp only [ofElements, Check.runOn_bind, Check.runOn_read, Check.runOn_get, left]
  have listed : (ofElements visit' (.list items) (.iterated indices)).runOn g store =
      (Check.inTurn (fun _ => false)
        ((listedParts g indices 0 items).map (ofPart visit'))).runOn g store := by
    simp only [ofElements, Elements.parts, Value.items?, Value.sequenceItems?, Check.runOn_bind,
      Check.runOn_read, Check.runOn_pure, Validation.numbered, listedParts]
  rw [asked, listed]
  exact mirrors_ofSource indices 0 h store present

end Trace

end PathRules
