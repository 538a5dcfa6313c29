import PathRules.Proofs.Trace.Evaluate
import PathRules.Proofs.Value.Faults
import PathRules.Proofs.Value.Same

/-!
# Taking a part again

A segment leads to the same part whenever it is followed, unless it starts from a one-shot
source or its extractor is not steady.  The segments under which elements are visited lead to
those elements.
-/

namespace PathRules

open Check.IsSteady

variable {g : ObjectGraph}

namespace Value

def isSource : Value → Bool
  | .source _ => true
  | _ => false

/-- A value that can be iterated again and again, and no further than positions count. -/
structure Iterable (g : ObjectGraph) (v : Value) : Prop where
  notSource : v.isSource = false
  length_le : ∀ items, v.items? g = some items → (items.length : Int) ≤ largestAdvance

/-- A map whose keys are as keys have to be: hashable and pairwise different. -/
structure Mapping (g : ObjectGraph) (pairs : List (Value × Value)) : Prop where
  hashable : ∀ pair ∈ pairs, pair.1.isHashable g = true
  distinct : pairs.Pairwise fun a b => same g a.1 b.1 = false

theorem isSteady_contains {v : Value} (h : v.isSource = false) (key : Value) :
    (v.contains key).IsSteady g := by
  refine of_read.bind fun _ => ?_
  cases v with
  | source number => cases h
  | map pairs => exact of_ite (of_pure _) (of_throw _)
  | set items =>
    cases key with
    | set _ => exact of_pure _
    | _ => exact of_ite (of_pure _) (of_throw _)
  | str s =>
    cases key with
    | str part => exact of_pure _
    | _ => exact of_throw _
  | _ =>
    dsimp only
    split
    · exact of_pure _
    · exact of_throw _

theorem isSteady_elementAt {v : Value} (h : v.isSource = false) (position : Value)
    (shown : String) : (v.elementAt position shown).IsSteady g := by
  refine of_read.bind fun _ => of_ite (of_ofExcept _) ?_
  dsimp only
  split
  · cases h
  · split
    · exact of_throw _
    · refine (of_ofExcept _).bind fun n => ?_
      split
      · exact of_pure _
      · exact of_throw _

theorem item_eq_ok {v : Value} (sequence : v.isSequence = true) {items : List Value}
    (listed : v.items? g = some items) {index : Nat} {element : Value}
    (found : items[index]? = some element) : v.item g (.int index) = .ok element := by
  have bound : index < items.length := (List.getElem?_eq_some_iff.mp found).1
  have placed : place? items.length (index : Int) = some index := by
    have counted : ¬(index : Int) < 0 := by omega
    simp [place?, counted, bound]
  have parts : v.sequenceItems? = some items := by
    cases v <;> first | exact listed | cases sequence
  have indexed : v.item g (.int index) = itemAt items index := by
    cases v <;> first | (cases sequence; done) | simp [item, parts, int?]
  rw [indexed, itemAt, placed, Option.bind_some, found]

theorem elementAt_of_isSequence {v : Value} (sequence : v.isSequence = true) (position : Value)
    (shown : String) :
    v.elementAt position shown = read >>= fun g => Check.ofExcept (v.item g position) := by
  unfold elementAt
  simp only [sequence, if_true]

/-- Following an index leads to the item at it, in sequences and elsewhere. -/
theorem answers_elementAt {v : Value} (iterable : v.Iterable g) {items : List Value}
    (listed : v.items? g = some items) {index : Nat} {element : Value}
    (found : items[index]? = some element) (shown : String) :
    (v.elementAt (.int index) shown).Answers g element := by
  intro store
  have counted : (index : Int) ≤ largestAdvance := by
    have bound : index < items.length := (List.getElem?_eq_some_iff.mp found).1
    have := iterable.length_le items listed
    omega
  cases sequence : v.isSequence with
  | true =>
    rw [elementAt_of_isSequence sequence, Check.runOn_bind, Check.runOn_read]
    simp [item_eq_ok sequence listed found]
  | false =>
    unfold elementAt
    rw [Check.runOn_bind, Check.runOn_read]
    have notSource := iterable.notSource
    cases v with
    | source number => cases notSource
    | _ => simp [Check.runOn_bind, sequence, listed, int?, counted, found]

end Value

/-- Following a segment again leads to the same part. -/
theorem Segment.isSteady_get {s : Segment} {v : Value} (notSource : v.isSource = false)
    (h : ∀ extract ∈ s.extract?, (extract v).IsSteady g) : (s.get v).IsSteady g := by
  cases s with
  | this => exact of_pure v
  | property name extract => exact h extract rfl
  | call name extract => exact h extract rfl
  | custom identifier name extract => exact h extract rfl
  | entry key name =>
    refine (Value.isSteady_contains notSource key).bind fun found => of_ite ?_ ?_
    · exact of_read.bind fun _ => (of_ofExcept _).bind fun _ => of_pure _
    · exact of_read.bind fun _ => of_throw _
  | index position name =>
    exact of_read.bind fun _ => Value.isSteady_elementAt notSource position _

theorem Segment.exists_ofKey_eq (g : ObjectGraph) (key : Value) :
    ∃ name, ofKey g key = .entry key name := by
  cases key <;> exact ⟨_, rfl⟩

/-- The key of a map leads to the entry. -/
theorem Segment.answers_get_entry {pairs : List (Value × Value)} {key value : Value}
    (hashable : key.isHashable g = true) (found : Value.lookupPair g pairs key = some value)
    (name : String) : ((entry key name).get (.map pairs)).Answers g (.entry key value) := by
  have contained : (Value.contains (.map pairs) key).Answers g true := by
    intro store
    simp [Value.contains, Check.runOn_bind, hashable, found]
  have taken : Value.item g (.map pairs) key = .ok value := by
    simp [Value.item, hashable, found]
  apply contained.bind
  rw [if_pos rfl]
  refine Check.Answers.bind (a := g) (fun _ => rfl) ?_
  exact Check.Answers.bind (a := value) (fun store => by rw [Check.runOn_ofExcept, taken])
    (.of_pure _)

namespace Elements

/-- The values whose elements can be validated by position, as entries, or one after the
other, and be found again under their segments. -/
def Suits (g : ObjectGraph) : Elements → Value → Prop
  | .iterated _, v => v.Iterable g
  | .positions _, v => v.isSequence = true
  | .entries _, v => ∃ pairs, v = .map pairs ∧ Value.Mapping g pairs

/-- The segment of an element leads to the element. -/
theorem ensures_parts {kind : Elements} {v : Value} (suits : kind.Suits g v) :
    (kind.parts g v).Ensures g fun parts => ∀ part ∈ parts, ∀ element,
      part.2.CanAnswer g element → (part.1.get v).Answers g element := by
  cases kind with
  | iterated indices =>
    dsimp only [parts]
    split
    · next items listed =>
      refine Check.Meets.of_pure fun part member element can => ?_
      obtain ⟨⟨index, item⟩, among, rfl⟩ := List.mem_map.mp member
      obtain ⟨store, answered⟩ := can
      cases answered
      have found : items[index]? = some item := by
        obtain ⟨pair, paired, same⟩ := List.mem_map.mp (List.mem_filter.mp among).1
        cases same
        exact List.mem_zipIdx_iff_getElem?.mp paired
      refine Check.Answers.bind (a := g) (fun _ => rfl) ?_
      exact Value.answers_elementAt suits listed found _
    · exact Check.Meets.of_throw trivial
  | positions indices =>
    dsimp only [parts]
    split
    · refine Check.Meets.of_pure fun part member element can => ?_
      obtain ⟨index, -, rfl⟩ := List.mem_map.mp member
      have taken : v.item g (.int index) = .ok element := by
        obtain ⟨store, answered⟩ := can
        rwa [Check.runOn_ofExcept] at answered
      refine Check.Answers.bind (a := g) (fun _ => rfl) fun store => ?_
      rw [Value.elementAt_of_isSequence suits, Check.runOn_bind, Check.runOn_read]
      simp [taken]
    · exact Check.Meets.of_throw trivial
  | entries keys =>
    obtain ⟨pairs, rfl, mapping⟩ := suits
    refine Check.Meets.of_pure fun part member element can => ?_
    obtain ⟨⟨key, value⟩, among, rfl⟩ := List.mem_map.mp member
    obtain ⟨store, answered⟩ := can
    cases answered
    have held : (key, value) ∈ pairs := (List.mem_filter.mp among).1
    have hashable : key.isHashable g = true := mapping.hashable _ held
    have found : Value.lookupPair g pairs key = some value :=
      Value.lookupPair_of_mem mapping.distinct held
    obtain ⟨name, entered⟩ := Segment.exists_ofKey_eq g key
    change ((Segment.ofKey g key).get (.map pairs)).Answers g (.entry key value)
    rw [entered]
    exact Segment.answers_get_entry hashable found name

end Elements

end PathRules
