import PathRules.Constraint.Catalog
import PathRules.Proofs.Check
import PathRules.Proofs.Value.Same

/-!
# Distinct items

Whether the items of a collection are distinct is decided in two ways: by the size of the set of
them where all can be keys, and by looking for each item among those before it otherwise.  Either
way decides that no two items are one object or equal, whatever the hashes by which the set looks
for its members, as long as equal members have equal hashes.
-/

namespace PathRules

namespace Value

mutual

/-- What is written alike is the same value. -/
theorem eq_of_identical : (a b : Value) → a.identical b = true → a = b
  | .null, b, h => by cases b <;> simp_all [identical]
  | .bool _, b, h => by cases b <;> simp_all [identical]
  | .int _, b, h => by cases b <;> simp_all [identical]
  | .real _, b, h => by cases b <;> simp_all [identical]
  | .str _, b, h => by cases b <;> simp_all [identical]
  | .source _, b, h => by cases b <;> simp_all [identical]
  | .object _, b, h => by cases b <;> simp_all [identical]
  | .list xs, b, h => by
    cases b <;> simp only [identical, Bool.false_eq_true] at h
    rw [eq_of_areIdentical xs _ h]
  | .tuple xs, b, h => by
    cases b <;> simp only [identical, Bool.false_eq_true] at h
    rw [eq_of_areIdentical xs _ h]
  | .set xs, b, h => by
    cases b <;> simp only [identical, Bool.false_eq_true] at h
    rw [eq_of_areIdentical xs _ h]
  | .map ps, b, h => by
    cases b <;> simp only [identical, Bool.false_eq_true] at h
    rw [eq_of_arePairsIdentical ps _ h]
  | .entry key value, b, h => by
    cases b <;> simp only [identical, Bool.false_eq_true, Bool.and_eq_true] at h
    rw [eq_of_identical key _ h.1, eq_of_identical value _ h.2]
termination_by structural a => a

theorem eq_of_areIdentical : (xs ys : List Value) → areIdentical xs ys = true → xs = ys
  | [], ys, h => by cases ys <;> simp_all [areIdentical]
  | x :: xs, ys, h => by
    cases ys with
    | nil => simp [areIdentical] at h
    | cons y ys =>
      simp only [areIdentical, Bool.and_eq_true] at h
      rw [eq_of_identical x y h.1, eq_of_areIdentical xs ys h.2]
termination_by structural xs => xs

theorem eq_of_arePairsIdentical : (ps qs : List (Value × Value)) →
    arePairsIdentical ps qs = true → ps = qs
  | [], qs, h => by cases qs <;> simp_all [arePairsIdentical]
  | (key, value) :: ps, qs, h => by
    cases qs with
    | nil => simp [arePairsIdentical] at h
    | cons q qs =>
      simp only [arePairsIdentical, Bool.and_eq_true] at h
      rw [eq_of_identical key q.1 h.1.1, eq_of_identical value q.2 h.1.2,
        eq_of_arePairsIdentical ps qs h.2]
termination_by structural ps => ps

end

/-- What is not a number is found only as the same object. -/
theorem eq_of_same_nan {g : ObjectGraph} {tag : Nat} {b : Value}
    (alike : same g (.real (.nan tag)) b = true) : b = .real (.nan tag) := by
  cases b <;> simp only [same, sameWith, number?, Bool.false_eq_true] at alike
  case real y => cases y <;> simp_all [sameNumber, Number.compare?]
  all_goals simp [sameNumber, Number.ofInt, Number.compare?] at alike

/-- Containers take two values for one if they are one object or equal. -/
theorem same_iff {g : ObjectGraph} {a b : Value} :
    same g a b = true ↔ a.identical b = true ∨ a.eq g b = true := by
  constructor
  · intro alike
    cases number : a.isNaN with
    | false => exact .inr (by simp [eq, number, alike])
    | true =>
      obtain ⟨tag, rfl⟩ : ∃ tag, a = .real (.nan tag) := by
        cases a <;> simp only [isNaN, Bool.false_eq_true] at number
        next x => cases x <;> simp_all [Number.isNaN]
      left
      simp [eq_of_same_nan alike, identical]
  · rintro (identical | equal)
    · rw [eq_of_identical a b identical]
      exact same_refl g b
    · simp only [eq, Bool.and_eq_true] at equal
      exact equal.2

end Value

namespace Constraint

variable {g : ObjectGraph}

/-- No two items are one object or equal. -/
def PairwiseDistinct (g : ObjectGraph) (items : List Value) : Prop :=
  items.Pairwise fun a b => ¬(a.identical b = true ∨ a.eq g b = true)

instance (g : ObjectGraph) (items : List Value) : Decidable (PairwiseDistinct g items) :=
  inferInstanceAs (Decidable (items.Pairwise fun a b => ¬(a.identical b = true ∨ a.eq g b = true)))

theorem pairwiseDistinct_iff {items : List Value} :
    PairwiseDistinct g items ↔ items.Pairwise fun a b => Value.same g a b = false := by
  simp only [PairwiseDistinct, ← Value.same_iff, Bool.not_eq_true]

/-- No item is found among those before it, the ones in `seen` coming first. -/
def Apart (finds : Value → Value → Bool) (seen items : List Value) : Prop :=
  (items.Pairwise fun a b => finds a b = false) ∧
    ∀ old ∈ seen, ∀ v ∈ items, finds old v = false

variable {finds : Value → Value → Bool}

theorem apart_nil_iff {items : List Value} :
    Apart finds [] items ↔ items.Pairwise fun a b => finds a b = false := by
  simp [Apart]

theorem apart_cons_iff {seen items : List Value} {v : Value} :
    Apart finds seen (v :: items) ↔
      (∀ old ∈ seen, finds old v = false) ∧ Apart finds (seen ++ [v]) items := by
  simp only [Apart, List.pairwise_cons, List.mem_append, List.mem_singleton, List.forall_mem_cons]
  constructor
  · rintro ⟨⟨first, rest⟩, apart⟩
    refine ⟨fun old mem => (apart old mem).1, rest, ?_⟩
    rintro old (mem | rfl) w later
    · exact (apart old mem).2 w later
    · exact first w later
  · rintro ⟨new, rest, apart⟩
    exact ⟨⟨apart v (.inr rfl), rest⟩, fun old mem => ⟨new old mem, apart old (.inl mem)⟩⟩

/-- Looking for each item among those before it. -/
theorem noneRepeats_iff (seen items : List Value) :
    noneRepeats g seen items = true ↔ Apart (Value.same g) seen items := by
  induction items generalizing seen with
  | nil => simp [noneRepeats, Apart]
  | cons v items ih =>
    rw [noneRepeats, Bool.and_eq_true, ih, apart_cons_iff, Value.isMember]
    simp

/-- The items that a table keeps which takes no item that it finds in itself. -/
def kept (finds : Value → Value → Bool) (seen items : List Value) : List Value :=
  items.foldl (fun seen v => if seen.any (finds · v) then seen else seen ++ [v]) seen

theorem length_kept_le (finds : Value → Value → Bool) (seen items : List Value) :
    (kept finds seen items).length ≤ seen.length + items.length := by
  induction items generalizing seen with
  | nil => simp [kept]
  | cons v items ih =>
    rw [kept, List.foldl_cons, ← kept]
    split
    · have := ih seen
      rw [List.length_cons]
      omega
    · have := ih (seen ++ [v])
      rw [List.length_append, List.length_singleton] at this
      rw [List.length_cons]
      omega

/-- A table loses no item exactly if it finds none in itself. -/
theorem length_kept_iff (finds : Value → Value → Bool) (seen items : List Value) :
    (kept finds seen items).length = seen.length + items.length ↔ Apart finds seen items := by
  induction items generalizing seen with
  | nil => simp [kept, Apart]
  | cons v items ih =>
    rw [kept, List.foldl_cons, ← kept, apart_cons_iff]
    split
    · next found =>
      -- The item is lost, and no later one makes up for it.
      have short := length_kept_le finds seen items
      have repeated : ¬∀ old ∈ seen, finds old v = false := by simpa using found
      simp only [repeated, false_and, iff_false, List.length_cons]
      omega
    · next absent =>
      have new : ∀ old ∈ seen, finds old v = false := by simpa using absent
      rw [← ih, and_iff_right new, List.length_append, List.length_singleton, List.length_cons]
      omega

/-- The items of a set that looks for an item only among the members with its hash. -/
def hashed (g : ObjectGraph) (hash : Value → Int) (items : List Value) : List Value :=
  kept (fun old v => hash old == hash v && Value.same g old v) [] items

/-- Equal items have equal hashes, as far as they can be keys. -/
def Coherent (g : ObjectGraph) (hash : Value → Int) (items : List Value) : Prop :=
  ∀ a ∈ items, ∀ b ∈ items, a.isHashable g = true → b.isHashable g = true → a.eq g b = true →
    hash a = hash b

theorem isHashable_of_mem {items : List Value} (h : Value.areHashable g items = true)
    {v : Value} (mem : v ∈ items) : v.isHashable g = true := by
  induction items with
  | nil => cases mem
  | cons w items ih =>
    rw [Value.areHashable, Bool.and_eq_true] at h
    rcases List.mem_cons.mp mem with rfl | later
    · exact h.1
    · exact ih h.2 later

/-- Among items that can be keys, whose hashes agree with equality, hashes hide nothing. -/
theorem same_eq_hashed {hash : Value → Int} {items : List Value}
    (keys : Value.areHashable g items = true) (coherent : Coherent g hash items) {a b : Value}
    (ha : a ∈ items) (hb : b ∈ items) :
    (hash a == hash b && Value.same g a b) = Value.same g a b := by
  cases alike : Value.same g a b with
  | false => exact Bool.and_false _
  | true =>
    have agree : hash a = hash b := by
      rcases Value.same_iff.mp alike with one | equal
      · rw [Value.eq_of_identical a b one]
      · exact coherent a ha b hb (isHashable_of_mem keys ha) (isHashable_of_mem keys hb) equal
    simp [agree]

theorem length_hashed_iff {hash : Value → Int} {items : List Value}
    (keys : Value.areHashable g items = true) (coherent : Coherent g hash items) :
    (hashed g hash items).length = items.length ↔ PairwiseDistinct g items := by
  have lost := length_kept_iff (fun old v => hash old == hash v && Value.same g old v) [] items
  rw [List.length_nil, Nat.zero_add] at lost
  rw [hashed, lost, apart_nil_iff, pairwiseDistinct_iff]
  refine List.Pairwise.iff_of_mem fun {a b} ha hb => ?_
  rw [same_eq_hashed keys coherent ha hb]

theorem length_distinct_iff (items : List Value) :
    (Value.distinct g items).length = items.length ↔ PairwiseDistinct g items := by
  have lost := length_kept_iff (Value.same g) [] items
  rw [List.length_nil, Nat.zero_add, apart_nil_iff, ← pairwiseDistinct_iff] at lost
  exact lost

theorem noneRepeats_nil_iff (items : List Value) :
    noneRepeats g [] items = true ↔ PairwiseDistinct g items := by
  rw [noneRepeats_iff, apart_nil_iff, pairwiseDistinct_iff]

theorem allDistinct_iff (items : List Value) :
    allDistinct g items = true ↔ PairwiseDistinct g items := by
  unfold allDistinct
  split
  · rw [beq_iff_eq, length_distinct_iff]
  · rw [noneRepeats_nil_iff]

/-! ## The checks -/

/-- The items of what the method `values` yields. -/
def listedValues (v : Value) : Check (List Value) := do
  let values ← Check.ofExcept (v.callMethod (← read) "values")
  values.elements

/-- What a check for distinct items makes of the items it lists. -/
def distinctness (g : ObjectGraph) (listed : Except Fault (List Value) × Store) :
    Except Fault Bool × Store :=
  (listed.1.map fun items => decide (PairwiseDistinct g items), listed.2)

theorem runOn_allDistinct (listing : Check (List Value)) (store : Store) :
    (listing >>= fun items => pure (allDistinct g items)).runOn g store =
      distinctness g (listing.runOn g store) := by
  rw [Check.runOn_bind, distinctness]
  rcases listing.runOn g store with ⟨fault | items, after⟩
  · rfl
  · have answer : allDistinct g items = decide (PairwiseDistinct g items) :=
      Bool.eq_iff_iff.mpr ((allDistinct_iff items).trans decide_eq_true_iff.symm)
    simp [answer, Except.map]

theorem runOn_uniqueItems (v : Value) (store : Store) :
    ((uniqueItems true).test v).runOn g store = distinctness g (v.elements.runOn g store) := by
  rw [← runOn_allDistinct]
  simp only [uniqueItems, if_true, Check.runOn_bind, Check.runOn_read]

theorem runOn_uniqueValues (v : Value) (store : Store) :
    ((uniqueValues true).test v).runOn g store =
      distinctness g ((listedValues v).runOn g store) := by
  rw [← runOn_allDistinct, listedValues]
  simp only [uniqueValues, if_true, Check.runOn_bind, Check.runOn_read]
  cases v.callMethod g "values" <;> rfl

/-- Both ways of deciding it decide that no two items are one object or equal: the size of the set
of the items, whatever hashes it looks them up by if equal keys have equal hashes, and the
search of each item among those before it.  So the checks for distinct items and values accept
exactly the collections of such items, also of those that a one-shot source has left. -/
theorem distinct_either_way (g : ObjectGraph) (items : List Value) :
    (allDistinct g items = true ↔ PairwiseDistinct g items) ∧
    ((Value.distinct g items).length = items.length ↔ PairwiseDistinct g items) ∧
    (noneRepeats g [] items = true ↔ PairwiseDistinct g items) ∧
    (∀ hash : Value → Int, Value.areHashable g items = true → Coherent g hash items →
      ((hashed g hash items).length = items.length ↔ PairwiseDistinct g items)) ∧
    ∀ (v : Value) (store : Store),
      ((uniqueItems true).test v).runOn g store = distinctness g (v.elements.runOn g store) ∧
      ((uniqueValues true).test v).runOn g store =
        distinctness g ((listedValues v).runOn g store) :=
  ⟨allDistinct_iff items, length_distinct_iff items, noneRepeats_nil_iff items,
    fun _ keys coherent => length_hashed_iff keys coherent,
    fun v store => ⟨runOn_uniqueItems v store, runOn_uniqueValues v store⟩⟩

/-- Numbers by their whole part, everything else by zero. -/
def wholePart (v : Value) : Int :=
  match v.number? with
  | some (.finite negative mantissa exponent) =>
      Number.signed negative (mantissa * twoTo exponent / twoTo (-exponent))
  | _ => 0

def mixedItems : List Value := [.int 1, .str "a", .real (.finite false 1 0)]

/-- The number one occurs twice, as an integer and as a real number. -/
theorem mixedItems_repeat :
    Value.areHashable {} mixedItems = true ∧ Coherent {} wholePart mixedItems ∧
      (hashed {} wholePart mixedItems).length ≠ mixedItems.length := by
  have keys : Value.areHashable {} mixedItems = true := by decide
  have coherent : Coherent {} wholePart mixedItems := by
    unfold Coherent
    decide
  have repeats : ¬PairwiseDistinct {} mixedItems := by decide
  exact ⟨keys, coherent, fun whole => repeats
    (((distinct_either_way {} mixedItems).2.2.2.1 wholePart keys coherent).mp whole)⟩

end Constraint

end PathRules
