import PathRules.Proofs.Value.Same

/-!
# Being the same is transitive

Numbers of all kinds are the same if they stand for one value, and containers if their parts are.
So whatever is the same as a value is also the same as what that value is the same as, across
numbers of different kinds, entries and pairs, and instances that refer to each other.
-/

namespace PathRules

theorem twoTo_pos (k : Int) : 0 < twoTo k := Nat.two_pow_pos _

theorem twoTo_sub {e f s : Int} (he : s ≤ e) (hf : s ≤ f) :
    twoTo (e - s) = twoTo (e - f) * twoTo (min e f - s) := by
  unfold twoTo
  rw [Nat.pow_eq, Nat.pow_eq, Nat.pow_eq, ← Nat.pow_add]
  congr 1
  omega

namespace Number

theorem signed_mul (negative : Bool) (m k : Nat) :
    signed negative (m * k) = signed negative m * k := by
  cases negative with
  | false => exact Int.natCast_mul m k
  | true => exact (congrArg Neg.neg (Int.natCast_mul m k)).trans (Int.neg_mul _ _).symm

/-- Two numbers are compared at any common scale that is fine enough. -/
theorem signed_eq_iff {a b : Bool} {m n : Nat} {e f s : Int} (he : s ≤ e) (hf : s ≤ f) :
    signed a (m * twoTo (e - f)) = signed b (n * twoTo (f - e)) ↔
      signed a (m * twoTo (e - s)) = signed b (n * twoTo (f - s)) := by
  have scale : (twoTo (min e f - s) : Int) ≠ 0 := by
    have := twoTo_pos (min e f - s)
    omega
  have back : twoTo (f - s) = twoTo (f - e) * twoTo (min e f - s) := by
    rw [twoTo_sub hf he, Int.min_comm]
  rw [twoTo_sub he hf, back, ← Nat.mul_assoc, ← Nat.mul_assoc, signed_mul a (m * _),
    signed_mul b (n * _)]
  exact ⟨fun same => by rw [same], fun same => Int.eq_of_mul_eq_mul_right scale same⟩

/-- Only an infinity is the same as an infinity. -/
theorem compare?_infinite_left {b : Bool} {x : Number}
    (same : compare? (.infinite b) x = some .eq) : x = .infinite b := by
  cases x with
  | nan tag => simp [compare?_nan_right] at same
  | infinite a => cases a <;> cases b <;> simp_all [compare?]
  | finite a m e => cases b <;> simp [compare?] at same

theorem compare?_infinite_right {b : Bool} {x : Number}
    (same : compare? x (.infinite b) = some .eq) : x = .infinite b := by
  cases x with
  | nan tag => simp [compare?_nan_left] at same
  | infinite a => cases a <;> cases b <;> simp_all [compare?]
  | finite a m e => cases b <;> simp [compare?] at same

theorem compare?_eq_trans {x y z : Number} (first : x.compare? y = some .eq)
    (second : y.compare? z = some .eq) : x.compare? z = some .eq := by
  cases y with
  | nan tag => simp [compare?_nan_left] at second
  | infinite b =>
    obtain rfl := compare?_infinite_right first
    exact second
  | finite b n f =>
    cases x with
    | nan tag => simp [compare?_nan_left] at first
    | infinite a => exact absurd (compare?_infinite_left first) (by simp)
    | finite a m e =>
      cases z with
      | nan tag => simp [compare?_nan_right] at second
      | infinite c => exact absurd (compare?_infinite_right second) (by simp)
      | finite c k h =>
        simp only [compare?, Option.some.injEq, Std.compare_eq_iff_eq] at first second ⊢
        have he : min e (min f h) ≤ e := by omega
        have hf : min e (min f h) ≤ f := by omega
        have hh : min e (min f h) ≤ h := by omega
        rw [signed_eq_iff he hf] at first
        rw [signed_eq_iff hf hh] at second
        rw [signed_eq_iff he hh]
        exact first.trans second

end Number

namespace Value

theorem sameNumber_trans {x y z : Number} (first : sameNumber x y = true)
    (second : sameNumber y z = true) : sameNumber x z = true := by
  cases y with
  | nan tag =>
    cases x <;> cases z <;> simp_all [sameNumber, Number.compare?]
  | infinite b =>
    have compared : x.compare? (.infinite b) = some .eq := by
      cases x <;> simpa [sameNumber] using first
    obtain rfl := Number.compare?_infinite_right compared
    exact second
  | finite b n f =>
    have compared : x.compare? (.finite b n f) = some .eq := by
      cases x <;> simpa [sameNumber] using first
    have compared' : Number.compare? (.finite b n f) z = some .eq := by
      cases z <;> simpa [sameNumber] using second
    have whole := Number.compare?_eq_trans compared compared'
    cases x with
    | nan tag => cases compared
    | infinite a | finite a m e => cases z <;> simp_all [sameNumber]

variable {objects : Nat → Nat → Bool}

theorem sameWith_number {a b : Value} {x : Number} (number : a.number? = some x) :
    sameWith objects a b = true ↔ ∃ y, b.number? = some y ∧ sameNumber x y = true := by
  cases a <;> simp only [number?, Option.some.injEq, reduceCtorEq] at number <;> subst number <;>
    simp only [sameWith] <;> cases b.number? <;> simp

theorem sameWith_tuple {a b : Value} {xs : List Value} (items : a.tupleItems? = some xs) :
    sameWith objects a b = true ↔
      ∃ ys, b.tupleItems? = some ys ∧ sameItems objects xs ys = true := by
  cases a <;> simp only [tupleItems?, Option.some.injEq, reduceCtorEq] at items <;> subst items
  · simp only [sameWith]
    cases b.tupleItems? <;> simp
  · simp only [sameWith]
    rcases b.tupleItems? with _ | _ | ⟨y, _ | ⟨z, _ | _⟩⟩ <;> simp [sameItems]

theorem samePairs_iff {ps qs : List (Value × Value)} :
    samePairs objects ps qs = true ↔ ∀ p ∈ ps, ∃ q ∈ qs,
      sameWith objects p.1 q.1 = true ∧ sameWith objects p.2 q.2 = true := by
  induction ps with
  | nil => simp [samePairs]
  | cons p ps ih =>
    rw [samePairs, Bool.and_eq_true, ih, List.forall_mem_cons, List.any_eq_true]
    simp only [Bool.and_eq_true]

theorem sameMembers_iff {xs ys : List Value} :
    sameMembers objects xs ys = true ↔ ∀ x ∈ xs, ∃ y ∈ ys, sameWith objects x y = true := by
  induction xs with
  | nil => simp [sameMembers]
  | cons x xs ih => rw [sameMembers, Bool.and_eq_true, ih, List.forall_mem_cons, List.any_eq_true]

mutual

theorem sameWith_trans (h : ∀ i j k, objects i j = true → objects j k = true → objects i k = true)
    (a b c : Value) (first : sameWith objects a b = true) (second : sameWith objects b c = true) :
    sameWith objects a c = true := by
  cases a with
  | null => cases b <;> simp_all [sameWith]
  | str s => cases b <;> simp_all [sameWith]
  | source i => cases b <;> cases c <;> simp_all [sameWith]
  | object i =>
    cases b <;> simp only [sameWith, Bool.false_eq_true] at first
    cases c <;> simp only [sameWith, Bool.false_eq_true] at second
    exact h _ _ _ first second
  | list xs =>
    cases b <;> simp only [sameWith, Bool.false_eq_true] at first
    cases c <;> simp only [sameWith, Bool.false_eq_true] at second
    exact sameItems_trans h xs _ _ first second
  | tuple xs =>
    obtain ⟨ys, items, first⟩ := (sameWith_tuple rfl).mp first
    obtain ⟨zs, items', second⟩ := (sameWith_tuple items).mp second
    exact (sameWith_tuple rfl).mpr ⟨zs, items', sameItems_trans h xs ys zs first second⟩
  | entry key value =>
    obtain ⟨ys, items, first⟩ := (sameWith_tuple rfl).mp first
    obtain ⟨zs, items', second⟩ := (sameWith_tuple items).mp second
    refine (sameWith_tuple rfl).mpr ⟨zs, items', ?_⟩
    rcases ys with _ | ⟨y, _ | ⟨y', _ | _⟩⟩ <;> simp [sameItems] at first
    rcases zs with _ | ⟨z, _ | ⟨z', _ | _⟩⟩ <;> simp [sameItems] at second
    simp [sameItems, sameWith_trans h key y z first.1 second.1,
      sameWith_trans h value y' z' first.2 second.2]
  | map ps =>
    cases b <;> simp only [sameWith, Bool.false_eq_true] at first
    cases c <;> simp only [sameWith, Bool.false_eq_true] at second
    simp only [sameWith, Bool.and_eq_true, beq_iff_eq] at first second ⊢
    exact ⟨first.1.trans second.1, samePairs_trans h ps _ _ first.2 second.2⟩
  | set xs =>
    cases b <;> simp only [sameWith, Bool.false_eq_true] at first
    cases c <;> simp only [sameWith, Bool.false_eq_true] at second
    simp only [sameWith, Bool.and_eq_true, beq_iff_eq] at first second ⊢
    exact ⟨first.1.trans second.1, sameMembers_trans h xs _ _ first.2 second.2⟩
  | bool _ | int _ | real _ =>
    obtain ⟨y, number, first⟩ := (sameWith_number rfl).mp first
    obtain ⟨z, number', second⟩ := (sameWith_number number).mp second
    exact (sameWith_number rfl).mpr ⟨z, number', sameNumber_trans first second⟩
termination_by structural a

theorem sameItems_trans (h : ∀ i j k, objects i j = true → objects j k = true → objects i k = true)
    (xs ys zs : List Value) (first : sameItems objects xs ys = true)
    (second : sameItems objects ys zs = true) : sameItems objects xs zs = true := by
  cases xs with
  | nil =>
    cases ys with
    | nil => exact second
    | cons y ys => cases first
  | cons x xs =>
    cases ys with
    | nil => cases first
    | cons y ys =>
      cases zs with
      | nil => cases second
      | cons z zs =>
        simp only [sameItems, Bool.and_eq_true] at first second ⊢
        exact ⟨sameWith_trans h x y z first.1 second.1, sameItems_trans h xs ys zs first.2 second.2⟩
termination_by structural xs

/-- Every pair is found by way of the pair in the middle. -/
theorem samePairs_trans (h : ∀ i j k, objects i j = true → objects j k = true → objects i k = true)
    (ps qs rs : List (Value × Value)) (first : samePairs objects ps qs = true)
    (second : samePairs objects qs rs = true) : samePairs objects ps rs = true := by
  cases ps with
  | nil => rfl
  | cons p ps =>
    obtain ⟨key, value⟩ := p
    simp only [samePairs, Bool.and_eq_true, List.any_eq_true] at first ⊢
    obtain ⟨⟨q, member, key_same, value_same⟩, rest⟩ := first
    obtain ⟨r, member', key_same', value_same'⟩ := samePairs_iff.mp second q member
    exact ⟨⟨r, member', sameWith_trans h key _ _ key_same key_same',
      sameWith_trans h value _ _ value_same value_same'⟩, samePairs_trans h ps qs rs rest second⟩
termination_by structural ps

theorem sameMembers_trans
    (h : ∀ i j k, objects i j = true → objects j k = true → objects i k = true)
    (xs ys zs : List Value) (first : sameMembers objects xs ys = true)
    (second : sameMembers objects ys zs = true) : sameMembers objects xs zs = true := by
  cases xs with
  | nil => rfl
  | cons x xs =>
    simp only [sameMembers, Bool.and_eq_true, List.any_eq_true] at first ⊢
    obtain ⟨⟨y, member, same⟩, rest⟩ := first
    obtain ⟨z, member', same'⟩ := sameMembers_iff.mp second y member
    exact ⟨⟨z, member', sameWith_trans h x y z same same'⟩,
      sameMembers_trans h xs ys zs rest second⟩
termination_by structural xs

end

end Value

/-- Instances are compared as deep as they can be reached, and transitively at every depth. -/
theorem ObjectGraph.sameObject_trans (g : ObjectGraph) (fuel : Nat) (i j k : Nat)
    (first : g.sameObject fuel i j = true) (second : g.sameObject fuel j k = true) :
    g.sameObject fuel i k = true := by
  induction fuel generalizing i j k with
  | zero => rfl
  | succ fuel ih =>
    simp only [sameObject, Bool.or_eq_true, beq_iff_eq] at first second ⊢
    rcases first with rfl | first
    · exact second
    rcases second with rfl | second
    · exact .inr first
    refine .inr ?_
    cases at_i : g.object? i with
    | none => simp [at_i] at first
    | some a =>
      cases at_j : g.object? j with
      | none => simp [at_j] at second
      | some b =>
        cases at_k : g.object? k with
        | none => simp [at_j, at_k] at second
        | some c =>
          simp only [at_i, at_j, at_k, Bool.and_eq_true, beq_iff_eq] at first second ⊢
          obtain ⟨⟨⟨model, -⟩, cls⟩, fields⟩ := first
          obtain ⟨⟨⟨-, model'⟩, cls'⟩, fields'⟩ := second
          exact ⟨⟨⟨model, model'⟩, cls.trans cls'⟩, Value.sameItems_trans ih _ _ _ fields fields'⟩

theorem Value.same_trans {g : ObjectGraph} {a b c : Value} (first : same g a b = true)
    (second : same g b c = true) : same g a c = true :=
  sameWith_trans (g.sameObject_trans g.reach) a b c first second

end PathRules
