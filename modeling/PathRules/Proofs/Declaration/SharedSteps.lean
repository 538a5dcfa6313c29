import PathRules.Proofs.Declaration.Narrowing
import PathRules.Proofs.Outcome.Places
import PathRules.Proofs.Value.Transitive

/-!
# Equal paths as keys

Drafts keep their steps, and outcomes their groups, under paths that are found by hash first and
then compared.  Equal paths have the same hash, so that they share a step and a group, as long as
equal identifiers of custom segments are also written alike.
-/

namespace PathRules

variable {g : ObjectGraph}

namespace Segment

/-- Custom segments whose identifiers are the same and are written differently. -/
def writtenApart (g : ObjectGraph) : Segment → Segment → Bool
  | .custom a name _, .custom b name' _ => Value.same g a b && name != name'
  | _, _ => false

variable {s t u : Segment}

theorem same_of_eq (equal : s.eq g t = true) : eqBy (Value.same g) s t = true := by
  cases s <;> cases t <;> simp_all [eq, eqBy, Value.eq]

theorem same_trans (first : eqBy (Value.same g) s t = true)
    (second : eqBy (Value.same g) t u = true) : eqBy (Value.same g) s u = true := by
  cases s <;> cases t <;> simp only [eqBy, Bool.false_eq_true] at first <;>
    cases u <;> simp only [eqBy, Bool.false_eq_true] at second
  case custom.custom.custom => exact Value.same_trans first second
  all_goals simp_all [eqBy]

/-- Segments that are the same have one name, unless they are custom and written apart. -/
theorem name_eq_iff (same : eqBy (Value.same g) s t = true) :
    s.name = t.name ↔ writtenApart g s t = false := by
  cases s <;> cases t <;> simp_all [eqBy, writtenApart, name]

theorem sameKey_iff :
    s.sameKey g t = true ↔ eqBy (Value.same g) s t = true ∧ writtenApart g s t = false := by
  rw [sameKey, Bool.and_eq_true, beq_iff_eq]
  exact and_congr_right fun same => name_eq_iff same

theorem sameKey_trans (first : s.sameKey g t = true) (second : t.sameKey g u = true) :
    s.sameKey g u = true := by
  simp only [sameKey, Bool.and_eq_true, beq_iff_eq] at first second ⊢
  exact ⟨same_trans first.1 second.1, first.2.trans second.2⟩

end Segment

namespace Path

/-- Equal paths have one hash, unless they end in custom segments that are written apart. -/
theorem hash_eq_iff {p q : Path} (equal : p.eq g q = true) :
    p.hash = q.hash ↔ p.target.writtenApart g q.target = false := by
  rw [eq, Bool.and_eq_true, beq_iff_eq] at equal
  rw [← Segment.name_eq_iff (Segment.same_of_eq equal.2), hash, hash, equal.1, Prod.mk.injEq]
  exact and_iff_left rfl

end Path

namespace StepKey

variable {a b c : StepKey}

theorem same_trans (first : a.same g b = true) (second : b.same g c = true) :
    a.same g c = true := by
  simp only [same, Path.sameKey, Bool.and_eq_true, beq_iff_eq] at first second ⊢
  obtain ⟨⟨⟨⟨numbers, target⟩, presence⟩, kind⟩, selection⟩ := first
  obtain ⟨⟨⟨⟨numbers', target'⟩, presence'⟩, kind'⟩, selection'⟩ := second
  exact ⟨⟨⟨⟨numbers.trans numbers', Segment.sameKey_trans target target'⟩,
    presence.trans presence'⟩, kind.trans kind'⟩,
    Value.sameItems_trans (g.sameObject_trans g.reach) _ _ _ selection selection'⟩

/-- Equal keys are one key, unless their paths are written apart. -/
theorem same_of_eq (equal : a.eq g b = true)
    (alike : a.path.target.writtenApart g b.path.target = false) : a.same g b = true := by
  simp only [eq, same, Path.eq, Path.sameKey, Bool.and_eq_true] at equal ⊢
  obtain ⟨⟨⟨⟨numbers, target⟩, presence⟩, kind⟩, selection⟩ := equal
  exact ⟨⟨⟨⟨numbers, Segment.sameKey_iff.mpr ⟨Segment.same_of_eq target, alike⟩⟩, presence⟩,
    kind⟩, selection⟩

theorem writtenApart_comm (there : a.eq g b = true) (back : b.eq g a = true)
    (alike : a.path.target.writtenApart g b.path.target = false) :
    b.path.target.writtenApart g a.path.target = false := by
  simp only [eq, Path.eq, Bool.and_eq_true] at there back
  have named := (Segment.name_eq_iff (Segment.same_of_eq there.1.1.1.2)).mpr alike
  exact (Segment.name_eq_iff (Segment.same_of_eq back.1.1.1.2)).mp named.symm

/-- What is one key with either of two that are one key is one key with the other. -/
theorem same_congr (there : a.same g b = true) (back : b.same g a = true) (key : StepKey) :
    key.same g a = key.same g b :=
  Bool.eq_iff_iff.mpr ⟨fun first => same_trans first there, fun first => same_trans first back⟩

end StepKey

/-- Steps that are declared on one draft under one key lead to the same position. -/
theorem Workshop.Sound.step_position_eq {shop : Workshop Logbook} (sound : shop.Sound g)
    {address : Address} {key key' : StepKey} {position position' : Nat}
    (first : (address, .step key position) ∈ shop.deeds)
    (second : (address, .step key' position') ∈ shop.deeds)
    (there : key.same g key' = true) (back : key'.same g key = true) : position = position' := by
  have same : (fun used : StepKey => used.same g key') = fun used => used.same g key :=
    funext fun used => (StepKey.same_congr there back used).symm
  have found := sound.findIdx?_keysOf second
  rw [same, sound.findIdx?_keysOf first] at found
  exact Option.some.inj found

/-- Whatever is performed on a sound workshop, it stays sound and keeps what is there. -/
theorem Workshop.Continues.safe {shop later : Workshop Logbook} (h : shop.Continues g later)
    (sound : shop.Sound g) : later.Sound g ∧ shop.Grows g later := by
  induction h with
  | refl => exact ⟨sound, .refl shop⟩
  | @perform between _ rule address has ih =>
    have performed := rule.perform_safe between address ih.1 has
    exact ⟨performed.sound, ih.2.trans performed.grows⟩

namespace Declaring

variable {shop middle later last : Workshop Logbook} {address part part' : Address}
    {key key' : StepKey}

/-- Steps that are declared on one draft under one key lead to one draft, whatever was declared in
between. -/
theorem enter_shared (sound : shop.Sound g) (has : shop.Has address)
    (first : (enter address key).runOn g shop = (.ok part, middle))
    (between : middle.Continues g later)
    (second : (enter address key').runOn g later = (.ok part', last))
    (there : key.same g key' = true) (back : key'.same g key = true) : part' = part := by
  obtain ⟨sound', grows, -⟩ := (enter_keeps sound has key).ran first
  obtain ⟨sound'', grown⟩ := between.safe sound'
  have whole := ((enter_keeps sound'' (grown.has _ (grows.has _ has)) key').ran second).1
  obtain ⟨-, rfl, rfl⟩ := enter_ran first
  obtain ⟨-, rfl, rfl⟩ := enter_ran second
  have earlier : (address, .step key (positionOf g key (shop.draft address))) ∈ later.deeds :=
    grown.logbook.subset (by simp)
  have one := whole.step_position_eq (List.mem_append_left _ earlier)
    (List.mem_append_right _ (List.mem_singleton_self _)) there back
  rw [one]

end Declaring

namespace Outcome

variable {groups : List (DataPath × List Placed)}

/-- A place is added only if it is the key of no group. -/
theorem addToGroup_pairwise (p : Placed)
    (apart : groups.Pairwise fun a b => DataPath.sameKey g a.1 b.1 = false) :
    (addToGroup g p groups).Pairwise fun a b => DataPath.sameKey g a.1 b.1 = false := by
  induction groups with
  | nil => exact List.pairwise_singleton _ _
  | cons first groups ih =>
    obtain ⟨place, group⟩ := first
    rw [List.pairwise_cons] at apart
    rw [addToGroup]
    split
    · exact List.pairwise_cons.mpr apart
    · rename_i differs
      refine List.pairwise_cons.mpr ⟨fun entry member => ?_, ih apart.2⟩
      rcases place_of_addToGroup member with is | ⟨old, member, is⟩
      · rw [is]
        exact Bool.eq_false_iff.mpr differs
      · rw [is]
        exact apart.1 old member

theorem foldl_addToGroup_pairwise (ps : List Placed)
    (apart : groups.Pairwise fun a b => DataPath.sameKey g a.1 b.1 = false) :
    (ps.foldl (fun groups p => addToGroup g p groups) groups).Pairwise fun a b =>
      DataPath.sameKey g a.1 b.1 = false := by
  induction ps generalizing groups with
  | nil => exact apart
  | cons p ps ih => exact ih (addToGroup_pairwise p apart)

/-- Every key is the place of a failure. -/
theorem place_of_foldl_addToGroup (ps : List Placed) {entry : DataPath × List Placed}
    (member : entry ∈ ps.foldl (fun groups p => addToGroup g p groups) groups) :
    (∃ p ∈ ps, entry.1 = p.place) ∨ ∃ old ∈ groups, entry.1 = old.1 := by
  induction ps generalizing groups with
  | nil => exact .inr ⟨entry, member, rfl⟩
  | cons p ps ih =>
    rcases ih member with ⟨later, held, is⟩ | ⟨old, held, is⟩
    · exact .inl ⟨later, List.mem_cons_of_mem _ held, is⟩
    · rcases place_of_addToGroup held with is' | ⟨old', held', is'⟩
      · exact .inl ⟨p, List.mem_cons_self, is.trans is'⟩
      · exact .inr ⟨old', held', is.trans is'⟩

end Outcome

/-- Data paths that are the same are one key, unless custom segments in them are written apart. -/
theorem DataPath.sameKey_of_same {p q : DataPath} (same : DataPath.same g p q = true)
    (alike : ∀ s ∈ p, ∀ t ∈ q, s.writtenApart g t = false) : DataPath.sameKey g p q = true := by
  induction p generalizing q with
  | nil => cases q <;> exact same
  | cons s p ih =>
    cases q with
    | nil => cases same
    | cons t q =>
      simp only [DataPath.same, sameKey, eqBy, Bool.and_eq_true] at same ⊢
      refine ⟨Segment.sameKey_iff.mpr ⟨same.1, alike s List.mem_cons_self t List.mem_cons_self⟩, ?_⟩
      exact ih same.2 fun s' hs t' ht =>
        alike s' (List.mem_cons_of_mem _ hs) t' (List.mem_cons_of_mem _ ht)

/-- Equality and hashing of paths agree, and what relies on that holds, where no equal identifiers
of custom segments are written apart.  Equal paths have one hash; steps that are declared on one
draft under equal keys lead to one draft, whatever rules are performed on whatever drafts in
between; and no two groups of an outcome have the same place. -/
theorem equal_paths_shared (g : ObjectGraph) :
    (∀ p q : Path, p.eq g q = true → p.target.writtenApart g q.target = false →
      p.hash = q.hash) ∧
      (∀ (shop : Workshop Logbook) (middle later last : Workshop) (address part part' : Address)
        (key key' : StepKey), shop.Sound g → shop.Has address →
        (Declaring.enter address key).runOn g shop.erased = (.ok part, middle) →
        middle.Continues g later →
        (Declaring.enter address key').runOn g later = (.ok part', last) →
        key.eq g key' = true → key'.eq g key = true →
        key.path.target.writtenApart g key'.path.target = false → part' = part) ∧
      (∀ outcome : Outcome,
        (∀ p ∈ outcome.failures, ∀ q ∈ outcome.failures, ∀ s ∈ p.place, ∀ t ∈ q.place,
          s.writtenApart g t = false) →
        (outcome.grouped g).Pairwise fun a b => DataPath.same g a.1 b.1 = false) := by
  refine ⟨fun p q equal alike => (Path.hash_eq_iff equal).mpr alike, ?_, fun outcome alike => ?_⟩
  · intro shop middle later last address part part' key key' sound has first between second equal
      equal' alike
    obtain ⟨middle, entered, rfl⟩ := (Declaring.enter_erases g address key).ran first
    obtain ⟨later, rfl, continues⟩ := between.logged
    obtain ⟨last, entered', -⟩ := (Declaring.enter_erases g address key').ran second
    have there := StepKey.same_of_eq equal alike
    have back := StepKey.same_of_eq equal' (StepKey.writtenApart_comm equal equal' alike)
    exact Declaring.enter_shared sound has entered continues entered' there back
  · have keys : (outcome.grouped g).Pairwise fun a b => DataPath.sameKey g a.1 b.1 = false :=
      Outcome.foldl_addToGroup_pairwise outcome.failures .nil
    refine keys.imp_of_mem fun {a b} ha hb apart => Bool.eq_false_iff.mpr fun same => ?_
    obtain ⟨p, hp, isP⟩ | ⟨_, none, -⟩ := Outcome.place_of_foldl_addToGroup _ ha
    obtain ⟨q, hq, isQ⟩ | ⟨_, none, -⟩ := Outcome.place_of_foldl_addToGroup _ hb
    · have one := DataPath.sameKey_of_same same (isP ▸ isQ ▸ alike p hp q hq)
      rw [apart] at one
      cases one
    · cases none
    · cases none

/-- A path with an identifier of its own. -/
def customPath (g : ObjectGraph) (identifier : Value) : Path :=
  { target := .ofIdentifier g identifier Extract.nothing }

/-- A workshop with one draft. -/
def singleDraft {Log : Type} [Journal Log] : Workshop Log := { drafts := [.empty false] }

theorem sound_singleDraft (g : ObjectGraph) : Workshop.Sound g singleDraft :=
  Workshop.sound_addDraft false false (Workshop.sound_empty g)

/-- An outcome that rejects at these places. -/
def rejectedAt (places : List DataPath) : Outcome :=
  .rejected (.group .all (places.map fun place => .leaf ⟨⟨.error, "is wrong", .null⟩, place⟩))

/-- Paths with one identifier share a draft and a group. -/
theorem equal_paths_shared_of_identifier :
    let p := customPath {} (.int 1)
    let q : Path := { target := .custom (.int 1) "1" fun _ => pure .null }
    p.hash = q.hash ∧
      (∃ part middle last,
        (Declaring.enter ⟨0, []⟩ { path := p }).runOn {} singleDraft = (.ok part, middle) ∧
        (Declaring.enter ⟨0, []⟩ { path := q }).runOn {}
          (((Rule.group .any true []).perform part).runOn {} middle).2 = (.ok part, last)) ∧
      ((rejectedAt [[p.target], [q.target]]).grouped {}).Pairwise fun a b =>
        DataPath.same {} a.1 b.1 = false := by
  intro p q
  obtain ⟨hashes, steps, groups⟩ := equal_paths_shared {}
  obtain ⟨middle, first, has, part, last, second⟩ : ∃ middle,
      (Declaring.enter ⟨0, []⟩ { path := p }).runOn {} singleDraft = (.ok ⟨0, [0]⟩, middle) ∧
      middle.Has ⟨0, [0]⟩ ∧
      ∃ part last, (Declaring.enter ⟨0, []⟩ { path := q }).runOn {}
        (((Rule.group .any true []).perform ⟨0, [0]⟩).runOn {} middle).2 = (.ok part, last) :=
    ⟨_, rfl, ⟨_, rfl, rfl⟩, _, _, rfl⟩
  obtain rfl := steps singleDraft middle _ last ⟨0, []⟩ ⟨0, [0]⟩ part _ _
    (sound_singleDraft {}) ⟨_, rfl, rfl⟩ first (.perform .refl _ has) second rfl rfl rfl
  exact ⟨hashes p q rfl rfl, ⟨_, middle, last, first, second⟩, groups _ (by decide)⟩

/-- Paths with equal identifiers that are written differently are equal, but hashed differently:
each has a draft and a group of its own. -/
theorem equal_paths_apart :
    let p := customPath {} (.int 1)
    let q := customPath {} (.bool true)
    p.eq {} q = true ∧ q.eq {} p = true ∧ p.hash ≠ q.hash ∧
      ∃ middle last,
        (Declaring.enter ⟨0, []⟩ { path := p }).runOn {} singleDraft = (.ok ⟨0, [0]⟩, middle) ∧
        (Declaring.enter ⟨0, []⟩ { path := q }).runOn {} middle = (.ok ⟨0, [1]⟩, last) ∧
      ((rejectedAt [[p.target], [q.target]]).grouped {}).map (·.1.text) =
        ["this.\x601\x60", "this.\x60True\x60"] := by
  intro p q
  refine ⟨by decide, by decide, by decide, _, _, rfl, rfl, by decide⟩

end PathRules
