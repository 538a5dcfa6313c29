import PathRules.Proofs.Declaration.Canonical
import PathRules.Proofs.Declaration.Performing

/-!
# Sound workshops

A workshop with a logbook is sound if every draft reflects what the logbook says was declared on it
and in it, and if every entry fits the entries before it: a step gives the position of its key among
the keys that were used, and a group is what was declared on the draft of the group by then.
-/

namespace PathRules

variable {g : ObjectGraph}

namespace Logbook

/-- The declarations on one of the separate drafts and on the drafts in it. -/
def on (root : Nat) (logbook : Logbook) : Draft.Deeds :=
  logbook.filterMap fun entry =>
    if entry.1.root = root then some (entry.1.positions, entry.2) else none

theorem on_snoc (root : Nat) (logbook : Logbook) (address : Address) (deed : Draft.Deed) :
    on root (logbook ++ [(address, deed)]) =
      on root logbook ++ if address.root = root then [(address.positions, deed)] else [] := by
  simp only [on, List.filterMap_append]
  split <;> simp_all

/-- What was declared on one draft. -/
def onDraft (address : Address) (logbook : Logbook) : List Draft.Deed :=
  (on address.root logbook).on address.positions

theorem onDraft_append (address : Address) (first second : Logbook) :
    onDraft address (first ++ second) = onDraft address first ++ onDraft address second := by
  simp only [onDraft, on, List.filterMap_append, Draft.Deeds.on]

theorem onDraft_here {address : Address} {deed : Draft.Deed} :
    onDraft address [(address, deed)] = [deed] := by
  simp [onDraft, on, Draft.Deeds.on]

theorem mem_onDraft {address : Address} {logbook : Logbook} {deed : Draft.Deed} :
    deed ∈ onDraft address logbook ↔ (address, deed) ∈ logbook := by
  obtain ⟨root, positions⟩ := address
  constructor
  · intro member
    obtain ⟨⟨places, made⟩, member, is⟩ := List.mem_filterMap.mp member
    obtain ⟨⟨place, made'⟩, member, there⟩ := List.mem_filterMap.mp member
    dsimp only at is there
    split at is <;> cases is
    split at there <;> cases there
    have here : place = { root, positions } := by
      cases place
      simp_all
    exact here ▸ member
  · intro member
    refine List.mem_filterMap.mpr ⟨(positions, deed), List.mem_filterMap.mpr ⟨_, member, ?_⟩, ?_⟩
    · simp
    · simp

theorem onDraft_singleton (address other : Address) (deed : Draft.Deed) :
    onDraft other [(address, deed)] = if address = other then [deed] else [] := by
  split
  · next same =>
    rw [same, onDraft_here]
  · next apart =>
    refine List.eq_nil_iff_forall_not_mem.mpr fun made among => ?_
    obtain ⟨is, -⟩ := Prod.mk.inj (List.mem_singleton.mp (mem_onDraft.mp among))
    exact apart is.symm

end Logbook

/-- Whether a declaration agrees with the entries of the logbook before it. -/
def Draft.Deed.Fits (g : ObjectGraph) (before : Logbook) (address : Address) : Draft.Deed → Prop
  | .step key position =>
      (Draft.keysOf g ((before.on address.root).on address.positions ++
        [.step key position])).findIdx? (·.same g key) = some position
  | .group root anyOf stops v => v = Draft.canonical g anyOf stops (before.on root)
  | _ => True

namespace Workshop

/-- A separate draft, begun with these settings, reflects the logbook. -/
def Begun (g : ObjectGraph) (shop : Workshop Logbook) (root : Nat) (anyOf shortCircuit : Bool) :
    Prop :=
  ∃ draft, shop.drafts[root]? = some draft ∧ draft.anyOf = anyOf ∧
    draft.Reflects g shortCircuit (Logbook.on root shop.deeds)

structure Sound (g : ObjectGraph) (shop : Workshop Logbook) : Prop where
  begun : ∀ root < shop.drafts.length, ∃ anyOf shortCircuit, shop.Begun g root anyOf shortCircuit
  unbegun : ∀ root, shop.drafts.length ≤ root → Logbook.on root shop.deeds = []
  named : ∀ entry ∈ shop.addresses, shop.Has entry.2
  fits : ∀ (i : Nat) address deed, shop.deeds[i]? = some (address, deed) →
    deed.Fits g (shop.deeds.take i) address

/-- What was there is there still. -/
structure Grows (g : ObjectGraph) (before after : Workshop Logbook) : Prop where
  has : ∀ address, before.Has address → after.Has address
  begun : ∀ root anyOf shortCircuit, before.Begun g root anyOf shortCircuit →
    after.Begun g root anyOf shortCircuit
  logbook : before.deeds <+: after.deeds

theorem Begun.build_eq {shop : Workshop Logbook} {root : Nat} {anyOf shortCircuit : Bool}
    (h : shop.Begun g root anyOf shortCircuit) :
    (shop.draft { root }).build =
      Draft.canonical g anyOf shortCircuit (Logbook.on root shop.deeds) := by
  obtain ⟨draft, held, rfl, reflects⟩ := h
  simp [Workshop.draft, held, Draft.at?, reflects.build_eq]

namespace Grows

theorem refl (shop : Workshop Logbook) : shop.Grows g shop :=
  ⟨fun _ => id, fun _ _ _ => id, List.prefix_refl _⟩

theorem trans {first second third : Workshop Logbook} (h : first.Grows g second)
    (h' : second.Grows g third) : first.Grows g third where
  has address there := h'.has address (h.has address there)
  begun root anyOf shortCircuit there := h'.begun _ _ _ (h.begun root anyOf shortCircuit there)
  logbook := h.logbook.trans h'.logbook

end Grows

theorem sound_empty (g : ObjectGraph) : Workshop.Sound g {} where
  begun _ inside := absurd inside (Nat.not_lt_zero _)
  unbegun _ _ := rfl
  named _ member := absurd member List.not_mem_nil
  fits _ _ _ held := by simp at held

variable {shop : Workshop Logbook}

section Unchanged

variable {after : Workshop Logbook} (drafts : after.drafts = shop.drafts)
    (deeds : after.deeds = shop.deeds)

include drafts deeds

theorem Grows.of_same : shop.Grows g after where
  has address there := by rwa [Has, drafts]
  begun root anyOf shortCircuit there := by rwa [Begun, drafts, deeds]
  logbook := deeds ▸ List.prefix_refl _

theorem Sound.of_same (h : shop.Sound g) (named : ∀ entry ∈ after.addresses, shop.Has entry.2) :
    after.Sound g where
  begun root inside := by
    obtain ⟨anyOf, shortCircuit, there⟩ := h.begun root (drafts ▸ inside)
    exact ⟨anyOf, shortCircuit, (Grows.of_same drafts deeds).begun _ _ _ there⟩
  unbegun root outside := by rw [deeds]; exact h.unbegun root (drafts ▸ outside)
  named entry member := (Grows.of_same (g := g) drafts deeds).has _ (named entry member)
  fits i address deed held := by rw [deeds] at held ⊢; exact h.fits i address deed held

end Unchanged

section NewDraft

variable (anyOf shortCircuit : Bool)

theorem grows_addDraft (draft : Draft) :
    shop.Grows g { shop with drafts := shop.drafts ++ [draft] } where
  has address := fun ⟨old, held, there⟩ =>
    ⟨old, by rw [List.getElem?_append_left (List.getElem?_eq_some_iff.mp held).1, held], there⟩
  begun root _ _ := fun ⟨old, held, there⟩ =>
    ⟨old, by rw [List.getElem?_append_left (List.getElem?_eq_some_iff.mp held).1, held], there⟩
  logbook := List.prefix_refl _

theorem begun_addDraft (h : shop.Sound g) :
    Begun g { shop with drafts := shop.drafts ++ [{ anyOf, shortCircuit }] } shop.drafts.length
      anyOf shortCircuit := by
  refine ⟨{ anyOf, shortCircuit }, by simp, rfl, ?_⟩
  change Draft.Reflects g shortCircuit _ (Logbook.on shop.drafts.length shop.deeds)
  rw [h.unbegun _ (Nat.le_refl _)]
  exact Draft.reflects_empty anyOf shortCircuit

theorem sound_addDraft (h : shop.Sound g) :
    Sound g { shop with drafts := shop.drafts ++ [{ anyOf, shortCircuit }] } where
  begun root inside := by
    by_cases old : root < shop.drafts.length
    · obtain ⟨anyOf, shortCircuit, there⟩ := h.begun root old
      exact ⟨anyOf, shortCircuit, (grows_addDraft _).begun _ _ _ there⟩
    · obtain rfl : root = shop.drafts.length := by simp at inside; omega
      exact ⟨anyOf, shortCircuit, begun_addDraft anyOf shortCircuit h⟩
  unbegun root outside := h.unbegun root (by simp at outside; omega)
  named entry member := (grows_addDraft (g := g) _).has _ (h.named entry member)
  fits := h.fits

end NewDraft

section Declared

variable (g) (address : Address) (deed : Draft.Deed)

variable {g} {address}

theorem has_declared {other : Address} (there : shop.Has other) :
    (shop.declared g address deed).Has other := by
  obtain ⟨draft, held, inside⟩ := there
  by_cases same : address.root = other.root
  · refine ⟨draft.modifyAt address.positions (·.after g deed), ?_,
      Draft.isSome_at?_modifyAt inside _ deed⟩
    simp [declared, held, same]
  · exact ⟨draft, by simp [declared, held, same], inside⟩

theorem begun_declared (has : shop.Has address) {root : Nat} {anyOf shortCircuit : Bool}
    (there : shop.Begun g root anyOf shortCircuit) :
    (shop.declared g address deed).Begun g root anyOf shortCircuit := by
  obtain ⟨draft, held, kind, reflects⟩ := there
  simp only [Begun, declared, List.getElem?_modify, held, Logbook.note_eq, Logbook.on_snoc]
  by_cases same : address.root = root
  · obtain ⟨_, is, inside⟩ := has
    obtain rfl := Option.some.inj (is.symm.trans (same ▸ held))
    refine ⟨_, by simp only [if_pos same]; rfl,
      (Draft.modifyAt_anyOf ..).trans kind, ?_⟩
    rw [if_pos same]
    exact reflects.after inside deed
  · exact ⟨draft, by simp [same], kind, by simpa [same] using reflects⟩

theorem grows_declared (has : shop.Has address) : shop.Grows g (shop.declared g address deed) where
  has _ there := has_declared deed there
  begun _ _ _ there := begun_declared deed has there
  logbook := List.prefix_append ..

theorem sound_declared (h : shop.Sound g) (has : shop.Has address)
    (fits : deed.Fits g shop.deeds address) : (shop.declared g address deed).Sound g where
  begun root inside := by
    obtain ⟨anyOf, shortCircuit, there⟩ := h.begun root (by simpa [declared] using inside)
    exact ⟨anyOf, shortCircuit, begun_declared deed has there⟩
  unbegun root outside := by
    have outside : shop.drafts.length ≤ root := by simpa [declared] using outside
    obtain ⟨draft, held, -⟩ := has
    have inside := (List.getElem?_eq_some_iff.mp held).1
    have apart : address.root ≠ root := by omega
    simp [declared, Logbook.on_snoc, h.unbegun root outside, apart]
  named entry member := has_declared deed (h.named entry member)
  fits i address' deed' held := by
    simp only [declared, Logbook.note_eq] at held ⊢
    by_cases old : i < shop.deeds.length
    · rw [List.getElem?_append_left old] at held
      rw [List.take_append_of_le_length (Nat.le_of_lt old)]
      exact h.fits i address' deed' held
    · have last := (List.getElem?_eq_some_iff.mp held).1
      obtain rfl : i = shop.deeds.length := by simp at last; omega
      simp only [List.getElem?_concat_length, Option.some.injEq, Prod.mk.injEq] at held
      obtain ⟨rfl, rfl⟩ := held
      rw [List.take_left]
      exact fits

section Steps

variable (h : shop.Sound g) (has : shop.Has address) (key : StepKey)

include has

theorem Has.at?_eq : ∃ draft, shop.drafts[address.root]? = some draft ∧
    draft.at? address.positions = some (shop.draft address) := by
  obtain ⟨draft, held, there⟩ := has
  obtain ⟨inner, inside⟩ := Option.isSome_iff_exists.mp there
  exact ⟨draft, held, by simp [Workshop.draft, held, inside]⟩

include h

theorem fits_step : (Draft.Deed.step key
    (((shop.draft address).find? g key).getD (shop.draft address).nested.length)).Fits g
      shop.deeds address := by
  obtain ⟨draft, held, inside⟩ := has.at?_eq
  obtain ⟨_, _, _, is, -, reflects⟩ := h.begun _ (List.getElem?_eq_some_iff.mp held).1
  obtain rfl := Option.some.inj (is.symm.trans held)
  rw [Draft.Deed.Fits, Draft.keysOf_snoc, ← reflects.keys_at inside, Draft.findIdx?_keys]

omit h in
theorem has_step : (shop.declared g address (.step key
    (((shop.draft address).find? g key).getD (shop.draft address).nested.length))).Has
      { address with positions := address.positions ++
          [((shop.draft address).find? g key).getD (shop.draft address).nested.length] } := by
  obtain ⟨draft, held, inside⟩ := has.at?_eq
  exact ⟨_, by simp [declared, held]; rfl, Draft.isSome_at?_step inside key _⟩

end Steps

end Declared

section Drafts

variable {address : Address}

/-- A separate draft is built to what the logbook says was declared on it. -/
theorem Begun.build_own {root : Nat} {anyOf initially : Bool}
    (h : shop.Begun g root anyOf initially) :
    let own := Logbook.onDraft { root } shop.deeds
    (shop.draft { root }).build = .object ((Draft.constraintsOf own).map (·.constraint))
      ((Draft.keysOf g own).zipIdx.map (fun entry =>
          entry.1.wrap (shop.draft { root, positions := [entry.2] }).build) ++
        Draft.validationsOf own)
      anyOf (Draft.stopsOf initially own) := by
  obtain ⟨draft, held, rfl, reflects⟩ := h
  have there : shop.draft { root } = draft := by simp [Workshop.draft, held, Draft.at?]
  rw [there, reflects.build_own]
  simp only [Workshop.draft, held]
  rfl

/-- A draft is of the kind of the separate draft that it is in, and reflects the logbook. -/
theorem Sound.reflects (sound : shop.Sound g) (has : shop.Has address) :
    (∃ initially, shop.Begun g address.root (shop.draft address).anyOf initially) ∧
    ∃ initially deeds, (shop.draft address).Reflects g initially deeds ∧
      ∀ rest, deeds.on rest = Logbook.onDraft
        { address with positions := address.positions ++ rest } shop.deeds := by
  obtain ⟨root, held, there⟩ := has.at?_eq
  obtain ⟨_, initially, _, is, rfl, reflects⟩ := sound.begun _ (List.getElem?_eq_some_iff.mp held).1
  obtain rfl := Option.some.inj (is.symm.trans held)
  obtain ⟨kind, inner⟩ := reflects.inside there
  exact ⟨⟨initially, _, held, kind.symm, reflects⟩, inner⟩

/-- No draft changes its kind. -/
theorem Grows.anyOf_eq {after : Workshop Logbook} (grows : shop.Grows g after)
    (sound : shop.Sound g) (sound' : after.Sound g) (has : shop.Has address) :
    (after.draft address).anyOf = (shop.draft address).anyOf := by
  obtain ⟨⟨initially, begun⟩, -⟩ := sound.reflects has
  obtain ⟨⟨initially', draft, held, kind, -⟩, -⟩ := sound'.reflects (grows.has _ has)
  obtain ⟨_, held', kind', -⟩ := grows.begun _ _ _ begun
  obtain rfl := Option.some.inj (held.symm.trans held')
  exact kind.symm.trans kind'

/-- The keys of a draft are those that the logbook says were used on it. -/
theorem Sound.keys_eq (sound : shop.Sound g) (has : shop.Has address) :
    (shop.draft address).nested.map (·.1) =
      Draft.keysOf g (Logbook.onDraft address shop.deeds) := by
  obtain ⟨-, initially, deeds, reflects, same⟩ := sound.reflects has
  have own := same []
  rw [List.append_nil] at own
  have here : (shop.draft address).at? [] = some (shop.draft address) := rfl
  exact own ▸ reflects.keys_at here

/-- In the logbook of a sound workshop, a step leads to the first key of its draft that is the same
as its own. -/
theorem Sound.findIdx?_keysOf (sound : shop.Sound g) {key : StepKey} {position : Nat}
    (member : (address, .step key position) ∈ shop.deeds) :
    (Draft.keysOf g (Logbook.onDraft address shop.deeds)).findIdx? (·.same g key) =
      some position := by
  obtain ⟨i, held⟩ := List.mem_iff_getElem?.mp member
  have fits : (Draft.keysOf g (Logbook.onDraft address (shop.deeds.take i) ++
      [.step key position])).findIdx? (·.same g key) = some position := sound.fits i address _ held
  -- The keys used by the time of the step are the first ones of those used at last.
  have whole : Logbook.onDraft address shop.deeds =
      (Logbook.onDraft address (shop.deeds.take i) ++ [.step key position]) ++
        Logbook.onDraft address (shop.deeds.drop (i + 1)) := by
    have next := List.take_add_one (l := shop.deeds) (i := i)
    rw [held] at next
    have here : [Draft.Deed.step key position] =
        Logbook.onDraft address [(address, .step key position)] := Logbook.onDraft_here.symm
    rw [here, ← Logbook.onDraft_append, ← Logbook.onDraft_append]
    exact congrArg (Logbook.onDraft address)
      ((List.take_append_drop (i + 1) shop.deeds).symm.trans (by rw [next]; rfl))
  obtain ⟨more, grown⟩ := Draft.keysOf_prefix (g := g)
    (Logbook.onDraft address (shop.deeds.take i) ++ [.step key position])
    (Logbook.onDraft address (shop.deeds.drop (i + 1)))
  rw [whole, ← grown, List.findIdx?_append, fits]
  rfl

/-- A step that is logged has its key among those of its draft, at its position. -/
theorem Sound.exists_key (sound : shop.Sound g) {key : StepKey} {position : Nat}
    (noted : (address, .step key position) ∈ shop.deeds) :
    ∃ used, (Draft.keysOf g (Logbook.onDraft address shop.deeds))[position]? = some used ∧
      used.IsOne g key := by
  obtain ⟨inside, same, -⟩ :=
    List.findIdx?_eq_some_iff_getElem.mp (sound.findIdx?_keysOf noted)
  exact ⟨_, List.getElem?_eq_getElem inside, StepKey.same_iff_isOne.mp same⟩

/-- A draft is built to what the logbook says was declared on it. -/
theorem Sound.build_own (sound : shop.Sound g) (has : shop.Has address) :
    ∃ initially, let own := Logbook.onDraft address shop.deeds
    (shop.draft address).build = .object ((Draft.constraintsOf own).map (·.constraint))
      ((Draft.keysOf g own).zipIdx.map (fun entry => entry.1.wrap
          (shop.draft { address with positions := address.positions ++ [entry.2] }).build) ++
        Draft.validationsOf own)
      (shop.draft address).anyOf (Draft.stopsOf initially own) := by
  obtain ⟨-, initially, deeds, reflects, same⟩ := sound.reflects has
  obtain ⟨draft, held, inside⟩ := has.at?_eq
  have own := same []
  rw [List.append_nil] at own
  have parts (position : Nat) :
      shop.draft { address with positions := address.positions ++ [position] } =
        ((shop.draft address).at? [position]).getD default := by
    rw [Workshop.draft, held]
    dsimp only
    rw [Draft.at?_append, inside]
    rfl
  refine ⟨initially, ?_⟩
  dsimp only
  simp only [reflects.build_own, own, parts]

/-- The constraints of a draft are those that the logbook says were registered on it. -/
theorem Sound.constraints_eq (sound : shop.Sound g) (has : shop.Has address) :
    (shop.draft address).constraints =
      Draft.constraintsOf (Logbook.onDraft address shop.deeds) := by
  obtain ⟨-, initially, deeds, ⟨constraints, -⟩, same⟩ := sound.reflects has
  rw [constraints, Draft.Deeds.own, same [], List.append_nil]

/-- A declaration changes the constraints of its own draft alone. -/
theorem Sound.constraints_declared (sound : shop.Sound g) (has : shop.Has address)
    (deed : Draft.Deed) (fits : deed.Fits g shop.deeds address) {other : Address}
    (there : shop.Has other) :
    ((shop.declared g address deed).draft other).constraints =
      if address = other then deed.constraints (shop.draft other).constraints
      else (shop.draft other).constraints := by
  rw [(sound_declared deed sound has fits).constraints_eq (has_declared deed there),
    sound.constraints_eq there, declared_deeds, Logbook.onDraft_append, Logbook.onDraft_singleton]
  split
  · exact Draft.constraintsOf_snoc ..
  · rw [List.append_nil]

end Drafts

end Workshop

end PathRules
