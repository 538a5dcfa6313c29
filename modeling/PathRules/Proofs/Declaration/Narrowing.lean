import PathRules.Proofs.Declaration.Hidden
import PathRules.Proofs.Declaration.Soundness
import PathRules.Proofs.Run.Narrowing

/-!
# Narrowed rules stay behind their test

The rules that `if_type` and `require_type` are given are performed on a draft that stands behind
a test of the type, in drafts that no rule gets at.  So whatever these rules are, and whatever is
declared before and afterwards, the validation that a draft is built to holds them in the encoding
of the narrowing, with its test in place.
-/

namespace PathRules

variable {α : Type} {g : ObjectGraph} {shop : Workshop Logbook} {address : Address}

namespace Draft

/-- What does not take the place of a constraint leaves it where it is. -/
theorem mem_constraintsOf {r : Registered} {deeds more : List Deed} {hidden : Hidden}
    (member : r ∈ constraintsOf deeds) (covered : hidden.number r.number)
    (spared : ∀ deed ∈ more, hidden.Permits deed) : r ∈ constraintsOf (deeds ++ more) := by
  induction more using List.reverseRecOn with
  | nil => rwa [List.append_nil]
  | append_singleton more deed ih =>
    have before := ih fun other member => spared other (List.mem_append_left _ member)
    have permitted := spared deed (by simp)
    rw [← List.append_assoc, constraintsOf_snoc]
    cases deed with
    | constraint new => exact List.mem_append_left _ before
    | replacement number new =>
      have other : ¬ (r.number == number) = true := fun same =>
        permitted (beq_iff_eq.mp same ▸ covered)
      exact List.mem_map.mpr ⟨r, before, if_neg other⟩
    | _ => exact before

end Draft

namespace Logbook

/-- Nothing is declared on a draft by what spares it. -/
theorem onDraft_eq_nil {hidden : Hidden} {made : Logbook} (covered : hidden.Covers address)
    (spared : ∀ entry ∈ made, hidden.Spared entry) : onDraft address made = [] :=
  List.eq_nil_iff_forall_not_mem.mpr fun _ member =>
    (spared _ (mem_onDraft.mp member)).address covered

end Logbook

namespace Workshop

/-- The workshop is sound, and no number of a named constraint will be given again. -/
structure Orderly (g : ObjectGraph) (shop : Workshop Logbook) : Prop where
  sound : shop.Sound g
  handedOut : ∀ entry ∈ shop.constraints, entry.2.number < shop.next

/-- No rule gets at what is hidden. -/
theorem Hides.of_orderly (orderly : shop.Orderly g) {hidden : Hidden}
    (roots : ∀ root, hidden.root root → ∀ entry ∈ shop.addresses, entry.2.root ≠ root)
    (inside : ∀ root, hidden.root root → root < shop.drafts.length)
    (numbers : ∀ number, ¬ hidden.number number) : shop.Hides hidden where
  addresses entry member covered := roots _ covered.1 entry member rfl
  constraints _ _ := numbers _
  roots := inside
  numbers number covered := absurd covered (numbers number)
  handedOut := orderly.handedOut

end Workshop

open Declaring

/-- One separate draft, and no constraint. -/
abbrev Hidden.ofRoot (root : Nat) : Hidden := ⟨(· = root), fun _ => False⟩

theorem Workshop.Hides.declared {hidden : Hidden} (hides : shop.Hides hidden) (deed : Draft.Deed) :
    (shop.declared g address deed).Hides hidden :=
  { hides with
    roots := fun root covered => by simpa [Workshop.declared] using hides.roots root covered }

section Typed

variable {root : Nat} {anyOf short : Bool} {own : List Draft.Deed} {typeName : String}
  {body : List Rule} {fill : Address → Declaring Logbook Unit}

/-- Rules that are performed on the first draft in another, which is empty before, and what they
leave. -/
structure PerformedIn (g : ObjectGraph) (root : Nat) (anyOf : Bool) (body : List Rule)
    (start ended : Workshop Logbook) : Prop where
  empty : start.draft { root, positions := [0] } = .empty anyOf
  performed : (performAll body { root, positions := [0] }).runOn g start = (.ok (), ended)

/-- A separate draft, begun with these settings, that no rule gets at; `own` was declared on it. -/
structure Workshop.Holds (g : ObjectGraph) (shop : Workshop Logbook) (root : Nat)
    (anyOf short : Bool) (own : List Draft.Deed) : Prop where
  orderly : shop.Orderly g
  begun : shop.Begun g root anyOf short
  hides : shop.Hides (.ofRoot root)
  own_eq : Logbook.onDraft { root } shop.deeds = own

namespace Workshop

theorem Orderly.addDraft (orderly : shop.Orderly g) (anyOf short : Bool) :
    Holds g { shop with drafts := shop.drafts ++ [{ anyOf, shortCircuit := short }] }
      shop.drafts.length anyOf short [] where
  orderly := ⟨sound_addDraft anyOf short orderly.sound, orderly.handedOut⟩
  begun := begun_addDraft anyOf short orderly.sound
  hides := by
    refine .of_orderly ⟨sound_addDraft anyOf short orderly.sound, orderly.handedOut⟩ ?_ ?_
      fun _ => id
    · rintro root rfl entry member same
      obtain ⟨draft, held, -⟩ := orderly.sound.named entry member
      exact Nat.lt_irrefl _ (same ▸ (List.getElem?_eq_some_iff.mp held).1)
    · rintro root rfl
      simp
  own_eq := by
    rw [Logbook.onDraft, orderly.sound.unbegun _ (Nat.le_refl _)]
    rfl

namespace Holds

variable (h : shop.Holds g root anyOf short own)

include h

theorem has : shop.Has { root } := let ⟨draft, held, _⟩ := h.begun; ⟨draft, held, rfl⟩

/-- What the draft is built to. -/
theorem build_eq : (shop.draft { root }).build =
    .object ((Draft.constraintsOf own).map (·.constraint))
      ((Draft.keysOf g own).zipIdx.map (fun entry =>
          entry.1.wrap (shop.draft { root, positions := [entry.2] }).build) ++
        Draft.validationsOf own)
      anyOf (Draft.stopsOf short own) := h.own_eq ▸ h.begun.build_own

/-- A declaration on the draft. -/
theorem declared (deed : Draft.Deed) (fits : deed.Fits g shop.deeds { root }) :
    (shop.declared g { root } deed).Holds g root anyOf short (own ++ [deed]) where
  orderly := ⟨sound_declared deed h.orderly.sound h.has fits, h.orderly.handedOut⟩
  begun := begun_declared deed h.has h.begun
  hides := h.hides.declared deed
  own_eq := by
    rw [declared_deeds, Logbook.onDraft_append, h.own_eq, Logbook.onDraft_here]

/-- What is safe and declares elsewhere. -/
theorem elsewhere {α : Type} {m : Declaring Logbook α} (safe : m.Safe g shop)
    (silent : m.Silent g (.ofRoot root) shop) :
    (m.runOn g shop).2.Holds g root anyOf short own where
  orderly := ⟨safe.sound, silent.hides.handedOut⟩
  begun := safe.grows.begun _ _ _ h.begun
  hides := silent.hides
  own_eq := by
    obtain ⟨made, deeds, spared⟩ := silent.spared
    rw [deeds, Logbook.onDraft_append, Logbook.onDraft_eq_nil ⟨rfl, rfl⟩ spared, List.append_nil,
      h.own_eq]

theorem register (c : Constraint) : ∃ r : Registered, r.constraint = c ∧
    ∃ after, (Declaring.register { root } c).runOn g shop = (.ok r, after) ∧
      after.Holds g root anyOf short (own ++ [.constraint r]) := by
  have counted := h.elsewhere (fresh_safe h.orderly.sound) (fresh_discreet h.hides).silent
  exact ⟨⟨shop.next, c⟩, rfl, _, runOn_register shop { root } c,
    counted.declared (.constraint ⟨shop.next, c⟩) trivial⟩

/-- Rules that are performed in the draft leave it alone, but for the step to their own. -/
theorem asType (unused : Draft.keysOf g own = []) {ended : Workshop Logbook}
    (ran : (Declaring.asType { root } typeName (performAll body)).runOn g shop = (.ok (), ended)) :
    (∃ start, PerformedIn g root anyOf body start ended) ∧
      ended.Holds g root anyOf short (own ++ [.step (typeKey typeName) 0]) := by
  obtain ⟨draft, held, kind, reflects⟩ := id h.begun
  have bare : draft.nested = [] := by
    obtain ⟨-, keys, -⟩ := reflects
    refine List.map_eq_nil_iff.mp (keys.trans ?_)
    rw [← unused, ← h.own_eq]
    rfl
  have here : shop.draft { root } = draft := by simp [Workshop.draft, held, Draft.at?]
  have first : positionOf g (typeKey typeName) (shop.draft { root }) = 0 := by
    simp [here, positionOf, Draft.find?, bare]
  have fits := fits_step h.orderly.sound h.has (typeKey typeName)
  have there := has_step (g := g) h.has (typeKey typeName)
  change (Draft.Deed.step _ (positionOf g _ _)).Fits g _ _ at fits
  change Has (shop.declared g _ (.step _ (positionOf g _ _)))
    { root, positions := [] ++ [positionOf g _ _] } at there
  rw [first] at fits there
  rw [Declaring.asType, runOn_bind, runOn_enter rfl, first] at ran
  let start := shop.declared g { root } (.step (typeKey typeName) 0)
  have begins : start.Holds g root anyOf short (own ++ [.step (typeKey typeName) 0]) :=
    h.declared (.step (typeKey typeName) 0) fits
  have ran : (performAll body { root, positions := [0] }).runOn g start = (.ok (), ended) := ran
  have ends := begins.elsewhere (performAll_safe body start _ begins.orderly.sound there)
    (performAll_silent body start _ begins.hides fun covered =>
      List.cons_ne_nil _ _ covered.2)
  change ((performAll body { root, positions := [0] }).runOn g start).2.Holds .. at ends
  rw [ran] at ends
  refine ⟨⟨start, ?_, ran⟩, ends⟩
  simp [start, Workshop.draft, Workshop.declared, held, Draft.modifyAt, Draft.after_step,
    Draft.find?, bare, Draft.at?, kind]

/-- A group that is declared on the draft. -/
theorem addGroup {a b : Bool} {fill : Address → Declaring Logbook Unit} {after : Workshop Logbook}
    (safe : ∀ shop part, shop.Sound g → shop.Has part → (fill part).Safe g shop)
    (silent : ∀ shop part, shop.Hides (.ofRoot root) → ¬ (Hidden.ofRoot root).Covers part →
      (fill part).Silent g (.ofRoot root) shop)
    (ran : (Declaring.addGroup { root } { anyOf := a, shortCircuit := b } fill).runOn g shop =
      (.ok (), after)) :
    let group := shop.drafts.length
    ∃ filled, (fill { root := group }).runOn g
        { shop with drafts := shop.drafts ++ [{ anyOf := a, shortCircuit := b }] } =
          (.ok (), filled) ∧
      after.Holds g root anyOf short
        (own ++ [.group group a b (filled.draft { root := group }).build]) := by
  obtain ⟨filled, fills, rfl⟩ := addGroup_ran { root } ran
  let begins := addDraft_keeps h.orderly.sound a b
  have apart : ¬ (Hidden.ofRoot root).Covers { root := shop.drafts.length } := by
    obtain ⟨draft, held, -⟩ := h.has
    exact fun covered => Nat.ne_of_lt (List.getElem?_eq_some_iff.mp held).1 covered.1.symm
  have added := h.elsewhere begins.safe (addDraft_discreet h.hides _).silent
  obtain ⟨-, there, begun⟩ := begins.comes _ rfl
  have kept := safe _ _ added.orderly.sound there
  have ends := added.elsewhere kept (silent _ _ added.hides apart)
  have grown := kept.grows.begun _ _ _ begun
  change ((fill { root := shop.drafts.length }).runOn g _).2.Holds .. at ends
  change ((fill { root := shop.drafts.length }).runOn g _).2.Begun .. at grown
  simp only [runOn_addDraft] at ends grown
  rw [fills] at ends grown
  exact ⟨filled, fills, ends.declared _ grown.build_eq⟩

end Holds

end Workshop

/-- The rules of a body, performed on a draft of their own in whatever place. -/
theorem fills_safe (body : List Rule) (shop : Workshop Logbook) (part : Address)
    (sound : shop.Sound g)
    (has : shop.Has part) : (asType part typeName (performAll body)).Safe g shop :=
  asType_safe sound has (fun shop part sound has => performAll_safe body shop part sound has)
    typeName

theorem fills_silent {hidden : Hidden} (body : List Rule) (shop : Workshop Logbook) (part : Address)
    (hides : shop.Hides hidden) (outside : ¬ hidden.Covers part) :
    (asType part typeName (performAll body)).Silent g hidden shop :=
  asType_silent hides outside
    (fun shop part hides outside => performAll_silent body shop part hides outside) typeName

/-- Declares a test and behind it rules for the instances of a type. -/
def testThenType (c : Constraint) (typeName : String) (body : List Rule) (address : Address) :
    Declaring Logbook Unit := do
  let _ ← register address c
  asType address typeName (performAll body)

/-- Declares a test and behind it a group of rules for the instances of a type. -/
def testThenGroup (c : Constraint) (anyOf : Bool) (typeName : String) (body : List Rule)
    (address : Address) : Declaring Logbook Unit := do
  let _ ← register address c
  addGroup address (.empty anyOf) fun typed => asType typed typeName (performAll body)

section Filling

variable {hidden : Hidden} (c : Constraint)

theorem testThenType_safe (shop : Workshop Logbook) (part : Address) (sound : shop.Sound g)
    (has : shop.Has part) : (testThenType c typeName body part).Safe g shop := by
  refine (register_safe sound has c).bind fun _ last sound grows _ => ?_
  exact fills_safe body last part sound (grows.has _ has)

theorem testThenType_silent (shop : Workshop Logbook) (part : Address) (hides : shop.Hides hidden)
    (outside : ¬ hidden.Covers part) : (testThenType c typeName body part).Silent g hidden shop :=
  (register_discreet hides outside c).bind fun _ last hides _ =>
    fills_silent body last part hides outside

theorem testThenGroup_safe (anyOf : Bool) (shop : Workshop Logbook) (part : Address)
    (sound : shop.Sound g)
    (has : shop.Has part) : (testThenGroup c anyOf typeName body part).Safe g shop := by
  refine (register_safe sound has c).bind fun _ last sound grows _ => ?_
  exact addGroup_safe sound (grows.has _ has) (fills_safe body) anyOf anyOf

theorem testThenGroup_silent (anyOf : Bool) (shop : Workshop Logbook) (part : Address)
    (hides : shop.Hides hidden) (outside : ¬ hidden.Covers part) :
    (testThenGroup c anyOf typeName body part).Silent g hidden shop :=
  (register_discreet hides outside c).bind fun _ _ hides _ =>
    addGroup_silent hides outside (fills_silent body) _

end Filling

section Shapes

variable {filled : Workshop Logbook} {c : Constraint}

/-- What `body` declares on a new draft of a kind, treated as an instance of a type. -/
structure Types (g : ObjectGraph) (typeName : String) (anyOf : Bool) (body : List Rule)
    (inner : Validation) : Prop where
  declared : ∃ root start ended, PerformedIn g root anyOf body start ended ∧
    inner = (ended.draft { root, positions := [0] }).build

/-- A test, and the rules behind it. -/
theorem direct_build {a b : Bool} (orderly : shop.Orderly g)
    (ran : (testThenType c typeName body { root := shop.drafts.length }).runOn g
        { shop with drafts := shop.drafts ++ [{ anyOf := a, shortCircuit := b }] } =
      (.ok (), filled)) :
    ∃ inner, Types g typeName a body inner ∧ (filled.draft { root := shop.drafts.length }).build =
      .object [c] [(typeKey typeName).wrap inner] a b := by
  obtain ⟨r, rfl, between, registered, holds⟩ := (orderly.addDraft a b).register c
  rw [testThenType, runOn_bind, registered] at ran
  obtain ⟨⟨start, performed⟩, holds⟩ := holds.asType rfl ran
  refine ⟨_, ⟨_, start, filled, performed, rfl⟩, ?_⟩
  rw [holds.build_eq]
  rfl

/-- A test, and a group of the rules behind it. -/
theorem grouped_build {a b kind : Bool} (orderly : shop.Orderly g)
    (ran : (testThenGroup c kind typeName body { root := shop.drafts.length }).runOn g
        { shop with drafts := shop.drafts ++ [{ anyOf := a, shortCircuit := b }] } =
      (.ok (), filled)) :
    ∃ inner, Types g typeName kind body inner ∧
      (filled.draft { root := shop.drafts.length }).build =
      .object [c] [.object [] [(typeKey typeName).wrap inner] kind kind] a b := by
  obtain ⟨r, rfl, between, registered, holds⟩ := (orderly.addDraft a b).register c
  rw [testThenGroup, runOn_bind, registered] at ran
  obtain ⟨typed, performed, ends⟩ := holds.addGroup (fills_safe body) (fills_silent body) ran
  obtain ⟨⟨start, performed⟩, holds'⟩ :=
    (holds.orderly.addDraft kind kind).asType rfl performed
  refine ⟨_, ⟨_, start, typed, performed, rfl⟩, ?_⟩
  rw [ends.build_eq, holds'.build_eq]
  rfl

end Shapes

/-- What a group of narrowed rules declares on a draft of a kind. -/
def narrow (typeName : String) (body : List Rule) (address : Address) :
    Narrowing → (anyOf : Bool) → Declaring Logbook Unit
  | .ifType, false =>
      addGroup address (.empty true) (testThenGroup (notOfType typeName) false typeName body)
  | .ifType, true => testThenType (notOfType typeName) typeName body address
  | .requireType, false =>
      addGroup address { anyOf := false, shortCircuit := true }
        (testThenType (.isInstance [typeName]) typeName body)
  | .requireType, true =>
      addGroup address { anyOf := false, shortCircuit := true }
        (testThenGroup (.isInstance [typeName]) true typeName body)

theorem perform_narrowing (n : Narrowing) (address : Address) (shop : Workshop Logbook) :
    ((Rule.group (n.group typeName) true body).perform address).runOn g shop =
      (do narrow typeName body address n (shop.draft address).anyOf
          pure Product.nothing : Declaring Logbook Product).runOn g shop := by
  rw [Rule.perform, runOn_bind, runOn_bind]
  have same : (declareGroup address (n.group typeName) (some (performAll body))).runOn g shop =
      (narrow typeName body address n (shop.draft address).anyOf).runOn g shop := by
    rw [declareGroup, runOn_bind, runOn_draftAt]
    cases n with
    | ifType =>
      dsimp only [Narrowing.group]
      rw [ifType, runOn_bind, runOn_draftAt]
      dsimp only
      cases (shop.draft address).anyOf <;> rfl
    | requireType =>
      dsimp only [Narrowing.group]
      rw [requireType, runOn_bind, runOn_draftAt]
      dsimp only
      cases (shop.draft address).anyOf <;> rfl
  rw [← same]
  rfl

/-- Where the test is declared with the rules, what is declared is one group, the encoding. -/
theorem narrow_closed {n : Narrowing} (closed : n = .ifType → anyOf = false)
    (orderly : shop.Orderly g) {after : Workshop Logbook}
    (ran : (narrow typeName body address n anyOf).runOn g shop = (.ok (), after)) :
    ∃ inner, Types g typeName anyOf body inner ∧ ∃ (filled : Workshop Logbook) (root : Nat)
        (a b : Bool),
      after = filled.declared g address
        (.group root a b (n.encoding typeName ((typeKey typeName).wrap inner) anyOf)) := by
  rcases n with _ | _ <;> rcases anyOf with _ | _
  · obtain ⟨filled, fills, rfl⟩ := addGroup_ran address ran
    obtain ⟨inner, types, built⟩ := grouped_build (a := true) (b := true) orderly fills
    exact ⟨inner, types, filled, _, _, _, by rw [built]; rfl⟩
  · exact absurd (closed rfl) nofun
  · obtain ⟨filled, fills, rfl⟩ := addGroup_ran address ran
    obtain ⟨inner, types, built⟩ := direct_build orderly fills
    exact ⟨inner, types, filled, _, _, _, by rw [built]; rfl⟩
  · obtain ⟨filled, fills, rfl⟩ := addGroup_ran address ran
    obtain ⟨inner, types, built⟩ := grouped_build orderly fills
    exact ⟨inner, types, filled, _, _, _, by rw [built]; rfl⟩

end Typed

/-- Nothing is hidden. -/
abbrev Hidden.nothing : Hidden := ⟨fun _ => False, fun _ => False⟩

namespace Workshop

theorem Orderly.hides (orderly : shop.Orderly g) : shop.Hides .nothing :=
  .of_orderly orderly (fun _ => False.elim) (fun _ => False.elim) fun _ => id

theorem Orderly.perform (orderly : shop.Orderly g) (rule : Rule) (has : shop.Has address) :
    ((rule.perform address).runOn g shop).2.Orderly g where
  sound := (rule.perform_safe shop address orderly.sound has).sound
  handedOut :=
    (rule.perform_silent shop address orderly.hides fun covered => covered.1).hides.handedOut

/-- What rules leave of a workshop: what is there stays there, and no constraint gives its place
that is hidden. -/
theorem Continues.kept {last : Workshop Logbook} (later : shop.Continues g last)
    (orderly : shop.Orderly g) :
    last.Orderly g ∧ shop.Grows g last ∧ ∀ hidden : Hidden, (∀ root, ¬ hidden.root root) →
      shop.Hides hidden → last.Hides hidden ∧ ∃ made, last.deeds = shop.deeds ++ made ∧
        ∀ entry ∈ made, hidden.Spared entry := by
  induction later with
  | refl => exact ⟨orderly, .refl shop, fun _ _ hides => ⟨hides, [], by simp, nofun⟩⟩
  | @perform between earlier rule address has ih =>
    obtain ⟨orderly', grows, kept⟩ := ih
    refine ⟨orderly'.perform rule has,
      grows.trans (rule.perform_safe between address orderly'.sound has).grows,
      fun hidden rootless hides => ?_⟩
    obtain ⟨hides', made, deeds, spared⟩ := kept hidden rootless hides
    obtain ⟨hides'', ⟨made', deeds', spared'⟩, -⟩ :=
      rule.perform_silent (g := g) between address hides' fun covered => rootless _ covered.1
    refine ⟨hides'', made ++ made', by rw [deeds', deeds, List.append_assoc],
      fun entry member => ?_⟩
    exact (List.mem_append.mp member).elim (spared entry) (spared' entry)

end Workshop

/-- Rules were performed on a draft that was built to `inner` then or later. -/
def Declares (g : ObjectGraph) (body : List Rule) (inner : Validation) : Prop :=
  ∃ part start ended time, (performAll body part).runOn g start = (.ok (), ended) ∧
    Workshop.Grows g ended time ∧ inner = (time.draft part).build

section Standing

variable {typeName : String} {body : List Rule} {after last : Workshop Logbook}

/-- A group stays among the validations of its draft. -/
theorem group_stands (has : shop.Has address) (orderly : shop.Orderly g) {root : Nat} {a b : Bool}
    {v : Validation} (member : (address, .group root a b v) ∈ shop.deeds) :
    ∃ s : Surroundings, s.anyOf = (shop.draft address).anyOf ∧
      (shop.draft address).build = s.around v := by
  obtain ⟨initially, built⟩ := orderly.sound.build_own has
  have declared : v ∈ Draft.validationsOf (Logbook.onDraft address shop.deeds) :=
    List.mem_filterMap.mpr ⟨_, Logbook.mem_onDraft.mpr member, rfl⟩
  obtain ⟨before, behind, split⟩ := List.append_of_mem declared
  dsimp only at built
  rw [split, ← List.append_assoc] at built
  exact ⟨⟨_, _, behind, _, _⟩, rfl, built⟩

/-- A step stays among the validations of its draft. -/
theorem step_stands (has : shop.Has address) (orderly : shop.Orderly g) {key : StepKey}
    {position : Nat} (member : (address, .step key position) ∈ shop.deeds) :
    ∃ (s : Surroundings) (used : StepKey), s.anyOf = (shop.draft address).anyOf ∧
      used ∈ (shop.draft address).nested.map (·.1) ∧ used.same g key = true ∧
      s.constraints =
          (Draft.constraintsOf (Logbook.onDraft address shop.deeds)).map (·.constraint) ∧
      (shop.draft address).build = s.around (used.wrap
        (shop.draft { address with positions := address.positions ++ [position] }).build) := by
  obtain ⟨initially, built⟩ := orderly.sound.build_own has
  obtain ⟨inside, same, -⟩ :=
    List.findIdx?_eq_some_iff_getElem.mp (orderly.sound.findIdx?_keysOf member)
  have step := List.mem_map_of_mem (f := fun entry : StepKey × Nat => entry.1.wrap
    (shop.draft { address with positions := address.positions ++ [entry.2] }).build)
    (List.mk_mem_zipIdx_iff_getElem?.mpr (List.getElem?_eq_getElem inside))
  obtain ⟨first, behind, split⟩ := List.append_of_mem step
  dsimp only at built
  rw [split, List.append_assoc, List.cons_append] at built
  refine ⟨⟨_, first, _, _, _⟩, _, rfl, ?_, same, rfl, built⟩
  rw [orderly.sound.keys_eq has]
  exact List.getElem_mem inside

/-- A constraint that is declared under a fresh number is not named anywhere. -/
theorem Workshop.Orderly.hides_fresh (orderly : shop.Orderly g) (c : Constraint) :
    ({ shop with next := shop.next + 1 }.declared g address (.constraint ⟨shop.next, c⟩)).Hides
      ⟨fun _ => False, (· = shop.next)⟩ where
  addresses _ _ covered := covered.1
  constraints entry member same := Nat.lt_irrefl _ (same ▸ orderly.handedOut entry member)
  roots _ := False.elim
  numbers _ same := same ▸ Nat.lt_succ_self _
  handedOut entry member := Nat.lt_succ_of_lt (orderly.handedOut entry member)

/-- Rules after a test are performed on a step of the draft that holds the test. -/
theorem testThenType_ran {c : Constraint}
    (ran : (testThenType c typeName body address).runOn g shop = (.ok (), after)) :
    let registered := { shop with next := shop.next + 1 }.declared g address
      (.constraint ⟨shop.next, c⟩)
    let position := positionOf g (typeKey typeName) (registered.draft address)
    (performAll body { address with positions := address.positions ++ [position] }).runOn g
      (registered.declared g address (.step (typeKey typeName) position)) = (.ok (), after) := by
  intro registered position
  rw [testThenType, runOn_bind, runOn_register] at ran
  change (asType address typeName (performAll body)).runOn g registered = _ at ran
  rw [asType, runOn_bind, runOn_enter rfl] at ran
  exact ran

/-- A test that is declared on a draft, with rules in the draft, stays there for good: it has no
name, so that nothing takes its place. -/
theorem test_stands (orderly : shop.Orderly g) (has : shop.Has address) {c : Constraint}
    (ran : (testThenType c typeName body address).runOn g shop = (.ok (), after))
    (later : after.Continues g last) (orderly' : after.Orderly g) :
    ∃ (s : Surroundings) (key : StepKey) (inner : Validation),
      s.anyOf = (last.draft address).anyOf ∧ key.same g (typeKey typeName) = true ∧
      Declares g body inner ∧ (last.draft address).build = s.around (key.wrap inner) ∧
      c ∈ s.constraints := by
  let r : Registered := ⟨shop.next, c⟩
  let hidden : Hidden := ⟨fun _ => False, (· = shop.next)⟩
  have rootless (part : Address) : ¬ hidden.Covers part := fun covered => covered.1
  let registered := { shop with next := shop.next + 1 }.declared g address (.constraint r)
  have hides : registered.Hides hidden := orderly.hides_fresh c
  have safe := register_safe (g := g) orderly.sound has c
  have registered_sound : registered.Sound g := safe.sound
  have there : registered.Has address := safe.grows.has _ has
  have fits := Workshop.fits_step registered_sound there (typeKey typeName)
  let position := positionOf g (typeKey typeName) (registered.draft address)
  let start := registered.declared g address (.step (typeKey typeName) position)
  let part : Address := { address with positions := address.positions ++ [position] }
  have performed : (performAll body part).runOn g start = (.ok (), after) := testThenType_ran ran
  have there' : after.Has address := by
    have begins : start.Has part := Workshop.has_step there (typeKey typeName)
    have sound : start.Sound g := Workshop.sound_declared _ registered_sound there fits
    have grows := (performAll_safe (g := g) body start part sound begins).grows
    rw [performed] at grows
    exact grows.has _ (Workshop.has_declared _ there)
  obtain ⟨hides', ⟨made, deeds, spared⟩, -⟩ :=
    performAll_silent (g := g) body start part (hides.declared _) (rootless _)
  rw [performed] at hides' deeds
  obtain ⟨ordered, grows, kept⟩ := later.kept orderly'
  obtain ⟨-, made', deeds', spared'⟩ := kept hidden (fun _ => id) hides'
  have own : Logbook.onDraft address last.deeds =
      Logbook.onDraft address registered.deeds ++ .step (typeKey typeName) position ::
        Logbook.onDraft address (made ++ made') := by
    rw [deeds', deeds, List.append_assoc, Logbook.onDraft_append]
    change Logbook.onDraft address (registered.deeds ++ [_]) ++ _ = _
    rw [Logbook.onDraft_append, Logbook.onDraft_here, List.append_assoc]
    rfl
  have logged : .step (typeKey typeName) position ∈ Logbook.onDraft address last.deeds := by
    simp [own]
  obtain ⟨s, key, any, -, same, constraints, built⟩ :=
    step_stands (grows.has _ there') ordered (Logbook.mem_onDraft.mp logged)
  refine ⟨s, key, _, any, same, ⟨part, start, after, last, performed, grows, rfl⟩, built, ?_⟩
  rw [constraints, own]
  refine List.mem_map.mpr ⟨r, ?_, rfl⟩
  have first : r ∈ Draft.constraintsOf (Logbook.onDraft address registered.deeds) := by
    change r ∈ Draft.constraintsOf (Logbook.onDraft address (shop.deeds ++ [(address, _)]))
    rw [Logbook.onDraft_append, Logbook.onDraft_here, Draft.constraintsOf_snoc]
    exact List.mem_append_right _ (List.mem_singleton_self r)
  have covered : hidden.number r.number := rfl
  refine Draft.mem_constraintsOf first covered
    (List.forall_mem_cons.mpr ⟨trivial, fun deed member => ?_⟩)
  exact (List.mem_append.mp (Logbook.mem_onDraft.mp member)).elim
    (fun member => (spared _ member).deed) fun member => (spared' _ member).deed

/-- Whatever is performed later, what was narrowed is built in its encoding, with its test. -/
theorem narrowed_stands (orderly : shop.Orderly g) (has : shop.Has address) {n : Narrowing}
    {product : Product}
    (ran : ((Rule.group (n.group typeName) true body).perform address).runOn g shop =
      (.ok product, after)) (later : after.Continues g last) :
    ∃ (s : Surroundings) (key : StepKey) (inner : Validation),
      s.anyOf = (shop.draft address).anyOf ∧ key.same g (typeKey typeName) = true ∧
      Declares g body inner ∧
      (last.draft address).build = s.around (n.encoding typeName (key.wrap inner) s.anyOf) ∧
      (n = .ifType → s.anyOf = true → notOfType typeName ∈ s.constraints) := by
  have performed := (Rule.group (n.group typeName) true body).perform_safe shop address
    orderly.sound has
  have orderly' := orderly.perform (.group (n.group typeName) true body) has
  obtain ⟨-, grows, -⟩ := performed
  rw [ran] at grows orderly'
  obtain ⟨ordered, grows', kept⟩ := later.kept orderly'
  have there := (grows.trans grows').has _ has
  have kind := (grows.trans grows').anyOf_eq orderly.sound ordered.sound has
  rw [perform_narrowing] at ran
  obtain ⟨_, _, narrowed, ended⟩ := runOn_bind_ok ran
  cases ended
  by_cases shared : n = .ifType ∧ (shop.draft address).anyOf = true
  · obtain ⟨rfl, any⟩ := shared
    rw [any] at narrowed
    obtain ⟨s, key, inner, any', same, declares, built, member⟩ :=
      test_stands orderly has narrowed later orderly'
    refine ⟨s, key, inner, any'.trans kind, same, declares, ?_, fun _ _ => member⟩
    rw [built, any', kind, any]
    rfl
  · have closed (is : n = .ifType) : (shop.draft address).anyOf = false :=
      Bool.eq_false_iff.mpr fun any => shared ⟨is, any⟩
    obtain ⟨inner, ⟨root, start, typed, ⟨-, filled⟩, rfl⟩, before, group, a, b, rfl⟩ :=
      narrow_closed closed orderly narrowed
    obtain ⟨s, any, built⟩ := group_stands there ordered
      (grows'.logbook.subset (List.mem_append_right _ (List.mem_singleton_self _)))
    refine ⟨s, typeKey typeName, _, any.trans kind, StepKey.same_refl g _,
      ⟨_, start, typed, typed, filled, .refl typed, rfl⟩, ?_, fun is any' => ?_⟩
    · rw [built, any, kind]
    · rw [any, kind, closed is] at any'
      cases any'

/-- A draft on which nothing but narrowed rules is declared. -/
theorem built_narrowed (orderly : shop.Orderly g) {n : Narrowing} {anyOf short : Bool}
    {v : Validation} (ran : (built anyOf short [.group (n.group typeName) true body]).runOn g shop =
      (.ok v, after)) :
    ∃ inner, Types g typeName anyOf body inner ∧
      v = Validation.narrowed n typeName anyOf short inner := by
  let root : Address := { root := shop.drafts.length }
  let begun : Workshop Logbook :=
      { shop with drafts := shop.drafts ++ [{ anyOf, shortCircuit := short }] }
  have holds : begun.Holds g shop.drafts.length anyOf short [] := orderly.addDraft anyOf short
  have kind : (begun.draft root).anyOf = anyOf := by
    simp [begun, root, Workshop.draft, Draft.at?]
  have narrowed : (narrow typeName body root n anyOf).runOn g begun = (.ok (), after) ∧
      v = (after.draft root).build := by
    obtain ⟨_, _, new, ran⟩ := runOn_bind_ok ran
    cases new
    obtain ⟨_, declared, performed, ran⟩ := runOn_bind_ok ran
    rw [runOn_build] at ran
    cases ran
    obtain ⟨product, _, performed, rest⟩ := runOn_bind_ok performed
    cases rest
    rw [perform_narrowing] at performed
    obtain ⟨_, _, performed, rest⟩ := runOn_bind_ok performed
    cases rest
    change (narrow typeName body root n (begun.draft root).anyOf).runOn g begun = _ at performed
    exact ⟨kind ▸ performed, rfl⟩
  obtain ⟨narrowed, rfl⟩ := narrowed
  rcases n with _ | _ <;> rcases anyOf with _ | _
  · obtain ⟨filled, fills, ends⟩ := holds.addGroup (testThenGroup_safe (notOfType typeName) false)
      (testThenGroup_silent (notOfType typeName) false) narrowed
    obtain ⟨inner, types, is⟩ := grouped_build holds.orderly fills
    exact ⟨inner, types, by rw [ends.build_eq, is]; rfl⟩
  · obtain ⟨⟨number, test⟩, is, between, registered, holds⟩ := holds.register (notOfType typeName)
    obtain rfl : test = notOfType typeName := is
    rw [narrow, testThenType, runOn_bind, registered] at narrowed
    obtain ⟨⟨start, performed⟩, holds⟩ := holds.asType rfl narrowed
    refine ⟨_, ⟨_, start, after, performed, rfl⟩, ?_⟩
    rw [holds.build_eq]
    rfl
  · obtain ⟨filled, fills, ends⟩ := holds.addGroup (testThenType_safe (.isInstance [typeName]))
      (testThenType_silent (.isInstance [typeName])) narrowed
    obtain ⟨inner, types, is⟩ := direct_build holds.orderly fills
    exact ⟨inner, types, by rw [ends.build_eq, is]; rfl⟩
  · obtain ⟨filled, fills, ends⟩ :=
      holds.addGroup (testThenGroup_safe (.isInstance [typeName]) true)
      (testThenGroup_silent (.isInstance [typeName]) true) narrowed
    obtain ⟨inner, types, is⟩ := grouped_build holds.orderly fills
    exact ⟨inner, types, by rw [ends.build_eq, is]; rfl⟩

end Standing

/-- The rules that are narrowed to a type, by `if_type` or `require_type`, on a draft of either kind.

Wherever they are narrowed and whatever is declared before or after, the validation that the draft
is built to holds them in one place only, where they can be replaced by anything without changing
the evaluation of a value of another type: they are not evaluated.  Where any check may pass, the
rules of `if_type` need for this that the draft stops at the first check that passes.

If nothing else is declared on the draft, `if_type` accepts such a value, and `require_type`
rejects it with one leaf.  On an instance the verdict is that of the rules, and so is a fault,
unless hand-written rules leave open nodes in disorder.  Messages need a value that can be written
out. -/
theorem type_narrowing_protects (orderly : shop.Orderly g) (n : Narrowing) (typeName : String)
    (body : List Rule) :
    let rule := Rule.group (n.group typeName) true body
    (∀ address product declared last, shop.Has address →
      (rule.perform address).runOn g shop.erased = (.ok product, declared) →
      declared.Continues g last →
        ∃ (s : Surroundings) (key : StepKey) (inner : Validation),
          s.anyOf = (shop.draft address).anyOf ∧ key.same g (typeKey typeName) = true ∧
          Declares g body inner ∧
          (last.draft address).build = s.around (n.encoding typeName (key.wrap inner) s.anyOf) ∧
          ((n = .ifType → s.anyOf = true → s.shortCircuit = true) →
            ∀ x, x.isInstanceOf g typeName = false → ∀ expand typed run,
              ((last.draft address).build.evaluate expand x).runOn g run =
                ((s.around (n.encoding typeName typed s.anyOf)).evaluate expand x).runOn g run)) ∧
    ∀ anyOf short v after, (built anyOf short [rule]).runOn g shop.erased = (.ok v, after) →
      ∃ inner, Types g typeName anyOf body inner ∧
        v = Validation.narrowed n typeName anyOf short inner ∧ ∀ x,
          (x.isInstanceOf g typeName = false → ∀ run : Run, run.stack = {} →
            (n = .ifType → (anyOf = true → short = true) →
              ((v.validate x).runOn g run).1 = .ok (.accepted x [])) ∧
            (n = .requireType → (x.shown? g).isSome = true →
              ∃ root, ((v.validate x).runOn g run).1 = .ok (.rejected root) ∧
                root.leaves = [Validation.wrongType x])) ∧
          (x.isInstanceOf g typeName = true → (n = .ifType → (x.shown? g).isSome = true) →
            (∀ expand run,
              Validation.Defers g (v.evaluate expand x) (inner.evaluate expand x) run) ∧
            (inner.MadeOf .any → ∀ run : Run, run.rulebook.MadeOf .any → run.stack = {} →
              ((v.validate x).runOn g run).1.map Outcome.isAccepted =
                ((inner.validate x).runOn g run).1.map Outcome.isAccepted)) := by
  refine ⟨fun address product declared last has ran later => ?_, fun anyOf short v after ran => ?_⟩
  · obtain ⟨declared, logged, rfl⟩ := (Rule.perform_erases Logbook g _ address).ran ran
    obtain ⟨last, rfl, continues⟩ := later.logged
    obtain ⟨s, key, inner, any, same, declares, is, tests⟩ :=
      narrowed_stands orderly has logged continues
    refine ⟨s, key, inner, any, same, declares, is, fun stops x other expand typed run => ?_⟩
    rw [Workshop.erased_draft, is]
    exact congrFun (Validation.narrowed_protects other
      (fun narrows any => ⟨tests narrows any, stops narrows any⟩) _ _) run
  · obtain ⟨ended, ran, -⟩ := (built_erases anyOf short _).ran ran
    obtain ⟨inner, types, rfl⟩ := built_narrowed orderly ran
    refine ⟨inner, types, rfl, fun x =>
      ⟨fun other run fresh => ⟨?_, ?_⟩, fun is written => ⟨?_, ?_⟩⟩⟩
    · rintro rfl stops
      exact (Validation.ifType_accepts other stops inner fresh).1
    · rintro rfl written
      exact (Validation.requireType_rejects other written inner fresh).1
    · exact fun expand run => Validation.narrowed_defers is written anyOf short inner run
    · exact fun made run book fresh =>
        (Validation.instance_as_declared is written made book fresh).1

/-- Faults on every value. -/
def faulty : ValidationSpec :=
  .object [{ hint := "never shown", test := fun _ => throw .wrongType }] [] false false

/-- A text is no number, so that rules for numbers can not fault on it. -/
theorem type_narrowing_protects_of_faulty : ∃ v after,
    (built true true [.group (.ifType "int") true [.run faulty]]).runOn {} {} = (.ok v, after) ∧
      ((v.validate (.str "a")).runOn {} {}).1 = .ok (.accepted (.str "a") []) := by
  have orderly : Workshop.Orderly {} {} := ⟨Workshop.sound_empty {}, fun _ member => nomatch member⟩
  rcases ran : (built true true [.group (.ifType "int") true [.run faulty]]).runOn {} {} with
    ⟨fault | v, after⟩
  · cases ran
  · obtain ⟨inner, -, -, outcomes⟩ :=
      (type_narrowing_protects orderly .ifType "int" [.run faulty]).2 true true v after ran
    exact ⟨v, after, ran, ((outcomes (.str "a")).1 rfl {} rfl).1 rfl fun _ => rfl⟩

/-- If the draft does not stop at the first check that passes, rules for numbers fault on a text. -/
theorem if_type_faults_on_others : ∃ v after,
    (built true true [.group .nonShortCircuit false [],
      .group (.ifType "int") true [.run faulty]]).runOn {} {} = (.ok v, after) ∧
      Value.isInstanceOf {} (.str "a") "int" = false ∧
      ((v.validate (.str "a")).runOn {} {}).1 = .error .wrongType :=
  ⟨_, _, rfl, rfl, rfl⟩

end PathRules
