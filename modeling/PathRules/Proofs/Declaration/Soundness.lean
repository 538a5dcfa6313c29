import PathRules.Proofs.Declaration.Erasure
import PathRules.Proofs.Declaration.Logbook

/-!
# No rule breaks a workshop

Whatever rules are performed, and whatever they come to, a sound workshop stays sound and holds
what was there.  So at any time a draft is built to the canonical form of the declarations that the
logbook holds for it.
-/

namespace PathRules

variable {α β : Type} {g : ObjectGraph} {shop : Workshop Logbook}

namespace Declaring

/-- What a declaration makes of a sound workshop is sound and holds what was there; if it comes to
something, `post` holds of that. -/
structure Keeps (g : ObjectGraph) (shop : Workshop Logbook) (m : Declaring Logbook α)
    (post : α → Workshop Logbook → Prop) : Prop where
  sound : (m.runOn g shop).2.Sound g
  grows : shop.Grows g (m.runOn g shop).2
  comes : ∀ a, (m.runOn g shop).1 = .ok a → post a (m.runOn g shop).2

abbrev Safe (g : ObjectGraph) (shop : Workshop Logbook) (m : Declaring Logbook α) : Prop :=
  m.Keeps g shop fun _ _ => True

namespace Keeps

theorem of_pure {post : α → Workshop Logbook → Prop} (sound : shop.Sound g) {a : α}
    (h : post a shop) :
    (pure a : Declaring Logbook α).Keeps g shop post :=
  ⟨sound, .refl shop, fun _ is => Except.ok.inj is ▸ h⟩

theorem of_throw {post : α → Workshop Logbook → Prop} (sound : shop.Sound g) (fault : Fault) :
    (throw fault : Declaring Logbook α).Keeps g shop post :=
  ⟨sound, .refl shop, fun _ is => nomatch is⟩

theorem of_ofExcept (sound : shop.Sound g) (outcome : Except Fault α) :
    (ofExcept outcome).Safe g shop := by
  cases outcome with
  | ok a => exact of_pure sound trivial
  | error fault => exact of_throw sound fault

theorem of_found {post : α → Workshop Logbook → Prop} (sound : shop.Sound g) {entry : Option α}
    (h : ∀ a, entry = some a → post a shop) : (found entry).Keeps g shop post := by
  cases entry with
  | none => exact of_throw sound _
  | some a => exact of_pure sound (h a rfl)

theorem bind {m : Declaring Logbook α} {f : α → Declaring Logbook β}
    {post : α → Workshop Logbook → Prop}
    {post' : β → Workshop Logbook → Prop} (h : m.Keeps g shop post)
    (hf : ∀ a after, after.Sound g → shop.Grows g after → post a after →
      (f a).Keeps g after post') : (m >>= f).Keeps g shop post' := by
  obtain ⟨sound, grows, comes⟩ := h
  rcases ran : m.runOn g shop with ⟨fault | a, after⟩ <;> rw [ran] at sound grows comes
  · have is : (m >>= f).runOn g shop = (.error fault, after) := by rw [runOn_bind, ran]
    exact ⟨is ▸ sound, is ▸ grows, fun b given => by rw [is] at given; cases given⟩
  · obtain ⟨sound', grows', comes'⟩ := hf a after sound grows (comes a rfl)
    have is : (m >>= f).runOn g shop = (f a).runOn g after := runOn_bind_of_ok ran
    refine ⟨is ▸ sound', is ▸ grows.trans grows', fun b given => ?_⟩
    rw [is] at given ⊢
    exact comes' b given

theorem of_read (sound : shop.Sound g) :
    (read : Declaring Logbook ObjectGraph).Keeps g shop fun a after => a = g ∧ after = shop :=
  ⟨sound, .refl shop, fun _ is => ⟨(Except.ok.inj is).symm, rfl⟩⟩

theorem of_get (sound : shop.Sound g) :
    (get : Declaring Logbook (Workshop Logbook)).Keeps g shop fun a after =>
      a = shop ∧ after = shop :=
  ⟨sound, .refl shop, fun _ is => ⟨(Except.ok.inj is).symm, rfl⟩⟩

theorem of_ite {post : α → Workshop Logbook → Prop} {c : Prop} [Decidable c]
    {m m' : Declaring Logbook α}
    (h : m.Keeps g shop post) (h' : m'.Keeps g shop post) :
    (if c then m else m').Keeps g shop post := by
  split
  · exact h
  · exact h'

/-- What changes neither the drafts nor the logbook, and names only drafts that are there, is
safe. -/
theorem of_same {m : Declaring Logbook α} (sound : shop.Sound g)
    (drafts : (m.runOn g shop).2.drafts = shop.drafts)
    (deeds : (m.runOn g shop).2.deeds = shop.deeds)
    (named : ∀ entry ∈ (m.runOn g shop).2.addresses, shop.Has entry.2) : m.Safe g shop where
  sound := sound.of_same drafts deeds named
  grows := .of_same drafts deeds
  comes _ _ := trivial

theorem attempt {m : Declaring Logbook α} (h : m.Safe g shop) : m.attempt.Safe g shop where
  sound := h.sound
  grows := h.grows
  comes _ _ := trivial

theorem of_forM {ι : Type} {f : ι → Declaring Logbook Unit} (sound : shop.Sound g) (items : List ι)
    (h : ∀ i ∈ items, ∀ after, shop.Grows g after → after.Sound g → (f i).Safe g after) :
    (items.forM f).Safe g shop := by
  induction items generalizing shop with
  | nil => exact of_pure sound trivial
  | cons i items ih =>
    refine (h i List.mem_cons_self shop (.refl shop) sound).bind fun _ after sound grows _ => ?_
    exact ih sound fun j member last grows' sound =>
      h j (List.mem_cons_of_mem _ member) last (grows.trans grows') sound

theorem mono {m : Declaring Logbook α} {post post' : α → Workshop Logbook → Prop}
    (h : m.Keeps g shop post) (weaker : ∀ a after, post a after → post' a after) :
    m.Keeps g shop post' :=
  ⟨h.sound, h.grows, fun a is => weaker a _ (h.comes a is)⟩

theorem safe {m : Declaring Logbook α} {post : α → Workshop Logbook → Prop}
    (h : m.Keeps g shop post) : m.Safe g shop := h.mono fun _ _ _ => trivial

/-- What is known of a declaration that came to something. -/
theorem ran {m : Declaring Logbook α} {post : α → Workshop Logbook → Prop} {a : α}
    {after : Workshop Logbook} (h : m.Keeps g shop post) (ran : m.runOn g shop = (.ok a, after)) :
    after.Sound g ∧ shop.Grows g after ∧ post a after := by
  obtain ⟨sound, grows, comes⟩ := h
  rw [ran] at sound grows comes
  exact ⟨sound, grows, comes a rfl⟩

/-- A declaration that is safe makes what its runs are known to make. -/
theorem of_ran {m : Declaring Logbook α} {post : α → Workshop Logbook → Prop} (safe : m.Safe g shop)
    (h : ∀ a after, m.runOn g shop = (.ok a, after) → post a after) : m.Keeps g shop post :=
  ⟨safe.sound, safe.grows, fun a is => h a _ (Prod.ext is rfl)⟩

end Keeps

section Workshop

variable (sound : shop.Sound g)

include sound

theorem fresh_safe : fresh.Safe g shop := .of_same sound rfl rfl sound.named

theorem addDraft_keeps (anyOf shortCircuit : Bool) :
    (addDraft { anyOf, shortCircuit }).Keeps g shop fun address after =>
      address = { root := shop.drafts.length } ∧ after.Has address ∧
        after.Begun g address.root anyOf shortCircuit where
  sound := Workshop.sound_addDraft anyOf shortCircuit sound
  grows := Workshop.grows_addDraft _
  comes address is := by
    obtain rfl := Except.ok.inj is
    have begun := Workshop.begun_addDraft anyOf shortCircuit sound
    exact ⟨rfl, let ⟨draft, held, _⟩ := begun; ⟨draft, held, rfl⟩, begun⟩

theorem draftAt_keeps (address : Address) :
    (draftAt address).Keeps g shop fun draft after => draft = shop.draft address ∧ after = shop := by
  refine ⟨?_, ?_, ?_⟩ <;> rw [runOn_draftAt]
  · exact sound
  · exact .refl shop
  · exact fun draft is => ⟨(Except.ok.inj is).symm, rfl⟩

theorem build_keeps (address : Address) :
    (build address).Keeps g shop fun v after => v = (shop.draft address).build ∧ after = shop := by
  refine (draftAt_keeps sound address).bind fun draft after sound _ is => ?_
  obtain ⟨rfl, rfl⟩ := is
  exact .of_pure sound ⟨rfl, rfl⟩

theorem declare_keeps {address : Address} (has : shop.Has address) (deed : Draft.Deed)
    (fits : deed.Fits g shop.deeds address) :
    (declare address deed).Keeps g shop fun _ after => after = shop.declared g address deed where
  sound := Workshop.sound_declared deed sound has fits
  grows := Workshop.grows_declared deed has
  comes _ _ := rfl

theorem nameConstraint_safe (name : Option String) (r : Registered) :
    (nameConstraint name r).Safe g shop := by
  cases name with
  | none => exact .of_pure sound trivial
  | some name => exact .of_same sound rfl rfl sound.named

theorem nameAddress_safe (name : String) {address : Address} (has : shop.Has address) :
    (nameAddress name address).Safe g shop := by
  refine .of_same sound rfl rfl fun entry member => ?_
  rcases List.mem_cons.mp member with rfl | old
  · exact has
  · exact sound.named entry old

theorem namePath_safe (name : String) (path : Path) : (namePath name path).Safe g shop :=
  .of_same sound rfl rfl sound.named

theorem constraintNamed_safe (name : String) : (constraintNamed name).Safe g shop :=
  (Keeps.of_get sound).bind fun _ _ sound _ _ => .of_found sound fun _ _ => trivial

theorem addressNamed_keeps (name : String) :
    (addressNamed name).Keeps g shop fun address after => after.Has address := by
  refine (Keeps.of_get sound).bind fun _ after sound _ is => ?_
  obtain ⟨rfl, rfl⟩ := is
  refine .of_found sound fun address held => ?_
  obtain ⟨earlier, later, is, -⟩ := List.lookup_eq_some_iff.mp held
  exact sound.named (name, address) (by simp [is])

theorem pathNamed_safe (name : String) : (pathNamed name).Safe g shop :=
  (Keeps.of_get sound).bind fun _ _ sound _ _ => .of_found sound fun _ _ => trivial

theorem validationNamed_safe (name : String) : (validationNamed name).Safe g shop :=
  (Keeps.of_get sound).bind fun _ _ sound _ _ => .of_found sound fun _ _ => trivial

theorem ofModel_safe (registry cls : String) : (ofModel registry cls).Safe g shop :=
  .of_same sound rfl rfl sound.named

theorem numbered_safe (v : Validation) : (numbered v).Safe g shop :=
  (fresh_safe sound).bind fun _ _ sound _ _ => .of_pure sound trivial

variable {address : Address} (has : shop.Has address)

include has

theorem register_safe (c : Constraint) : (register address c).Safe g shop := by
  refine (fresh_safe sound).bind fun number after sound grows _ => ?_
  refine (declare_keeps sound (grows.has _ has) (.constraint ⟨number, c⟩) trivial).bind
    fun _ after sound _ _ => ?_
  exact .of_pure sound trivial

theorem replace_safe (r : Registered) (c : Constraint) : (replace address r c).Safe g shop := by
  refine (fresh_safe sound).bind fun number after sound grows _ => ?_
  refine (draftAt_keeps sound address).bind fun draft after sound grows' _ => ?_
  cases draft.replace? r.number ⟨number, c⟩ with
  | none => exact .of_throw sound _
  | some changed =>
    have has := (grows.trans grows').has _ has
    have new := declare_keeps sound has (.replacement r.number ⟨number, c⟩) trivial
    exact new.bind fun _ _ sound _ _ => .of_pure sound trivial

theorem enter_keeps (key : StepKey) :
    (enter address key).Keeps g shop fun part after => after.Has part := by
  refine (Keeps.of_read sound).bind fun g' after sound _ is => ?_
  obtain ⟨rfl, rfl⟩ := is
  refine .of_ite (.of_throw sound _) ?_
  refine (draftAt_keeps sound address).bind fun draft between sound _ is => ?_
  obtain ⟨rfl, rfl⟩ := is
  refine (declare_keeps sound has _ (Workshop.fits_step sound has key)).bind
    fun _ last sound _ is => ?_
  exact .of_pure sound (is ▸ Workshop.has_step has key)

theorem addValidation_safe (v : Validation) : (addValidation address v).Safe g shop :=
  (declare_keeps sound has (.validation v) trivial).safe

end Workshop

section Rules

variable (sound : shop.Sound g) {address : Address} (has : shop.Has address)
  {fill : Address → Declaring Logbook Unit}

include sound has

theorem constrain_safe (call : Call) (name : Option String) :
    (constrain address call name).Safe g shop := by
  refine (Keeps.of_read sound).bind fun g' after sound grows _ => ?_
  refine (Keeps.of_ofExcept sound _).bind fun c after sound grows' _ => ?_
  refine (register_safe sound ((grows.trans grows').has _ has) c).bind fun r after sound _ _ => ?_
  exact (nameConstraint_safe sound name r).bind fun _ _ sound _ _ => .of_pure sound trivial

theorem constraintOf_safe (handle : Handle) : (constraintOf address handle).Safe g shop := by
  cases handle with
  | named name => exact constraintNamed_safe sound name
  | fresh call name => exact constrain_safe sound has call name

variable (fills : ∀ shop part, shop.Sound g → shop.Has part → (fill part).Safe g shop)

include fills

theorem enterEach_keeps (keys : List StepKey) :
    (enterEach address fill keys).Keeps g shop fun parts after =>
      ∀ part ∈ parts, after.Has part := by
  induction keys generalizing shop with
  | nil => exact .of_pure sound fun part member => nomatch member
  | cons key keys ih =>
    refine (enter_keeps sound has key).bind fun part after sound grows there => ?_
    refine (fills after part sound there).bind fun _ filled sound grows' _ => ?_
    refine (ih sound ((grows.trans grows').has _ has)).bind fun parts last sound grows'' all => ?_
    refine .of_pure sound fun other member => ?_
    rcases List.mem_cons.mp member with rfl | later
    · exact (grows'.trans grows'').has _ there
    · exact all other later

/-- A group fits the logbook: by the time it is added, nothing but its rules was declared on its
draft. -/
theorem addGroup_safe (anyOf shortCircuit : Bool) :
    (addGroup address { anyOf, shortCircuit } fill).Safe g shop := by
  refine (addDraft_keeps sound anyOf shortCircuit).bind fun group after sound grows begun => ?_
  obtain ⟨is, there, begun⟩ := begun
  refine (fills after group sound there).bind fun _ filled sound grows' _ => ?_
  refine (build_keeps sound group).bind fun v built sound _ made => ?_
  obtain ⟨rfl, rfl⟩ := made
  obtain rfl := is
  have fits := (grows'.begun _ _ _ begun).build_eq
  exact (declare_keeps sound ((grows.trans grows').has _ has) (.group ..) fits).safe

theorem asType_safe (typeName : String) : (asType address typeName fill).Safe g shop :=
  (enter_keeps sound has _).bind fun part after sound _ there => fills after part sound there

theorem ifType_safe (typeName : String) : (ifType address typeName fill).Safe g shop := by
  refine (draftAt_keeps sound address).bind fun draft after sound grows is => ?_
  have has := grows.has _ has
  refine .of_ite ?_ ?_
  · refine (register_safe sound has _).bind fun _ last sound grows _ => ?_
    exact asType_safe sound (grows.has _ has) fills typeName
  · refine addGroup_safe sound has (fun shop either sound has => ?_) true true
    refine (register_safe sound has _).bind fun _ last sound grows _ => ?_
    have has := grows.has _ has
    exact addGroup_safe sound has
      (fun _ typed sound has => asType_safe sound has fills typeName) false false

theorem requireType_safe (typeName : String) : (requireType address typeName fill).Safe g shop := by
  refine (draftAt_keeps sound address).bind fun draft after sound grows is => ?_
  refine addGroup_safe sound (grows.has _ has) (fun shop checked sound has => ?_) false true
  refine (register_safe sound has _).bind fun _ last sound grows _ => ?_
  have has := grows.has _ has
  refine .of_ite ?_ (asType_safe sound has fills typeName)
  exact addGroup_safe sound has
    (fun _ typed sound has => asType_safe sound has fills typeName) true true

theorem navigate_safe (navigation : Navigation) (path : Option Path) (selection : List Value)
    (names : List String) : (navigate address navigation path selection fill names).Safe g shop := by
  have starts : (startOf navigation path).Safe g shop := by
    unfold startOf
    split
    · exact .of_ite (.of_throw sound _) (.of_pure sound trivial)
    · exact .of_ite (.of_pure sound trivial) (.of_throw sound _)
  refine starts.bind fun path after sound grows _ => .of_ite (.of_throw sound _) ?_
  refine (Keeps.of_read sound).bind fun g' read sound grows' _ => ?_
  have has := (grows.trans grows').has _ has
  refine (enterEach_keeps sound has fills _).bind fun parts entered sound _ there => ?_
  refine (Keeps.of_forM sound _ fun pair member shop grows sound => ?_).bind
    fun _ last sound _ _ => ?_
  · exact nameAddress_safe sound _ (grows.has _ (there _ (List.of_mem_zip member).2))
  · split <;> exact .of_pure sound trivial

omit fills in
theorem declareGroup_safe (kind : Group) (fill : Option (Address → Declaring Logbook Unit))
    (fills : ∀ body ∈ fill, ∀ shop part, shop.Sound g → shop.Has part →
      (body part).Safe g shop) : (declareGroup address kind fill).Safe g shop := by
  refine (draftAt_keeps sound address).bind fun draft after sound grows is => ?_
  have has := grows.has _ has
  split
  · exact addGroup_safe sound has (fills _ rfl) true true
  · exact addGroup_safe sound has (fills _ rfl) false false
  · exact addGroup_safe sound has (fills _ rfl) false true
  · exact (declare_keeps sound has (.shortCircuit true) trivial).safe
  · exact addGroup_safe sound has (fills _ rfl) true false
  · exact (declare_keeps sound has (.shortCircuit false) trivial).safe
  · exact ifType_safe sound has (fills _ rfl) _
  · exact requireType_safe sound has (fills _ rfl) _
  all_goals exact .of_throw sound _

end Rules

end Declaring

open Declaring

mutual

theorem PathSpec.resolve_safe (spec : PathSpec) (shop : Workshop Logbook) (sound : shop.Sound g) :
    spec.resolve.Safe g shop := by
  cases spec with
  | segment s => exact .of_pure sound trivial
  | text name => exact .of_pure sound trivial
  | raw v =>
    cases v with
    | str name => exact .of_pure sound trivial
    | _ => exact (Keeps.of_read sound).bind fun _ _ sound _ _ => .of_throw sound _
  | named name => exact pathNamed_safe sound name
  | guarded inner condition =>
    refine (PathSpec.resolve_safe inner shop sound).bind fun path after sound _ _ => ?_
    refine (ValidationSpec.make_safe condition after sound).bind fun made last sound _ _ => ?_
    exact .of_pure sound trivial
termination_by structural spec

/-- A validation that is declared is built on a draft of its own. -/
theorem ValidationSpec.make_safe (spec : ValidationSpec) (shop : Workshop Logbook)
    (sound : shop.Sound g) : spec.make.Safe g shop := by
  cases spec with
  | declared anyOf rules =>
    refine (addDraft_keeps sound anyOf anyOf).bind fun address after sound _ there => ?_
    refine (performAll_safe rules after address sound there.2.1).bind fun _ done sound _ _ => ?_
    exact (build_keeps sound address).bind fun built last sound _ _ => numbered_safe sound built
  | step presence path inner =>
    refine (PathSpec.resolve_safe path shop sound).bind fun path after sound _ _ => ?_
    refine (ValidationSpec.make_safe inner after sound).bind fun made last sound _ _ => ?_
    exact numbered_safe sound _
  | elements kind inner =>
    refine (ValidationSpec.make_safe inner shop sound).bind fun made after sound _ _ => ?_
    refine (Keeps.of_read sound).bind fun g' read sound _ _ => ?_
    exact .of_ite (numbered_safe sound _) (.of_throw sound _)
  | object constraints subs anyOf shortCircuit =>
    exact (makeAll_safe subs shop sound).bind fun subs after sound _ _ => numbered_safe sound _
  | script steps answer =>
    exact (makeSteps_safe steps shop sound).bind fun steps after sound _ _ => numbered_safe sound _
  | named name => exact validationNamed_safe sound name
  | model registry cls =>
    exact (ofModel_safe sound registry cls).bind fun v after sound _ _ => numbered_safe sound v
termination_by structural spec

theorem makeAll_safe (specs : List ValidationSpec) (shop : Workshop Logbook)
    (sound : shop.Sound g) :
    (makeAll specs).Safe g shop := by
  cases specs with
  | nil => exact .of_pure sound trivial
  | cons spec specs =>
    refine (ValidationSpec.make_safe spec shop sound).bind fun made after sound _ _ => ?_
    exact (makeAll_safe specs after sound).bind fun _ _ sound _ _ => .of_pure sound trivial
termination_by structural specs

theorem StepSpec.make_safe (spec : StepSpec) (shop : Workshop Logbook) (sound : shop.Sound g) :
    spec.make.Safe g shop := by
  cases spec with
  | act action => exact .of_pure sound trivial
  | openPath path =>
    refine (Keeps.attempt (PathSpec.resolve_safe path shop sound)).bind
      fun made after sound _ _ => ?_
    cases made <;> exact .of_pure sound trivial
  | evaluate validation =>
    refine (Keeps.attempt (ValidationSpec.make_safe validation shop sound)).bind
      fun made after sound _ _ => ?_
    cases made <;> exact .of_pure sound trivial
termination_by structural spec

theorem makeSteps_safe (specs : List StepSpec) (shop : Workshop Logbook) (sound : shop.Sound g) :
    (makeSteps specs).Safe g shop := by
  cases specs with
  | nil => exact .of_pure sound trivial
  | cons spec specs =>
    refine (StepSpec.make_safe spec shop sound).bind fun step after sound _ _ => ?_
    exact (makeSteps_safe specs after sound).bind fun _ _ sound _ _ => .of_pure sound trivial
termination_by structural specs

/-- One rule keeps the workshop sound. -/
theorem Rule.perform_safe (rule : Rule) (shop : Workshop Logbook) (address : Address)
    (sound : shop.Sound g) (has : shop.Has address) : (rule.perform address).Safe g shop := by
  cases rule with
  | constrain call name =>
    exact (constrain_safe sound has call name).bind fun _ _ sound _ _ => .of_pure sound trivial
  | detached name c =>
    refine (fresh_safe sound).bind fun number after sound _ _ => ?_
    exact (nameConstraint_safe sound _ _).bind fun _ _ sound _ _ => .of_pure sound trivial
  | hint handle message name | warn handle name =>
    refine (constraintOf_safe sound has handle).bind fun r after sound grows _ => ?_
    refine (replace_safe sound (grows.has _ has) r _).bind fun new last sound _ _ => ?_
    exact (nameConstraint_safe sound name new).bind fun _ _ sound _ _ => .of_pure sound trivial
  | navigate navigation path selection hasBody body names =>
    have fills (shop : Workshop Logbook) (part : Address) (sound : shop.Sound g)
        (has : shop.Has part) :
        Safe g shop (if hasBody then performAll body part else pure ()) :=
      .of_ite (performAll_safe body shop part sound has) (.of_pure sound trivial)
    cases path with
    | none => exact navigate_safe sound has fills navigation none selection names
    | some path =>
      refine (PathSpec.resolve_safe path shop sound).bind fun path after sound grows _ => ?_
      exact navigate_safe sound (grows.has _ has) fills navigation (some path) selection names
  | on name rules =>
    refine (addressNamed_keeps sound name).bind fun address after sound _ there => ?_
    refine (performAll_safe rules after address sound there).bind fun _ last sound _ _ => ?_
    exact .of_pure sound trivial
  | group kind hasBody body =>
    refine (declareGroup_safe sound has kind _ fun fill given => ?_).bind
      fun _ _ sound _ _ => .of_pure sound trivial
    split at given
    · obtain rfl := Option.mem_some.mp given
      exact fun shop part sound has => performAll_safe body shop part sound has
    · cases given
  | run validation =>
    refine (ValidationSpec.make_safe validation shop sound).bind fun made after sound grows _ => ?_
    exact (addValidation_safe sound (grows.has _ has) made.validation).bind
      fun _ _ sound _ _ => .of_pure sound trivial
  | guard name path condition =>
    refine (ValidationSpec.make_safe condition shop sound).bind fun made after sound _ _ => ?_
    refine (PathSpec.resolve_safe path after sound).bind fun path last sound _ _ => ?_
    exact (namePath_safe sound name _).bind fun _ _ sound _ _ => .of_pure sound trivial
  | thisPath => exact .of_pure sound trivial
  | unknown => exact .of_throw sound _
termination_by structural rule

theorem performAll_safe (rules : List Rule) (shop : Workshop Logbook) (address : Address)
    (sound : shop.Sound g) (has : shop.Has address) : (performAll rules address).Safe g shop := by
  cases rules with
  | nil => exact .of_pure sound trivial
  | cons rule rules =>
    refine (Rule.perform_safe rule shop address sound has).bind fun _ after sound grows _ => ?_
    exact performAll_safe rules after address sound (grows.has _ has)
termination_by structural rules

end

/-- What rules that are performed on a new draft are built to. -/
def built {Log : Type} [Journal Log] (anyOf shortCircuit : Bool) (rules : List Rule) :
    Declaring Log Validation := do
  let address ← addDraft { anyOf, shortCircuit }
  performAll rules address
  build address

theorem built_erases (anyOf shortCircuit : Bool) (rules : List Rule) :
    Erases g (built anyOf shortCircuit rules : Declaring Logbook Validation)
      (built anyOf shortCircuit rules) :=
  (addDraft_erases g _).bind fun address =>
    (performAll_erases Logbook g rules address).bind fun _ => build_erases g address

end PathRules
