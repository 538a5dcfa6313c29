import PathRules.Proofs.Declaration.Performing

/-!
# What no rule gets at

Rules declare on the draft that they are performed on, on the drafts in it, on drafts that they
make and on drafts that have a name; they replace constraints that have a name.  A separate draft
that has no name, and a constraint that has none, are hidden from rules that are performed
elsewhere: whatever these declare, nothing is declared on the draft itself, and nothing takes the
place of the constraint.
-/

namespace PathRules

variable {α β : Type} {g : ObjectGraph} {shop : Workshop Logbook}

/-- Separate drafts, without the drafts in them, and constraints. -/
structure Hidden where
  root : Nat → Prop
  number : Nat → Prop

namespace Hidden

def Covers (hidden : Hidden) (address : Address) : Prop :=
  hidden.root address.root ∧ address.positions = []

/-- Nothing takes the place of a hidden constraint. -/
def Permits (hidden : Hidden) : Draft.Deed → Prop
  | .replacement number _ => ¬ hidden.number number
  | _ => True

/-- A declaration neither on a hidden draft nor in the place of a hidden constraint. -/
structure Spared (hidden : Hidden) (entry : Address × Draft.Deed) : Prop where
  address : ¬ hidden.Covers entry.1
  deed : hidden.Permits entry.2

end Hidden

/-- What is hidden is in the workshop and has no name there. -/
structure Workshop.Hides (shop : Workshop Logbook) (hidden : Hidden) : Prop where
  addresses : ∀ entry ∈ shop.addresses, ¬ hidden.Covers entry.2
  constraints : ∀ entry ∈ shop.constraints, ¬ hidden.number entry.2.number
  roots : ∀ root, hidden.root root → root < shop.drafts.length
  numbers : ∀ number, hidden.number number → number < shop.next
  handedOut : ∀ entry ∈ shop.constraints, entry.2.number < shop.next

namespace Declaring

variable {hidden : Hidden}

/-- A declaration leaves what is hidden alone; if it comes to something, `post` holds of that. -/
structure Discreet (g : ObjectGraph) (hidden : Hidden) (shop : Workshop Logbook)
    (m : Declaring Logbook α) (post : α → Workshop Logbook → Prop) : Prop where
  hides : (m.runOn g shop).2.Hides hidden
  spared : ∃ made, (m.runOn g shop).2.deeds = shop.deeds ++ made ∧
    ∀ entry ∈ made, hidden.Spared entry
  comes : ∀ a, (m.runOn g shop).1 = .ok a → post a (m.runOn g shop).2

/-- A constraint that may be named and replaced. -/
def Known (hidden : Hidden) (r : Registered) (shop : Workshop Logbook) : Prop :=
  ¬ hidden.number r.number ∧ r.number < shop.next

/-- A declaration whose result does not matter. -/
abbrev Silent (g : ObjectGraph) (hidden : Hidden) (shop : Workshop Logbook)
    (m : Declaring Logbook α) : Prop :=
  m.Discreet g hidden shop fun _ _ => True

namespace Discreet

theorem of_pure {post : α → Workshop Logbook → Prop} (hides : shop.Hides hidden) {a : α}
    (h : post a shop) : (pure a : Declaring Logbook α).Discreet g hidden shop post :=
  ⟨hides, ⟨[], (List.append_nil _).symm, nofun⟩, fun _ is => Except.ok.inj is ▸ h⟩

theorem of_throw {post : α → Workshop Logbook → Prop} (hides : shop.Hides hidden) (fault : Fault) :
    (throw fault : Declaring Logbook α).Discreet g hidden shop post :=
  ⟨hides, ⟨[], (List.append_nil _).symm, nofun⟩, fun _ is => nomatch is⟩

theorem of_ofExcept (hides : shop.Hides hidden) (outcome : Except Fault α) :
    (ofExcept outcome).Discreet g hidden shop fun _ after => after = shop := by
  cases outcome with
  | ok a => exact of_pure hides rfl
  | error fault => exact of_throw hides fault

theorem of_found {post : α → Workshop Logbook → Prop} (hides : shop.Hides hidden)
    {entry : Option α} (h : ∀ a, entry = some a → post a shop) :
    (found entry).Discreet g hidden shop post := by
  cases entry with
  | none => exact of_throw hides _
  | some a => exact of_pure hides (h a rfl)

theorem bind {m : Declaring Logbook α} {f : α → Declaring Logbook β}
    {post : α → Workshop Logbook → Prop}
    {post' : β → Workshop Logbook → Prop} (h : m.Discreet g hidden shop post)
    (hf : ∀ a after, after.Hides hidden → post a after → (f a).Discreet g hidden after post') :
    (m >>= f).Discreet g hidden shop post' := by
  obtain ⟨hides, ⟨made, first, spared⟩, comes⟩ := h
  rcases ran : m.runOn g shop with ⟨fault | a, after⟩ <;> rw [ran] at hides first comes
  · have is : (m >>= f).runOn g shop = (.error fault, after) := by rw [runOn_bind, ran]
    exact ⟨is ▸ hides, ⟨made, is ▸ first, spared⟩, fun b given => by rw [is] at given; cases given⟩
  · obtain ⟨hides', ⟨made', second, spared'⟩, comes'⟩ := hf a after hides (comes a rfl)
    have is : (m >>= f).runOn g shop = (f a).runOn g after := runOn_bind_of_ok ran
    refine ⟨is ▸ hides', ⟨made ++ made', ?_, fun entry member => ?_⟩, fun b given => ?_⟩
    · rw [is, second, first, List.append_assoc]
    · exact (List.mem_append.mp member).elim (spared entry) (spared' entry)
    · rw [is] at given ⊢
      exact comes' b given

theorem of_read (hides : shop.Hides hidden) :
    (read : Declaring Logbook ObjectGraph).Discreet g hidden shop fun a after =>
      a = g ∧ after = shop :=
  ⟨hides, ⟨[], (List.append_nil _).symm, nofun⟩, fun _ is => ⟨(Except.ok.inj is).symm, rfl⟩⟩

theorem of_get (hides : shop.Hides hidden) :
    (get : Declaring Logbook (Workshop Logbook)).Discreet g hidden shop fun a after =>
      a = shop ∧ after = shop :=
  ⟨hides, ⟨[], (List.append_nil _).symm, nofun⟩, fun _ is => ⟨(Except.ok.inj is).symm, rfl⟩⟩

theorem of_ite {post : α → Workshop Logbook → Prop} {c : Prop} [Decidable c]
    {m m' : Declaring Logbook α}
    (h : m.Discreet g hidden shop post) (h' : m'.Discreet g hidden shop post) :
    (if c then m else m').Discreet g hidden shop post := by
  split
  · exact h
  · exact h'

/-- What changes neither the logbook nor any of the names. -/
theorem of_same {m : Declaring Logbook α} (hides : (m.runOn g shop).2.Hides hidden)
    (deeds : (m.runOn g shop).2.deeds = shop.deeds) : m.Silent g hidden shop :=
  ⟨hides, ⟨[], by rw [deeds, List.append_nil], nofun⟩, fun _ _ => trivial⟩

theorem attempt {m : Declaring Logbook α} (h : m.Silent g hidden shop) :
    m.attempt.Silent g hidden shop :=
  ⟨h.hides, h.spared, fun _ _ => trivial⟩

theorem of_forM {ι : Type} {f : ι → Declaring Logbook Unit} (hides : shop.Hides hidden)
    (items : List ι)
    (h : ∀ i ∈ items, ∀ after : Workshop Logbook, after.Hides hidden → (f i).Silent g hidden after) :
    (items.forM f).Silent g hidden shop := by
  induction items generalizing shop with
  | nil => exact of_pure hides trivial
  | cons i items ih =>
    refine (h i List.mem_cons_self shop hides).bind fun _ after hides _ => ?_
    exact ih hides fun j member => h j (List.mem_cons_of_mem _ member)

theorem silent {m : Declaring Logbook α} {post : α → Workshop Logbook → Prop}
    (h : m.Discreet g hidden shop post) :
    m.Silent g hidden shop := ⟨h.hides, h.spared, fun _ _ => trivial⟩

end Discreet

section Workshop

variable (hides : shop.Hides hidden)

include hides

theorem fresh_discreet : fresh.Discreet g hidden shop fun number after =>
    ∀ c, Known hidden ⟨number, c⟩ after where
  hides := { hides with
    numbers := fun number covered => Nat.lt_succ_of_lt (hides.numbers number covered)
    handedOut := fun entry member => Nat.lt_succ_of_lt (hides.handedOut entry member) }
  spared := ⟨[], (List.append_nil _).symm, nofun⟩
  comes number is := by
    obtain rfl := Except.ok.inj is
    exact fun _ => ⟨fun covered => Nat.lt_irrefl _ (hides.numbers _ covered), Nat.lt_succ_self _⟩

theorem addDraft_discreet (draft : Draft) :
    (addDraft draft).Discreet g hidden shop fun address _ => ¬ hidden.Covers address where
  hides := { hides with
    roots := fun root covered => by
      have inside := hides.roots root covered
      simp only [runOn_addDraft, List.length_append]
      omega }
  spared := ⟨[], (List.append_nil _).symm, nofun⟩
  comes address is := by
    obtain rfl := Except.ok.inj is
    exact fun covered => Nat.lt_irrefl _ (hides.roots _ covered.1)

theorem draftAt_discreet (address : Address) :
    (draftAt address).Discreet g hidden shop fun _ after => after = shop := by
  refine ⟨?_, ?_, ?_⟩ <;> rw [runOn_draftAt]
  · exact hides
  · exact ⟨[], (List.append_nil _).symm, nofun⟩
  · exact fun _ _ => rfl

theorem build_silent (address : Address) : (build address).Silent g hidden shop :=
  (draftAt_discreet hides address).bind fun _ _ hides _ => .of_pure hides trivial

theorem declare_discreet {address : Address} (outside : ¬ hidden.Covers address)
    (deed : Draft.Deed) (permitted : hidden.Permits deed) :
    (declare address deed).Discreet g hidden shop fun _ after => after.next = shop.next where
  hides := { hides with
    roots := fun root covered => by simpa [Workshop.declared] using hides.roots root covered }
  spared := ⟨[(address, deed)], rfl, fun _ member => List.mem_singleton.mp member ▸
    ⟨outside, permitted⟩⟩
  comes _ _ := rfl

theorem nameConstraint_silent (name : Option String) {r : Registered}
    (known : Known hidden r shop) :
    (nameConstraint name r).Silent g hidden shop := by
  cases name with
  | none => exact .of_pure hides trivial
  | some name =>
    exact .of_same { hides with
      constraints := List.forall_mem_cons.mpr ⟨known.1, hides.constraints⟩
      handedOut := List.forall_mem_cons.mpr ⟨known.2, hides.handedOut⟩ } rfl

theorem nameAddress_silent (name : String) {address : Address} (outside : ¬ hidden.Covers address) :
    (nameAddress name address).Silent g hidden shop :=
  .of_same { hides with addresses := List.forall_mem_cons.mpr ⟨outside, hides.addresses⟩ } rfl

theorem namePath_silent (name : String) (path : Path) : (namePath name path).Silent g hidden shop :=
  .of_same { hides with } rfl

theorem constraintNamed_discreet (name : String) :
    (constraintNamed name).Discreet g hidden shop (Known hidden) := by
  refine (Discreet.of_get hides).bind fun _ after hides is => ?_
  obtain ⟨rfl, rfl⟩ := is
  refine .of_found hides fun r held => ?_
  obtain ⟨earlier, later, is, -⟩ := List.lookup_eq_some_iff.mp held
  have member : (name, r) ∈ after.constraints := by simp [is]
  exact ⟨hides.constraints _ member, hides.handedOut _ member⟩

theorem addressNamed_discreet (name : String) :
    (addressNamed name).Discreet g hidden shop fun address _ => ¬ hidden.Covers address := by
  refine (Discreet.of_get hides).bind fun _ after hides is => ?_
  obtain ⟨rfl, rfl⟩ := is
  refine .of_found hides fun address held => ?_
  obtain ⟨earlier, later, is, -⟩ := List.lookup_eq_some_iff.mp held
  exact hides.addresses (name, address) (by simp [is])

theorem pathNamed_silent (name : String) : (pathNamed name).Silent g hidden shop :=
  (Discreet.of_get hides).bind fun _ _ hides _ => .of_found hides fun _ _ => trivial

theorem validationNamed_silent (name : String) : (validationNamed name).Silent g hidden shop :=
  (Discreet.of_get hides).bind fun _ _ hides _ => .of_found hides fun _ _ => trivial

theorem ofModel_silent (registry cls : String) : (ofModel registry cls).Silent g hidden shop :=
  .of_same { hides with } rfl

theorem numbered_silent (v : Validation) : (numbered v).Silent g hidden shop :=
  (fresh_discreet hides).bind fun _ _ hides _ => .of_pure hides trivial

variable {address : Address} (outside : ¬ hidden.Covers address)

include outside

theorem register_discreet (c : Constraint) :
    (register address c).Discreet g hidden shop (Known hidden) := by
  refine (fresh_discreet hides).bind fun number after hides new => ?_
  refine (declare_discreet hides outside (.constraint ⟨number, c⟩) trivial).bind
    fun _ last hides same => ?_
  exact .of_pure hides ⟨(new c).1, same ▸ (new c).2⟩

theorem replace_discreet {r : Registered} (free : ¬ hidden.number r.number) (c : Constraint) :
    (replace address r c).Discreet g hidden shop (Known hidden) := by
  refine (fresh_discreet hides).bind fun number after hides new => ?_
  refine (draftAt_discreet hides address).bind fun draft _ hides is => ?_
  subst is
  cases draft.replace? r.number ⟨number, c⟩ with
  | none => exact .of_throw hides _
  | some changed =>
    refine (declare_discreet hides outside (.replacement r.number ⟨number, c⟩) free).bind
      fun _ last hides same => ?_
    exact .of_pure hides ⟨(new c).1, same ▸ (new c).2⟩

/-- A draft in another is never hidden. -/
theorem enter_discreet (key : StepKey) :
    (enter address key).Discreet g hidden shop fun part _ => ¬ hidden.Covers part := by
  refine (Discreet.of_read hides).bind fun g' after hides _ => .of_ite (.of_throw hides _) ?_
  refine (draftAt_discreet hides address).bind fun draft between hides _ => ?_
  refine (declare_discreet hides outside (.step key _) trivial).bind
    fun _ last hides _ => .of_pure hides ?_
  rintro ⟨-, none⟩
  exact List.append_ne_nil_of_right_ne_nil _ (List.cons_ne_nil _ _) none

theorem addValidation_silent (v : Validation) : (addValidation address v).Silent g hidden shop :=
  (declare_discreet hides outside (.validation v) trivial).silent

end Workshop

section Rules

variable {address : Address} {fill : Address → Declaring Logbook Unit} (hides : shop.Hides hidden)
  (outside : ¬ hidden.Covers address)

include hides outside

theorem constrain_discreet (call : Call) (name : Option String) :
    (constrain address call name).Discreet g hidden shop (Known hidden) := by
  refine (Discreet.of_read hides).bind fun g' after hides _ => ?_
  refine (Discreet.of_ofExcept hides _).bind fun c between hides _ => ?_
  refine (register_discreet hides outside c).bind fun r last hides known => ?_
  have named :
      (nameConstraint name r).Discreet g hidden last fun _ after => after.next = last.next := by
    obtain ⟨hides', spared, -⟩ := nameConstraint_silent (g := g) hides name known
    refine ⟨hides', spared, fun _ _ => ?_⟩
    cases name <;> rfl
  exact named.bind fun _ named hides same => .of_pure hides ⟨known.1, same ▸ known.2⟩

theorem constraintOf_discreet (handle : Handle) :
    (constraintOf address handle).Discreet g hidden shop (Known hidden) := by
  cases handle with
  | named name => exact constraintNamed_discreet hides name
  | fresh call name => exact constrain_discreet hides outside call name

variable (fills : ∀ shop part, shop.Hides hidden → ¬ hidden.Covers part →
  (fill part).Silent g hidden shop)

include fills

theorem enterEach_discreet (keys : List StepKey) :
    (enterEach address fill keys).Discreet g hidden shop
      fun parts _ => ∀ part ∈ parts, ¬ hidden.Covers part := by
  induction keys generalizing shop with
  | nil => exact .of_pure hides nofun
  | cons key keys ih =>
    refine (enter_discreet hides outside key).bind fun part after hides apart => ?_
    refine (fills after part hides apart).bind fun _ filled hides _ => ?_
    refine (ih hides).bind fun parts last hides all => ?_
    exact .of_pure hides (List.forall_mem_cons.mpr ⟨apart, all⟩)

theorem addGroup_silent (draft : Draft) : (addGroup address draft fill).Silent g hidden shop := by
  refine (addDraft_discreet hides draft).bind fun group after hides apart => ?_
  refine (fills after group hides apart).bind fun _ filled hides _ => ?_
  refine (build_silent hides group).bind fun v built hides _ => ?_
  exact (declare_discreet hides outside (.group ..) trivial).silent

theorem asType_silent (typeName : String) : (asType address typeName fill).Silent g hidden shop :=
  (enter_discreet hides outside _).bind fun part after hides apart => fills after part hides apart

theorem ifType_silent (typeName : String) :
    (ifType address typeName fill).Silent g hidden shop := by
  refine (draftAt_discreet hides address).bind fun draft after hides _ => .of_ite ?_ ?_
  · refine (register_discreet hides outside _).bind fun _ last hides _ => ?_
    exact asType_silent hides outside fills typeName
  · refine addGroup_silent hides outside (fun shop either hides outside => ?_) _
    refine (register_discreet hides outside _).bind fun _ last hides _ => ?_
    exact addGroup_silent hides outside
      (fun _ typed hides outside => asType_silent hides outside fills typeName) _

theorem requireType_silent (typeName : String) :
    (requireType address typeName fill).Silent g hidden shop := by
  refine (draftAt_discreet hides address).bind fun draft after hides _ => ?_
  refine addGroup_silent hides outside (fun shop checked hides outside => ?_) _
  refine (register_discreet hides outside _).bind fun _ last hides _ => .of_ite ?_ ?_
  · exact addGroup_silent hides outside
      (fun _ typed hides outside => asType_silent hides outside fills typeName) _
  · exact asType_silent hides outside fills typeName

theorem navigate_silent (navigation : Navigation) (path : Option Path) (selection : List Value)
    (names : List String) :
    (navigate address navigation path selection fill names).Silent g hidden shop := by
  have starts : (startOf navigation path).Silent g hidden shop := by
    unfold startOf
    split
    · exact .of_ite (.of_throw hides _) (.of_pure hides trivial)
    · exact .of_ite (.of_pure hides trivial) (.of_throw hides _)
  refine starts.bind fun path after hides _ => .of_ite (.of_throw hides _) ?_
  refine (Discreet.of_read hides).bind fun g' read hides _ => ?_
  refine (enterEach_discreet hides outside fills _).bind fun parts entered hides apart => ?_
  refine (Discreet.of_forM hides _ fun pair member shop hides => ?_).bind fun _ last hides _ => ?_
  · exact nameAddress_silent hides _ (apart _ (List.of_mem_zip member).2)
  · split <;> exact .of_pure hides trivial

omit fills in
theorem declareGroup_silent (kind : Group) (fill : Option (Address → Declaring Logbook Unit))
    (fills : ∀ body ∈ fill, ∀ shop part, shop.Hides hidden → ¬ hidden.Covers part →
      (body part).Silent g hidden shop) :
    (declareGroup address kind fill).Silent g hidden shop := by
  refine (draftAt_discreet hides address).bind fun draft after hides _ => ?_
  split
  · exact addGroup_silent hides outside (fills _ rfl) _
  · exact addGroup_silent hides outside (fills _ rfl) _
  · exact addGroup_silent hides outside (fills _ rfl) _
  · exact (declare_discreet hides outside (.shortCircuit _) trivial).silent
  · exact addGroup_silent hides outside (fills _ rfl) _
  · exact (declare_discreet hides outside (.shortCircuit _) trivial).silent
  · exact ifType_silent hides outside (fills _ rfl) _
  · exact requireType_silent hides outside (fills _ rfl) _
  all_goals exact .of_throw hides _

end Rules

end Declaring

open Declaring

variable {hidden : Hidden}

mutual

theorem PathSpec.resolve_silent (spec : PathSpec) (shop : Workshop Logbook)
    (hides : shop.Hides hidden) :
    spec.resolve.Silent g hidden shop := by
  cases spec with
  | segment s => exact .of_pure hides trivial
  | text name => exact .of_pure hides trivial
  | raw v =>
    cases v with
    | str name => exact .of_pure hides trivial
    | _ => exact (Discreet.of_read hides).bind fun _ _ hides _ => .of_throw hides _
  | named name => exact pathNamed_silent hides name
  | guarded inner condition =>
    refine (PathSpec.resolve_silent inner shop hides).bind fun path after hides _ => ?_
    refine (ValidationSpec.make_silent condition after hides).bind fun made last hides _ => ?_
    exact .of_pure hides trivial
termination_by structural spec

theorem ValidationSpec.make_silent (spec : ValidationSpec) (shop : Workshop Logbook)
    (hides : shop.Hides hidden) : spec.make.Silent g hidden shop := by
  cases spec with
  | declared anyOf rules =>
    refine (addDraft_discreet hides _).bind fun address after hides apart => ?_
    refine (performAll_silent rules after address hides apart).bind fun _ done hides _ => ?_
    exact (build_silent hides address).bind fun built last hides _ => numbered_silent hides built
  | step presence path inner =>
    refine (PathSpec.resolve_silent path shop hides).bind fun path after hides _ => ?_
    refine (ValidationSpec.make_silent inner after hides).bind fun made last hides _ => ?_
    exact numbered_silent hides _
  | elements kind inner =>
    refine (ValidationSpec.make_silent inner shop hides).bind fun made after hides _ => ?_
    refine (Discreet.of_read hides).bind fun g' read hides _ => ?_
    exact .of_ite (numbered_silent hides _) (.of_throw hides _)
  | object constraints subs anyOf shortCircuit =>
    exact (makeAll_silent subs shop hides).bind fun subs after hides _ => numbered_silent hides _
  | script steps answer =>
    exact (makeSteps_silent steps shop hides).bind fun steps after hides _ =>
      numbered_silent hides _
  | named name => exact validationNamed_silent hides name
  | model registry cls =>
    exact (ofModel_silent hides registry cls).bind fun v after hides _ => numbered_silent hides v
termination_by structural spec

theorem makeAll_silent (specs : List ValidationSpec) (shop : Workshop Logbook)
    (hides : shop.Hides hidden) : (makeAll specs).Silent g hidden shop := by
  cases specs with
  | nil => exact .of_pure hides trivial
  | cons spec specs =>
    refine (ValidationSpec.make_silent spec shop hides).bind fun made after hides _ => ?_
    exact (makeAll_silent specs after hides).bind fun _ _ hides _ => .of_pure hides trivial
termination_by structural specs

theorem StepSpec.make_silent (spec : StepSpec) (shop : Workshop Logbook)
    (hides : shop.Hides hidden) :
    spec.make.Silent g hidden shop := by
  cases spec with
  | act action => exact .of_pure hides trivial
  | openPath path =>
    refine (Discreet.attempt (PathSpec.resolve_silent path shop hides)).bind
      fun made after hides _ => ?_
    cases made <;> exact .of_pure hides trivial
  | evaluate validation =>
    refine (Discreet.attempt (ValidationSpec.make_silent validation shop hides)).bind
      fun made after hides _ => ?_
    cases made <;> exact .of_pure hides trivial
termination_by structural spec

theorem makeSteps_silent (specs : List StepSpec) (shop : Workshop Logbook)
    (hides : shop.Hides hidden) :
    (makeSteps specs).Silent g hidden shop := by
  cases specs with
  | nil => exact .of_pure hides trivial
  | cons spec specs =>
    refine (StepSpec.make_silent spec shop hides).bind fun step after hides _ => ?_
    exact (makeSteps_silent specs after hides).bind fun _ _ hides _ => .of_pure hides trivial
termination_by structural specs

/-- One rule leaves alone what is hidden from it. -/
theorem Rule.perform_silent (rule : Rule) (shop : Workshop Logbook) (address : Address)
    (hides : shop.Hides hidden) (outside : ¬ hidden.Covers address) :
    (rule.perform address).Silent g hidden shop := by
  cases rule with
  | constrain call name =>
    exact (constrain_discreet hides outside call name).bind fun _ _ hides _ =>
      .of_pure hides trivial
  | detached name c =>
    refine (fresh_discreet hides).bind fun number after hides new => ?_
    exact (nameConstraint_silent hides _ (new c)).bind fun _ _ hides _ => .of_pure hides trivial
  | hint handle message name | warn handle name =>
    refine (constraintOf_discreet hides outside handle).bind fun r after hides known => ?_
    refine (replace_discreet hides outside known.1 _).bind fun new last hides known => ?_
    exact (nameConstraint_silent hides name known).bind fun _ _ hides _ => .of_pure hides trivial
  | navigate navigation path selection hasBody body names =>
    have fills (shop : Workshop Logbook) (part : Address) (hides : shop.Hides hidden)
        (outside : ¬ hidden.Covers part) :
        Silent g hidden shop (if hasBody then performAll body part else pure ()) :=
      .of_ite (performAll_silent body shop part hides outside) (.of_pure hides trivial)
    cases path with
    | none => exact navigate_silent hides outside fills navigation none selection names
    | some path =>
      refine (PathSpec.resolve_silent path shop hides).bind fun path after hides _ => ?_
      exact navigate_silent hides outside fills navigation (some path) selection names
  | on name rules =>
    refine (addressNamed_discreet hides name).bind fun address after hides apart => ?_
    refine (performAll_silent rules after address hides apart).bind fun _ last hides _ => ?_
    exact .of_pure hides trivial
  | group kind hasBody body =>
    refine (declareGroup_silent hides outside kind _ fun fill given => ?_).bind
      fun _ _ hides _ => .of_pure hides trivial
    split at given
    · obtain rfl := Option.mem_some.mp given
      exact fun shop part hides outside => performAll_silent body shop part hides outside
    · cases given
  | run validation =>
    refine (ValidationSpec.make_silent validation shop hides).bind fun made after hides _ => ?_
    exact (addValidation_silent hides outside made.validation).bind
      fun _ _ hides _ => .of_pure hides trivial
  | guard name path condition =>
    refine (ValidationSpec.make_silent condition shop hides).bind fun made after hides _ => ?_
    refine (PathSpec.resolve_silent path after hides).bind fun path last hides _ => ?_
    exact (namePath_silent hides name _).bind fun _ _ hides _ => .of_pure hides trivial
  | thisPath => exact .of_pure hides trivial
  | unknown => exact .of_throw hides _
termination_by structural rule

theorem performAll_silent (rules : List Rule) (shop : Workshop Logbook) (address : Address)
    (hides : shop.Hides hidden) (outside : ¬ hidden.Covers address) :
    (performAll rules address).Silent g hidden shop := by
  cases rules with
  | nil => exact .of_pure hides trivial
  | cons rule rules =>
    refine (Rule.perform_silent rule shop address hides outside).bind fun _ after hides _ => ?_
    exact performAll_silent rules after address hides outside
termination_by structural rules

end

end PathRules
