import PathRules.Proofs.Declaration.Performing

/-!
# What is noted makes no difference

The same rules performed in a workshop with a log and in one that notes nothing come to the same
and leave the same behind, but for the log.  No operation reads the log, so that this holds of each
and passes on from the parts of a declaration to the whole.
-/

namespace PathRules

variable {α β Log : Type} {g : ObjectGraph}

/-- The workshop without its log. -/
def Workshop.erased (shop : Workshop Log) : Workshop where
  drafts := shop.drafts
  constraints := shop.constraints
  addresses := shop.addresses
  paths := shop.paths
  validations := shop.validations
  rulebook := shop.rulebook
  next := shop.next

@[simp] theorem Workshop.erased_draft (shop : Workshop Log) (address : Address) :
    shop.erased.draft address = shop.draft address := rfl

namespace Declaring

/-- What a declaration with a log comes to without it. -/
def Erases (g : ObjectGraph) (logged : Declaring Log α) (plain : Declare α) : Prop :=
  ∀ shop, plain.runOn g shop.erased = ((logged.runOn g shop).1, (logged.runOn g shop).2.erased)

namespace Erases

theorem of_pure (a : α) : Erases g (pure a : Declaring Log α) (pure a) := fun _ => rfl

theorem of_throw (fault : Fault) : Erases g (throw fault : Declaring Log α) (throw fault) :=
  fun _ => rfl

theorem of_ofExcept (outcome : Except Fault α) :
    Erases g (ofExcept outcome : Declaring Log α) (ofExcept outcome) := by
  cases outcome with
  | ok a => exact of_pure a
  | error fault => exact of_throw fault

theorem bind {m : Declaring Log α} {m' : Declare α} {f : α → Declaring Log β}
    {f' : α → Declare β} (h : Erases g m m') (hf : ∀ a, Erases g (f a) (f' a)) :
    Erases g (m >>= f) (m' >>= f') := by
  intro shop
  rw [runOn_bind, runOn_bind, h shop]
  rcases m.runOn g shop with ⟨fault | a, after⟩
  · rfl
  · exact hf a after

theorem of_read : Erases g (read : Declaring Log ObjectGraph) read := fun _ => rfl

/-- What is read off the workshop is the same without its log. -/
theorem of_get_bind {f : Workshop Log → Declaring Log β} {f' : Workshop → Declare β}
    (h : ∀ shop, Erases g (f shop) (f' shop.erased)) : Erases g (get >>= f) (get >>= f') :=
  fun shop => h shop shop

theorem of_modify {f : Workshop Log → Workshop Log} {f' : Workshop → Workshop}
    (h : ∀ shop, f' shop.erased = (f shop).erased) :
    Erases g (modify f : Declaring Log Unit) (modify f') := fun shop =>
  congrArg (Prod.mk (Except.ok ())) (h shop)

theorem of_ite {c : Prop} [Decidable c] {m n : Declaring Log α} {m' n' : Declare α}
    (h : Erases g m m') (h' : Erases g n n') :
    Erases g (if c then m else n) (if c then m' else n') := by
  split
  · exact h
  · exact h'

theorem of_found (entry : Option α) : Erases g (found entry : Declaring Log α) (found entry) := by
  cases entry with
  | none => exact of_throw _
  | some a => exact of_pure a

theorem of_attempt {m : Declaring Log α} {m' : Declare α} (h : Erases g m m') :
    Erases g m.attempt m'.attempt := by
  intro shop
  rw [runOn_attempt, runOn_attempt, h shop]

theorem of_forM {ι : Type} {f : ι → Declaring Log Unit} {f' : ι → Declare Unit}
    (h : ∀ i, Erases g (f i) (f' i)) (items : List ι) :
    Erases g (items.forM f) (items.forM f') := by
  induction items with
  | nil => exact of_pure ()
  | cons i items ih => exact (h i).bind fun _ => ih

theorem fst_eq {m : Declaring Log α} {m' : Declare α} (h : Erases g m m') (shop : Workshop Log) :
    (m'.runOn g shop.erased).1 = (m.runOn g shop).1 := congrArg Prod.fst (h shop)

/-- What is performed without a log can be performed with it. -/
theorem ran {m : Declaring Log α} {m' : Declare α} (h : Erases g m m') {shop : Workshop Log}
    {result : Except Fault α} {ended : Workshop} (ran : m'.runOn g shop.erased = (result, ended)) :
    ∃ after, m.runOn g shop = (result, after) ∧ after.erased = ended := by
  rw [h shop] at ran
  obtain ⟨rfl, rfl⟩ := Prod.mk.inj ran
  exact ⟨_, rfl, rfl⟩

end Erases

section Workshop

variable (g)

theorem fresh_erases : Erases g (fresh : Declaring Log Nat) fresh := fun _ => rfl

theorem addDraft_erases (draft : Draft) :
    Erases g (addDraft draft : Declaring Log Address) (addDraft draft) := fun _ => rfl

theorem draftAt_erases (address : Address) :
    Erases g (draftAt address : Declaring Log Draft) (draftAt address) := by
  intro shop
  rw [runOn_draftAt, runOn_draftAt]
  rfl

theorem build_erases (address : Address) :
    Erases g (build address : Declaring Log Validation) (build address) :=
  (draftAt_erases g address).bind fun _ => .of_pure _

theorem nameConstraint_erases (name : Option String) (r : Registered) :
    Erases g (nameConstraint name r : Declaring Log Unit) (nameConstraint name r) := by
  cases name with
  | none => exact .of_pure ()
  | some name => exact .of_modify fun _ => rfl

theorem nameAddress_erases (name : String) (address : Address) :
    Erases g (nameAddress name address : Declaring Log Unit) (nameAddress name address) :=
  .of_modify fun _ => rfl

theorem namePath_erases (name : String) (path : Path) :
    Erases g (namePath name path : Declaring Log Unit) (namePath name path) :=
  .of_modify fun _ => rfl

theorem constraintNamed_erases (name : String) :
    Erases g (constraintNamed name : Declaring Log Registered) (constraintNamed name) :=
  .of_get_bind fun _ => .of_found _

theorem addressNamed_erases (name : String) :
    Erases g (addressNamed name : Declaring Log Address) (addressNamed name) :=
  .of_get_bind fun _ => .of_found _

theorem pathNamed_erases (name : String) :
    Erases g (pathNamed name : Declaring Log Path) (pathNamed name) :=
  .of_get_bind fun _ => .of_found _

theorem validationNamed_erases (name : String) :
    Erases g (validationNamed name : Declaring Log Numbered) (validationNamed name) :=
  .of_get_bind fun _ => .of_found _

theorem ofModel_erases (registry cls : String) :
    Erases g (ofModel registry cls : Declaring Log Validation) (ofModel registry cls) := by
  refine Erases.of_read.bind fun g' => ?_
  refine Erases.bind (Erases.of_modify fun shop => ?_) fun _ => .of_pure _
  rfl

theorem numbered_erases (v : Validation) :
    Erases g (numbered v : Declaring Log Numbered) (numbered v) :=
  (fresh_erases g).bind fun _ => .of_pure _

variable [Journal Log]

theorem declare_erases (address : Address) (deed : Draft.Deed) :
    Erases g (declare address deed : Declaring Log Unit) (declare address deed) :=
  Erases.of_read.bind fun _ => .of_modify fun _ => rfl

theorem register_erases (address : Address) (c : Constraint) :
    Erases g (register address c : Declaring Log Registered) (register address c) := by
  refine (fresh_erases g).bind fun number => ?_
  exact (declare_erases g address _).bind fun _ => .of_pure _

theorem replace_erases (address : Address) (r : Registered) (c : Constraint) :
    Erases g (replace address r c : Declaring Log Registered) (replace address r c) := by
  refine (fresh_erases g).bind fun number => ?_
  refine (draftAt_erases g address).bind fun draft => ?_
  cases draft.replace? r.number ⟨number, c⟩ with
  | none => exact .of_throw _
  | some _ => exact (declare_erases g address _).bind fun _ => .of_pure _

theorem enter_erases (address : Address) (key : StepKey) :
    Erases g (enter address key : Declaring Log Address) (enter address key) := by
  refine Erases.of_read.bind fun g' => .of_ite (.of_throw _) ?_
  refine (draftAt_erases g address).bind fun draft => ?_
  exact (declare_erases g address _).bind fun _ => .of_pure _

theorem constrain_erases (address : Address) (call : Call) (name : Option String) :
    Erases g (constrain address call name : Declaring Log Registered)
      (constrain address call name) := by
  refine Erases.of_read.bind fun g' => ?_
  refine (Erases.of_ofExcept _).bind fun c => ?_
  refine (register_erases g address c).bind fun r => ?_
  exact (nameConstraint_erases g name r).bind fun _ => .of_pure _

theorem constraintOf_erases (address : Address) (handle : Handle) :
    Erases g (constraintOf address handle : Declaring Log Registered)
      (constraintOf address handle) := by
  cases handle with
  | named name => exact constraintNamed_erases g name
  | fresh call name => exact constrain_erases g address call name

end Workshop

section Fill

variable [Journal Log] {fill : Address → Declaring Log Unit} {fill' : Address → Declare Unit}
  (fills : ∀ part, Erases g (fill part) (fill' part)) (address : Address)

include fills

theorem enterEach_erases (keys : List StepKey) :
    Erases g (enterEach address fill keys) (enterEach address fill' keys) := by
  induction keys with
  | nil => exact .of_pure _
  | cons key keys ih =>
    refine (enter_erases g address key).bind fun part => ?_
    exact (fills part).bind fun _ => ih.bind fun _ => .of_pure _

theorem addGroup_erases (draft : Draft) :
    Erases g (addGroup address draft fill) (addGroup address draft fill') := by
  refine (addDraft_erases g draft).bind fun group => ?_
  refine (fills group).bind fun _ => ?_
  exact (build_erases g group).bind fun v => declare_erases g address _

theorem asType_erases (typeName : String) :
    Erases g (asType address typeName fill) (asType address typeName fill') :=
  (enter_erases g address _).bind fills

theorem ifType_erases (typeName : String) :
    Erases g (ifType address typeName fill) (ifType address typeName fill') := by
  refine (draftAt_erases g address).bind fun draft => .of_ite ?_ ?_
  · exact (register_erases g address _).bind fun _ => asType_erases fills address typeName
  · refine addGroup_erases (fun either => ?_) address _
    refine (register_erases g either _).bind fun _ => ?_
    exact addGroup_erases (fun typed => asType_erases fills typed typeName) either _

theorem requireType_erases (typeName : String) :
    Erases g (requireType address typeName fill) (requireType address typeName fill') := by
  refine (draftAt_erases g address).bind fun draft => ?_
  refine addGroup_erases (fun checked => ?_) address _
  refine (register_erases g checked _).bind fun _ => .of_ite ?_ ?_
  · exact addGroup_erases (fun typed => asType_erases fills typed typeName) checked _
  · exact asType_erases fills checked typeName

theorem navigate_erases (navigation : Navigation) (path : Option Path) (selection : List Value)
    (names : List String) :
    Erases g (navigate address navigation path selection fill names)
      (navigate address navigation path selection fill' names) := by
  have starts : Erases g (startOf navigation path : Declaring Log Path)
      (startOf navigation path) := by
    unfold startOf
    split <;> exact .of_ite (by first | exact .of_throw _ | exact .of_pure _)
      (by first | exact .of_throw _ | exact .of_pure _)
  refine starts.bind fun path => .of_ite (.of_throw _) ?_
  refine Erases.of_read.bind fun g' => ?_
  refine (enterEach_erases fills address _).bind fun parts => ?_
  refine (Erases.of_forM (fun _ => nameAddress_erases g _ _) _).bind fun _ => ?_
  split <;> exact .of_pure _

omit fills in
theorem declareGroup_erases (kind : Group) {fill : Option (Address → Declaring Log Unit)}
    {fill' : Option (Address → Declare Unit)}
    (fills : Option.Rel (fun f f' => ∀ part, Erases g (f part) (f' part)) fill fill') :
    Erases g (declareGroup address kind fill) (declareGroup address kind fill') := by
  refine (draftAt_erases g address).bind fun draft => ?_
  generalize draft.anyOf = anyOf
  cases fills with
  | none =>
    cases kind <;> cases anyOf <;> first | exact .of_throw _ | exact declare_erases g address _
  | some fills =>
    cases kind with
    | ifType typeName => exact ifType_erases fills address typeName
    | requireType typeName => exact requireType_erases fills address typeName
    | _ => cases anyOf <;> first | exact .of_throw _ | exact addGroup_erases fills address _

end Fill

end Declaring

open Declaring

variable [Journal Log]

section Rules

variable (Log g)

mutual

theorem PathSpec.resolve_erases (spec : PathSpec) :
    Erases g (spec.resolve : Declaring Log Path) spec.resolve := by
  cases spec with
  | segment s => exact .of_pure _
  | text name => exact .of_pure _
  | raw v =>
    cases v with
    | str name => exact .of_pure _
    | _ => exact Erases.of_read.bind fun _ => .of_throw _
  | named name => exact pathNamed_erases g name
  | guarded inner condition =>
    refine (PathSpec.resolve_erases inner).bind fun path => ?_
    exact (ValidationSpec.make_erases condition).bind fun made => .of_pure _
termination_by structural spec

theorem ValidationSpec.make_erases (spec : ValidationSpec) :
    Erases g (spec.make : Declaring Log Numbered) spec.make := by
  cases spec with
  | declared anyOf rules =>
    refine (addDraft_erases g _).bind fun address => ?_
    refine (performAll_erases rules address).bind fun _ => ?_
    exact (build_erases g address).bind fun v => numbered_erases g v
  | step presence path inner =>
    refine (PathSpec.resolve_erases path).bind fun path => ?_
    exact (ValidationSpec.make_erases inner).bind fun made => numbered_erases g _
  | elements kind inner =>
    refine (ValidationSpec.make_erases inner).bind fun made => ?_
    exact Erases.of_read.bind fun g' => .of_ite (numbered_erases g _) (.of_throw _)
  | object constraints subs anyOf shortCircuit =>
    exact (makeAll_erases subs).bind fun subs => numbered_erases g _
  | script steps answer => exact (makeSteps_erases steps).bind fun steps => numbered_erases g _
  | named name => exact validationNamed_erases g name
  | model registry cls => exact (ofModel_erases g registry cls).bind fun v => numbered_erases g v
termination_by structural spec

theorem makeAll_erases (specs : List ValidationSpec) :
    Erases g (makeAll specs : Declaring Log (List Validation)) (makeAll specs) := by
  cases specs with
  | nil => exact .of_pure _
  | cons spec specs =>
    refine (ValidationSpec.make_erases spec).bind fun made => ?_
    exact (makeAll_erases specs).bind fun rest => .of_pure _
termination_by structural specs

theorem StepSpec.make_erases (spec : StepSpec) :
    Erases g (spec.make : Declaring Log Step) spec.make := by
  cases spec with
  | act action => exact .of_pure _
  | openPath path =>
    refine (PathSpec.resolve_erases path).of_attempt.bind fun made => ?_
    cases made <;> exact .of_pure _
  | evaluate validation =>
    refine (ValidationSpec.make_erases validation).of_attempt.bind fun made => ?_
    cases made <;> exact .of_pure _
termination_by structural spec

theorem makeSteps_erases (specs : List StepSpec) :
    Erases g (makeSteps specs : Declaring Log (List Step)) (makeSteps specs) := by
  cases specs with
  | nil => exact .of_pure _
  | cons spec specs =>
    refine (StepSpec.make_erases spec).bind fun step => ?_
    exact (makeSteps_erases specs).bind fun rest => .of_pure _
termination_by structural specs

/-- A rule comes to the same, whether it is noted or not. -/
theorem Rule.perform_erases (rule : Rule) (address : Address) :
    Erases g (rule.perform address : Declaring Log Product) (rule.perform address) := by
  cases rule with
  | constrain call name => exact (constrain_erases g address call name).bind fun r => .of_pure _
  | detached name c =>
    refine (fresh_erases g).bind fun number => ?_
    exact (nameConstraint_erases g _ _).bind fun _ => .of_pure _
  | hint handle message name | warn handle name =>
    refine (constraintOf_erases g address handle).bind fun r => ?_
    refine (replace_erases g address r _).bind fun new => ?_
    exact (nameConstraint_erases g name new).bind fun _ => .of_pure _
  | navigate navigation path selection hasBody body names =>
    have fills (part : Address) :
        Erases g (if hasBody then performAll body part else pure () : Declaring Log Unit)
          (if hasBody then performAll body part else pure ()) :=
      .of_ite (performAll_erases body part) (.of_pure ())
    cases path with
    | none => exact navigate_erases fills address navigation none selection names
    | some path =>
      refine (PathSpec.resolve_erases path).bind fun path => ?_
      exact navigate_erases fills address navigation (some path) selection names
  | on name rules =>
    refine (addressNamed_erases g name).bind fun address => ?_
    exact (performAll_erases rules address).bind fun _ => .of_pure _
  | group kind hasBody body =>
    refine (declareGroup_erases address kind ?_).bind fun _ => .of_pure _
    split
    · exact .some (performAll_erases body)
    · exact .none
  | run validation =>
    refine (ValidationSpec.make_erases validation).bind fun made => ?_
    exact (declare_erases g address _).bind fun _ => .of_pure _
  | guard name path condition =>
    refine (ValidationSpec.make_erases condition).bind fun made => ?_
    refine (PathSpec.resolve_erases path).bind fun path => ?_
    exact (namePath_erases g name _).bind fun _ => .of_pure _
  | thisPath => exact .of_pure _
  | unknown => exact .of_throw _
termination_by structural rule

theorem performAll_erases (rules : List Rule) (address : Address) :
    Erases g (performAll rules address : Declaring Log Unit) (performAll rules address) := by
  cases rules with
  | nil => exact .of_pure _
  | cons rule rules =>
    refine (Rule.perform_erases rule address).bind fun _ => ?_
    exact performAll_erases rules address
termination_by structural rules

end

end Rules

/-- Rules are performed, whatever they come to, one after the other, each on a draft that is
there. -/
inductive Workshop.Continues (g : ObjectGraph) (shop : Workshop Log) : Workshop Log → Prop
  | refl : Continues g shop shop
  | perform {between : Workshop Log} (earlier : Continues g shop between) (rule : Rule)
    {address : Address} (has : between.Has address) :
    Continues g shop ((rule.perform address).runOn g between).2

/-- Whatever is performed without a log can be performed with it. -/
theorem Workshop.Continues.logged {shop : Workshop Log} {last : Workshop}
    (later : shop.erased.Continues g last) :
    ∃ logged : Workshop Log, logged.erased = last ∧ shop.Continues g logged := by
  induction later with
  | refl => exact ⟨shop, rfl, .refl⟩
  | perform earlier rule has ih =>
    obtain ⟨between, rfl, continues⟩ := ih
    exact ⟨_, (congrArg Prod.snd (Rule.perform_erases Log g rule _ between)).symm,
      continues.perform rule has⟩

end PathRules
