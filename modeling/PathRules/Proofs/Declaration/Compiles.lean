import PathRules.Model.Registration
import PathRules.Proofs.Declaration.Performing
import PathRules.Proofs.Model.Compiled

/-!
# Declarations compile, and do no more to the rulebook

A declaration may hold model validations, also one that is performed while a rule is registered.
Making them compiles rules; nothing that is registered changes.
-/

namespace PathRules

variable {α β : Type} {g : ObjectGraph}

namespace Declaring

/-- Whatever a declaration comes to, the rulebook has at most more compiled rules. -/
def Compiles (g : ObjectGraph) (m : Declaring Unit α) : Prop :=
  ∀ shop : Workshop, shop.rulebook.Extends g (m.runOn g shop).2.rulebook

namespace Compiles

theorem of_pure (a : α) : (pure a : Declaring Unit α).Compiles g := fun _ => .refl _

theorem of_throw (fault : Fault) : (throw fault : Declaring Unit α).Compiles g := fun _ => .refl _

theorem of_ofExcept (outcome : Except Fault α) : (ofExcept outcome).Compiles g := by
  cases outcome with
  | ok a => exact of_pure a
  | error fault => exact of_throw fault

theorem bind {m : Declaring Unit α} {f : α → Declaring Unit β} (h : m.Compiles g)
    (hf : ∀ a, (f a).Compiles g) : (m >>= f).Compiles g := by
  intro shop
  have first := h shop
  rw [runOn_bind]
  rcases ran : m.runOn g shop with ⟨fault | a, after⟩ <;> rw [ran] at first
  · exact first
  · exact first.trans (hf a after)

theorem of_ite {c : Prop} [Decidable c] {m m' : Declaring Unit α} (h : m.Compiles g)
    (h' : m'.Compiles g) : (if c then m else m').Compiles g := by
  split
  · exact h
  · exact h'

theorem of_read : (read : Declaring Unit ObjectGraph).Compiles g := fun _ => .refl _

theorem of_get : (get : Declaring Unit Workshop).Compiles g := fun _ => .refl _

theorem of_modify {f : Workshop → Workshop}
    (same : ∀ shop, (f shop).rulebook = shop.rulebook) :
    (modify f : Declaring Unit Unit).Compiles g := by
  intro shop
  change shop.rulebook.Extends g (f shop).rulebook
  rw [same]
  exact .refl _

theorem attempt {m : Declaring Unit α} (h : m.Compiles g) : m.attempt.Compiles g := h

theorem of_forM {ι : Type} {f : ι → Declaring Unit Unit} (items : List ι)
    (h : ∀ i, (f i).Compiles g) :
    (items.forM f).Compiles g := by
  induction items with
  | nil => exact of_pure ()
  | cons i items ih => exact (h i).bind fun _ => ih

end Compiles

section Workshop

theorem fresh_compiles : fresh.Compiles g := fun _ => .refl _

theorem addDraft_compiles (draft : Draft) : (addDraft draft).Compiles g := fun _ => .refl _

theorem draftAt_compiles (address : Address) : (draftAt address).Compiles g := by
  refine Compiles.of_get.bind fun shop => ?_
  cases shop.drafts[address.root]? with
  | none => exact .of_pure _
  | some draft => exact .of_pure _

theorem declare_compiles (address : Address) (deed : Draft.Deed) :
    (declare address deed).Compiles g := Compiles.of_read.bind fun _ => .of_modify fun _ => rfl

theorem nameConstraint_compiles (name : Option String) (r : Registered) :
    (nameConstraint name r).Compiles g := by
  cases name with
  | none => exact .of_pure ()
  | some name => exact .of_modify fun _ => rfl

theorem nameAddress_compiles (name : String) (address : Address) :
    (nameAddress name address).Compiles g := .of_modify fun _ => rfl

theorem namePath_compiles (name : String) (path : Path) : (namePath name path).Compiles g :=
  .of_modify fun _ => rfl

theorem nameValidation_compiles (name : String) (v : Numbered) :
    (nameValidation name v).Compiles g := .of_modify fun _ => rfl

theorem constraintNamed_compiles (name : String) : (constraintNamed name).Compiles g := by
  refine Compiles.of_get.bind fun shop => ?_
  cases shop.constraints.lookup name with
  | none => exact .of_throw _
  | some r => exact .of_pure r

theorem addressNamed_compiles (name : String) : (addressNamed name).Compiles g := by
  refine Compiles.of_get.bind fun shop => ?_
  cases shop.addresses.lookup name with
  | none => exact .of_throw _
  | some address => exact .of_pure address

theorem pathNamed_compiles (name : String) : (pathNamed name).Compiles g := by
  refine Compiles.of_get.bind fun shop => ?_
  cases shop.paths.lookup name with
  | none => exact .of_throw _
  | some path => exact .of_pure path

theorem validationNamed_compiles (name : String) : (validationNamed name).Compiles g := by
  refine Compiles.of_get.bind fun shop => ?_
  cases shop.validations.lookup name with
  | none => exact .of_throw _
  | some v => exact .of_pure v

theorem register_compiles (address : Address) (c : Constraint) :
    (register address c).Compiles g :=
  fresh_compiles.bind fun _ => (declare_compiles address _).bind fun _ => .of_pure _

theorem replace_compiles (address : Address) (r : Registered) (c : Constraint) :
    (replace address r c).Compiles g := by
  refine fresh_compiles.bind fun number => (draftAt_compiles address).bind fun draft => ?_
  cases draft.replace? r.number ⟨number, c⟩ with
  | none => exact .of_throw _
  | some changed => exact (declare_compiles address _).bind fun _ => .of_pure _

theorem enter_compiles (address : Address) (key : StepKey) : (enter address key).Compiles g := by
  refine Compiles.of_read.bind fun g' => .of_ite (.of_throw _) ?_
  refine (draftAt_compiles address).bind fun draft => ?_
  exact (declare_compiles address _).bind fun _ => .of_pure _

theorem addValidation_compiles (address : Address) (v : Validation) :
    (addValidation address v).Compiles g := declare_compiles address _

theorem build_compiles (address : Address) : (build address).Compiles g :=
  (draftAt_compiles address).bind fun _ => .of_pure _

/-- A model validation compiles the rules of its class when it is made. -/
theorem ofModel_compiles (registry cls : String) : (ofModel registry cls).Compiles g :=
  fun shop => Rulebook.compiled_extends g shop.rulebook registry cls

theorem numbered_compiles (v : Validation) : (numbered v).Compiles g :=
  fresh_compiles.bind fun _ => .of_pure _

end Workshop

section Rules

variable {address : Address} {fill : Address → Declaring Unit Unit}

theorem constrain_compiles (address : Address) (call : Call) (name : Option String) :
    (constrain address call name).Compiles g := by
  refine Compiles.of_read.bind fun g' => (Compiles.of_ofExcept _).bind fun c => ?_
  refine (register_compiles address c).bind fun r => ?_
  exact (nameConstraint_compiles name r).bind fun _ => .of_pure r

theorem constraintOf_compiles (address : Address) (handle : Handle) :
    (constraintOf address handle).Compiles g := by
  cases handle with
  | named name => exact constraintNamed_compiles name
  | fresh call name => exact constrain_compiles address call name

variable (h : ∀ part, (fill part).Compiles g)

include h

theorem enterEach_compiles (keys : List StepKey) : (enterEach address fill keys).Compiles g := by
  induction keys with
  | nil => exact .of_pure []
  | cons key keys ih =>
    refine (enter_compiles address key).bind fun part => (h part).bind fun _ => ?_
    exact ih.bind fun parts => .of_pure _

theorem addGroup_compiles (address : Address) (draft : Draft) :
    (addGroup address draft fill).Compiles g := by
  refine (addDraft_compiles draft).bind fun group => (h group).bind fun _ => ?_
  exact (build_compiles group).bind fun built => declare_compiles address _

theorem asType_compiles (address : Address) (typeName : String) :
    (asType address typeName fill).Compiles g :=
  (enter_compiles address _).bind fun part => h part

theorem ifType_compiles (address : Address) (typeName : String) :
    (ifType address typeName fill).Compiles g := by
  refine (draftAt_compiles address).bind fun draft => .of_ite ?_ ?_
  · exact (register_compiles address _).bind fun _ => asType_compiles h address typeName
  · refine addGroup_compiles (fun either => ?_) address _
    refine (register_compiles either _).bind fun _ => ?_
    exact addGroup_compiles (fun typed => asType_compiles h typed typeName) either _

theorem requireType_compiles (address : Address) (typeName : String) :
    (requireType address typeName fill).Compiles g := by
  refine (draftAt_compiles address).bind fun draft => ?_
  refine addGroup_compiles (fun checked => ?_) address _
  refine (register_compiles checked _).bind fun _ => .of_ite ?_ ?_
  · exact addGroup_compiles (fun typed => asType_compiles h typed typeName) checked _
  · exact asType_compiles h checked typeName

omit h in
theorem declareGroup_compiles (address : Address) (kind : Group)
    (fill : Option (Address → Declaring Unit Unit))
    (h : ∀ body ∈ fill, ∀ part, (body part).Compiles g) :
    (declareGroup address kind fill).Compiles g := by
  refine (draftAt_compiles address).bind fun draft => ?_
  split
  · exact addGroup_compiles (h _ rfl) address _
  · exact addGroup_compiles (h _ rfl) address _
  · exact addGroup_compiles (h _ rfl) address _
  · exact declare_compiles address _
  · exact addGroup_compiles (h _ rfl) address _
  · exact declare_compiles address _
  · exact ifType_compiles (h _ rfl) address _
  · exact requireType_compiles (h _ rfl) address _
  all_goals exact .of_throw _

theorem navigate_compiles (address : Address) (navigation : Navigation) (path : Option Path)
    (selection : List Value) (names : List String) :
    (navigate address navigation path selection fill names).Compiles g := by
  have starts : (startOf navigation path).Compiles g := by
    unfold startOf
    split
    · exact .of_ite (.of_throw _) (.of_pure _)
    · exact .of_ite (.of_pure _) (.of_throw _)
  refine starts.bind fun path => .of_ite (.of_throw _) ?_
  refine Compiles.of_read.bind fun g' => (enterEach_compiles h _).bind fun parts => ?_
  refine (Compiles.of_forM _ fun pair => nameAddress_compiles _ _).bind fun _ => ?_
  split <;> exact .of_pure _

end Rules

end Declaring

open Declaring

mutual

theorem PathSpec.resolve_compiles : (spec : PathSpec) → spec.resolve.Compiles g
  | .segment s => .of_pure _
  | .text name => .of_pure _
  | .raw v => by
    cases v with
    | str name => exact .of_pure _
    | _ => exact Compiles.of_read.bind fun _ => .of_throw _
  | .named name => pathNamed_compiles name
  | .guarded inner condition =>
    (PathSpec.resolve_compiles inner).bind fun _ =>
      (ValidationSpec.make_compiles condition).bind fun _ => .of_pure _
termination_by structural spec => spec

/-- Making a validation compiles the rules of the models in it. -/
theorem ValidationSpec.make_compiles : (spec : ValidationSpec) → spec.make.Compiles g
  | .declared _ rules =>
    (addDraft_compiles _).bind fun address =>
      (performAll_compiles rules address).bind fun _ =>
        (build_compiles address).bind fun built => numbered_compiles built
  | .step _ path inner =>
    (PathSpec.resolve_compiles path).bind fun _ =>
      (ValidationSpec.make_compiles inner).bind fun _ => numbered_compiles _
  | .elements _ inner =>
    (ValidationSpec.make_compiles inner).bind fun _ => Compiles.of_read.bind fun _ =>
      .of_ite (numbered_compiles _) (.of_throw _)
  | .object _ subs _ _ => (makeAll_compiles subs).bind fun _ => numbered_compiles _
  | .script steps _ => (makeSteps_compiles steps).bind fun _ => numbered_compiles _
  | .named name => validationNamed_compiles name
  | .model registry cls => (ofModel_compiles registry cls).bind fun v => numbered_compiles v
termination_by structural spec => spec

theorem makeAll_compiles : (specs : List ValidationSpec) → (makeAll specs).Compiles g
  | [] => .of_pure []
  | spec :: specs =>
    (ValidationSpec.make_compiles spec).bind fun _ =>
      (makeAll_compiles specs).bind fun _ => .of_pure _
termination_by structural specs => specs

theorem StepSpec.make_compiles : (spec : StepSpec) → spec.make.Compiles g
  | .act action => .of_pure _
  | .openPath path => by
    refine (Compiles.attempt (PathSpec.resolve_compiles path)).bind fun made => ?_
    cases made <;> exact .of_pure _
  | .evaluate validation => by
    refine (Compiles.attempt (ValidationSpec.make_compiles validation)).bind fun made => ?_
    cases made <;> exact .of_pure _
termination_by structural spec => spec

theorem makeSteps_compiles : (specs : List StepSpec) → (makeSteps specs).Compiles g
  | [] => .of_pure []
  | spec :: specs =>
    (StepSpec.make_compiles spec).bind fun _ => (makeSteps_compiles specs).bind fun _ => .of_pure _
termination_by structural specs => specs

theorem Rule.perform_compiles : (rule : Rule) → ∀ address, (rule.perform address).Compiles g
  | .constrain call name, address =>
    (constrain_compiles address call name).bind fun _ => .of_pure _
  | .detached name c, _ =>
    fresh_compiles.bind fun _ => (nameConstraint_compiles _ _).bind fun _ => .of_pure _
  | .hint handle _ name, address | .warn handle name, address =>
    (constraintOf_compiles address handle).bind fun r =>
      (replace_compiles address r _).bind fun new =>
        (nameConstraint_compiles name new).bind fun _ => .of_pure _
  | .navigate navigation path selection hasBody body names, address => by
    have fills (part : Address) :
        (if hasBody then performAll body part else pure ()).Compiles g :=
      .of_ite (performAll_compiles body part) (.of_pure ())
    cases path with
    | none =>
      exact navigate_compiles fills address navigation none selection names
    | some path =>
      refine (PathSpec.resolve_compiles path).bind fun path => ?_
      exact navigate_compiles fills address navigation (some path) selection names
  | .on name rules, _ =>
    (addressNamed_compiles name).bind fun address =>
      (performAll_compiles rules address).bind fun _ => .of_pure _
  | .group kind hasBody body, address => by
    refine (declareGroup_compiles address kind _ fun fill given part => ?_).bind
      fun _ => .of_pure _
    split at given
    · obtain rfl := Option.mem_some.mp given
      exact performAll_compiles body part
    · cases given
  | .run validation, address =>
    (ValidationSpec.make_compiles validation).bind fun made =>
      (addValidation_compiles address made.validation).bind fun _ => .of_pure _
  | .guard name path condition, _ =>
    (ValidationSpec.make_compiles condition).bind fun _ =>
      (PathSpec.resolve_compiles path).bind fun _ =>
        (namePath_compiles name _).bind fun _ => .of_pure _
  | .thisPath, _ => .of_pure _
  | .unknown, _ => .of_throw _
termination_by structural rule => rule

theorem performAll_compiles : (rules : List Rule) → ∀ address, (performAll rules address).Compiles g
  | [], _ => .of_pure ()
  | rule :: rules, address =>
    (Rule.perform_compiles rule address).bind fun _ => performAll_compiles rules address
termination_by structural rules => rules

end

theorem declareAll_compiles (rules : List Rule) : (declareAll rules).Compiles g :=
  (ValidationSpec.make_compiles (.declared false rules)).bind fun _ => .of_pure _

end PathRules
