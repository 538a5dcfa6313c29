import PathRules.Proofs.Model.Cache
import PathRules.Proofs.Model.Schedule

/-!
# Relations to nothing

A relation field that is null might as well not be there: in a run nothing is done about it.
Collections are gone through whatever their elements are, each at its own index.  A null among the
elements is no exception: it is checked as a model would be.
-/

namespace PathRules

variable {g : ObjectGraph} {schema : Schema} {name cls : String} {v : Value} {registry : Registry}

/-- Whether a field of an instance is null. -/
def ObjectGraph.isAbsent (g : ObjectGraph) (v : Value) (field : String) : Bool :=
  match v.followAttributes g field with
  | .ok .null => true
  | _ => false

theorem ObjectGraph.taken_of_isAbsent {field : String} (absent : g.isAbsent v field = true) :
    v.followAttributes g field = .ok .null := by
  unfold isAbsent at absent
  split at absent
  · assumption
  · cases absent

namespace Registry

/-- The steps that a field of an instance is checked in if null is not followed. -/
def presentSteps (g : ObjectGraph) (schema : Schema) (name : String) (registry : Registry)
    (cls : String) (v : Value) (field : String × FieldType) : List Validation :=
  let rules := rulesForField schema registry cls field.1
  (if rules.isEmpty then [] else [fieldStep field.1 rules]) ++
    if g.isAbsent v field.1 then [] else field.2.relation?.toList.map (relationStep name field.1)

/-- What a class compiles to, without the relations that are null in an instance. -/
def presentForm (g : ObjectGraph) (schema : Schema) (name : String) (registry : Registry)
    (cls : String) (v : Value) : Validation :=
  .object []
    ((schema.fields cls).flatMap (presentSteps g schema name registry cls v) ++
      rulesForClass schema registry cls) false false

open RunM Validation

variable {expand : Expand}

/-- A relation that is null is accepted, and nothing else is done. -/
theorem relationStep_idle {field : String} (absent : g.isAbsent v field = true)
    (relation : Relation) : ((relationStep name field relation).evaluate expand v).runOn g =
      (pure true : RunM Bool).runOn g := by
  funext run
  have taken := runOn_followAttributes (ObjectGraph.taken_of_isAbsent absent) run.store
  rw [relationStep, evaluate, guardsPass, pure_bind, if_pos rfl, runOn_bind, runOn_ofCheck, taken]

/-- Without its relations that are null an instance is checked as it is with them. -/
theorem presentForm_evaluate :
    ((presentForm g schema name registry cls v).evaluate expand v).runOn g =
    ((form schema name registry cls).evaluate expand v).runOn g := by
  have fields (fields : List (String × FieldType)) (rest : List Validation) :
      (allOf? expand false (fields.flatMap (presentSteps g schema name registry cls v) ++ rest)
          v).runOn g =
        (allOf? expand false (fields.flatMap (stepsFor schema name registry cls) ++ rest)
          v).runOn g := by
    induction fields with
    | nil => rfl
    | cons field fields ih =>
      simp only [List.flatMap_cons, presentSteps, stepsFor, List.append_assoc]
      refine allOf_append_congr false _ ?_
      cases absent : g.isAbsent v field.1 with
      | false => exact allOf_append_congr false _ ih
      | true =>
        cases field.2.relation? with
        | none => exact ih
        | some relation =>
          refine ih.trans (Eq.symm ?_)
          funext run
          exact congrFun (runOn_bind_congr (relationStep_idle absent relation) fun _ => rfl) run
  rw [presentForm, form, evaluate_all, evaluate_all]
  exact groupOf_congr .all _ _ (fields (schema.fields cls) (rulesForClass schema registry cls))

end Registry

/-- Builds the rules of a class for an instance, without the relations that are null in it. -/
def buildPresent (v : Value) : LookUp := fun registry cls g => ExceptT.mk fun run =>
  let book := run.rulebook
  (.ok (some ((book.registry registry).presentForm g book.schema registry cls v)), run)

/-- Expands models nested up to `fuel` deep as if relations that are null did not exist. -/
def expandPresent : (fuel : Nat) → Expand
  | 0 => fun _ _ _ => throw .endless
  | fuel + 1 => fun registry cls v =>
      expandOnce (buildPresent v) (expandPresent fuel) registry cls v

/-- Evaluation in which relations that are null do not exist. -/
def Validation.checkPresent (validation : Validation) (v : Value) : RunM Bool := do
  validation.evaluate (expandPresent ((← read).expansions v (← get).store.sources)) v

/-- A run in which relations that are null do not exist, and no compiled rules are kept. -/
def Validation.validatePresent (validation : Validation) (v : Value) : RunM Outcome :=
  validation.reporting v (validation.checkPresent v)

namespace Uncached

open Rulebook

variable {history : List Registration} {book plain : Rulebook}

/-- A value is expanded in the same way without the relations that are null in it. -/
theorem expandMet_present (nested : Expand) (registry cls : String) (v : Value) (first : Bool) :
    (expandMet buildRules nested registry cls v first).runOn g =
      (expandMet (buildPresent v) nested registry cls v first).runOn g := by
  cases first with
  | false => rfl
  | true =>
    funext run
    let served := run.rulebook.registry registry
    have built : (buildRules registry cls).runOn g run =
        (.ok (some (Registry.form run.rulebook.schema registry served cls)), run) := by
      rw [← Registry.build_draftOf g]
      rfl
    have pruned : (buildPresent v registry cls).runOn g run =
        (.ok (some (Registry.presentForm g run.rulebook.schema registry served cls v)), run) := rfl
    rw [expandMet, expandMet, if_pos rfl, if_pos rfl, RunM.runOn_bind, RunM.runOn_bind, built,
      pruned]
    exact congrFun Registry.presentForm_evaluate.symm run

theorem expandBy_present (h : Serves schema history book) (fuel : Nat) (registry cls : String)
    (v : Value) : Lockstep g (Uncached g book (ofHistory schema history))
      (expandBy lookUpRules fuel registry cls v) (expandPresent fuel registry cls v) := by
  induction fuel generalizing registry cls v with
  | zero => exact .of_throw .endless
  | succ fuel ih =>
    have permits := Store.Permits.any
    have checks (rules : Validation) : Lockstep g (Uncached g book (ofHistory schema history))
        (rules.evaluate (expandBy lookUpRules fuel) v) (rules.evaluate (expandPresent fuel) v) :=
      Validation.evaluate_lockstep congruence permits (fun _ => ih) rules rules.keeps_any v
    refine (Lockstep.of_check congruence (.any (visit v))).bind fun first => ?_
    have expands := expandMet_lockstep congruence permits first
      (lookUp_lockstep h registry cls) fun _ rules _ _ _ _ => checks rules
    intro run run' related
    rw [← expandMet_present]
    exact expands run run' related

theorem check_present (h : Serves schema history book) (validation : Validation) (v : Value) :
    Lockstep g (Uncached g book (ofHistory schema history)) (validation.check v)
      (validation.checkPresent v) := by
  refine Lockstep.of_read (.of_get congruence (fun _ _ _ _ => rfl) fun run _ _ => ?_)
  exact Validation.evaluate_lockstep congruence .any (fun _ => expandBy_present h _) validation
    validation.keeps_any v

end Uncached

/-- Relations to nothing pass, whatever rules there are.  A run comes out as if relations that are
null did not exist in the instances that it expands: it returns or raises the same, records and
sends the same, and leaves the same in its store.  What a relation does hold is validated in
turns, however that is done for each: a single model at the place of its field, and the elements of
a collection one after the other, each with what is reported of it at its own index. -/
theorem absent_relations_pass {history : List Registration} {book : Rulebook}
    (served : book.Serves schema history) (g : ObjectGraph) (run : Run) (name cls : String)
    (v : Value) :
    let plain := Rulebook.ofHistory schema history
    let kept := ((Validation.model name cls).validate v).runOn g { run with rulebook := book }
    let present := ((Validation.model name cls).validatePresent v).runOn g
      { run with rulebook := plain }
    (kept.1 = present.1 ∧ kept.2 = { present.2 with rulebook := kept.2.rulebook }) ∧
      ∀ (expand : Expand) (a part : Value) (field : String) (relation : Relation),
        a.followAttributes g field = .ok part →
        (relation.isCollection = true → part ≠ .null → ∃ items, part.items? g = some items) →
          TakesTurns g expand (·.isOpen = true) (fun place =>
              relation.turns g name part (place.snoc (.ofName field)))
            ((Registry.relationStep name field relation).evaluate expand a) := by
  intro plain kept present
  refine ⟨?_, fun expand a part field relation taken iterates => ?_⟩
  · have lockstep := reporting_lockstep Uncached.congruence Store.Permits.any
      (Uncached.check_present (g := g) served (.model name cls) v) (.model name cls) v
    obtain ⟨same, left⟩ := lockstep { run with rulebook := book } _ ⟨rfl, .refl _⟩
    refine ⟨same, ?_⟩
    dsimp only [kept, present, plain, Validation.validate, Validation.validatePresent]
    rw [left.agree]
  · have steps : TakesTurns g expand (·.isOpen = true) _
        ((Registry.relationStep name field relation).evaluate expand a) :=
      Registry.relationStep_takes taken iterates
    rwa [funext (g.turnsAt_eq taken _)] at steps

/-- An order of nothing that comes before, and of an item with two gaps behind it. -/
def gaps : ObjectGraph where
  objects := #[⟨"Order", true, [("to", .null), ("of", .list [.object 1, .null, .null])], []⟩,
    ⟨"Item", true, [], []⟩]

/-- Orders refer to an order that comes before and to items, all of which may be missing. -/
def orders : Schema :=
  [⟨"Item", ["Item"], [], List.nodup_nil⟩,
    ⟨"Order", ["Order"], [("to", .optional (.model "Order")),
      ("of", .generic .list [.optional (.model "Item")])], by decide⟩]

theorem gaps_followAttributes :
    (Value.object 0).followAttributes gaps "to" = .ok .null ∧
      (Value.object 0).followAttributes gaps "of" = .ok (.list [.object 1, .null, .null]) :=
  ⟨rfl, rfl⟩

/-- Nothing is done about the missing order, and the item has its turn at index 0. -/
theorem absent_relations_pass_of_gaps :
    Rulebook.Serves orders [] { schema := orders } ∧
      (Value.object 0).followAttributes gaps "to" = .ok .null ∧
      (Value.object 0).followAttributes gaps "of" = .ok (.list [.object 1, .null, .null]) ∧
      (((Validation.model "main" "Order").validate (.object 0)).runOn gaps
          { rulebook := { schema := orders } }).1 =
        (((Validation.model "main" "Order").validatePresent (.object 0)).runOn gaps
          { rulebook := { schema := orders } }).1 ∧
      TakesTurns gaps (expandModel 2) (·.isOpen = true) (fun _ => [])
        ((Registry.relationStep "main" "to" ⟨"Order", false⟩).evaluate (expandModel 2)
          (.object 0)) ∧
      TakesTurns gaps (expandModel 2) (·.isOpen = true)
        (fun place =>
          let below (index : Nat) := (place.snoc (.ofName "of")).snoc (.ofIndex index)
          [⟨.model "main" "Item", .object 1, below 0⟩, ⟨.model "main" "Item", .null, below 1⟩,
            ⟨.model "main" "Item", .null, below 2⟩])
        ((Registry.relationStep "main" "of" ⟨"Item", true⟩).evaluate (expandModel 2)
          (.object 0)) := by
  have served := Rulebook.Serves.start orders
  obtain ⟨⟨same, -⟩, steps⟩ := absent_relations_pass served gaps {} "main" "Order" (.object 0)
  obtain ⟨missing, items⟩ := gaps_followAttributes
  refine ⟨served, missing, items, same, ?_, ?_⟩
  · exact steps _ _ .null "to" ⟨"Order", false⟩ missing nofun
  · exact steps _ _ _ "of" ⟨"Item", true⟩ items fun _ _ => ⟨_, rfl⟩

/-- Of two gaps in a collection the second is reported as if it had been validated before, although
no rules are registered. -/
theorem gaps_reported_again :
    ∃ outcome after, ((Validation.model "main" "Order").validate (.object 0)).runOn gaps
        { rulebook := { schema := orders } } = (.ok outcome, after) ∧
      outcome.failures.map (fun p => (p.leaf.message, p.place.text)) =
        [("already validated", "this.of[2]")] := by
  have ran : (((Validation.model "main" "Order").validate (.object 0)).runOn gaps
      { rulebook := { schema := orders } }).1.toOption.map (fun outcome =>
        outcome.failures.map fun p => (p.leaf.message, p.place.text)) =
          some [("already validated", "this.of[2]")] := by decide +kernel
  rcases returned : ((Validation.model "main" "Order").validate (.object 0)).runOn gaps
      { rulebook := { schema := orders } } with ⟨fault | outcome, after⟩ <;> rw [returned] at ran
  · cases ran
  · exact ⟨outcome, after, rfl, Option.some.inj ran⟩

end PathRules
