import PathRules.Proofs.Model.Material
import PathRules.Proofs.Value.Faults

/-!
# Faults of an evaluation

An evaluation without a stack raises what its tests and extractors raise, and faults of the
data.
-/

namespace PathRules

variable {α : Type} {P : Fault → Prop} {g : ObjectGraph} {rules : Rules}

/-- Tests and extractors that raise only faults of which `P` holds. -/
def Material.raising (g : ObjectGraph) (P : Fault → Prop) : Material where
  constraint c := ∀ v, (c.test v).RaisesOnly g P
  segment s := ∀ extract ∈ s.extract?, ∀ v, (extract v).RaisesOnly g P

open Check.Meets

theorem Check.raisesOnly_inTurn {ends : α → Bool} {checks : List (Check α)}
    (h : ∀ check ∈ checks, check.RaisesOnly g P) : (inTurn ends checks).RaisesOnly g P := by
  induction checks with
  | nil => exact of_pure trivial
  | cons check checks ih =>
    have first : check.RaisesOnly g P := h check List.mem_cons_self
    have later : (inTurn ends checks).RaisesOnly g P :=
      ih fun c member => h c (List.mem_cons_of_mem check member)
    refine first.bind fun a _ => ?_
    refine (of_ite (of_pure trivial) later).bind fun rest _ => ?_
    exact of_pure trivial

theorem Check.raisesOnly_takeNext (number : Nat) : (takeNext number).RaisesOnly g P :=
  of_get.bind fun _ _ => (of_set _).bind fun _ _ => of_pure trivial

theorem Trace.raisesOnly_ofPart {visit : Value → Check Trace} {part : Segment × Check Value}
    (taken : part.2.RaisesOnly g P) (h : ∀ v, (visit v).RaisesOnly g P) :
    (ofPart visit part).RaisesOnly g P :=
  taken.bind fun v _ => (h v).bind fun _ _ => of_pure trivial

theorem Trace.raisesOnly_ofSource {visit : Value → Check Trace}
    (h : ∀ v, (visit v).RaisesOnly g P) (indices : List Value) (number fuel index : Nat) :
    (ofSource visit g indices number fuel index).RaisesOnly g P := by
  induction fuel generalizing index with
  | zero => exact of_pure trivial
  | succ fuel ih =>
    refine (Check.raisesOnly_takeNext number).bind fun next _ => ?_
    cases next with
    | none => exact of_pure trivial
    | some v =>
      have taken : (pure v : Check Value).RaisesOnly g P := of_pure trivial
      have rest := ih (index + 1)
      refine of_ite ?_ rest
      refine (raisesOnly_ofPart taken h).bind fun first _ => ?_
      exact rest.bind fun _ _ => of_pure trivial

theorem Trace.raisesOnly_ofGroup {sign : Sign} {short : Bool}
    {tests : List (Check (Option Leaf))} {subs : List (Check Trace)}
    (htests : ∀ test ∈ tests, test.RaisesOnly g P) (hsubs : ∀ sub ∈ subs, sub.RaisesOnly g P) :
    (ofGroup sign short tests subs).RaisesOnly g P := by
  refine (Check.raisesOnly_inTurn htests).bind fun tests _ => ?_
  refine (of_ite (of_pure trivial) (Check.raisesOnly_inTurn hsubs)).bind fun ts _ => ?_
  exact of_pure trivial

section

variable (data : ∀ fault : Fault, fault.ofData = true → P fault)

include data

theorem Material.raising_holdsFields : (raising g P).HoldsFields where
  this := fun _ h => nomatch h
  field := by
    rintro name _ ⟨⟩ v
    exact of_read.bind fun _ _ =>
      of_ofExcept (fun _ _ => trivial) fun _ => Value.fault_of_foldlM_attr data

theorem Constraint.raisesOnly_tested {c : Constraint} {v : Value}
    (h : (c.test v).RaisesOnly g P) : (c.tested v).RaisesOnly g P := by
  have rendered : (c.render v).RaisesOnly g P := by
    refine of_read.bind fun _ _ => ?_
    split
    · exact of_pure trivial
    · exact of_throw (data .endless rfl)
  refine h.bind fun passed _ => ?_
  split
  · exact of_pure trivial
  · exact rendered.bind fun _ _ => of_pure trivial

/-- Taking the parts of a value raises faults of the data. -/
theorem Elements.meets_parts (v : Value) (kind : Elements) :
    (kind.parts g v).Meets g (fun parts => ∀ part ∈ parts, part.2.RaisesOnly g P) P := by
  have wrong : (throw .wrongType : Check (List (Segment × Check Value))).Meets g
      (fun parts => ∀ part ∈ parts, part.2.RaisesOnly g P) P := of_throw (data .wrongType rfl)
  cases kind with
  | iterated indices =>
    dsimp only [parts]
    split
    · refine of_pure fun part member => ?_
      obtain ⟨entry, -, rfl⟩ := List.mem_map.mp member
      exact of_pure trivial
    · exact wrong
  | positions indices =>
    dsimp only [parts]
    split
    · refine of_pure fun part member => ?_
      obtain ⟨index, -, rfl⟩ := List.mem_map.mp member
      exact of_ofExcept (fun _ _ => trivial) fun _ => Value.fault_of_item data
    · exact wrong
  | entries keys =>
    refine (Value.raisesOnly_pairs data v).bind fun pairs _ => of_pure fun part member => ?_
    obtain ⟨entry, -, rfl⟩ := List.mem_map.mp member
    exact of_pure trivial

theorem Trace.raisesOnly_ofElements {visit : Value → Check Trace}
    (h : ∀ v, (visit v).RaisesOnly g P) (v : Value) (kind : Elements) :
    (ofElements visit v kind).RaisesOnly g P := by
  refine of_read.bind fun graph same => ?_
  subst same
  split
  · exact of_get.bind fun _ _ => raisesOnly_ofSource h _ _ _ _
  · refine (kind.meets_parts data v).bind fun parts raising => Check.raisesOnly_inTurn ?_
    intro check member
    obtain ⟨part, among, rfl⟩ := List.mem_map.mp member
    exact raisesOnly_ofPart (raising part among) h

theorem raisesOnly_isVisited (v visited : Value) : (isVisited v visited).RaisesOnly g P := by
  unfold isVisited
  split
  · exact of_pure trivial
  · exact of_throw (data .wrongType rfl)
  · exact (Value.raisesOnly_elements data visited).bind fun _ _ => of_pure trivial

theorem raisesOnly_addVisited (v visited : Value) : (addVisited v visited).RaisesOnly g P := by
  unfold addVisited
  split
  · exact of_modify _
  · exact of_throw (data .missingAttribute rfl)

/-- Checks may have replaced the entry of the visited values by something else. -/
theorem raisesOnly_visit (v : Value) : (visit v).RaisesOnly g P := by
  have entry : (Check.setDefault visitedKey (.set [])).RaisesOnly g P := by
    refine of_get.bind fun store _ => ?_
    split
    · exact of_pure trivial
    · exact (of_modify _).bind fun _ _ => of_pure trivial
  refine entry.bind fun visited _ => ?_
  refine (raisesOnly_isVisited data v visited).bind fun met _ => ?_
  apply of_ite (of_pure trivial)
  exact (raisesOnly_addVisited data v visited).bind fun _ _ => of_pure trivial

end

namespace Validation

variable {expand : TraceModel}

mutual

/-- Evaluating a validation raises what its tests and extractors raise, and faults of the
data. -/
theorem raisesOnly_traceWith (data : ∀ fault : Fault, fault.ofData = true → P fault)
    (h : ∀ registry cls v, (expand registry cls v).RaisesOnly g P) :
    (validation : Validation) → validation.MadeOf (.raising g P) → ∀ v : Value,
      (validation.traceWith expand v).RaisesOnly g P
  | .object constraints subs anyOf short, made, v => by
    refine Trace.raisesOnly_ofGroup (fun test member => ?_)
      (raisesOnly_tracesWith data h subs made.2 v)
    obtain ⟨c, among, rfl⟩ := List.mem_map.mp member
    exact Constraint.raisesOnly_tested data (made.1 c among v)
  | .step presence guards target inner, made, v => by
    have taken : (target.get v).RaisesOnly g P :=
      Segment.raisesOnly_get data fun extract member => made.2.1 extract member v
    refine (raisesOnly_guardsHold data h guards made.1 v).bind fun held _ =>
      of_ite ?_ (of_pure trivial)
    refine taken.bind fun part _ => ?_
    split
    · exact of_pure trivial
    · exact of_pure trivial
    · exact (raisesOnly_traceWith data h inner made.2.2 part).bind fun _ _ => of_pure trivial
  | .elements kind inner, made, v =>
    (Trace.raisesOnly_ofElements data (raisesOnly_traceWith data h inner made) v kind).bind
      fun _ _ => of_pure trivial
  | .model registry cls, _, v => h registry cls v
termination_by structural validation => validation

theorem raisesOnly_tracesWith (data : ∀ fault : Fault, fault.ofData = true → P fault)
    (h : ∀ registry cls v, (expand registry cls v).RaisesOnly g P) :
    (subs : List Validation) → AllMadeOf (.raising g P) subs → ∀ v : Value,
      ∀ check ∈ tracesWith expand subs v, check.RaisesOnly g P
  | [], _, _, _, member => nomatch member
  | sub :: subs, made, v, check, member => by
    rcases List.mem_cons.mp member with rfl | later
    · exact raisesOnly_traceWith data h sub made.1 v
    · exact raisesOnly_tracesWith data h subs made.2 v check later
termination_by structural subs => subs

theorem raisesOnly_guardsHold (data : ∀ fault : Fault, fault.ofData = true → P fault)
    (h : ∀ registry cls v, (expand registry cls v).RaisesOnly g P) :
    (guards : List Guard) → GuardsMadeOf (.raising g P) guards → ∀ v : Value,
      (guardsHold expand guards v).RaisesOnly g P
  | [], _, _ => of_pure trivial
  | .mk _ condition :: guards, made, v =>
    (raisesOnly_traceWith data h condition made.1 v).bind fun _ _ =>
      of_ite (raisesOnly_guardsHold data h guards made.2 v) (of_pure trivial)
termination_by structural guards => guards

end

theorem raisesOnly_traceModel (data : ∀ fault : Fault, fault.ofData = true → P fault)
    (served : ∀ registry cls rule, rules registry cls = some rule → rule.MadeOf (.raising g P))
    (fuel : Nat) (registry cls : String) (v : Value) :
    (traceModel rules fuel registry cls v).RaisesOnly g P := by
  induction fuel generalizing registry cls v with
  | zero => exact of_throw (data .endless rfl)
  | succ fuel ih =>
    refine (raisesOnly_visit data v).bind fun first _ => of_ite ?_ (of_pure trivial)
    cases found : rules registry cls with
    | none => exact of_pure trivial
    | some rule =>
      exact (raisesOnly_traceWith data ih rule (served registry cls rule found) v).bind fun _ _ =>
        of_pure trivial

/-- A run without a stack raises what its tests and extractors raise, and faults of the data. -/
theorem raisesOnly_trace (data : ∀ fault : Fault, fault.ofData = true → P fault)
    (served : ∀ registry cls rule, rules registry cls = some rule → rule.MadeOf (.raising g P))
    {validation : Validation} (made : validation.MadeOf (.raising g P)) (v : Value) :
    (validation.trace rules v).RaisesOnly g P :=
  of_read.bind fun _ _ => of_get.bind fun _ _ =>
    raisesOnly_traceWith data (raisesOnly_traceModel data served _)
    validation made v

end Validation

end PathRules
