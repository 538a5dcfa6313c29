import PathRules.Proofs.Check
import PathRules.Segment.Extraction

/-!
# Faults of taking parts

Taking parts of values raises faults of the data alone, none of the library's own.
-/

namespace PathRules

variable {P : Fault → Prop} {g : ObjectGraph}

/-- Faults of the data. -/
def Fault.ofData : Fault → Bool
  | .noMapping _ | .noElement _ | .missingKey | .missingAttribute | .outOfRange | .wrongType
  | .wrongValue | .endless => true
  | _ => false

section

variable (data : ∀ fault : Fault, fault.ofData = true → P fault)

include data

open Check.Meets

namespace Value

theorem fault_of_attr {name : String} {v : Value} {fault : Fault}
    (h : v.attr g name = .error fault) : P fault := by
  apply data fault
  unfold attr at h
  repeat' split at h
  all_goals cases h
  all_goals rfl

theorem fault_of_foldlM_attr {names : List String} {v : Value} {fault : Fault}
    (h : names.foldlM (fun value name => value.attr g name) v = .error fault) : P fault := by
  induction names generalizing v with
  | nil => cases h
  | cons name names ih =>
    rw [List.foldlM_cons] at h
    cases found : v.attr g name with
    | error first =>
      rw [found] at h
      cases h
      exact fault_of_attr data found
    | ok value =>
      rw [found] at h
      exact ih h

theorem fault_of_callMethod {name : String} {v : Value} {fault : Fault}
    (h : v.callMethod g name = .error fault) : P fault := by
  unfold callMethod at h
  dsimp only at h
  split at h
  · cases h
  · cases found : v.attr g name with
    | error first =>
      rw [found] at h
      cases h
      exact fault_of_attr data found
    | ok value =>
      rw [found] at h
      cases h
      exact data .wrongType rfl

theorem fault_of_item {v key : Value} {fault : Fault} (h : v.item g key = .error fault) :
    P fault := by
  apply data fault
  unfold item itemAt at h
  repeat' split at h
  all_goals cases h
  all_goals rfl

theorem raisesOnly_elements (v : Value) : v.elements.RaisesOnly g P := by
  unfold elements
  split
  · exact of_get.bind fun _ _ => (of_modify _).bind fun _ _ => of_pure trivial
  · refine of_read.bind fun g _ => ?_
    split
    · exact of_pure trivial
    · exact of_throw (data .wrongType rfl)

theorem raisesOnly_pairs (v : Value) : v.pairs.RaisesOnly g P := by
  unfold pairs
  split
  · exact of_pure trivial
  · refine of_read.bind fun _ _ =>
      (of_ofExcept (fun _ _ => trivial) fun _ => fault_of_callMethod data).bind fun found _ => ?_
    refine (raisesOnly_elements data found).bind fun rows _ => ?_
    refine (of_mapM (R := fun _ => True) fun row _ => ?_).raisesOnly
    refine (raisesOnly_elements data row).bind fun items _ => ?_
    split
    · exact of_pure trivial
    · exact of_throw (data .wrongValue rfl)

theorem raisesOnly_contains (v key : Value) : (v.contains key).RaisesOnly g P := by
  have wrong : (throw .wrongType : Check Bool).RaisesOnly g P := of_throw (data .wrongType rfl)
  refine of_read.bind fun _ _ => ?_
  split
  · split
    · exact of_pure trivial
    · exact wrong
  · split
    · exact of_pure trivial
    · split
      · exact of_pure trivial
      · exact wrong
  · split
    · exact of_pure trivial
    · exact wrong
  · exact of_get.bind fun _ _ => (of_modify _).bind fun _ _ => of_pure trivial
  · split
    · exact of_pure trivial
    · exact wrong

theorem raisesOnly_elementAt (v position : Value) (shown : String) :
    (v.elementAt position shown).RaisesOnly g P := by
  refine of_read.bind fun _ _ => ?_
  split
  · exact of_ofExcept (fun _ _ => trivial) fun _ => fault_of_item data
  · extract_lets place
    have counted : ∀ fault, place = .error fault → P fault := by
      intro fault h
      apply data fault
      unfold place at h
      repeat' split at h
      all_goals cases h
      all_goals rfl
    have taken : (Check.ofExcept place).RaisesOnly g P := of_ofExcept (fun _ _ => trivial) counted
    split
    · refine taken.bind fun n _ => of_get.bind fun store _ => (of_modify _).bind fun _ _ => ?_
      split
      · exact of_pure trivial
      · exact of_throw (data _ rfl)
    · split
      · exact of_throw (data .wrongType rfl)
      · refine taken.bind fun n _ => ?_
        split
        · exact of_pure trivial
        · exact of_throw (data _ rfl)

end Value

/-- The extractor of a segment that has one. -/
def Segment.extract? : Segment → Option Extract
  | .property _ extract | .call _ extract | .custom _ _ extract => some extract
  | .this | .entry .. | .index .. => none

/-- A segment raises what its extractor raises, and faults of the data. -/
theorem Segment.raisesOnly_get {s : Segment} {v : Value}
    (h : ∀ extract ∈ s.extract?, (extract v).RaisesOnly g P) : (s.get v).RaisesOnly g P := by
  cases s with
  | this => exact of_pure trivial
  | property name extract => exact h extract rfl
  | call name extract => exact h extract rfl
  | custom identifier name extract => exact h extract rfl
  | entry key name =>
    refine (Value.raisesOnly_contains data v key).bind fun found _ => ?_
    split
    · exact of_read.bind fun _ _ =>
        (of_ofExcept (fun _ _ => trivial) fun _ => Value.fault_of_item data).bind fun _ _ =>
          of_pure trivial
    · exact of_read.bind fun _ _ => of_throw (data _ rfl)
  | index position name =>
    exact of_read.bind fun _ _ => Value.raisesOnly_elementAt data v position _

end

end PathRules
