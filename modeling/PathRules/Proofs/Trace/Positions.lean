import Mathlib.Data.List.Sort
import PathRules.Proofs.Run.Selections
import PathRules.Proofs.Trace.Findings

/-!
# Steps to positions

A group of steps to the positions of a sequence, each with rules for the item there, finds what the
rules find of one item after the other.  Rules for selected positions find the same, as long as all
positions are there; where one is not, they pass over it, and a step to it raises a fault.  The
rules may be any that are told by traces.
-/

namespace PathRules

variable {g : ObjectGraph} {rules : Rules} {expand : Expand} {v : Value} {items : List Value}

namespace Value

theorem item_eq_itemAt (listed : v.sequenceItems? = some items) (index : Int) :
    v.item g (.int index) = itemAt items index := by
  cases v <;> first | (cases listed; done) | simp [item, listed, int?]

theorem itemAt_of_lt {index : Nat} (inside : index < items.length) :
    itemAt items index = .ok items[index] := by
  have counted : ¬(index : Int) < 0 := by omega
  simp [itemAt, place?, counted, inside]

theorem mem_of_itemAt {index : Int} {item : Value} (taken : itemAt items index = .ok item) :
    item ∈ items := by
  unfold itemAt at taken
  split at taken <;> cases taken
  next found =>
    obtain ⟨place, -, there⟩ := Option.bind_eq_some_iff.mp found
    exact List.mem_of_getElem? there

theorem fault_of_itemAt {index : Int} {fault : Fault} (raised : itemAt items index = .error fault) :
    fault = .outOfRange := by
  unfold itemAt at raised
  split at raised <;> cases raised
  rfl

/-- Positions are not counted beyond the end. -/
theorem itemAt_of_le {index : Int} (beyond : (items.length : Int) ≤ index) :
    itemAt items index = .error .outOfRange := by
  have counted : ¬index < 0 := by omega
  have outside : ¬index < items.length := by omega
  simp [itemAt, place?, counted, outside]

end Value

/-- A step to a position takes the item there. -/
theorem Segment.get_ofPosition (listed : v.sequenceItems? = some items) (g : ObjectGraph)
    (index : Int) :
    (ofPosition g (.int index)).get v = Check.ofExcept (Value.itemAt items index) := by
  have sequence := v.isSequence_of_sequenceItems listed
  rw [ofPosition, get]
  simp only [v.elementAt_of_isSequence sequence, v.item_eq_itemAt listed]
  rfl

/-- Checks in turn come to a fault if one of them always raises one. -/
theorem Check.allInTurn_raises {P : Fault → Prop} {checks : List (Check Finding)}
    (raises : ∀ check ∈ checks, check.RaisesOnly g P) {check : Check Finding}
    (member : check ∈ checks)
    (stops : ∀ store, ∃ fault, (check.runOn g store).1 = .error fault) (store : Store) :
    ∃ fault, P fault ∧ ((allInTurn false checks).runOn g store).1 = .error fault := by
  induction checks generalizing store with
  | nil => cases member
  | cons first checks ih =>
    obtain ⟨only, others⟩ := List.forall_mem_cons.mp raises
    have allowed := only store
    simp only [allInTurn, Finding.followedBy, Bool.false_and, Bool.false_eq_true, if_false]
    rw [Check.runOn_bind]
    rcases ran : first.runOn g store with ⟨fault | found, after⟩ <;> rw [ran] at allowed
    · exact ⟨fault, allowed, rfl⟩
    · rcases List.mem_cons.mp member with rfl | later
      · obtain ⟨fault, raised⟩ := stops store
        rw [ran] at raised
        cases raised
      · obtain ⟨fault, allowed, raised⟩ := ih others later after
        dsimp only
        rw [Check.runOn_bind]
        rcases rest : (allInTurn false checks).runOn g after with ⟨fault' | found', last⟩ <;>
          rw [rest] at raised <;> cases raised
        exact ⟨fault, allowed, rfl⟩

/-- A finding as it is seen from above a step. -/
def Finding.below (target : Segment) (found : Finding) : Finding :=
  (found.1, found.2.map (Placed.below (DataPath.ofSegments [target])))

theorem Finding.below_this (found : Finding) : found.below .this = found :=
  Prod.ext rfl (List.map_id'' (fun _ => rfl) _)

namespace Trace

variable (visit : Value → Check Trace)

/-- What is found of a part below the step to it. -/
def findBelow (target : Segment) (part : Value) : Check Finding :=
  (fun t => (Finding.ofTrace t).below target) <$> visit part

theorem findBelow_this (v : Value) : findBelow visit .this v = Finding.ofTrace <$> visit v := by
  simp only [findBelow, Finding.below_this]

theorem find_ofPart (target : Segment) (taken : Check Value) :
    Finding.ofTrace <$> ofPart visit (target, taken) = taken >>= findBelow visit target := by
  simp only [ofPart, map_eq_pure_bind, bind_assoc]
  rfl

open Validation in
/-- Visits to selected positions find what is found below them, one after the other. -/
theorem find_positions (listed : v.sequenceItems? = some items) (selection : List Value) :
    Finding.ofTrace <$> (do
        let visits ← ofElements visit v (.positions selection)
        pure (.elements (.positions selection) v visits)) =
      read >>= fun g => Check.allInTurn false ((chosen g selection items).map fun entry =>
        findBelow visit (.ofIndex entry.1) entry.2) := by
  have joined (visits : List Trace) : Finding.ofTrace (.elements (.positions selection) v visits) =
      Finding.joinAll Finding.ofTrace visits := by
    simp [Finding.ofTrace, Finding.joinAll, passed, leaves]
  have visited (g : ObjectGraph) (entry : Nat × Value) (there : entry ∈ numbered items) :
      Finding.ofTrace <$> ofPart visit (.ofIndex entry.1,
        Check.ofExcept (v.item g (.int entry.1))) = findBelow visit (.ofIndex entry.1) entry.2 := by
    rw [v.item_eq_ok (v.isSequence_of_sequenceItems listed)
      (v.items_of_sequenceItems listed g) (mem_numbered_iff.mp there), find_ofPart]
    rfl
  rw [bind_pure_comp, Functor.map_map, ofElements, map_bind]
  simp only [joined]
  congr 1
  funext g
  dsimp only [Elements.parts]
  rw [v.size_of_sequenceItems listed]
  dsimp only
  rw [pure_bind, Check.joinAll_inTurn (fun _ => false) fun _ => (Bool.false_and _).symm,
    ← map_fst_numbered, List.filter_map, List.map_map, List.map_map, List.map_map]
  congr 1
  exact List.map_congr_left fun entry member => visited g entry (List.mem_of_mem_filter member)

end Trace

namespace Validation

/-- Rules of which every evaluation is told by a trace: they attach what they find to the current
node and leave the other open nodes as they are. -/
def Traceable (g : ObjectGraph) (rules : Rules) (expand : Expand) (validation : Validation) :
    Prop :=
  ∃ visit : Value → Check Trace, ∀ v, Told g rules (validation.evaluate expand v) (visit v)

/-- Rules without scripts are told by their traces. -/
theorem MadeOf.traceable {validation : Validation} (made : validation.MadeOf .any)
    {book : Rulebook} (served : book.MadeOf .any) (fuel : Nat) :
    validation.Traceable g (book.rules g) (expandModel fuel) :=
  ⟨_, validation.evaluate_told (expandModel_told (served.served Material.any_holdsFields) fuel)
    made⟩

/-- The rules raise a fault of one of the items, in some state of the store. -/
def RaisesOn (g : ObjectGraph) (expand : Expand) (run : Run) (items : List Value) (fault : Fault)
    (rules : Validation) : Prop :=
  ∃ item ∈ items, ∃ store,
    ((rules.evaluate expand item).runOn g { run with store }).1 = .error fault

/-- A step with rules for the part. -/
theorem stepTo_told {inner : Validation} {visit : Value → Check Trace}
    (told : ∀ w, Told g rules (inner.evaluate expand w) (visit w)) (target : Segment) (v : Value) :
    Told g rules ((step .undefined [] target inner).evaluate expand v)
      (Trace.ofPart visit (target, target.get v)) := by
  rw [evaluate, guardsPass, pure_bind]
  exact taken_told told .undefined target v

/-- A group of which all checks have to pass is told if all of them are. -/
theorem all_told {subs : List Validation} {visits : List (Check Trace)} (short : Bool)
    (told : List.Forall₂ (fun sub => Told g rules (sub.evaluate expand v)) subs visits) :
    Told g rules ((object [] subs false short).evaluate expand v)
      (Trace.ofGroup .all short [] visits) := by
  have gathered : GathersSubs g rules .all short (allOf? expand short subs v) visits := by
    induction told with
    | nil => exact Gathers.of_pure ⟨rfl, rfl⟩ rfl fun _ _ => rfl
    | cons first _ ih =>
      rw [allOf_cons]
      exact .cons first ih
  have empty : subs.isEmpty = visits.isEmpty := by cases told <;> rfl
  rw [evaluate_all, empty]
  exact group_told (allConstraints_gathers short v []) gathered

/-- A step to the item at a position, with rules for the item. -/
def positionStep (g : ObjectGraph) (part : Int × Validation) : Validation :=
  .step .undefined [] (.ofPosition g (.int part.1)) part.2

theorem positionStep_injective : Function.Injective (positionStep g) := by
  rintro ⟨i, v⟩ ⟨j, w⟩ same
  obtain ⟨-, -, target, rfl⟩ := step.inj same
  obtain ⟨⟨⟩, -⟩ := Segment.index.inj target
  rfl

/-- Rules for the items at selected positions. -/
def atPositions (selection : List Value) (rules : Validation) : Validation :=
  .step .undefined [] .this (.elements (.positions selection) rules)

variable {run : Run} (fresh : run.stack = {}) (listed : v.sequenceItems? = some items)

include fresh listed

/-- A group of steps to positions finds what is found below them, one after the other. -/
theorem finding_positionSteps {parts : List (Int × Validation)}
    (visit : Int × Validation → Value → Check Trace)
    (told : ∀ part ∈ parts, ∀ w, Told g (run.rulebook.rules g)
      (part.2.evaluate (expandModel (g.expansions v run.store.sources)) w) (visit part w))
    (short : Bool) :
    (object [] (parts.map (positionStep g)) false short).finding g run v =
      ((Check.allInTurn short (parts.map fun part =>
        Check.ofExcept (Value.itemAt items part.1) >>=
          Trace.findBelow (visit part) (.ofPosition g (.int part.1)))).runOn g run.store).1 := by
  have steps : List.Forall₂ (fun sub => Told g (run.rulebook.rules g)
        (sub.evaluate (expandModel (g.expansions v run.store.sources)) v))
      (parts.map (positionStep g)) (parts.map fun part => Trace.ofPart (visit part)
        (.ofPosition g (.int part.1), Check.ofExcept (Value.itemAt items part.1))) := by
    rw [List.forall₂_map_left_iff, List.forall₂_map_right_iff, List.forall₂_same]
    intro part member
    rw [← Segment.get_ofPosition listed]
    exact stepTo_told (told part member) _ v
  rw [finding_of_told fresh (all_told short steps), Trace.ofGroup_all, List.map_nil,
    List.nil_append, List.map_map]
  simp only [Function.comp_def, Trace.find_ofPart]

/-- Rules for selected positions find what is found below them, one after the other. -/
theorem finding_atPositions {rules : Validation} {visit : Value → Check Trace}
    (told : ∀ w, Told g (run.rulebook.rules g)
      (rules.evaluate (expandModel (g.expansions v run.store.sources)) w) (visit w))
    (selection : List Value) (short : Bool) :
    (object [] [atPositions selection rules] false short).finding g run v =
      ((Check.allInTurn false ((chosen g selection items).map fun entry =>
        Trace.findBelow visit (.ofIndex entry.1) entry.2)).runOn g run.store).1 := by
  have elements (w : Value) : Told g (run.rulebook.rules g)
      ((elements (.positions selection) rules).evaluate
        (expandModel (g.expansions v run.store.sources)) w)
      (do
        let visits ← Trace.ofElements visit w (.positions selection)
        pure (.elements (.positions selection) w visits)) := by
    rw [evaluate]
    exact elements_told told _ w
  have whole := all_told short (.cons (stepTo_told elements .this v) .nil)
  rw [atPositions, finding_of_told fresh whole, Trace.ofGroup_all, List.map_nil,
    List.nil_append, List.map_singleton, Trace.find_ofPart, Check.allInTurn, Check.allInTurn,
    Finding.followedBy_nothing]
  have here : Segment.this.get v = (pure v : Check Value) := rfl
  rw [here, pure_bind, Trace.findBelow_this, Trace.find_positions visit listed]
  rfl

omit fresh listed in
/-- Selected positions that ascend and are there are chosen in their order. -/
theorem map_fst_chosen {positions : List Nat} (nonempty : positions ≠ [])
    (ascending : positions.Pairwise (· < ·)) (inside : ∀ i ∈ positions, i < items.length) :
    (chosen g (positions.map fun i : Nat => .int i) items).map (·.1) = positions := by
  have selection : positions.map (fun i : Nat => Value.int i) =
      (positions.map fun i : Nat => (i : Int)).map .int := by
    simp
  have kept : (chosen g (positions.map fun i : Nat => .int i) items).map (·.1) =
      (List.range items.length).filter (· ∈ positions) := by
    rw [selection, chosen_map_int, ← map_fst_numbered, List.filter_map]
    simp only [List.map_eq_nil_iff, nonempty, List.mem_map, Int.natCast_inj, exists_eq_right,
      false_or, Function.comp_def]
  rw [kept]
  refine (List.pairwise_lt_range.filter _).eq_of_mem_iff ascending fun i => ?_
  simp only [List.mem_filter, List.mem_range, decide_eq_true_eq, and_iff_right_iff_imp]
  exact inside i

/-- Steps to positions that ascend and are there find what the rules for these positions find. -/
theorem finding_positionSteps_eq {rules : Validation}
    (traceable : rules.Traceable g (run.rulebook.rules g)
      (expandModel (g.expansions v run.store.sources)))
    {parts : List (Int × Validation)}
    (alike : ∀ part ∈ parts, ∀ expand w, part.2.evaluate expand w = rules.evaluate expand w)
    {positions : List Nat} (steps : parts.map (·.1) = positions.map fun i : Nat => (i : Int))
    (nonempty : positions ≠ []) (ascending : positions.Pairwise (· < ·))
    (inside : ∀ i ∈ positions, i < items.length) (short : Bool) :
    (object [] (parts.map (positionStep g)) false false).finding g run v =
      (object [] [atPositions (positions.map fun i : Nat => .int i) rules] false short).finding g
        run v := by
  obtain ⟨visit, told⟩ := traceable
  let below (index : Int) : Check Finding := Check.ofExcept (Value.itemAt items index) >>=
    Trace.findBelow visit (.ofPosition g (.int index))
  have taken (entry : Nat × Value)
      (member : entry ∈ chosen g (positions.map fun i : Nat => .int i) items) :
      below entry.1 = Trace.findBelow visit (.ofIndex entry.1) entry.2 := by
    obtain ⟨there, is⟩ := List.getElem?_eq_some_iff.mp
      (mem_numbered_iff.mp (List.mem_of_mem_filter member))
    change Check.ofExcept (Value.itemAt items entry.1) >>= _ = _
    rw [Value.itemAt_of_lt there, is]
    rfl
  rw [finding_positionSteps fresh listed (fun _ => visit)
      (fun part member w => alike part member _ w ▸ told w),
    finding_atPositions fresh listed told, ← List.map_congr_left taken]
  -- Both groups make the same list of checks, which is read off the positions alone.
  have checks : parts.map (fun part => below part.1) =
      (chosen g (positions.map fun i : Nat => .int i) items).map fun entry => below entry.1 := by
    have first := congrArg (List.map below) steps
    rw [← map_fst_chosen (g := g) nonempty ascending inside] at first
    simpa [Function.comp_def] using first
  exact congrArg (fun checks => ((Check.allInTurn false checks).runOn g run.store).1) checks

omit listed in
/-- What is found below a step to a position is found, or the step or the rules raise a fault. -/
theorem findBelow_raises {rules : Validation} {expand : Expand} {visit : Value → Check Trace}
    (told : ∀ w, Told g (run.rulebook.rules g) (rules.evaluate expand w) (visit w)) (index : Int)
    (target : Segment) :
    (Check.ofExcept (Value.itemAt items index) >>= Trace.findBelow visit target).RaisesOnly g
      fun fault => fault = .outOfRange ∨ rules.RaisesOn g expand run items fault := by
  refine Check.Meets.bind (Q := (· ∈ items)) ?_ fun item inside store => ?_
  · exact .of_ofExcept (fun _ => Value.mem_of_itemAt) fun _ raised =>
      .inl (Value.fault_of_itemAt raised)
  have follows := told item { run with store } (fresh ▸ rfl) rfl
  have agree := (follows.runOn_eq fun _ _ _ related => related.1).1
  rw [Trace.findBelow, map_eq_pure_bind, Check.runOn_bind]
  rcases ran : (visit item).runOn g store with ⟨fault | t, after⟩
  · exact .inr ⟨item, inside, store, by rw [agree, ran]; rfl⟩
  · trivial

/-- Where a step leads beyond the end, a group of steps to positions comes to a fault, which is that
of the step unless the rules raised another of an item. -/
theorem finding_positionSteps_beyond {parts : List (Int × Validation)}
    (traceable : ∀ part ∈ parts, part.2.Traceable g (run.rulebook.rules g)
      (expandModel (g.expansions v run.store.sources)))
    (beyond : ∃ part ∈ parts, (items.length : Int) ≤ part.1) :
    ∃ fault, (object [] (parts.map (positionStep g)) false false).finding g run v = .error fault ∧
      (fault = .outOfRange ∨ ∃ part ∈ parts, part.2.RaisesOn g
        (expandModel (g.expansions v run.store.sources)) run items fault) := by
  have traced (part : Int × Validation) : ∃ visit : Value → Check Trace, part ∈ parts → ∀ w,
      Told g (run.rulebook.rules g) (part.2.evaluate
        (expandModel (g.expansions v run.store.sources)) w) (visit w) := by
    by_cases member : part ∈ parts
    · exact (traceable part member).imp fun _ told _ => told
    · exact ⟨fun _ => pure (.absent .this), fun inside => absurd inside member⟩
  -- Each part may be told by traces of its own.
  choose visit told using traced
  obtain ⟨part, member, outside⟩ := beyond
  have stops (store : Store) : ∃ fault, ((Check.ofExcept (Value.itemAt items part.1) >>=
      Trace.findBelow (visit part) (.ofPosition g (.int part.1))).runOn g store).1 =
        .error fault := by
    rw [Value.itemAt_of_le outside]
    exact ⟨.outOfRange, rfl⟩
  have raises (part : Int × Validation) (member : part ∈ parts) :
      (Check.ofExcept (Value.itemAt items part.1) >>=
        Trace.findBelow (visit part) (.ofPosition g (.int part.1))).RaisesOnly g fun fault =>
          fault = .outOfRange ∨ ∃ part ∈ parts, part.2.RaisesOn g
            (expandModel (g.expansions v run.store.sources)) run items fault :=
    (findBelow_raises fresh (told part member) part.1 _).mono (fun _ => id) fun _ =>
      Or.imp_right fun raised => ⟨part, member, raised⟩
  obtain ⟨fault, allowed, raised⟩ := Check.allInTurn_raises (List.forall_mem_map.mpr raises)
    (List.mem_map_of_mem member) stops run.store
  exact ⟨fault, finding_positionSteps fresh listed visit told false ▸ raised, allowed⟩

end Validation

end PathRules
