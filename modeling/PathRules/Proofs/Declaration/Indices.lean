import Mathlib.Data.Set.List
import PathRules.Proofs.Declaration.Repeating
import PathRules.Proofs.Trace.Positions

/-!
# Rules for the items at positions

Rules for items can be declared in two ways: for each position on a draft of its own, or once for
all selected positions.  Rules that come to the same whenever they are performed check the same
items either way.
-/

namespace PathRules

variable {g : ObjectGraph} {shop : Workshop Logbook} {body : List Rule}

/-- What tells the step to a position apart. -/
def StepKey.ofPosition (g : ObjectGraph) (index : Int) : StepKey :=
  { path := { target := .ofPosition g (.int index) } }

theorem Navigation.keys_onIndices (indices : List Int) :
    onIndices.keys g { target := .this } (indices.map .int) = indices.map (.ofPosition g) := by
  simp [keys, StepKey.ofPosition, Function.comp_def]

/-- Steps to different positions are different steps. -/
theorem StepKey.eq_of_same {i j : Int} (same : (ofPosition g i).same g (ofPosition g j) = true) :
    i = j := by
  have names : "[" ++ toString i ++ "]" = "[" ++ toString j ++ "]" := name_eq_of_same same
  simpa using names

/-- The steps to different positions are pairwise apart. -/
theorem StepKey.pairwise_ofPosition {indices : List Int} (distinct : indices.Nodup) :
    (indices.map (ofPosition g)).Pairwise fun a b => a.same g b = false :=
  List.pairwise_map.mpr (distinct.imp fun different =>
    Bool.eq_false_iff.mpr fun same => different (eq_of_same same))

theorem Value.areHashable_map_int (indices : List Int) :
    areHashable g (indices.map .int) = true := by
  induction indices with
  | nil => rfl
  | cons index indices ih => rw [List.map_cons, areHashable, ih]; rfl

namespace Declaring

/-- Rules that repeat find the same, whether they are declared for each of the positions that ascend
and are there, or for all of them. -/
theorem Repeats.positions_agree {outcome : Except Fault Validation} (orderly : shop.Orderly g)
    (repeats : Repeats g body { root := shop.drafts.length }
      { shop with drafts := shop.drafts ++ [.empty false] } outcome) {positions : List Nat}
    (nonempty : positions ≠ []) (ascending : positions.Pairwise (· < ·))
    (names names' : List String) :
    let selection := positions.map fun i : Nat => Value.int i
    let each := ((built false false
      [.navigate .onIndices none selection true body names]).runOn g shop).1
    let all := ((built false false [.navigate .allIndicesInArray (some (.segment .this)) selection
      true body names']).runOn g shop).1
    match outcome with
    | .error fault => each = .error fault ∧ all = .error fault
    | .ok rules => ∃ v v', each = .ok v ∧ all = .ok v' ∧
        ∀ value items, value.sequenceItems? = some items → (∀ i ∈ positions, i < items.length) →
          ∀ run : Run, run.stack = {} → rules.Traceable g (run.rulebook.rules g)
            (expandModel (g.expansions value run.store.sources)) →
            v.finding g run value = v'.finding g run value := by
  intro selection each all
  let indices := positions.map fun i : Nat => (i : Int)
  have selected : selection = indices.map .int := by simp [selection, indices]
  have keys : Navigation.onIndices.keys g { target := .this } selection =
      indices.map (.ofPosition g) := by rw [selected, Navigation.keys_onIndices]
  have distinct : indices.Nodup := (ascending.imp Nat.ne_of_lt).map _ fun _ _ => mt Int.ofNat.inj
  have one := repeats.navigated orderly .onIndices (.stays rfl) rfl selection names
    (by simp [keys, indices, nonempty]) (by rw [keys]; exact List.forall_mem_map.mpr fun _ _ => rfl)
    (keys ▸ StepKey.pairwise_ofPosition distinct)
  have many := repeats.navigated orderly .allIndicesInArray (.leads rfl) rfl selection names'
    (List.cons_ne_nil _ _)
    (List.forall_mem_singleton.mpr (selected ▸ Value.areHashable_map_int indices))
    (List.pairwise_singleton _ _)
  cases outcome with
  | error fault => exact ⟨one, many⟩
  | ok rules =>
    obtain ⟨inner, long, alike, is⟩ := one
    obtain ⟨inner', long', alike', is'⟩ := many
    obtain ⟨w, rfl⟩ := List.length_eq_one_iff.mp long'
    replace alike' := alike' w List.mem_cons_self
    rw [keys, List.length_map] at long
    refine ⟨_, _, is, is', fun value items listed inside run fresh ⟨visit, told⟩ => ?_⟩
    have wraps : ((indices.map (StepKey.ofPosition g)).zip inner).map
        (fun entry => entry.1.wrap entry.2) =
          (indices.zip inner).map (Validation.positionStep g) := by
      rw [List.zip_map_left, List.map_map]
      rfl
    rw [keys, wraps]
    have traceable : w.Traceable g (run.rulebook.rules g)
        (expandModel (g.expansions value run.store.sources)) :=
      ⟨visit, fun u => alike' _ u ▸ told u⟩
    refine Validation.finding_positionSteps_eq fresh listed traceable
      (fun part member expand u => ?_) (List.map_fst_zip (Nat.le_of_eq long.symm)) nonempty
      ascending inside false
    rw [alike _ (List.of_mem_zip member).2, alike']

end Declaring

open Declaring

namespace Draft

/-- Nothing but steps by some keys was declared, in whatever order and however often. -/
structure StepsOnly (g : ObjectGraph) (keys : List StepKey) (own : List Deed) : Prop where
  constraints : constraintsOf own = []
  validations : validationsOf own = []
  stops (initially : Bool) : stopsOf initially own = initially
  among : ∀ used ∈ keysOf g own, used ∈ keys
  found : ∀ key ∈ keys, ∃ used ∈ keysOf g own, used.same g key = true

namespace StepsOnly

variable {keys : List StepKey} {own : List Deed}

theorem nil : StepsOnly g [] [] :=
  ⟨rfl, rfl, fun _ => rfl, nofun, nofun⟩

theorem snoc (h : StepsOnly g keys own) (key : StepKey) (position : Nat) :
    StepsOnly g (keys ++ [key]) (own ++ [.step key position]) where
  constraints := by rw [constraintsOf_snoc, h.constraints]; rfl
  validations := by rw [validationsOf_snoc, h.validations]; rfl
  stops initially := by rw [stopsOf_snoc, h.stops]; rfl
  among := by
    rw [keysOf_snoc, Deed.keys]
    split <;> simp only [List.mem_append]
    · exact fun used member => .inl (h.among used member)
    · exact fun used => .imp_left (h.among used)
  found := by
    rw [keysOf_snoc, Deed.keys]
    rintro other member
    obtain earlier | rfl := by simpa using member
    · obtain ⟨used, inside, same⟩ := h.found other earlier
      refine ⟨used, ?_, same⟩
      split <;> simp [inside]
    · split
      next used => simpa using used
      next => exact ⟨other, by simp, other.same_refl g⟩

end StepsOnly

end Draft

namespace Workshop.Holds

variable {root : Nat} {anyOf short : Bool} {own : List Draft.Deed}

/-- Entering drafts by steps declares these steps and nothing else, whether the drafts are new. -/
theorem enterAny {used keys : List StepKey} (h : shop.Holds g root anyOf short own)
    (only : Draft.StepsOnly g used own)
    (hashable : ∀ key ∈ keys, Value.areHashable g key.selection = true) {parts : List Address}
    {after : Workshop Logbook}
    (ran : (Declaring.enterEach { root } (performAll body) keys).runOn g shop = (.ok parts, after)) :
    ∃ own', after.Holds g root anyOf short own' ∧ Draft.StepsOnly g (used ++ keys) own' := by
  induction keys generalizing shop used own parts with
  | nil =>
    cases ran
    exact ⟨own, h, by rwa [List.append_nil]⟩
  | cons key keys ih =>
    obtain ⟨first, others⟩ := List.forall_mem_cons.mp hashable
    let position := positionOf g key (shop.draft { root })
    let part : Address := { root, positions := [position] }
    let start := shop.declared g { root } (.step key position)
    have holds : start.Holds g root anyOf short (own ++ [.step key position]) :=
      h.declared _ (fits_step h.orderly.sound h.has key)
    have there : start.Has part := has_step (g := g) h.has key
    -- The rules are performed below the step, so they declare nothing on the draft itself.
    have kept := holds.elsewhere (performAll_safe body start part holds.orderly.sound there)
      (performAll_silent body start part holds.hides fun covered => nomatch covered.2)
    have begins : (Declaring.enter { root } key).runOn g shop = (.ok part, start) :=
      runOn_enter first { root } shop
    rw [Declaring.enterEach, runOn_bind, begins] at ran
    obtain ⟨_, filled, performed, ran⟩ := runOn_bind_ok ran
    obtain ⟨_, last, entered, ended⟩ := runOn_bind_ok ran
    cases ended
    rw [performed] at kept
    obtain ⟨own', holds', only'⟩ := ih kept (only.snoc key position) others entered
    exact ⟨own', holds', by rwa [List.append_assoc] at only'⟩

end Workshop.Holds

/-- Rules for the items at positions are built to steps to these positions, one for each. -/
theorem built_onIndices (orderly : shop.Orderly g) {indices : List Int} (names : List String)
    {v : Validation} {after : Workshop Logbook}
    (ran : (built false false [.navigate .onIndices none (indices.map .int) true body names]).runOn
      g shop = (.ok v, after)) :
    ∃ parts : List (Int × Validation),
      v = .object [] (parts.map (Validation.positionStep g)) false false ∧
        ∀ index, index ∈ parts.map (·.1) ↔ index ∈ indices := by
  let address : Address := { root := shop.drafts.length }
  let begun : Workshop Logbook :=
    { shop with drafts := shop.drafts ++ [{ anyOf := false, shortCircuit := false }] }
  have performs := navigate_ran g body .onIndices (.stays rfl) rfl (indices.map .int) names address
    begun
  rw [runOn_built_single] at ran
  rw [Navigation.keys_onIndices] at performs
  rcases entered : (enterEach address (performAll body) (indices.map (.ofPosition g))).runOn g
    begun with ⟨fault | parts, filled⟩ <;> rw [entered] at performs <;>
    obtain ⟨addresses, performed⟩ := performs <;> rw [performed] at ran <;> cases ran
  have holds : begun.Holds g shop.drafts.length false false [] := orderly.addDraft false false
  obtain ⟨own, ends, only⟩ := holds.enterAny .nil
    (List.forall_mem_map.mpr fun _ _ => rfl) entered
  rw [List.nil_append] at only
  -- All steps that are in use lead to positions, which can be read off them.
  obtain ⟨chosen, is⟩ : Draft.keysOf g own ∈ Set.range (List.map (StepKey.ofPosition g)) := by
    rw [Set.range_list_map]
    exact fun used member => (List.mem_map.mp (only.among used member)).imp fun _ => And.right
  refine ⟨chosen.zipIdx.map fun entry =>
    (entry.1, (filled.draft { root := shop.drafts.length, positions := [entry.2] }).build), ?_, ?_⟩
  · change (filled.draft { root := shop.drafts.length }).build = _
    rw [ends.build_eq, only.constraints, only.validations, only.stops, ← is, List.append_nil,
      List.zipIdx_map, List.map_map, List.map_map]
    rfl
  · have listed : (chosen.zipIdx.map fun entry => (entry.1, (filled.draft
        { root := shop.drafts.length, positions := [entry.2] }).build)).map (·.1) = chosen := by
      rw [List.map_map]
      exact List.zipIdx_map_fst 0 chosen
    intro index
    rw [listed]
    constructor
    · intro member
      obtain ⟨other, inside, same⟩ := List.mem_map.mp
        (only.among _ (is ▸ List.mem_map_of_mem member))
      have found : (StepKey.ofPosition g other).same g (.ofPosition g index) = true := by
        rw [same, StepKey.same_refl]
      exact StepKey.eq_of_same found ▸ inside
    · intro member
      obtain ⟨used, inside, same⟩ := only.found _ (List.mem_map_of_mem member)
      rw [← is] at inside
      obtain ⟨other, member, rfl⟩ := List.mem_map.mp inside
      exact StepKey.eq_of_same same ▸ member

/-- Rules for the items at positions find nothing where a position is beyond the end, but raise a
fault. -/
theorem onIndices_beyond (orderly : shop.Orderly g) {indices : List Int} (names : List String)
    {v : Validation} (built : ((built false false
      [.navigate .onIndices none (indices.map .int) true body names]).runOn g shop).1 = .ok v) :
    ∃ parts : List (Int × Validation),
      v = .object [] (parts.map (Validation.positionStep g)) false false ∧
      (∀ index, index ∈ parts.map (·.1) ↔ index ∈ indices) ∧
      ∀ value items, value.sequenceItems? = some items →
        (∃ index ∈ indices, (items.length : Int) ≤ index) → ∀ run : Run, run.stack = {} →
          let expand := expandModel (g.expansions value run.store.sources)
          (∀ part ∈ parts, part.2.Traceable g (run.rulebook.rules g) expand) →
            ∃ fault, v.finding g run value = .error fault ∧
              (fault = .outOfRange ∨ ∃ part ∈ parts, part.2.RaisesOn g expand run items fault) := by
  obtain ⟨parts, rfl, listed⟩ := built_onIndices orderly names (Prod.ext built rfl)
  refine ⟨parts, rfl, listed, fun value items is ⟨index, member, beyond⟩ run fresh => ?_⟩
  intro expand traceable
  obtain ⟨part, inside, rfl⟩ := List.mem_map.mp ((listed index).mpr member)
  exact Validation.finding_positionSteps_beyond fresh is traceable ⟨part, inside, beyond⟩

/-- Three ways to select items of a sequence.

Enumerating the items and counting positions come to the same run with one selection, whatever the
rules for the items: the same fault or outcome, the same tree and store, and the same events but for
the name under which each validation introduces itself.  The items are visited whose positions are
selected; positions that there are not select nothing, and no selection selects all.

Rules that repeat find the same in a new group, whether they are declared for each of the positions
that ascend and are there or for all of them, if they are told by traces; and they raise the same
fault in either way if they can not be declared.  Where a position is beyond the end, rules that are
declared for each position raise a fault, which is that of the step unless the rules raised another
of an item. -/
theorem selections_agree (orderly : shop.Orderly g) (body : List Rule)
    (names names' : List String) :
    (∀ (value : Value) (items : List Value), value.sequenceItems? = some items →
      ∀ (inner : Validation) (selection : List Value),
        let enumerated := Validation.elements (.iterated selection) inner
        let counted := Validation.elements (.positions selection) inner
        (∀ entries observed sources rulebook,
          let ran := (enumerated.validate value).runOn g
            (.start enumerated entries observed sources rulebook)
          let ran' := (counted.validate value).runOn g
            (.start counted entries observed sources rulebook)
          ran'.1 = ran.1 ∧
            ran'.2 = { ran.2 with origin := counted.className, events := ran'.2.events } ∧
            List.Forall₂ (Event.Renamed enumerated.className counted.className) ran.2.events
              ran'.2.events) ∧
        ∀ indices : List Int, selection = indices.map .int → ∀ check,
          Validation.eachElement check value (.iterated selection) =
            Validation.eachOf (fun entry => Validation.descend check (.ofIndex entry.1) entry.2)
              ((Validation.numbered items).filter fun entry =>
                decide (indices = [] ∨ (entry.1 : Int) ∈ indices))) ∧
    (∀ outcome, Repeats g body { root := shop.drafts.length }
        { shop with drafts := shop.drafts ++ [.empty false] } outcome →
      ∀ positions : List Nat, positions ≠ [] → positions.Pairwise (· < ·) →
        let selection := positions.map fun i : Nat => Value.int i
        let each := ((built false false
          [.navigate .onIndices none selection true body names]).runOn g shop.erased).1
        let all := ((built false false [.navigate .allIndicesInArray (some (.segment .this))
          selection true body names']).runOn g shop.erased).1
        match outcome with
        | .error fault => each = .error fault ∧ all = .error fault
        | .ok rules => ∃ v v', each = .ok v ∧ all = .ok v' ∧
            ∀ value items, value.sequenceItems? = some items →
              (∀ i ∈ positions, i < items.length) → ∀ run : Run, run.stack = {} →
                rules.Traceable g (run.rulebook.rules g)
                  (expandModel (g.expansions value run.store.sources)) →
                v.finding g run value = v'.finding g run value) ∧
    ∀ (indices : List Int) (v : Validation), ((built false false
        [.navigate .onIndices none (indices.map .int) true body names]).runOn g shop.erased).1 =
          .ok v →
      ∃ parts : List (Int × Validation),
        v = .object [] (parts.map (Validation.positionStep g)) false false ∧
        (∀ index, index ∈ parts.map (·.1) ↔ index ∈ indices) ∧
        ∀ value items, value.sequenceItems? = some items →
          (∃ index ∈ indices, (items.length : Int) ≤ index) → ∀ run : Run, run.stack = {} →
            let expand := expandModel (g.expansions value run.store.sources)
            (∀ part ∈ parts, part.2.Traceable g (run.rulebook.rules g) expand) →
              ∃ fault, v.finding g run value = .error fault ∧
                (fault = .outOfRange ∨
                  ∃ part ∈ parts, part.2.RaisesOn g expand run items fault) := by
  refine ⟨fun value items listed inner selection => ⟨fun entries observed sources rulebook => ?_,
    ?_⟩, fun outcome repeats positions nonempty ascending => ?_, fun indices v built => ?_⟩
  · exact Validation.validate_iterated listed inner selection entries observed sources rulebook
  · rintro indices rfl check
    rw [Validation.eachElement_iterated_eq check _ listed]
    simp only [Validation.visitChosen, Validation.chosen_map_int]
    rfl
  · dsimp only
    rw [(built_erases false false _).fst_eq shop, (built_erases false false _).fst_eq shop]
    exact repeats.positions_agree orderly nonempty ascending names names'
  · rw [(built_erases false false _).fst_eq shop] at built
    exact onIndices_beyond orderly names built

/-- Null at each of two positions, where one item is null and the other is not, and at a third that
there is not. -/
theorem selections_agree_of_null :
    let body := constraintRules [{ name := "is_none" }]
    let value : Value := .list [.null, .int 1]
    let onIndices (selection : List Value) :=
      ((built false false [.navigate .onIndices none selection true body []]).runOn {} {}).1
    let allIndices (selection : List Value) := ((built false false
      [.navigate .allIndicesInArray (some (.segment .this)) selection true body []]).runOn {} {}).1
    let enumerated := Validation.elements (.iterated [.int (-1)]) nameRequiredBuilt
    let counted := Validation.elements (.positions [.int (-1)]) nameRequiredBuilt
    ((counted.validate value).runOn {} (.start counted [] true [] {})).1 =
        ((enumerated.validate value).runOn {} (.start enumerated [] true [] {})).1 ∧
      (∃ v v', onIndices [.int 0, .int 1] = .ok v ∧ allIndices [.int 0, .int 1] = .ok v' ∧
        v.finding {} {} value = v'.finding {} {} value) ∧
      ∃ v, onIndices [.int 0, .int 2] = .ok v ∧ v.finding {} {} value = .error .outOfRange := by
  intro body value onIndices allIndices enumerated counted
  have orderly : Workshop.Orderly {} {} := ⟨Workshop.sound_empty {}, nofun⟩
  have book : ({} : Run).rulebook.MadeOf .any := by simp [Rulebook.MadeOf]
  have listed : value.sequenceItems? = some [.null, .int 1] := rfl
  obtain ⟨runs, declared, beyond⟩ := selections_agree orderly body [] []
  have null : [({ name := "is_none" } : Call)].mapM (Call.constraint {}) = .ok [.isNull] := rfl
  have begun := orderly.addDraft false false
  have repeats := repeats_constraintRules begun.orderly.sound begun.has [{ name := "is_none" }]
  rw [null] at repeats
  let rules : Validation := .object [.isNull] [] false false
  have plain : rules.MadeOf .any := ⟨fun _ _ => trivial, trivial⟩
  refine ⟨(runs value _ listed nameRequiredBuilt [.int (-1)]).1 [] true [] {} |>.1, ?_, ?_⟩
  · obtain ⟨v, v', built, built', agree⟩ := declared _ repeats [0, 1] (by simp) (by decide)
    refine ⟨v, v', built, built', agree value _ listed (by decide) {} rfl ?_⟩
    exact plain.traceable book _
  · have ran : onIndices [.int 0, .int 2] = .ok (.object []
        ([(0, rules), (2, rules)].map (Validation.positionStep {})) false false) := by
      cbv
    obtain ⟨parts, is, -, raises⟩ := beyond [0, 2] _ ran
    have same := Validation.positionStep_injective.list_map (Validation.object.inj is).2.1
    have ruled (part : Int × Validation) (member : part ∈ parts) : part.2 = rules := by
      rw [← same] at member
      simp only [List.mem_cons, List.not_mem_nil, or_false] at member
      rcases member with rfl | rfl <;> rfl
    obtain ⟨fault, raised, told⟩ := raises value _ listed ⟨2, by simp, by decide⟩ {} rfl
      fun part member => ruled part member ▸ plain.traceable book _
    refine ⟨_, ran, raised.trans (congrArg _ (told.resolve_right ?_))⟩
    rintro ⟨part, member, item, inside, store, raised⟩
    rw [ruled part member] at raised
    simp only [List.mem_cons, List.not_mem_nil, or_false] at inside
    rcases inside with rfl | rfl <;> cases raised

/-- The events of the two runs give different names.  Rules that finish the run tell how many nodes
are open, of which there are more below a step that stays in place.  Rules that remember a draft on
which they were performed before add to it. -/
theorem selections_differ :
    let value : Value := .list [.int 1, .int 1]
    let enumerated := Validation.elements (.iterated []) (.object [] [] false false)
    let counted := Validation.elements (.positions []) (.object [] [] false false)
    let onIndices (shop : Workshop) (body : List Rule) := ((built false false
      [.navigate .onIndices none [.int 0, .int 1] true body []]).runOn {} shop).1
    let allIndices (shop : Workshop) (body : List Rule) := ((built false false
      [.navigate .allIndicesInArray (some (.segment .this)) [.int 0, .int 1] true body []]).runOn
        {} shop).1
    let finishing : List Rule := [.run (.script [.act .finish] none)]
    let shop : Workshop := { drafts := [.empty false], addresses := [("x", { root := 0 })] }
    let remembering : List Rule := [.on "x" [.constrain { name := "is_none" } none],
      .navigate .ifPresent none [] true [] ["x"]]
    (((enumerated.validate value).runOn {} (.start enumerated [] true [] {})).2.events.map
        (·.origin) = ["IterableValidation", "IterableValidation"] ∧
      ((counted.validate value).runOn {} (.start counted [] true [] {})).2.events.map
        (·.origin) = ["ArrayValidation", "ArrayValidation"]) ∧
    ((onIndices {} finishing).bind fun v => v.finding {} {} value) = .error (.stillOpen 3) ∧
    ((allIndices {} finishing).bind fun v => v.finding {} {} value) = .error (.stillOpen 5) ∧
    ((onIndices shop remembering).bind fun v => (v.finding {} {} value).map (·.1)) = .ok false ∧
    ((allIndices shop remembering).bind fun v => (v.finding {} {} value).map (·.1)) = .ok true := by
  refine ⟨⟨?_, ?_⟩, ?_, ?_, ?_, ?_⟩
  · cbv
  · cbv
  · cbv
  · cbv
  · cbv
  · cbv

end PathRules
