import Mathlib
import PathRules.Proofs.Declaration.SharedSteps
import PathRules.Proofs.Run.Entries

-- No smaller part of the library holds `Int.repr_injective`.

/-!
# Rules for the entries of keys

A draft tells the steps to entries apart by the text of the key.  Keys that are written differently
have drafts of their own, in the order of the keys, and each draft is filled once; so the entries
are checked one after the other, each with the rules that were declared for it.
-/

namespace PathRules

variable {g : ObjectGraph} {shop : Workshop Logbook} {address : Address} {body : List Rule}

namespace Value

/-- What stands between the brackets in the name of an entry. -/
def keyText (g : ObjectGraph) : Value → String
  | .str s => "\"" ++ s ++ "\""
  | key => key.quoted g

@[simp] theorem keyText_null : keyText g .null = "None" := rfl

@[simp] theorem keyText_bool (b : Bool) :
    keyText g (.bool b) = if b then "True" else "False" := rfl

@[simp] theorem keyText_int (n : Int) : keyText g (.int n) = toString n := rfl

@[simp] theorem keyText_str (s : String) : keyText g (.str s) = "\"" ++ s ++ "\"" := rfl

/-- Null, truth values, integers and texts. -/
inductive IsPlain : Value → Prop
  | null : IsPlain .null
  | bool (b : Bool) : IsPlain (.bool b)
  | int (n : Int) : IsPlain (.int n)
  | str (s : String) : IsPlain (.str s)

/-- The text of an integer has digits and a sign only. -/
theorem text_int_ne {n : Int} {s : String} {c : Char} (member : c ∈ s.toList) (unsigned : c ≠ '-')
    (other : c.isDigit = false) : toString n ≠ s := by
  have digits {m : Nat} : c ∉ (Nat.repr m).toList := by
    intro member
    rw [← Nat.toString_eq_repr, Nat.toString_eq_ofList_toDigits, String.toList_ofList] at member
    have digit := Nat.isDigit_of_mem_toDigits (by decide) (by decide) member
    rw [other] at digit
    cases digit
  rintro rfl
  rw [Int.toString_eq_repr] at member
  cases n with
  | ofNat m => exact digits member
  | negSucc m =>
    rw [Int.repr, String.toList_append, List.mem_append] at member
    exact member.elim (fun sign => unsigned (by simpa using sign)) digits

/-- Plain keys are written differently if they are different. -/
theorem keyText_injective {a b : Value} (plain : a.IsPlain) (plain' : b.IsPlain)
    (same : a.keyText g = b.keyText g) : a = b := by
  have none (n : Int) : toString n ≠ "None" := text_int_ne (c := 'N') (by decide) (by decide) rfl
  have truth (n : Int) (b : Bool) : toString n ≠ if b then "True" else "False" := by
    cases b
    · exact text_int_ne (c := 'F') (by decide) (by decide) rfl
    · exact text_int_ne (c := 'T') (by decide) (by decide) rfl
  have quote (n : Int) (s : String) : toString n ≠ "\"" ++ s ++ "\"" :=
    text_int_ne (c := '"') (by simp) (by decide) rfl
  have unquoted {s t : String} (same : "\"" ++ s ++ "\"" = t) : '"' ∈ t.toList := by
    simp [← same]
  cases plain <;> cases plain' <;>
    simp only [keyText_null, keyText_bool, keyText_int, keyText_str] at same
  case int.int n m =>
    rw [Int.toString_eq_repr, Int.toString_eq_repr] at same
    exact congrArg Value.int (Int.repr_injective same)
  case int.null n => exact absurd same (none n)
  case null.int n => exact absurd same.symm (none n)
  case int.bool n b => exact absurd same (truth n b)
  case bool.int b n => exact absurd same.symm (truth n b)
  case int.str n s => exact absurd same (quote n s)
  case str.int s n => exact absurd same.symm (quote n s)
  case str.str s t => simpa using same
  case str.null s => exact absurd (unquoted same) (by decide)
  case null.str s => exact absurd (unquoted same.symm) (by decide)
  case str.bool s b => cases b <;> exact absurd (unquoted same) (by decide)
  case bool.str b s => cases b <;> exact absurd (unquoted same.symm) (by decide)
  case null.null => rfl
  case null.bool b => cases b <;> simp at same
  case bool.null b => cases b <;> simp at same
  case bool.bool b c => cases b <;> cases c <;> simp at same ⊢

end Value

namespace Segment

theorem name_ofKey (g : ObjectGraph) (key : Value) :
    (ofKey g key).name = "[" ++ key.keyText g ++ "]" := by
  cases key with
  | str s => exact String.toList_inj.mp (by simp [ofKey, name, Value.keyText])
  | _ => rfl

/-- Different plain keys have different names. -/
theorem nodup_names_of_isPlain {keys : List Value} (plain : ∀ key ∈ keys, key.IsPlain)
    (apart : keys.Nodup) : (keys.map fun key => (ofKey g key).name).Nodup := by
  refine apart.map_on fun a ha b hb same => ?_
  rw [name_ofKey, name_ofKey] at same
  exact Value.keyText_injective (plain a ha) (plain b hb) (by simpa using same)

end Segment

/-- What tells the step to an entry apart. -/
def StepKey.ofEntry (g : ObjectGraph) (key : Value) : StepKey :=
  { path := { target := .ofKey g key } }

theorem Navigation.keys_onKeys (keys : List Value) :
    onKeys.keys g { target := .this } keys = keys.map (.ofEntry g) := rfl

/-- Steps to entries are one step if the keys have one name. -/
theorem StepKey.same_ofEntry (a b : Value) :
    (ofEntry g a).same g (ofEntry g b) =
      ((Segment.ofKey g a).name == (Segment.ofKey g b).name) := by
  obtain ⟨name, entered⟩ := Segment.exists_ofKey_eq g a
  obtain ⟨name', entered'⟩ := Segment.exists_ofKey_eq g b
  simp [ofEntry, same, Path.sameKey, Path.numbers, entered, entered', Segment.sameKey,
    Segment.eqBy, Segment.name, Value.sameItems]

namespace Draft

/-- The first steps of a draft, each to the next position. -/
def stepsOf (keys : List StepKey) : List Deed := keys.zipIdx.map fun entry => .step entry.1 entry.2

theorem stepsOf_snoc (keys : List StepKey) (key : StepKey) :
    stepsOf (keys ++ [key]) = stepsOf keys ++ [.step key keys.length] := by
  simp [stepsOf, List.zipIdx_append]

@[simp] theorem constraintsOf_stepsOf (keys : List StepKey) :
    constraintsOf (stepsOf keys) = [] := by
  induction keys using List.reverseRecOn with
  | nil => rfl
  | append_singleton keys key ih => rw [stepsOf_snoc, constraintsOf_snoc, ih]; rfl

@[simp] theorem validationsOf_stepsOf (keys : List StepKey) :
    validationsOf (stepsOf keys) = [] := by
  induction keys using List.reverseRecOn with
  | nil => rfl
  | append_singleton keys key ih => rw [stepsOf_snoc, validationsOf_snoc, ih]; rfl

@[simp] theorem stopsOf_stepsOf (initially : Bool) (keys : List StepKey) :
    stopsOf initially (stepsOf keys) = initially := by
  induction keys using List.reverseRecOn with
  | nil => rfl
  | append_singleton keys key ih => rw [stepsOf_snoc, stopsOf_snoc, ih]; rfl

/-- Keys that are pairwise apart are all used. -/
theorem keysOf_stepsOf {keys : List StepKey}
    (apart : keys.Pairwise fun a b => a.same g b = false) : keysOf g (stepsOf keys) = keys := by
  induction keys using List.reverseRecOn with
  | nil => rfl
  | append_singleton keys key ih =>
    obtain ⟨before, -, new⟩ := List.pairwise_append.mp apart
    have unused : keys.any (·.same g key) = false := by simpa using new
    rw [stepsOf_snoc, keysOf_snoc, ih before, Deed.keys, unused, if_neg Bool.false_ne_true]

end Draft

/-- The fault was raised by rules that were performed on a draft of this workshop or a later one. -/
def Workshop.Raises (g : ObjectGraph) (body : List Rule) (shop : Workshop Logbook) (fault : Fault) :
    Prop :=
  ∃ part start, shop.Grows g start ∧ start.Has part ∧
    ((performAll body part).runOn g start).1 = .error fault

/-- A step of a draft leads to another, on which rules were performed before now. -/
structure Workshop.Entered (g : ObjectGraph) (body : List Rule) (address : Address)
    (shop : Workshop Logbook) (key : StepKey) (part : Address) : Prop where
  logged : ∃ position, part = { address with positions := address.positions ++ [position] } ∧
    (address, .step key position) ∈ shop.deeds
  performed : ∃ start filled, (performAll body part).runOn g start = (.ok (), filled) ∧
    filled.Grows g shop

theorem Workshop.Entered.later {key : StepKey} {part : Address} {last : Workshop Logbook}
    (h : shop.Entered g body address key part) (grows : shop.Grows g last) :
    last.Entered g body address key part where
  logged := h.logged.imp fun _ ⟨at_, logged⟩ => ⟨at_, grows.logbook.subset logged⟩
  performed :=
    let ⟨start, filled, performed, grows'⟩ := h.performed
    ⟨start, filled, performed, grows'.trans grows⟩

/-- No step of a draft is written like the step to the entry of a key but leads elsewhere. -/
def Draft.WritesApart (g : ObjectGraph) (draft : Draft) (key : Value) : Prop :=
  ∀ used ∈ draft.nested.map (·.1), used.same g (.ofEntry g key) = true → used = .ofEntry g key

/-- A draft is built to a group that checks the entry of a key as it was declared on another draft,
on which rules were performed. -/
structure Workshop.ChecksEntry (g : ObjectGraph) (body : List Rule) (address : Address)
    (shop : Workshop Logbook) (key : Value) (part : Address) : Prop where
  performed : ∃ start filled, (performAll body part).runOn g start = (.ok (), filled) ∧
    filled.Grows g shop
  stands : (shop.draft address).WritesApart g key →
    ∃ s : Surroundings, s.anyOf = (shop.draft address).anyOf ∧ (shop.draft address).build =
      s.around (Validation.entryStep g (key, (shop.draft part).build))
  holds : (shop.draft address).WritesApart g key → (shop.draft address).anyOf = false →
    key.isHashable g = true →
      (shop.draft address).build.HoldsEntryTo g key (shop.draft part).build

theorem Workshop.Entered.checksEntry {key : Value} {part : Address}
    (h : shop.Entered g body address (.ofEntry g key) part) (orderly : shop.Orderly g)
    (has : shop.Has address) : shop.ChecksEntry g body address key part := by
  obtain ⟨⟨position, rfl, logged⟩, performed⟩ := h
  obtain ⟨s, used, kind, member, same, -, built⟩ := step_stands has orderly logged
  have stands (apart : (shop.draft address).WritesApart g key) :
      (shop.draft address).build = s.around (Validation.entryStep g (key, (shop.draft
        { address with positions := address.positions ++ [position] }).build)) := by
    rw [built, apart used member same]
    rfl
  refine ⟨performed, fun apart => ⟨s, kind, stands apart⟩, fun apart allOf hashable => ?_⟩
  rw [stands apart, Surroundings.around, kind, allOf]
  exact Validation.entryStep_holds hashable

/-- For one key after the other a new draft is entered and the rules are performed on it, once. -/
inductive PerformedEach (g : ObjectGraph) (body : List Rule) (address : Address) (anyOf : Bool) :
    List StepKey → List Address → Workshop Logbook → Workshop Logbook → Prop
  | done (shop : Workshop Logbook) : PerformedEach g body address anyOf [] [] shop shop
  | next {key : StepKey} {keys : List StepKey} {part : Address} {parts : List Address}
      {shop start filled after : Workshop Logbook} :
      (Declaring.enter address key).runOn g shop = (.ok part, start) →
      start.draft part = .empty anyOf →
      (performAll body part).runOn g start = (.ok (), filled) →
      PerformedEach g body address anyOf keys parts filled after →
      PerformedEach g body address anyOf (key :: keys) (part :: parts) shop after

theorem PerformedEach.length_eq {keys : List StepKey} {parts : List Address} {anyOf : Bool}
    {after : Workshop Logbook} (h : PerformedEach g body address anyOf keys parts shop after) :
    parts.length = keys.length := by
  induction h with
  | done => rfl
  | next _ _ _ _ ih => rw [List.length_cons, List.length_cons, ih]

/-- What drafts that are entered and filled leave of a workshop. -/
theorem PerformedEach.grows {keys : List StepKey} {parts : List Address} {anyOf : Bool}
    {after : Workshop Logbook} (h : PerformedEach g body address anyOf keys parts shop after)
    (sound : shop.Sound g) (has : shop.Has address) : after.Sound g ∧ shop.Grows g after := by
  induction h with
  | done shop => exact ⟨sound, .refl shop⟩
  | @next key keys part parts shop start filled after entered _ performed _ ih =>
    obtain ⟨sound, grows, comes⟩ := Declaring.enter_keeps sound has key
    rw [entered] at sound grows comes
    obtain ⟨sound', grows', -⟩ := performAll_safe body start part sound (comes part rfl)
    rw [performed] at sound' grows'
    obtain ⟨kept, later⟩ := ih sound' ((grows.trans grows').has _ has)
    exact ⟨kept, (grows.trans grows').trans later⟩

/-- The rules raise a fault on a new draft, after they were performed on others. -/
inductive RaisedAfter (g : ObjectGraph) (body : List Rule) (address : Address) (anyOf : Bool)
    (shop : Workshop Logbook) (fault : Fault) : Prop
  | intro {keys : List StepKey} {parts : List Address} {mid start : Workshop Logbook}
      {key : StepKey}
      {part : Address} :
      PerformedEach g body address anyOf keys parts shop mid →
      (Declaring.enter address key).runOn g mid = (.ok part, start) →
      start.draft part = .empty anyOf →
      ((performAll body part).runOn g start).1 = .error fault →
      RaisedAfter g body address anyOf shop fault

theorem RaisedAfter.raises {anyOf : Bool} {fault : Fault}
    (h : RaisedAfter g body address anyOf shop fault) (sound : shop.Sound g)
    (has : shop.Has address) : shop.Raises g body fault := by
  obtain ⟨each, entered, -, raised⟩ := h
  obtain ⟨sound', grows⟩ := each.grows sound has
  obtain ⟨-, grows', comes⟩ := Declaring.enter_keeps sound' (grows.has _ has) _
  rw [entered] at grows' comes
  exact ⟨_, _, grows.trans grows', comes _ rfl, raised⟩

namespace Declaring

variable {keys : List StepKey} {parts : List Address} {after : Workshop Logbook}

/-- Each of the drafts that are entered is the one that the logbook says, and the rules are
performed on it. -/
theorem enterEach_entered (body : List Rule) (sound : shop.Sound g) (has : shop.Has address)
    (keys : List StepKey) :
    (enterEach address (performAll body) keys).Keeps g shop fun parts after =>
      List.Forall₂ (after.Entered g body address) keys parts := by
  induction keys generalizing shop with
  | nil => exact .of_pure sound .nil
  | cons key keys ih =>
    have entered : (enter address key).Keeps g shop fun part after => after.Has part ∧
        ∃ position, part = { address with positions := address.positions ++ [position] } ∧
          (address, .step key position) ∈ after.deeds := by
      refine (enter_keeps sound has key).safe.of_ran fun part after ran => ?_
      have there := ((enter_keeps sound has key).ran ran).2.2
      obtain ⟨-, rfl, rfl⟩ := enter_ran ran
      exact ⟨there, _, rfl, by simp⟩
    refine entered.bind fun part start sound grows ⟨there, position, at_, logged⟩ => ?_
    have fills : (performAll body part).Keeps g start fun _ filled =>
        (performAll body part).runOn g start = (.ok (), filled) :=
      (performAll_safe body start part sound there).of_ran fun _ _ ran => ran
    refine fills.bind fun _ filled sound grows' performed => ?_
    refine (ih sound ((grows.trans grows').has _ has)).bind fun parts last sound grows'' rest => ?_
    refine .of_pure sound (.cons ⟨⟨position, at_, ?_⟩, start, filled, performed, grows''⟩ rest)
    exact (grows'.trans grows'').logbook.subset logged

/-- Entering drafts by steps whose selections can be kept raises what their rules raise. -/
theorem enterEach_raised (hashable : ∀ key ∈ keys, Value.areHashable g key.selection = true)
    (sound : shop.Sound g) (has : shop.Has address) {fault : Fault}
    (ran : (enterEach address (performAll body) keys).runOn g shop = (.error fault, after)) :
    shop.Raises g body fault := by
  induction keys generalizing shop with
  | nil => cases ran
  | cons key keys ih =>
    obtain ⟨first, others⟩ := List.forall_mem_cons.mp hashable
    obtain ⟨part, start, entered⟩ :
        ∃ part start, (enter address key).runOn g shop = (.ok part, start) :=
      ⟨_, _, runOn_enter first address shop⟩
    obtain ⟨sound, grows, comes⟩ := enter_keeps sound has key
    rw [entered] at sound grows comes
    have there : start.Has part := comes part rfl
    rw [enterEach, runOn_bind, entered] at ran
    rcases runOn_bind_error ran with raised | ⟨_, filled, performed, ran⟩
    · exact ⟨part, start, grows, there, by rw [raised]⟩
    · obtain ⟨sound', grows', -⟩ := performAll_safe body start part sound there
      rw [performed] at sound' grows'
      rcases runOn_bind_error ran with raised | ⟨_, _, _, ended⟩
      · obtain ⟨place, begun, grows'', found, faults⟩ :=
          ih others sound' ((grows.trans grows').has _ has) raised
        exact ⟨place, begun, (grows.trans grows').trans grows'', found, faults⟩
      · cases ended

/-- A navigation that starts from the value itself. -/
inductive FromHere (navigation : Navigation) : Option PathSpec → Prop
  | stays : navigation.staysInPlace = true → FromHere navigation none
  | leads : navigation.staysInPlace = false → FromHere navigation (some (.segment .this))

/-- What a navigation hands back of the drafts that it entered. -/
def handedBack : Navigation → List Address → Product
  | .onIndices, parts => .drafts parts
  | .onKeys, parts => .drafts parts
  | _, part :: _ => .draft part
  | _, [] => .nothing

theorem navigate_eq (body : List Rule) {navigation : Navigation} {path : Option PathSpec}
    (here : FromHere navigation path) (takes : navigation.takesSelection = true)
    (selection : List Value) (names : List String) (address : Address) :
    ((Rule.navigate navigation path selection true body names).perform address :
        Declaring Logbook Product) =
      (do
        let g ← read
        let parts ← enterEach address (performAll body)
          (navigation.keys g { target := .this } selection)
        (names.zip parts).forM fun (name, part) => nameAddress name part
        pure (handedBack navigation parts)) := by
  have hands (way : Navigation) (parts : List Address) : (match way, parts with
      | .onIndices, parts => pure (.drafts parts)
      | .onKeys, parts => pure (.drafts parts)
      | _, part :: _ => pure (.draft part)
      | _, [] => pure .nothing : Declaring Logbook Product) = pure (handedBack way parts) := by
    cases way <;> cases parts <;> rfl
  rw [Rule.perform.eq_def]
  cases here with
  | stays inPlace =>
    simp only [pure_bind, navigate, startOf, inPlace, Bool.true_or, if_true, takes, Bool.not_true,
      Bool.and_false, Bool.false_eq_true, if_false]
    exact bind_congr fun g => bind_congr fun parts => bind_congr fun _ => hands navigation parts
  | leads away =>
    simp only [PathSpec.resolve, pure_bind, navigate, startOf, away, takes, Bool.not_true,
      Bool.and_false, Bool.false_eq_true, if_false]
    exact bind_congr fun g => bind_congr fun parts => bind_congr fun _ => hands navigation parts

/-- Navigating from the value enters a draft for each of the steps, hands drafts back and may give
them names. -/
theorem navigate_ran (g : ObjectGraph) (body : List Rule) (navigation : Navigation)
    {path : Option PathSpec} (here : FromHere navigation path)
    (takes : navigation.takesSelection = true) (selection : List Value) (names : List String)
    (address : Address) (shop : Workshop Logbook) :
    let (entered, filled) := (enterEach address (performAll body)
      (navigation.keys g { target := .this } selection)).runOn g shop
    ∃ addresses,
      ((Rule.navigate navigation path selection true body names).perform address).runOn g shop =
        (entered.map (handedBack navigation), { filled with addresses }) := by
  rw [navigate_eq body here takes, runOn_bind, runOn_read]
  dsimp only
  rw [runOn_bind]
  rcases (enterEach address (performAll body)
    (navigation.keys g { target := .this } selection)).runOn g shop with ⟨fault | parts, filled⟩
  · exact ⟨filled.addresses, rfl⟩
  · refine ⟨(names.zip parts).reverse ++ filled.addresses, ?_⟩
    dsimp only
    rw [runOn_bind, runOn_nameAddresses]
    rfl

end Declaring

open Declaring

namespace Workshop.Holds

variable {root : Nat} {anyOf short : Bool}

/-- A step that is new leads to an empty draft behind the others. -/
theorem enter {own : List Draft.Deed} (h : shop.Holds g root anyOf short own) {key : StepKey}
    (hashable : Value.areHashable g key.selection = true)
    (new : ∀ used ∈ Draft.keysOf g own, used.same g key = false) :
    let position := (Draft.keysOf g own).length
    let part : Address := { root, positions := [position] }
    ∃ start, (Declaring.enter { root } key).runOn g shop = (.ok part, start) ∧ start.Has part ∧
      start.draft part = .empty anyOf ∧
      start.Holds g root anyOf short (own ++ [.step key position]) := by
  obtain ⟨draft, held, kind, -⟩ := id h.begun
  have here : shop.draft { root } = draft := by simp [Workshop.draft, held, Draft.at?]
  have keys : draft.nested.map (·.1) = Draft.keysOf g own := by
    rw [← here, h.orderly.sound.keys_eq h.has, h.own_eq]
  have unused : draft.find? g key = none := by
    refine List.findIdx?_eq_none_iff.mpr fun entry member => ?_
    exact new _ (keys ▸ List.mem_map_of_mem member)
  have counted : draft.nested.length = (Draft.keysOf g own).length := by
    rw [← keys, List.length_map]
  have at_ : positionOf g key (shop.draft { root }) = (Draft.keysOf g own).length := by
    rw [here, positionOf, unused, Option.getD_none, counted]
  have fits := fits_step h.orderly.sound h.has key
  have there := has_step (g := g) h.has key
  change (Draft.Deed.step _ (positionOf g _ _)).Fits g _ _ at fits
  change Has (shop.declared g _ (.step _ (positionOf g _ _)))
    { root, positions := [] ++ [positionOf g _ _] } at there
  rw [at_] at fits there
  refine ⟨_, by rw [runOn_enter hashable, at_]; rfl, there, ?_, h.declared _ fits⟩
  simp [Workshop.draft, Workshop.declared, held, Draft.modifyAt, Draft.after_step, unused,
    ← counted, Draft.at?, kind]

/-- Steps that are pairwise apart lead to one draft after the other, until the rules raise a fault
on one. -/
theorem enterEach {used keys : List StepKey}
    (h : shop.Holds g root anyOf short (Draft.stepsOf used))
    (hashable : ∀ key ∈ keys, Value.areHashable g key.selection = true)
    (apart : (used ++ keys).Pairwise fun a b => a.same g b = false)
    {result : Except Fault (List Address)} {after : Workshop Logbook}
    (ran : (Declaring.enterEach { root } (performAll body) keys).runOn g shop = (result, after)) :
    match result with
    | .ok parts => PerformedEach g body { root } anyOf keys parts shop after ∧
        parts = (keys.zipIdx used.length).map (fun entry => { root, positions := [entry.2] }) ∧
        after.Holds g root anyOf short (Draft.stepsOf (used ++ keys))
    | .error fault => RaisedAfter g body { root } anyOf shop fault := by
  induction keys generalizing shop used result with
  | nil =>
    cases ran
    exact ⟨.done _, rfl, by rwa [List.append_nil]⟩
  | cons key keys ih =>
    obtain ⟨first, others⟩ := List.forall_mem_cons.mp hashable
    obtain ⟨before, -, behind⟩ := List.pairwise_append.mp apart
    have all := Draft.keysOf_stepsOf before
    obtain ⟨start, entered, there, empty, holds⟩ := h.enter first fun other member =>
      behind other (all ▸ member) key List.mem_cons_self
    rw [all] at entered there empty holds
    rw [← Draft.stepsOf_snoc] at holds
    have kept := holds.elsewhere (performAll_safe body start _ holds.orderly.sound there)
      (performAll_silent body start _ holds.hides fun covered => nomatch covered.2)
    rw [Declaring.enterEach, runOn_bind, entered] at ran
    dsimp only at ran
    rw [runOn_bind] at ran
    rcases performed : (performAll body { root, positions := [used.length] }).runOn g start with
      ⟨fault | _, filled⟩ <;> rw [performed] at ran kept
    · cases ran
      exact .intro (.done shop) entered empty (by rw [performed])
    · dsimp only at ran
      rw [runOn_bind] at ran
      rcases entered' : (Declaring.enterEach { root } (performAll body) keys).runOn g filled with
        ⟨fault | parts, last⟩ <;> rw [entered'] at ran <;> cases ran
      · obtain ⟨each, entered'', empty', raised⟩ :=
          ih kept others (by rwa [List.append_cons] at apart) entered'
        exact .intro (.next entered empty performed each) entered'' empty' raised
      · obtain ⟨each, rfl, holds⟩ := ih kept others (by rwa [List.append_cons] at apart) entered'
        refine ⟨.next entered empty performed each, by simp, ?_⟩
        rwa [List.append_cons]

end Workshop.Holds

/-- A key that is found has the name of the key that it is found for. -/
theorem StepKey.name_eq_of_same {a b : StepKey} (h : a.same g b = true) :
    a.path.target.name = b.path.target.name := by
  simp only [same, Path.sameKey, Segment.sameKey, Bool.and_eq_true, beq_iff_eq] at h
  exact h.1.1.1.2.2

/-- Steps of different names lead to different drafts. -/
theorem nodup_of_entered {keys : List StepKey} {parts : List Address} (sound : shop.Sound g)
    (entered : List.Forall₂ (shop.Entered g body address) keys parts)
    (apart : (keys.map (·.path.target.name)).Nodup) : parts.Nodup := by
  induction entered with
  | nil => exact .nil
  | @cons key part keys parts first rest ih =>
    obtain ⟨new, others⟩ := List.nodup_cons.mp apart
    refine List.nodup_cons.mpr ⟨fun member => new ?_, ih others⟩
    obtain ⟨i, inside, is⟩ := List.mem_iff_getElem.mp member
    obtain ⟨position, at_, logged⟩ := first.logged
    obtain ⟨position', at_', logged'⟩ := (rest.get (rest.length_eq ▸ inside) inside).logged
    obtain rfl : position' = position := by
      simp only [List.get_eq_getElem, is, at_, Address.mk.injEq, List.append_cancel_left_eq,
        List.cons.injEq] at at_'
      exact at_'.2.1.symm
    obtain ⟨_, same, -⟩ := List.findIdx?_eq_some_iff_getElem.mp (sound.findIdx?_keysOf logged)
    obtain ⟨_, same', -⟩ := List.findIdx?_eq_some_iff_getElem.mp (sound.findIdx?_keysOf logged')
    dsimp only
    rw [← StepKey.name_eq_of_same same, StepKey.name_eq_of_same same']
    exact List.mem_map_of_mem (f := fun key : StepKey => key.path.target.name) (List.get_mem ..)

/-- Rules for the entries of keys are performed on different drafts, and stay where they are. -/
theorem onKeys_stands (orderly : shop.Orderly g) (has : shop.Has address) {keys : List Value}
    (names : List String) (apart : (keys.map fun key => (Segment.ofKey g key).name).Nodup)
    {result : Except Fault Product} {after : Workshop Logbook} :
    ((Rule.navigate .onKeys none keys true body names).perform address).runOn g shop =
      (result, after) →
    match result with
    | .ok product => ∃ parts : List Address, product = .drafts parts ∧
        parts.length = keys.length ∧ parts.Nodup ∧ ∀ last, after.Continues g last →
          List.Forall₂ (last.ChecksEntry g body address) keys parts
    | .error fault => shop.Raises g body fault := by
  intro ran
  have orderly' := orderly.perform (.navigate .onKeys none keys true body names) has
  rw [ran] at orderly'
  have performs := navigate_ran g body .onKeys (.stays rfl) rfl keys names address shop
  rw [Navigation.keys_onKeys] at performs
  have enters := enterEach_entered body orderly.sound has (keys.map (.ofEntry g))
  rcases entered : (enterEach address (performAll body) (keys.map (.ofEntry g))).runOn g shop with
    ⟨fault | parts, filled⟩ <;> rw [entered] at performs <;>
    obtain ⟨addresses, performed⟩ := performs <;> cases performed.symm.trans ran
  · exact enterEach_raised (by simp [StepKey.ofEntry, Value.areHashable]) orderly.sound has entered
  · obtain ⟨sound, grows, comes⟩ := enters
    rw [entered] at sound grows comes
    have each := comes parts rfl
    have differ : parts.Nodup :=
      nodup_of_entered sound each (by simpa [StepKey.ofEntry, Function.comp_def] using apart)
    refine ⟨parts, rfl, by simpa using each.length_eq.symm, differ, fun last later => ?_⟩
    obtain ⟨ordered, named, -⟩ := later.kept orderly'
    have same : filled.Grows g { filled with addresses } := .of_same rfl rfl
    have grows' := same.trans named
    exact (List.forall₂_map_left_iff.mp each).imp fun key part entered =>
      (entered.later grows').checksEntry ordered (grows'.has _ (grows.has _ has))

/-- A single rule on a new draft. -/
theorem runOn_built_single (anyOf short : Bool) (rule : Rule) (shop : Workshop Logbook) :
    let root : Address := { root := shop.drafts.length }
    (built anyOf short [rule]).runOn g shop =
      match (rule.perform root).runOn g
        { shop with drafts := shop.drafts ++ [{ anyOf, shortCircuit := short }] } with
      | (.ok _, after) => (.ok (after.draft root).build, after)
      | (.error fault, after) => (.error fault, after) := by
  intro root
  rw [built, runOn_bind, runOn_addDraft]
  dsimp only
  rw [runOn_bind, performAll, runOn_bind]
  rcases (rule.perform root).runOn g
    { shop with drafts := shop.drafts ++ [{ anyOf, shortCircuit := short }] } with
    ⟨fault | product, after⟩
  · rfl
  · dsimp only
    rw [performAll, runOn_pure]
    exact runOn_build ..

/-- What a navigation from the value is built to on a new draft, if its steps are pairwise apart. -/
theorem built_navigate (orderly : shop.Orderly g) (navigation : Navigation)
    {path : Option PathSpec} (here : FromHere navigation path)
    (takes : navigation.takesSelection = true) {selection : List Value} (names : List String)
    (hashable : ∀ key ∈ navigation.keys g { target := .this } selection,
      Value.areHashable g key.selection = true)
    (apart : (navigation.keys g { target := .this } selection).Pairwise fun a b =>
      a.same g b = false) {anyOf short : Bool}
    {result : Except Fault Validation} {after : Workshop Logbook}
    (ran : (built anyOf short [.navigate navigation path selection true body names]).runOn g shop =
      (result, after)) :
    let keys := navigation.keys g { target := .this } selection
    let address : Address := { root := shop.drafts.length }
    let begun : Workshop Logbook :=
      { shop with drafts := shop.drafts ++ [{ anyOf, shortCircuit := short }] }
    match result with
    | .ok v => ∃ parts filled, PerformedEach g body address anyOf keys parts begun filled ∧
        v = .object [] ((keys.zip (parts.map fun part => (filled.draft part).build)).map fun entry =>
          entry.1.wrap entry.2) anyOf short
    | .error fault => RaisedAfter g body address anyOf begun fault := by
  intro keys address begun
  have holds : begun.Holds g shop.drafts.length anyOf short (Draft.stepsOf []) :=
    orderly.addDraft anyOf short
  have performs := navigate_ran g body navigation here takes selection names address begun
  rw [runOn_built_single] at ran
  rcases entered : (enterEach address (performAll body) keys).runOn g begun with
    ⟨fault | parts, filled⟩ <;> rw [entered] at performs <;>
    obtain ⟨addresses, performed⟩ := performs <;> rw [performed] at ran <;> cases ran
  · exact holds.enterEach hashable apart entered
  · obtain ⟨each, at_, ended⟩ := holds.enterEach hashable apart entered
    refine ⟨parts, filled, each, ?_⟩
    change (filled.draft address).build = _
    rw [ended.build_eq, List.nil_append, Draft.keysOf_stepsOf apart, Draft.constraintsOf_stepsOf,
      Draft.validationsOf_stepsOf, Draft.stopsOf_stepsOf, List.append_nil, List.map_nil, at_]
    congr 1
    exact List.ext_getElem (by simp [keys]) fun i _ _ => by simp [keys]

/-- What rules for the entries of keys are built to on a new draft. -/
theorem built_onKeys (orderly : shop.Orderly g) {keys : List Value} (names : List String)
    (apart : (keys.map fun key => (Segment.ofKey g key).name).Nodup) {anyOf short : Bool}
    {result : Except Fault Validation} {after : Workshop Logbook}
    (ran : (built anyOf short [.navigate .onKeys none keys true body names]).runOn g shop =
      (result, after)) :
    let address : Address := { root := shop.drafts.length }
    let begun : Workshop Logbook :=
      { shop with drafts := shop.drafts ++ [{ anyOf, shortCircuit := short }] }
    match result with
    | .ok v => ∃ parts filled,
        PerformedEach g body address anyOf (keys.map (.ofEntry g)) parts begun filled ∧
        v = .object [] ((keys.zip (parts.map fun part => (filled.draft part).build)).map
          (Validation.entryStep g)) anyOf short
    | .error fault => shop.Raises g body fault := by
  intro address begun
  have apart' : (keys.map (StepKey.ofEntry g)).Pairwise fun a b => a.same g b = false := by
    rw [List.pairwise_map]
    refine (List.pairwise_map.mp apart).imp fun different => ?_
    rw [StepKey.same_ofEntry]
    exact beq_eq_false_iff_ne.mpr different
  have builds := built_navigate orderly .onKeys (.stays rfl) rfl names
    (fun key member => by obtain ⟨_, -, rfl⟩ := List.mem_map.mp member; rfl) apart' ran
  cases result with
  | error fault =>
    have holds := orderly.addDraft anyOf short
    obtain ⟨part, start, grows, there, raised⟩ := builds.raises holds.orderly.sound holds.has
    exact ⟨part, start, (Workshop.grows_addDraft _).trans grows, there, raised⟩
  | ok v =>
    obtain ⟨parts, filled, each, rfl⟩ := builds
    refine ⟨parts, filled, each, ?_⟩
    rw [Navigation.keys_onKeys, List.zip_map_left, List.map_map]
    rfl

/-- Rules are declared for the entries of keys that are written differently.

On any draft, whatever was declared there before, navigating to the keys hands back as many drafts
as there are keys, no two the same, unless the rules themselves raise a fault.  Whatever is declared
afterwards, the checks that the draft is built to include, for each key, the step to its entry with
what was declared on the draft that was handed back for it; where all checks have to pass, no map
is accepted that lacks one of the keys or has an entry for it that these rules reject.

On a new draft of which all checks have to pass, one empty draft after the other is entered and the
rules are performed on it once.  If nothing else is declared, what is built checks the entry of each
key with the rules of its own draft, once and below the step to the key, and no other entry; it
reports the leaves that are left there, and accepts if all entries were accepted.  If the draft
stops at the first failure, the entries behind a rejected one are left alone.  A key that the map
does not have raises a fault. -/
theorem keys_checked_separately (orderly : shop.Orderly g) {keys : List Value} (body : List Rule)
    (names : List String) (apart : (keys.map fun key => (Segment.ofKey g key).name).Nodup) :
    let rule := Rule.navigate .onKeys none keys true body names
    (∀ address result after, shop.Has address →
      (rule.perform address).runOn g shop.erased = (result, after) →
      match result with
      | .ok product => ∃ parts : List Address, product = .drafts parts ∧
          parts.length = keys.length ∧ parts.Nodup ∧ ∀ last, after.Continues g last →
            ∃ logged : Workshop Logbook, logged.erased = last ∧
              List.Forall₂ (logged.ChecksEntry g body address) keys parts
      | .error fault => shop.Raises g body fault) ∧
    ∀ short result after, (built false short [rule]).runOn g shop.erased = (result, after) →
      let address : Address := { root := shop.drafts.length }
      let begun : Workshop Logbook :=
        { shop with drafts := shop.drafts ++ [{ anyOf := false, shortCircuit := short }] }
      match result with
      | .error fault => shop.Raises g body fault
      | .ok v => ∃ parts filled,
          PerformedEach g body address false (keys.map (.ofEntry g)) parts begun filled ∧
          let rules := keys.zip (parts.map fun part => (filled.draft part).build)
          v = .object [] (rules.map (Validation.entryStep g)) false short ∧
          ∀ pairs, (∀ key ∈ keys, key.isHashable g = true) → ∀ run : Run, run.stack = {} →
            let expand := expandModel (g.expansions (.map pairs) run.store.sources)
            ∃ ending after,
              EntriesChecked g expand pairs short [] rules (v.started g (.map pairs) run) ending
                after ∧
              ending.Reported g v (.map pairs) run ∧
              ((∀ part ∈ rules, ∀ value, Value.lookupPair g pairs part.1 = some value →
                  part.2.ReturnsBelow g expand (.entry part.1 value) (.ofKey g part.1)) →
                ((∀ key ∈ keys, (Value.lookupPair g pairs key).isSome = true) →
                  ∃ passed leaves, ending = .complete passed leaves) ∧
                ((∃ key ∈ keys, Value.lookupPair g pairs key = none) →
                  (∃ key ∈ keys, Value.lookupPair g pairs key = none ∧
                    ∃ turn, ending = .stopped turn (some (.noMapping (key.quoted g)))) ∨
                  short = true ∧ ∃ leaves, ending = .complete false leaves)) := by
  intro rule
  refine ⟨fun address result after has ran => ?_, fun short result after ran => ?_⟩
  · obtain ⟨ended, logged, rfl⟩ := (Rule.perform_erases Logbook g _ address).ran ran
    have stands := onKeys_stands orderly has names apart logged
    cases result with
    | error fault => exact stands
    | ok product =>
      obtain ⟨parts, is, length, nodup, checks⟩ := stands
      refine ⟨parts, is, length, nodup, fun last later => ?_⟩
      obtain ⟨last, rfl, continues⟩ := later.logged
      exact ⟨last, rfl, checks last continues⟩
  obtain ⟨ended, logged, -⟩ := (built_erases false short _).ran ran
  have builds := built_onKeys orderly names apart logged
  intro address begun
  cases result with
  | error fault => exact builds
  | ok v =>
    obtain ⟨parts, filled, each, rfl⟩ := builds
    refine ⟨parts, filled, each, rfl, fun pairs hashable run fresh => ?_⟩
    have listed : (keys.zip (parts.map fun part => (filled.draft part).build)).map (·.1) = keys :=
      List.map_fst_zip (by simp [each.length_eq])
    generalize keys.zip (parts.map fun part => (filled.draft part).build) = rules at listed ⊢
    have among (part : Value × Validation) (member : part ∈ rules) : part.1 ∈ keys :=
      listed ▸ List.mem_map_of_mem member
    obtain ⟨ending, after, checked, reported⟩ := EntriesChecked.validate pairs short
      (fun part member => hashable _ (among part member)) fresh
    refine ⟨ending, after, checked, reported, fun returns => ⟨fun held => ?_, ?_⟩⟩
    · exact checked.complete returns fun part member => held _ (among part member)
    · rintro ⟨key, member, none⟩
      obtain ⟨part, inside, rfl⟩ := List.mem_map.mp (listed.symm ▸ member)
      refine (checked.absent_raises returns ⟨part, inside, none⟩).imp_left ?_
      rintro ⟨part, member, none, raised⟩
      exact ⟨part.1, among part member, none, raised⟩

/-- Rejects every value for the want of a name. -/
def nameRequired : ValidationSpec :=
  .step .required (.segment (.property "name" Extract.nothing)) (.object [] [] false false)

/-- What a draft on which nothing else is declared than this is built to. -/
def nameRequiredBuilt : Validation :=
  .object [] [.step .required [] (.property "name" Extract.nothing) (.object [] [] false false)]
    false false

theorem nameRequiredBuilt_returnsBelow (expand : Expand) (v : Value) (target : Segment) :
    nameRequiredBuilt.ReturnsBelow g expand v target := by
  intro run below
  cases run with
  | mk stack store rulebook events observed origin =>
    cases observed <;> exact ⟨_, _, _, rfl⟩

/-- A map that has both keys is checked to the end, and one that has only the first is not. -/
theorem keys_checked_separately_of_plain :
    let keys : List Value := [.str "a", .int 1]
    ∃ v, ((built false false [.navigate .onKeys none keys true [.run nameRequired] []]).runOn {}
        {}).1 = .ok v ∧
      (∃ passed root, ((v.validate (.map [(.str "a", .null), (.int 1, .null)])).runOn {} {}).1 =
        .ok (Validation.outcomeOf (.map [(.str "a", .null), (.int 1, .null)]) passed root)) ∧
      ((v.validate (.map [(.str "a", .null)])).runOn {} {}).1 = .error (.noMapping "1") := by
  intro keys
  have orderly : Workshop.Orderly {} {} := ⟨Workshop.sound_empty {}, fun _ member => nomatch member⟩
  have plain : ∀ key ∈ keys, key.IsPlain := by
    simp only [keys, List.forall_mem_cons]
    exact ⟨.str "a", .int 1, nofun⟩
  let steps := keys.map fun key => Validation.entryStep {} (key, nameRequiredBuilt)
  have ran : ((built false false [.navigate .onKeys none keys true [.run nameRequired] []]).runOn {}
      {}).1 = .ok (.object [] steps false false) := by
    cbv
  have apart := Segment.nodup_names_of_isPlain (g := {}) plain (by simp [keys])
  obtain ⟨-, onNew⟩ := keys_checked_separately orderly [.run nameRequired] [] apart
  rcases performed : (built false false [.navigate .onKeys none keys true [.run nameRequired]
    []]).runOn {} {} with ⟨result, after⟩
  rw [performed] at ran
  cases ran
  obtain ⟨parts, filled, -, is, runs⟩ := onNew false _ after performed
  have same := (Validation.object.inj is).2.1
  generalize keys.zip (parts.map fun part => (filled.draft part).build) = rules at same runs
  have built (part : Value × Validation) (member : part ∈ rules) : part.2 = nameRequiredBuilt := by
    have step := List.mem_map_of_mem (f := Validation.entryStep {}) member
    rw [← same] at step
    obtain ⟨key, -, step⟩ := List.mem_map.mp step
    exact (Validation.step.inj step).2.2.2.symm
  have hashable : ∀ key ∈ keys, key.isHashable {} = true := by decide
  have returns (expand : Expand) (part : Value × Validation) (member : part ∈ rules) (v : Value)
      (target : Segment) : part.2.ReturnsBelow {} expand v target :=
    built part member ▸ nameRequiredBuilt_returnsBelow expand v target
  refine ⟨_, rfl, ?_, ?_⟩
  · obtain ⟨ending, -, -, reported, ends⟩ :=
      runs [(.str "a", .null), (.int 1, .null)] hashable {} rfl
    obtain ⟨passed, leaves, rfl⟩ := (ends fun part member _ _ => returns _ part member _ _).1
      (by decide)
    obtain ⟨root, -, reported⟩ := reported
    exact ⟨passed, root, reported⟩
  · obtain ⟨ending, -, -, reported, ends⟩ := runs [(.str "a", .null)] hashable {} rfl
    obtain ⟨key, member, none, turn, rfl⟩ | ⟨short, -⟩ :=
      (ends fun part member _ _ => returns _ part member _ _).2
        ⟨.int 1, by simp [keys], by decide⟩
    · simp only [keys, List.mem_cons, List.not_mem_nil, or_false] at member
      obtain rfl | rfl := member
      · exact absurd none (by decide)
      · exact reported
    · cases short

/-- Two objects that are shown alike. -/
def twins : ObjectGraph where
  objects := #[⟨"K", false, [], []⟩, ⟨"K", false, [], []⟩]

/-- Accepts entries whose value is an integer that is not negative. -/
def notNegative : Constraint where
  hint := "must not be negative"
  test := fun v => pure (match v with
    | .entry _ (.int n) => decide (0 ≤ n)
    | _ => false)

/-- Different keys that are written alike have one draft, which is filled twice, so that only the
entry of the first is checked: the map is accepted, although the rules reject the entry of the
second. -/
theorem keys_written_alike :
    let keys : List Value := [.object 0, .object 1]
    let rule :=
      Rule.navigate .onKeys none keys true [.run (.object [notNegative] [] false false)] []
    let rules : Validation := .object [notNegative] [] false false
    let v : Validation := .object []
      [Validation.entryStep twins (.object 0, .object [] [rules, rules] false false)] false false
    keys.Pairwise (fun a b => Value.same twins a b = false) ∧
      (∀ key ∈ keys, key.isHashable twins = true) ∧
      ((rule.perform { root := 0 }).runOn twins singleDraft).1 =
        .ok (.drafts [⟨0, [0]⟩, ⟨0, [0]⟩]) ∧
      ((built false false [rule]).runOn twins {}).1 = .ok v ∧
      ((v.validate (.map [(.object 0, .int 1), (.object 1, .int (-1))])).runOn twins {}).1.map
        Outcome.isAccepted = .ok true ∧
      ((rules.validate (.entry (.object 1) (.int (-1)))).runOn twins {}).1.map
        Outcome.isAccepted = .ok false := by
  refine ⟨by decide, by decide, rfl, by cbv, ?_, ?_⟩
  · cbv
  · cbv

end PathRules
