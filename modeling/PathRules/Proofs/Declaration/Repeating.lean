import PathRules.Proofs.Declaration.Keys

/-!
# Rules that repeat

Rules can be performed on several drafts, one after the other, and what they come to can depend on
what was declared before.  Rules that repeat come to the same each time; constraints that are given
no names do.
-/

namespace PathRules

variable {g : ObjectGraph} {shop : Workshop Logbook} {body : List Rule} {root : Nat}

namespace Declaring

/-- Rules that come to the same whenever they are performed on an empty draft in a place where all
checks have to pass, whatever drafts of this place they were performed on before: to one fault, or
to drafts that are built to rules of one meaning and keep it. -/
structure Repeats (g : ObjectGraph) (body : List Rule) (address : Address) (shop : Workshop Logbook)
    (outcome : Except Fault Validation) : Prop where
  ends {keys : List StepKey} {parts : List Address} {mid start : Workshop Logbook} {key : StepKey}
    {part : Address} : PerformedEach g body address false keys parts shop mid →
    (enter address key).runOn g mid = (.ok part, start) → start.draft part = .empty false →
    ((performAll body part).runOn g start).1 = outcome.map fun _ => ()
  alike {rules : Validation} {keys : List StepKey} {parts : List Address}
      {filled : Workshop Logbook} :
    outcome = .ok rules → PerformedEach g body address false keys parts shop filled →
    ∀ part ∈ parts, ∀ expand v,
      (filled.draft part).build.evaluate expand v = rules.evaluate expand v

/-- What a navigation from the value is built to on a new draft with rules that repeat. -/
theorem Repeats.navigated {outcome : Except Fault Validation} (orderly : shop.Orderly g)
    (repeats : Repeats g body { root := shop.drafts.length }
      { shop with drafts := shop.drafts ++ [.empty false] } outcome) (navigation : Navigation)
    {path : Option PathSpec} (here : FromHere navigation path)
    (takes : navigation.takesSelection = true) (selection : List Value) (names : List String)
    (nonempty : navigation.keys g { target := .this } selection ≠ [])
    (hashable : ∀ key ∈ navigation.keys g { target := .this } selection,
      Value.areHashable g key.selection = true)
    (apart : (navigation.keys g { target := .this } selection).Pairwise fun a b =>
      a.same g b = false) :
    let result := ((built false false
      [.navigate navigation path selection true body names]).runOn g shop).1
    match outcome with
    | .error fault => result = .error fault
    | .ok rules => ∃ inner : List Validation,
        inner.length = (navigation.keys g { target := .this } selection).length ∧
        (∀ w ∈ inner, ∀ expand v, w.evaluate expand v = rules.evaluate expand v) ∧
        result = .ok (.object [] (((navigation.keys g { target := .this } selection).zip inner).map
          fun entry => entry.1.wrap entry.2) false false) := by
  rcases ran : (built false false [.navigate navigation path selection true body names]).runOn g
    shop with ⟨fault | v, after⟩ <;>
    have built := built_navigate orderly navigation here takes names hashable apart ran
  · obtain ⟨each, entered, empty, raised⟩ := built
    have ended := repeats.ends each entered empty
    rw [raised] at ended
    cases outcome <;> cases ended
    rfl
  · obtain ⟨parts, filled, each, rfl⟩ := built
    cases outcome with
    | error fault =>
      -- The first draft would have been filled, where the rules raise a fault.
      generalize navigation.keys g { target := .this } selection = keys at each nonempty
      cases each with
      | done => exact absurd rfl nonempty
      | next entered empty performed =>
        have ended := repeats.ends (.done _) entered empty
        rw [performed] at ended
        cases ended
    | ok rules =>
      refine ⟨_, by simpa using each.length_eq, ?_, rfl⟩
      rintro w member
      obtain ⟨part, inside, rfl⟩ := List.mem_map.mp member
      exact repeats.alike rfl each part inside

end Declaring

open Declaring

namespace Workshop

/-- The drafts that steps of a separate draft lead to. -/
def children (shop : Workshop Logbook) (root : Nat) : List Draft :=
  (shop.drafts[root]?.map fun draft => draft.nested.map (·.2)).getD []

theorem draft_of_children {i : Nat} {child : Draft}
    (there : (shop.children root)[i]? = some child) :
    shop.draft { root, positions := [i] } = child := by
  unfold children at there
  cases held : shop.drafts[root]? with
  | none => simp [held] at there
  | some draft =>
    obtain ⟨entry, inside, rfl⟩ : ∃ entry, draft.nested[i]? = some entry ∧ entry.2 = child := by
      simpa [held] using there
    simp [Workshop.draft, held, Draft.at?, inside]

theorem Has.exists_child {i : Nat} (has : shop.Has { root, positions := [i] }) :
    (shop.children root)[i]? = some (shop.draft { root, positions := [i] }) := by
  obtain ⟨draft, held, inside⟩ := has.at?_eq
  obtain ⟨entry, there, is⟩ := Draft.at?_cons inside
  rw [← Option.some.inj is]
  simp [children, held, there]

theorem children_inside (i : Nat) (deed : Draft.Deed) :
    (shop.declared g { root, positions := [i] } deed).children root =
      (shop.children root).modify i (·.after g deed) := by
  cases held : shop.drafts[root]? with
  | none => simp [children, declared, held]
  | some draft =>
    have before : shop.children root = draft.nested.map (·.2) := by simp [children, held]
    have after : (shop.declared g { root, positions := [i] } deed).children root =
        (draft.modifyAt [i] (·.after g deed)).nested.map (·.2) := by
      simp [children, declared, held]
    rw [before, after]
    refine List.ext_getElem? fun j => ?_
    rw [List.getElem?_map, Draft.modifyAt_getElem?, List.getElem?_modify, List.getElem?_map]
    cases draft.nested[j]? with
    | none => rfl
    | some entry => by_cases here : i = j <;> simp [here, Draft.modifyAt]

theorem children_step (key : StepKey) (position : Nat) :
    shop.children root <+: (shop.declared g { root } (.step key position)).children root := by
  cases held : shop.drafts[root]? with
  | none => simp [children, declared, held]
  | some draft =>
    simp [children, declared, held, Draft.modifyAt, Draft.after_step]

/-- Entering a draft adds it behind the others, if it is new. -/
theorem entered_children {key : StepKey} {part : Address} {start : Workshop Logbook}
    (has : shop.Has { root }) (entered : (enter { root } key).runOn g shop = (.ok part, start)) :
    ∃ i, part = { root, positions := [i] } ∧ shop.children root <+: start.children root ∧
      (start.children root)[i]? = some (start.draft part) := by
  cases hashable : Value.areHashable g key.selection with
  | false =>
    rw [enter, runOn_bind, runOn_read] at entered
    simp [hashable] at entered
    cases entered
  | true =>
    cases (runOn_enter hashable { root } shop).symm.trans entered
    exact ⟨_, rfl, children_step key _, (has_step has key).exists_child⟩

end Workshop

theorem runOn_constrain (address : Address) (call : Call) (shop : Workshop Logbook) :
    (constrain address call none).runOn g shop =
      match call.constraint g with
      | .ok c => (.ok ⟨shop.next, c⟩, { shop with next := shop.next + 1 }.declared g address
          (.constraint ⟨shop.next, c⟩))
      | .error fault => (.error fault, shop) := by
  rw [constrain, runOn_bind, runOn_read]
  dsimp only
  rw [runOn_bind]
  cases call.constraint g <;> rfl

/-- The declaration of constraints that are given no names. -/
abbrev constraintRules (calls : List Call) : List Rule := calls.map fun call => .constrain call none

/-- Constraints are added to the draft, one after the other. -/
theorem performAll_constraintRules {calls : List Call} {cs : List Constraint}
    (made : calls.mapM (Call.constraint g) = .ok cs) (root i : Nat) (shop : Workshop Logbook) :
    ∃ rs : List Registered, rs.map (·.constraint) = cs ∧ ∃ after,
      (performAll (constraintRules calls) { root, positions := [i] }).runOn g shop =
        (.ok (), after) ∧
      after.children root = (shop.children root).modify i fun draft =>
        { draft with constraints := draft.constraints ++ rs } := by
  induction calls generalizing shop cs with
  | nil =>
    cases made
    have unchanged : (fun draft : Draft => { draft with constraints := draft.constraints ++ [] }) =
        id := by
      funext draft
      cases draft
      simp
    exact ⟨[], rfl, shop, rfl, by rw [unchanged, List.modify_id]⟩
  | cons call calls ih =>
    rw [List.mapM_cons] at made
    cases first : call.constraint g with
    | error fault => rw [first] at made; cases made
    | ok c =>
      cases others : calls.mapM (Call.constraint g) with
      | error fault => rw [first, others] at made; cases made
      | ok cs' =>
        rw [first, others] at made
        cases made
        let r : Registered := ⟨shop.next, c⟩
        let next := { shop with next := shop.next + 1 }.declared g { root, positions := [i] }
          (.constraint r)
        obtain ⟨rs, rfl, after, performed, filled⟩ := ih others next
        refine ⟨r :: rs, rfl, after, ?_, ?_⟩
        · rw [constraintRules, List.map_cons, performAll, Rule.perform, bind_assoc, runOn_bind,
            runOn_constrain, first]
          exact performed
        · rw [filled, Workshop.children_inside, List.modify_modify_eq]
          congr 1
          funext draft
          simp [Draft.after, Draft.addConstraint, r]

/-- A constraint that can not be made is told whatever the draft. -/
theorem performAll_constraintRules_error {calls : List Call} {fault : Fault}
    (made : calls.mapM (Call.constraint g) = .error fault) (address : Address)
    (shop : Workshop Logbook) :
    ((performAll (constraintRules calls) address).runOn g shop).1 = .error fault := by
  induction calls generalizing shop with
  | nil => cases made
  | cons call calls ih =>
    rw [constraintRules, List.map_cons, performAll, Rule.perform, bind_assoc, runOn_bind,
      runOn_constrain]
    rw [List.mapM_cons] at made
    cases first : call.constraint g with
    | error fault => rw [first] at made; cases made; rfl
    | ok c =>
      cases others : calls.mapM (Call.constraint g) with
      | error fault => rw [first, others] at made; cases made; exact ih others _
      | ok cs' => rw [first, others] at made; cases made

/-- The draft at a position of another is built to a group with these constraints. -/
def Workshop.Constrained (cs : List Constraint) (root : Nat) (shop : Workshop Logbook) (i : Nat) :
    Prop :=
  ∃ draft, (shop.children root)[i]? = some draft ∧ draft.build = .object cs [] false false

/-- Each draft on which constraints were declared is built to a group with them. -/
theorem PerformedEach.constrained {calls : List Call} {cs : List Constraint}
    (made : calls.mapM (Call.constraint g) = .ok cs) {keys : List StepKey} {parts : List Address}
    {filled : Workshop Logbook} (sound : shop.Sound g) (has : shop.Has { root })
    (each : PerformedEach g (constraintRules calls) { root } false keys parts shop filled) :
    (∀ i, shop.Constrained cs root i → filled.Constrained cs root i) ∧
      ∀ part ∈ parts, ∃ i, part = { root, positions := [i] } ∧ filled.Constrained cs root i := by
  generalize body : constraintRules calls = rules at each
  generalize at_ : ({ root } : Address) = address at each
  induction each with
  | done => exact ⟨fun _ => id, fun _ member => nomatch member⟩
  | @next key keys part parts shop start mid filled entered empty performed _ ih =>
    subst body at_
    obtain ⟨i, rfl, kept, held⟩ := Workshop.entered_children has entered
    obtain ⟨sound', grows, comes⟩ := enter_keeps sound has key
    rw [entered] at sound' grows comes
    obtain ⟨sound'', grows', -⟩ :=
      performAll_safe (constraintRules calls) start _ sound' (comes _ rfl)
    rw [performed] at sound'' grows'
    obtain ⟨rs, rfl, last, performs, added⟩ := performAll_constraintRules made root i start
    cases performs.symm.trans performed
    -- The step may lead back to a draft that was filled before: it is empty now, so it is filled
    -- to the same.
    have here : mid.Constrained (rs.map (·.constraint)) root i := by
      refine ⟨{ Draft.empty false with constraints := rs }, ?_, ?_⟩
      · rw [added, List.getElem?_modify, held, empty]
        simp [Draft.empty]
      · rw [Draft.build_eq]
        rfl
    have before (j : Nat) (done : shop.Constrained (rs.map (·.constraint)) root j) :
        mid.Constrained (rs.map (·.constraint)) root j := by
      by_cases same : i = j
      · exact same ▸ here
      · obtain ⟨draft, inside, built⟩ := done
        refine ⟨draft, ?_, built⟩
        obtain ⟨more, grown⟩ := kept
        rw [added, List.getElem?_modify, ← grown, List.getElem?_append_left
          (List.getElem?_eq_some_iff.mp inside).1, inside]
        simp [same]
    obtain ⟨earlier, later⟩ := ih sound'' ((grows.trans grows').has _ has)
    refine ⟨fun j done => earlier j (before j done), ?_⟩
    rintro part (_ | ⟨_, member⟩)
    · exact ⟨i, rfl, earlier i here⟩
    · exact later part member

/-- Constraints that are given no names come to the same on every draft. -/
theorem repeats_constraintRules (sound : shop.Sound g) (has : shop.Has { root })
    (calls : List Call) :
    Repeats g (constraintRules calls) { root } shop
      ((calls.mapM (Call.constraint g)).map fun cs => .object cs [] false false) where
  ends each entered _ := by
    obtain ⟨sound', grows⟩ := each.grows sound has
    obtain ⟨i, rfl, -⟩ := Workshop.entered_children (grows.has _ has) entered
    cases made : calls.mapM (Call.constraint g) with
    | error fault => exact performAll_constraintRules_error made _ _
    | ok cs =>
      obtain ⟨rs, -, after, performed, -⟩ := performAll_constraintRules made root i _
      rw [performed]
      rfl
  alike is each part member expand v := by
    cases made : calls.mapM (Call.constraint g) with
    | error fault => rw [made] at is; cases is
    | ok cs =>
      rw [made] at is
      cases is
      obtain ⟨i, rfl, draft, inside, built⟩ := (each.constrained made sound has).2 part member
      rw [Workshop.draft_of_children inside, built]

end PathRules
