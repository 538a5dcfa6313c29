import PathRules.Proofs.Declaration.Account

/-!
# The canonical form of rules

What rules are built to is the canonical form of what their account says that is declared.  Where
the rules for a step are declared in one go or in portions is not seen in it: whoever takes a step
again finds the draft that was left there.
-/

namespace PathRules

variable {g : ObjectGraph}

namespace Draft

theorem modify_of_fixed {α : Type} {items : List α} {i : Nat} {f : α → α}
    (fixed : ∀ a, items[i]? = some a → f a = a) : items.modify i f = items := by
  refine List.ext_getElem? fun j => ?_
  rw [List.getElem?_modify]
  split
  · next here =>
    subst here
    cases held : items[i]? with
    | none => rfl
    | some a => exact congrArg some (fixed a held)
  · exact Option.map_id'

theorem modifyAt_of_fixed {f : Draft → Draft} {positions : List Nat} {draft there : Draft}
    (found : draft.at? positions = some there) (fixed : f there = there) :
    draft.modifyAt positions f = draft := by
  induction positions generalizing draft with
  | nil =>
    cases found
    exact fixed
  | cons position rest ih =>
    rw [modifyAt, modify_of_fixed]
    · cases draft
      rfl
    · intro entry held
      rw [at?, held] at found
      exact congrArg (Prod.mk entry.1) (ih found)

end Draft

/-- Without a log, a declaration that changes nothing of its draft changes nothing. -/
theorem Workshop.declared_of_fixed {shop : Workshop} {address : Address} {deed : Draft.Deed}
    (has : shop.Has address)
    (fixed : (shop.draft address).after g deed = shop.draft address) :
    shop.declared g address deed = shop := by
  obtain ⟨draft, held, there⟩ := has
  obtain ⟨inner, found⟩ := Option.isSome_iff_exists.mp there
  have is : shop.draft address = inner := by simp [Workshop.draft, held, found]
  rw [is] at fixed
  have drafts : shop.drafts.modify address.root
      (Draft.modifyAt address.positions (·.after g deed)) = shop.drafts := by
    refine Draft.modify_of_fixed fun other same => ?_
    obtain rfl := Option.some.inj (held.symm.trans same)
    exact Draft.modifyAt_of_fixed found fixed
  rw [Workshop.declared, drafts]

/-- The path of a specification that depends on nothing else. -/
def PathSpec.fixed? : PathSpec → Option Path
  | .segment s => some { target := s }
  | .text name | .raw (.str name) => some { target := .ofName name }
  | _ => none

namespace Navigation

/-- Where a navigation starts, if that depends on nothing else. -/
def start? (navigation : Navigation) : Option PathSpec → Option Path
  | some spec => if navigation.staysInPlace then none else spec.fixed?
  | none =>
      if navigation.staysInPlace || navigation.pathIsOptional then some { target := .this }
      else none

/-- The step that a navigation declares, if it declares one on its own and that depends on nothing
else. -/
def step? (g : ObjectGraph) (navigation : Navigation) (path : Option PathSpec)
    (selection : List Value) : Option StepKey :=
  match (navigation.start? path).map (navigation.steps g · selection) with
  | some [key] => if selection.isEmpty || navigation.takesSelection then some key else none
  | _ => none

end Navigation

theorem PathSpec.resolve_of_fixed {Log : Type} [Journal Log] {spec : PathSpec} {path : Path}
    (fixed : spec.fixed? = some path) : (spec.resolve : Declaring Log Path) = pure path := by
  unfold fixed? at fixed
  split at fixed <;> cases fixed <;> rfl

/-- A navigation with one step starts from a path of its own and declares that step. -/
theorem Navigation.starts_of_step? {navigation : Navigation} {path : Option PathSpec}
    {selection : List Value} {key : StepKey}
    (is : navigation.step? g path selection = some key) :
    ∃ given start, (path = none ∧ given = none ∨
        ∃ spec p, path = some spec ∧ spec.fixed? = some p ∧ given = some p) ∧
      navigation.Starts given start ∧ navigation.Selects selection ∧
      navigation.keys g start selection = [key] := by
  unfold step? at is
  split at is
  · next single =>
    split at is <;> cases is
    next allowed =>
    obtain ⟨start, started, keys⟩ := Option.map_eq_some_iff.mp single
    have selects : navigation.Selects selection :=
      selects_iff.mpr (by rw [← Bool.not_or, allowed]; rfl)
    cases path with
    | none =>
      rw [start?] at started
      split at started <;> cases started
      next here =>
        have starts := starts_none_iff.mpr ⟨here, rfl⟩
        exact ⟨none, _, .inl ⟨rfl, rfl⟩, starts, selects, (keys_eq_steps starts selects).trans keys⟩
    | some spec =>
      rw [start?] at started
      split at started
      · cases started
      · next away =>
        have starts : navigation.Starts (some start) start :=
          starts_some_iff.mpr ⟨Bool.not_eq_true _ ▸ away, rfl⟩
        exact ⟨some start, _, .inr ⟨spec, start, rfl, started, rfl⟩, starts, selects,
          (keys_eq_steps starts selects).trans keys⟩
  · cases is

namespace Declaring

theorem startOf_eq {Log : Type} {navigation : Navigation} {path : Option Path} {start : Path}
    (starts : navigation.Starts path start) :
    (startOf navigation path : Declaring Log Path) = pure start := by
  cases path with
  | some path =>
    obtain ⟨away, rfl⟩ := Navigation.starts_some_iff.mp starts
    simp [startOf, away]
  | none =>
    obtain ⟨here, rfl⟩ := Navigation.starts_none_iff.mp starts
    simp [startOf, here]

variable {Log : Type} [Journal Log] {address part : Address} {key : StepKey}

theorem performAll_append (first second : List Rule) (address : Address) :
    (performAll (first ++ second) address : Declaring Log Unit) =
      (do
        performAll first address
        performAll second address) := by
  induction first with
  | nil => exact (pure_bind _ _).symm
  | cons rule rules ih =>
    rw [List.cons_append, performAll, performAll, ih, bind_assoc]

/-- Takes a step, with rules for its part, and names the part. -/
def visit (address : Address) (key : StepKey) (body : List Rule) (names : List String) :
    Declaring Log Unit := do
  let part ← enter address key
  performAll body part
  (names.zip [part]).forM fun (name, part) => nameAddress name part

/-- A navigation to one part takes its step. -/
theorem performAll_navigate {navigation : Navigation} {path : Option PathSpec}
    {selection : List Value} (steps : navigation.step? g path selection = some key)
    (body : List Rule) (names : List String) (rules : List Rule) (address : Address)
    (shop : Workshop Log) :
    (performAll (.navigate navigation path selection true body names :: rules) address).runOn g
        shop = Declaring.runOn (do
      visit address key body names
      performAll rules address) g shop := by
  obtain ⟨given, start, resolves, starts, selects, keys⟩ := navigation.starts_of_step? steps
  have allowed := Navigation.selects_iff.mp selects
  have navigated : (do
      let _ ← navigate address navigation given selection (performAll body) names
      performAll rules address : Declaring Log Unit).runOn g shop = Declaring.runOn (do
        visit address key body names
        performAll rules address) g shop := by
    have asked (f : ObjectGraph → Declaring Log Product) :
        ((read >>= f) >>= fun _ => performAll rules address).runOn g shop =
          (f g >>= fun _ => performAll rules address).runOn g shop := rfl
    rw [navigate, startOf_eq starts, pure_bind, allowed, if_neg (by simp), asked, keys, visit]
    simp only [enterEach, bind_assoc, pure_bind]
    refine congrArg (runOn · g shop) ?_
    refine bind_congr fun part => bind_congr fun _ => bind_congr fun _ => ?_
    cases navigation <;> exact pure_bind _ _
  rw [performAll, Rule.perform.eq_def]
  rcases resolves with ⟨rfl, rfl⟩ | ⟨spec, p, rfl, fixed, rfl⟩
  · exact navigated
  · dsimp only
    rw [PathSpec.resolve_of_fixed fixed]
    simp only [pure_bind, if_true]
    exact navigated

/-- A step that is taken again leads to the draft that was left there, and changes nothing. -/
theorem enter_again {shop middle later : Workshop Logbook} (sound : shop.Sound g)
    (has : shop.Has address) (entered : (enter address key).runOn g shop = (.ok part, middle))
    (grows : middle.Grows g later) (sound' : later.Sound g) :
    (enter address key).runOn g later.erased = (.ok part, later.erased) := by
  have grown := ((enter_keeps sound has key).ran entered).2.1
  obtain ⟨hashable, rfl, rfl⟩ := enter_ran entered
  have there : later.Has address := grows.has _ (grown.has _ has)
  have noted : (address, .step key (positionOf g key (shop.draft address))) ∈ later.deeds :=
    grows.logbook.subset (by simp)
  have found : (later.draft address).find? g key =
      some (positionOf g key (shop.draft address)) := by
    rw [← sound'.findIdx?_keysOf noted, ← sound'.keys_eq there, List.findIdx?_map]
    rfl
  have position : positionOf g key (later.erased.draft address) =
      positionOf g key (shop.draft address) := by
    rw [Workshop.erased_draft, positionOf, found]
    rfl
  rw [runOn_enter hashable address later.erased, position, Workshop.declared_of_fixed there]
  rw [Workshop.erased_draft, Draft.after, found]
  rfl

/-- Rules for a part may be declared in portions: whoever takes the step again goes on where the
rules before have left off. -/
theorem visit_portions {shop : Workshop Logbook} (sound : shop.Sound g) (has : shop.Has address)
    {first second : List Rule} {names : List String} {after : Workshop}
    (ran : (visit address key (first ++ second) names).runOn g shop.erased = (.ok (), after)) :
    Declaring.runOn (do
      visit address key first []
      visit address key second names) g shop.erased = (.ok (), after) := by
  obtain ⟨part, middle, entered, ran⟩ := runOn_bind_ok ran
  obtain ⟨_, filled, performed, named⟩ := runOn_bind_ok ran
  rw [performAll_append] at performed
  obtain ⟨_, half, begun, rest⟩ := runOn_bind_ok performed
  obtain ⟨middle, entered', rfl⟩ := (enter_erases g address key).ran entered
  obtain ⟨half, begun', rfl⟩ := (performAll_erases Logbook g first part).ran begun
  obtain ⟨sound', grows, there⟩ := (enter_keeps sound has key).ran entered'
  obtain ⟨sound'', grows', -⟩ := (performAll_safe first middle part sound' there).ran begun'
  have again := enter_again sound has entered' grows' sound''
  have visited : (visit address key first []).runOn g shop.erased = (.ok (), half.erased) := by
    rw [visit, runOn_bind_of_ok entered, runOn_bind_of_ok begun]
    rfl
  rw [runOn_bind_of_ok visited, visit, runOn_bind_of_ok again, runOn_bind_of_ok rest]
  exact named

/-- The rules for a step can be declared in one go or in portions. -/
theorem performAll_portions {shop : Workshop Logbook} (sound : shop.Sound g)
    (has : shop.Has address) {navigation : Navigation} {path : Option PathSpec}
    {selection : List Value} (step : navigation.step? g path selection = some key)
    (before first second later : List Rule) (names : List String) {after : Workshop}
    (ran : (performAll (before ++ .navigate navigation path selection true (first ++ second)
      names :: later) address).runOn g shop.erased = (.ok (), after)) :
    (performAll (before ++ .navigate navigation path selection true first [] ::
      .navigate navigation path selection true second names :: later) address).runOn g
        shop.erased = (.ok (), after) := by
  rw [performAll_append] at ran ⊢
  obtain ⟨_, begun, performed, ran⟩ := runOn_bind_ok ran
  rw [runOn_bind_of_ok performed]
  obtain ⟨begun, performed', rfl⟩ := (performAll_erases Logbook g before address).ran performed
  obtain ⟨sound', grows, -⟩ := (performAll_safe before shop address sound has).ran performed'
  rw [performAll_navigate step] at ran
  obtain ⟨_, visited, whole, rest⟩ := runOn_bind_ok ran
  have portions := visit_portions sound' (grows.has _ has) whole
  rw [performAll_navigate step]
  obtain ⟨_, between, one, other⟩ := runOn_bind_ok portions
  rw [runOn_bind_of_ok one, performAll_navigate step, runOn_bind_of_ok other]
  exact rest

theorem runOn_built (anyOf shortCircuit : Bool) (rules : List Rule) (shop : Workshop Log) :
    (built anyOf shortCircuit rules).runOn g shop = Declaring.runOn (do
      performAll rules { root := shop.drafts.length }
      build { root := shop.drafts.length }) g (shop.withDraft { anyOf, shortCircuit }) := rfl

/-- What rules are built to is the same if the rules for a step are declared in portions. -/
theorem built_portions {shop : Workshop Logbook} (sound : shop.Sound g) {anyOf shortCircuit : Bool}
    {navigation : Navigation} {path : Option PathSpec} {selection : List Value}
    (step : navigation.step? g path selection = some key)
    (before first second later : List Rule) (names : List String) {v : Validation}
    {ended : Workshop}
    (ran : (built anyOf shortCircuit (before ++ .navigate navigation path selection true
      (first ++ second) names :: later)).runOn g shop.erased = (.ok v, ended)) :
    (built anyOf shortCircuit (before ++ .navigate navigation path selection true first [] ::
      .navigate navigation path selection true second names :: later)).runOn g shop.erased =
        (.ok v, ended) := by
  obtain ⟨sound', -, -, there, -⟩ :=
    (addDraft_keeps sound anyOf shortCircuit).ran (runOn_addDraft shop _)
  rw [runOn_built] at ran ⊢
  obtain ⟨_, filled, performed, building⟩ := runOn_bind_ok ran
  have portions : (performAll (before ++ .navigate navigation path selection true first [] ::
      .navigate navigation path selection true second names :: later)
        { root := shop.erased.drafts.length }).runOn g
          (shop.erased.withDraft { anyOf, shortCircuit }) = (.ok (), filled) :=
    performAll_portions sound' there step before first second later names performed
  rw [runOn_bind_of_ok portions]
  exact building

end Declaring

open Declaring

/-- Rules that are performed on a new draft come to the canonical form of what their account says
that is declared on it.  The form depends on nothing but the declarations on each draft in their
order, so that the rules for a step can also be declared in portions; keys that are equal and have
one hash lead to one step, and others to another; no selection is the selection of everything; a
group is the canonical form of what was declared on its own draft before it was added.  No
declaration that was made before is lost. -/
theorem build_canonical {shop : Workshop Logbook} (sound : shop.Sound g) (anyOf shortCircuit : Bool)
    (rules : List Rule) {v : Validation} {ended : Workshop}
    (ran : (built anyOf shortCircuit rules).runOn g shop.erased = (.ok v, ended)) :
    ∃ after : Workshop Logbook, after.erased = ended ∧
      LogAll g rules { root := shop.drafts.length } (shop.withDraft { anyOf, shortCircuit }) after ∧
      v = Draft.canonical g anyOf shortCircuit (Logbook.on shop.drafts.length after.deeds) ∧
      (∀ deeds : Draft.Deeds, (∀ positions,
          deeds.on positions = (Logbook.on shop.drafts.length after.deeds).on positions) →
        Draft.canonical g anyOf shortCircuit deeds = v) ∧
      (∀ (before first second later : List Rule) (navigation : Navigation)
          (path : Option PathSpec) (selection : List Value) (names : List String) (key : StepKey),
        navigation.step? g path selection = some key →
        rules = before ++ .navigate navigation path selection true (first ++ second) names ::
          later →
        (built anyOf shortCircuit (before ++ .navigate navigation path selection true first [] ::
          .navigate navigation path selection true second names :: later)).runOn g shop.erased =
            (.ok v, ended)) ∧
      (∀ address, (Draft.keysOf g (Logbook.onDraft address after.deeds)).Pairwise fun a b =>
        ¬ a.IsOne g b) ∧
      (∀ address key position, (address, .step key position) ∈ after.deeds →
        ∃ used, (Draft.keysOf g (Logbook.onDraft address after.deeds))[position]? = some used ∧
          used.IsOne g key) ∧
      (∀ path,
        Navigation.allIndicesInIterable.keys g path [] = Navigation.allInIterable.keys g path [] ∧
        Navigation.allIndicesInArray.keys g path [] = Navigation.allInArray.keys g path [] ∧
        Navigation.allKeysInMap.keys g path [] = Navigation.allInMap.keys g path []) ∧
      shop.deeds <+: after.deeds ∧
      ∀ (i : Nat) address deed, after.deeds[i]? = some (address, deed) →
        deed.Fits g (after.deeds.take i) address := by
  obtain ⟨after, logged, erased⟩ := (built_erases anyOf shortCircuit rules).ran ran
  obtain ⟨address, started, new, filling⟩ := runOn_bind_ok logged
  obtain ⟨_, filled, performed, made⟩ := runOn_bind_ok filling
  obtain ⟨sound', grows, rfl, there, begun⟩ := (addDraft_keeps sound anyOf shortCircuit).ran new
  obtain ⟨sound'', grows', -⟩ := (performAll_safe rules started _ sound' there).ran performed
  rw [runOn_build] at made
  cases made
  cases new
  have form := (grows'.begun _ _ _ begun).build_eq
  refine ⟨_, erased, performAll_logs rules sound' there performed, form, fun deeds same => ?_, ?_,
    fun address => (Draft.keysOf_pairwise g _).imp fun differ one => ?_,
    fun address key position noted => sound''.exists_key noted, fun path => ⟨rfl, rfl, rfl⟩,
    (grows.trans grows').logbook, sound''.fits⟩
  · rw [form]
    exact Draft.canonical_congr same anyOf shortCircuit
  · rintro before first second later navigation path selection names key step rfl
    exact built_portions sound step before first second later names ran
  · rw [StepKey.same_iff_isOne.mpr one] at differ
    cases differ

/-- A part that must be there and be true, a group with an absent value or a part of its own, and a
constraint for the part of the group when the group is built already. -/
def declaredAfterGroup (name : List Rule) : List Rule :=
  name ++
  [.group .any true
      [.constrain { name := "is_none" } (some "absent"),
        .navigate .has (some (.text "alias")) [] false [] ["alias"]],
    .on "alias" [.constrain { name := "is_not_none" } none]]

/-- The constraints of the part can also be declared one by one. -/
theorem build_canonical_of_group :
    let isThere : Rule := .constrain { name := "is_not_none" } none
    let isTrue : Rule := .constrain { name := "is_true" } none
    let step (body : List Rule) : Rule := .navigate .has (some (.text "name")) [] true body []
    let rules := declaredAfterGroup [step [isThere, isTrue]]
    ∃ v ended after, (built false false rules).runOn {} {} = (.ok v, ended) ∧
      LogAll {} rules { root := 0 }
        (({} : Workshop Logbook).withDraft { anyOf := false, shortCircuit := false }) after ∧
      v = Draft.canonical {} false false (Logbook.on 0 after.deeds) ∧
      (built false false (declaredAfterGroup [step [isThere], step [isTrue]])).runOn {} {} =
        (.ok v, ended) := by
  intro isThere isTrue step rules
  have succeeds : ((built false false rules).runOn {} {} : _ × Workshop).1.isOk = true := by
    decide +kernel
  rcases ran : (built false false rules).runOn {} {} with ⟨fault | v, ended⟩
  · rw [ran] at succeeds
    cases succeeds
  · obtain ⟨after, -, logs, form, -, portions, -⟩ :=
      build_canonical (Workshop.sound_empty {}) false false rules ran
    exact ⟨v, ended, after, ran, logs, form,
      portions [] [isThere] [isTrue] _ .has (some (.text "name")) [] [] _ rfl rfl⟩

end PathRules
