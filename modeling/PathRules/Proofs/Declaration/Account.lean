import PathRules.Proofs.Declaration.Soundness

/-!
# What rules say that is declared

The account of rules is read off the rules themselves, not off the drafts they are performed on:
which steps a navigation takes, of what a group consists on a draft of either kind, and which entry
of the logbook each of them makes.  A step goes to the position that its key has in the logbook, and
a group is the canonical form of what the logbook holds for its own draft.  Rules that are performed
without a fault log what their account says.
-/

namespace PathRules

variable {g : ObjectGraph}

namespace Navigation

/-- How a part that is null is treated. -/
def presence : Navigation → Presence
  | .ifPresent => .optional
  | .required => .required
  | _ => .undefined

/-- Whether the part itself is validated, or its elements. -/
def kind : Navigation → StepKind
  | .allInIterable | .allIndicesInIterable | .onEach => .iterable
  | .allInArray | .allIndicesInArray => .array
  | .allInMap | .allKeysInMap | .onEachEntry => .map
  | .has | .ifPresent | .required | .onIndices | .onKeys => .single

/-- Where the step to a selected position or key leads, if each has a step of its own. -/
def segment? (g : ObjectGraph) : Navigation → Option (Value → Segment)
  | .onIndices => some (.ofPosition g)
  | .onKeys => some (.ofKey g)
  | _ => none

/-- The steps of a navigation that starts from a path. -/
def steps (g : ObjectGraph) (navigation : Navigation) (start : Path) (selection : List Value) :
    List StepKey :=
  match navigation.segment? g with
  | some segment => selection.map fun item => { path := { target := segment item } }
  | none =>
      [{ path := start, presence := navigation.presence, kind := navigation.kind, selection }]

/-- The path that a navigation starts from: the one that is given, or the value itself. -/
inductive Starts (navigation : Navigation) : Option Path → Path → Prop
  | given {path : Path} : navigation ∉ [onEach, onEachEntry, onIndices, onKeys] →
      navigation.Starts (some path) path
  | here : navigation ∈ [ifPresent, required, onEach, onEachEntry, onIndices, onKeys] →
      navigation.Starts none { target := .this }

/-- A selection that a navigation takes: none, unless it is one to selected elements. -/
def Selects (navigation : Navigation) (selection : List Value) : Prop :=
  selection = [] ∨
    navigation ∈ [allIndicesInIterable, allIndicesInArray, allKeysInMap, onIndices, onKeys]

variable {navigation : Navigation} {path start : Path} {selection : List Value}

theorem starts_some_iff :
    navigation.Starts (some path) start ↔ navigation.staysInPlace = false ∧ start = path := by
  constructor
  · rintro ⟨away⟩
    cases navigation <;> simp_all [staysInPlace]
  · rintro ⟨away, rfl⟩
    refine .given ?_
    cases navigation <;> simp_all [staysInPlace]

theorem starts_none_iff :
    navigation.Starts none start ↔
      (navigation.staysInPlace || navigation.pathIsOptional) = true ∧
        start = { target := .this } := by
  constructor
  · rintro ⟨here⟩
    cases navigation <;> simp_all [staysInPlace, pathIsOptional]
  · rintro ⟨here, rfl⟩
    refine .here ?_
    cases navigation <;> simp_all [staysInPlace, pathIsOptional]

theorem selects_iff :
    navigation.Selects selection ↔ (!selection.isEmpty && !navigation.takesSelection) = false := by
  cases navigation <;> simp [Selects, takesSelection]

/-- A navigation declares its steps. -/
theorem keys_eq_steps {path : Option Path} (starts : navigation.Starts path start)
    (selects : navigation.Selects selection) :
    navigation.keys g start selection = navigation.steps g start selection := by
  cases starts <;> cases navigation <;> simp_all [keys, steps, segment?, presence, kind, Selects]

end Navigation

/-- Of what the rules of a group are part. -/
inductive Filling
  /-- The rules themselves. -/
  | rules
  /-- The rules, for the value treated as an instance of a type. -/
  | typed (typeName : String)
  /-- A constraint before the rest. -/
  | tested (c : Constraint) (rest : Filling)
  /-- A draft of its own, built when it is filled. -/
  | group (anyOf shortCircuit : Bool) (inner : Filling)
  /-- No rules, but whether the draft stops at the first check that decides. -/
  | stops (on : Bool)

/-- What a group comes to on a draft of a kind, if it is offered there: with rules or without. -/
def Group.filling? : Group → (anyOf hasBody : Bool) → Option Filling
  | .any, false, true => some (.group true true .rules)
  | .all, true, true => some (.group false false .rules)
  | .shortCircuit, false, true => some (.group false true .rules)
  | .shortCircuit, false, false => some (.stops true)
  | .nonShortCircuit, true, true => some (.group true false .rules)
  | .nonShortCircuit, true, false => some (.stops false)
  | .ifType typeName, false, true =>
      some (.group true true (.tested (notOfType typeName) (.group false false (.typed typeName))))
  | .ifType typeName, true, true => some (.tested (notOfType typeName) (.typed typeName))
  | .requireType typeName, false, true =>
      some (.group false true (.tested (.isInstance [typeName]) (.typed typeName)))
  | .requireType typeName, true, true =>
      some (.group false true
        (.tested (.isInstance [typeName]) (.group true true (.typed typeName))))
  | _, _, _ => none

/-- The constraint that a handle stands for, and what is left of the workshop. -/
inductive Handle.Stands (g : ObjectGraph) (address : Address) (shop : Workshop Logbook) :
    Handle → Registered → Workshop Logbook → Prop
  | named {name : String} {r : Registered} :
      shop.constraints.lookup name = some r → Handle.Stands g address shop (.named name) r shop
  | fresh {call : Call} {name : Option String} {c : Constraint} :
      call.constraint g = .ok c →
      Handle.Stands g address shop (.fresh call name) ⟨shop.next, c⟩
        ((shop.counted.declared g address (.constraint ⟨shop.next, c⟩)).namingConstraint name
          ⟨shop.next, c⟩)

/-- A constraint of a draft gives its place to a changed copy. -/
inductive Replaces (g : ObjectGraph) (address : Address) (name : Option String) (r : Registered)
    (c : Constraint) (shop : Workshop Logbook) : Workshop Logbook → Prop
  | intro : (∃ held ∈ Draft.constraintsOf (Logbook.onDraft address shop.deeds),
        held.number = r.number) →
      Replaces g address name r c shop
        ((shop.counted.declared g address (.replacement r.number ⟨shop.next, c⟩)).namingConstraint
          name ⟨shop.next, c⟩)

mutual

/-- The path that is made. -/
inductive PathSpec.Leads (g : ObjectGraph) :
    PathSpec → Workshop Logbook → Path → Workshop Logbook → Prop
  | segment {s : Segment} {shop : Workshop Logbook} :
      PathSpec.Leads g (.segment s) shop { target := s } shop
  | text {name : String} {shop : Workshop Logbook} :
      PathSpec.Leads g (.text name) shop { target := .ofName name } shop
  | raw {name : String} {shop : Workshop Logbook} :
      PathSpec.Leads g (.raw (.str name)) shop { target := .ofName name } shop
  | named {name : String} {path : Path} {shop : Workshop Logbook} :
      shop.paths.lookup name = some path → PathSpec.Leads g (.named name) shop path shop
  | guarded {inner : PathSpec} {condition : ValidationSpec} {path : Path} {made : Numbered}
      {shop between after : Workshop Logbook} :
      PathSpec.Leads g inner shop path between →
      ValidationSpec.Makes g condition between made after →
      PathSpec.Leads g (.guarded inner condition) shop
        { path with guards := .mk made.number made.validation :: path.guards } after

/-- The validation that is made; one that rules declare is their canonical form.  What a
hand-written one does is left open. -/
inductive ValidationSpec.Makes (g : ObjectGraph) :
    ValidationSpec → Workshop Logbook → Numbered → Workshop Logbook → Prop
  | declared {anyOf : Bool} {rules : List Rule} {shop after : Workshop Logbook} :
      LogAll g rules { root := shop.drafts.length } (shop.withDraft (.empty anyOf)) after →
      ValidationSpec.Makes g (.declared anyOf rules) shop
        ⟨after.next, Draft.canonical g anyOf anyOf (Logbook.on shop.drafts.length after.deeds)⟩
        after.counted
  | step {presence : Presence} {path : PathSpec} {inner : ValidationSpec} {p : Path}
      {made : Numbered} {shop between after : Workshop Logbook} :
      PathSpec.Leads g path shop p between → ValidationSpec.Makes g inner between made after →
      ValidationSpec.Makes g (.step presence path inner) shop
        ⟨after.next, .step presence p.guards p.target made.validation⟩ after.counted
  | elements {kind : Elements} {inner : ValidationSpec} {made : Numbered}
      {shop after : Workshop Logbook} :
      ValidationSpec.Makes g inner shop made after →
      ValidationSpec.Makes g (.elements kind inner) shop
        ⟨after.next, .elements kind made.validation⟩ after.counted
  | object {constraints : List Constraint} {specs : List ValidationSpec} {anyOf shortCircuit : Bool}
      {subs : List Validation} {shop after : Workshop Logbook} :
      MakeAll g specs shop subs after →
      ValidationSpec.Makes g (.object constraints specs anyOf shortCircuit) shop
        ⟨after.next, .object constraints subs anyOf shortCircuit⟩ after.counted
  | named {name : String} {made : Numbered} {shop : Workshop Logbook} :
      shop.validations.lookup name = some made →
      ValidationSpec.Makes g (.named name) shop made shop
  | model {registry cls : String} {shop : Workshop Logbook} :
      ValidationSpec.Makes g (.model registry cls) shop ⟨shop.next, .model registry cls⟩
        { shop with rulebook := (shop.rulebook.compiled g registry cls).2 }.counted
  | script {steps : List StepSpec} {answer : Option Value} {made : Numbered}
      {shop after : Workshop Logbook} :
      (ValidationSpec.script steps answer).make.runOn g shop = (.ok made, after) →
      ValidationSpec.Makes g (.script steps answer) shop made after

/-- Validations are made one after the other. -/
inductive MakeAll (g : ObjectGraph) :
    List ValidationSpec → Workshop Logbook → List Validation → Workshop Logbook → Prop
  | nil {shop : Workshop Logbook} : MakeAll g [] shop [] shop
  | cons {spec : ValidationSpec} {specs : List ValidationSpec} {made : Numbered}
      {rest : List Validation} {shop between after : Workshop Logbook} :
      ValidationSpec.Makes g spec shop made between → MakeAll g specs between rest after →
      MakeAll g (spec :: specs) shop (made.validation :: rest) after

/-- What a rule logs that is performed on a draft. -/
inductive Rule.Logs (g : ObjectGraph) :
    Rule → Address → Workshop Logbook → Workshop Logbook → Prop
  | constrain {call : Call} {name : Option String} {r : Registered} {address : Address}
      {shop after : Workshop Logbook} :
      Handle.Stands g address shop (.fresh call name) r after →
      Rule.Logs g (.constrain call name) address shop after
  | detached {name : String} {c : Constraint} {address : Address} {shop : Workshop Logbook} :
      Rule.Logs g (.detached name c) address shop
        (shop.counted.namingConstraint (some name) ⟨shop.next, c⟩)
  | hint {handle : Handle} {message : String} {name : Option String} {r : Registered}
      {address : Address} {shop between after : Workshop Logbook} :
      handle.Stands g address shop r between →
      Replaces g address name r (r.constraint.withHint message) between after →
      Rule.Logs g (.hint handle message name) address shop after
  | warn {handle : Handle} {name : Option String} {r : Registered} {address : Address}
      {shop between after : Workshop Logbook} :
      handle.Stands g address shop r between →
      Replaces g address name r r.constraint.asWarning between after →
      Rule.Logs g (.warn handle name) address shop after
  | navigate {navigation : Navigation} {path : Option PathSpec} {given : Option Path} {start : Path}
      {selection : List Value} {hasBody : Bool} {body : List Rule} {names : List String}
      {parts : List Address} {address : Address} {shop between after : Workshop Logbook} :
      GivenPath g path shop given between →
      navigation.Starts given start →
      navigation.Selects selection →
      PartsLog g (if hasBody then body else []) address (navigation.steps g start selection)
        between parts after →
      Rule.Logs g (.navigate navigation path selection hasBody body names) address shop
        (after.namingDrafts (names.zip parts))
  | on {name : String} {rules : List Rule} {address there : Address}
      {shop after : Workshop Logbook} :
      shop.addresses.lookup name = some there → LogAll g rules there shop after →
      Rule.Logs g (.on name rules) address shop after
  | group {kind : Group} {hasBody : Bool} {body : List Rule} {filling : Filling} {address : Address}
      {shop after : Workshop Logbook} :
      kind.filling? (shop.draft address).anyOf hasBody = some filling →
      Filling.Logs g body filling address shop after →
      Rule.Logs g (.group kind hasBody body) address shop after
  | run {spec : ValidationSpec} {made : Numbered} {address : Address}
      {shop between : Workshop Logbook} :
      ValidationSpec.Makes g spec shop made between →
      Rule.Logs g (.run spec) address shop
        (between.declared g address (.validation made.validation))
  | guard {name : String} {path : PathSpec} {condition : ValidationSpec} {made : Numbered}
      {p : Path} {address : Address} {shop between after : Workshop Logbook} :
      ValidationSpec.Makes g condition shop made between →
      PathSpec.Leads g path between p after →
      Rule.Logs g (.guard name path condition) address shop (after.namingPath name
        { p with guards := .mk made.number made.validation :: p.guards })
  | thisPath {address : Address} {shop : Workshop Logbook} : Rule.Logs g .thisPath address shop shop

/-- The path that a navigation is given, if it is given one. -/
inductive GivenPath (g : ObjectGraph) :
    Option PathSpec → Workshop Logbook → Option Path → Workshop Logbook → Prop
  | none {shop : Workshop Logbook} : GivenPath g none shop none shop
  | some {spec : PathSpec} {path : Path} {shop after : Workshop Logbook} :
      PathSpec.Leads g spec shop path after → GivenPath g (some spec) shop (some path) after

/-- Rules log one after the other. -/
inductive LogAll (g : ObjectGraph) :
    List Rule → Address → Workshop Logbook → Workshop Logbook → Prop
  | nil {address : Address} {shop : Workshop Logbook} : LogAll g [] address shop shop
  | cons {rule : Rule} {rules : List Rule} {address : Address}
      {shop between after : Workshop Logbook} :
      Rule.Logs g rule address shop between → LogAll g rules address between after →
      LogAll g (rule :: rules) address shop after

/-- Steps are logged one after the other, each with its position and before the rules for its
part. -/
inductive PartsLog (g : ObjectGraph) :
    List Rule → Address → List StepKey → Workshop Logbook → List Address → Workshop Logbook → Prop
  | nil {body : List Rule} {address : Address} {shop : Workshop Logbook} :
      PartsLog g body address [] shop [] shop
  | cons {body : List Rule} {address : Address} {key : StepKey} {keys : List StepKey}
      {position : Nat} {parts : List Address} {shop filled after : Workshop Logbook} :
      Value.areHashable g key.selection = true →
      (Draft.Deed.step key position).Fits g shop.deeds address →
      LogAll g body { address with positions := address.positions ++ [position] }
        (shop.declared g address (.step key position)) filled →
      PartsLog g body address keys filled parts after →
      PartsLog g body address (key :: keys) shop
        ({ address with positions := address.positions ++ [position] } :: parts) after

/-- What is logged for a group. -/
inductive Filling.Logs (g : ObjectGraph) :
    List Rule → Filling → Address → Workshop Logbook → Workshop Logbook → Prop
  | rules {body : List Rule} {address : Address} {shop after : Workshop Logbook} :
      LogAll g body address shop after → Filling.Logs g body .rules address shop after
  | typed {body : List Rule} {typeName : String} {parts : List Address} {address : Address}
      {shop after : Workshop Logbook} :
      PartsLog g body address [{ path := { target := .ofType typeName } }] shop parts after →
      Filling.Logs g body (.typed typeName) address shop after
  | tested {body : List Rule} {c : Constraint} {rest : Filling} {address : Address}
      {shop after : Workshop Logbook} :
      Filling.Logs g body rest address
        (shop.counted.declared g address (.constraint ⟨shop.next, c⟩)) after →
      Filling.Logs g body (.tested c rest) address shop after
  | group {body : List Rule} {anyOf shortCircuit : Bool} {inner : Filling} {address : Address}
      {shop filled : Workshop Logbook} :
      Filling.Logs g body inner { root := shop.drafts.length }
        (shop.withDraft { anyOf, shortCircuit }) filled →
      Filling.Logs g body (.group anyOf shortCircuit inner) address shop
        (filled.declared g address (.group shop.drafts.length anyOf shortCircuit
          (Draft.canonical g anyOf shortCircuit (Logbook.on shop.drafts.length filled.deeds))))
  | stops {body : List Rule} {on : Bool} {address : Address} {shop : Workshop Logbook} :
      Filling.Logs g body (.stops on) address shop (shop.declared g address (.shortCircuit on))

end

namespace Declaring

variable {shop after : Workshop Logbook} {address : Address}

theorem startOf_ran {navigation : Navigation} {path : Option Path} {start : Path}
    (ran : (startOf navigation path).runOn g shop = (.ok start, after)) :
    navigation.Starts path start ∧ after = shop := by
  unfold startOf at ran
  split at ran <;> split at ran <;> cases ran
  · next away => exact ⟨Navigation.starts_some_iff.mpr ⟨Bool.not_eq_true _ ▸ away, rfl⟩, rfl⟩
  · next here => exact ⟨Navigation.starts_none_iff.mpr ⟨here, rfl⟩, rfl⟩

theorem constraintOf_ran {handle : Handle} {r : Registered}
    (ran : (constraintOf address handle).runOn g shop = (.ok r, after)) :
    handle.Stands g address shop r after := by
  cases handle with
  | named name =>
    rw [constraintOf, runOn_constraintNamed] at ran
    split at ran <;> cases ran
    next found => exact .named found
  | fresh call name =>
    obtain ⟨c, made, rfl, rfl⟩ := constrain_ran ran
    exact .fresh made

/-- A replaced constraint is among those that the logbook says were registered. -/
theorem replaces_of_ran {r new : Registered} {c : Constraint} {name : Option String}
    (sound : shop.Sound g) (has : shop.Has address)
    (ran : (replace address r c).runOn g shop = (.ok new, after)) :
    Replaces g address name r c shop (after.namingConstraint name new) := by
  obtain ⟨held, rfl, rfl⟩ := replace_ran ran
  refine .intro ?_
  rw [sound.constraints_eq has] at held
  simpa using held

/-- A constraint is changed by a copy that takes its place. -/
theorem change_ran {handle : Handle} (change : Constraint → Constraint) {name : Option String}
    {product : Product} (sound : shop.Sound g) (has : shop.Has address)
    (ran : Declaring.runOn (do
      let r ← constraintOf address handle
      let new ← replace address r (change r.constraint)
      nameConstraint name new
      pure (.constraint new)) g shop = (.ok product, after)) :
    ∃ r between, handle.Stands g address shop r between ∧
      Replaces g address name r (change r.constraint) between after := by
  obtain ⟨r, between, stands, changing⟩ := runOn_bind_ok ran
  obtain ⟨new, replaced, replaces, naming⟩ := runOn_bind_ok changing
  rw [runOn_bind, runOn_nameConstraint] at naming
  cases naming
  obtain ⟨sound', grows, -⟩ := (constraintOf_safe sound has handle).ran stands
  exact ⟨r, between, constraintOf_ran stands, replaces_of_ran sound' (grows.has _ has) replaces⟩

section Fill

variable {body : List Rule} {fill : Address → Declaring Logbook Unit}

/-- Performs what a group comes to. -/
def fillWith (fill : Address → Declaring Logbook Unit) : Filling → Address → Declaring Logbook Unit
  | .rules, address => fill address
  | .typed typeName, address => asType address typeName fill
  | .tested c rest, address => do
      let _ ← register address c
      fillWith fill rest address
  | .group anyOf shortCircuit inner, address =>
      addGroup address { anyOf, shortCircuit } (fillWith fill inner)
  | .stops on, address => declare address (.shortCircuit on)

/-- A group that is offered on a draft comes to what is said of it there. -/
theorem declareGroup_ran {kind : Group} {hasBody : Bool}
    (ran : (declareGroup address kind (if hasBody then some fill else none)).runOn g shop =
      (.ok (), after)) :
    ∃ filling, kind.filling? (shop.draft address).anyOf hasBody = some filling ∧
      (fillWith fill filling address).runOn g shop = (.ok (), after) := by
  rw [declareGroup, runOn_bind, runOn_draftAt] at ran
  dsimp only at ran
  cases kind with
  | ifType typeName =>
    cases hasBody with
    | false => cases any : (shop.draft address).anyOf <;> rw [any] at ran <;> cases ran
    | true =>
      simp only [if_true, ifType] at ran
      rw [runOn_bind, runOn_draftAt] at ran
      cases any : (shop.draft address).anyOf <;> simp only [any] at ran <;> exact ⟨_, rfl, ran⟩
  | requireType typeName =>
    cases hasBody with
    | false => cases any : (shop.draft address).anyOf <;> rw [any] at ran <;> cases ran
    | true =>
      simp only [if_true, requireType] at ran
      rw [runOn_bind, runOn_draftAt] at ran
      cases any : (shop.draft address).anyOf <;> simp only [any] at ran <;> exact ⟨_, rfl, ran⟩
  | _ =>
    cases any : (shop.draft address).anyOf <;> rw [any] at ran <;> cases hasBody <;>
      first | exact ⟨_, rfl, ran⟩ | cases ran

variable (fills : ∀ shop part, shop.Sound g → shop.Has part →
  (fill part).Keeps g shop fun _ after => LogAll g body part shop after)

include fills

theorem enterEach_logs {keys : List StepKey} {parts : List Address} (sound : shop.Sound g)
    (has : shop.Has address)
    (ran : (enterEach address fill keys).runOn g shop = (.ok parts, after)) :
    PartsLog g body address keys shop parts after := by
  induction keys generalizing shop parts with
  | nil =>
    cases ran
    exact .nil
  | cons key keys ih =>
    rw [enterEach] at ran
    obtain ⟨part, start, entered, ran⟩ := runOn_bind_ok ran
    obtain ⟨_, filled, performed, ran⟩ := runOn_bind_ok ran
    obtain ⟨rest, last, others, ended⟩ := runOn_bind_ok ran
    cases ended
    obtain ⟨sound', grows, there⟩ := (enter_keeps sound has key).ran entered
    obtain ⟨sound'', grows', logs⟩ := (fills start part sound' there).ran performed
    obtain ⟨hashable, rfl, rfl⟩ := enter_ran entered
    exact .cons hashable (Workshop.fits_step sound has key) logs
      (ih sound'' ((grows.trans grows').has _ has) others)

/-- A navigation logs its steps, each with the rules for its part. -/
theorem navigate_logs {navigation : Navigation} {path : Option Path} {selection : List Value}
    {names : List String} {product : Product} (sound : shop.Sound g) (has : shop.Has address)
    (ran : (navigate address navigation path selection fill names).runOn g shop =
      (.ok product, after)) :
    ∃ start parts filled, navigation.Starts path start ∧
      navigation.Selects selection ∧
      PartsLog g body address (navigation.steps g start selection) shop parts filled ∧
      after = filled.namingDrafts (names.zip parts) := by
  obtain ⟨start, begun, started, selecting⟩ := runOn_bind_ok ran
  obtain ⟨starts, rfl⟩ := startOf_ran started
  split at selecting
  · cases selecting
  next allowed =>
    have selects := Navigation.selects_iff.mpr (Bool.eq_false_iff.mpr allowed)
    rw [runOn_bind, runOn_read] at selecting
    obtain ⟨parts, filled, entered, naming⟩ := runOn_bind_ok selecting
    rw [runOn_bind, runOn_nameAddresses] at naming
    rw [Navigation.keys_eq_steps starts selects] at entered
    refine ⟨start, parts, filled, starts, selects, enterEach_logs fills sound has entered, ?_⟩
    dsimp only at naming
    split at naming <;> cases naming <;> rfl

/-- What is performed for a group logs what is said of it. -/
theorem fillWith_keeps (filling : Filling) (sound : shop.Sound g) (has : shop.Has address) :
    (fillWith fill filling address).Keeps g shop fun _ after =>
      Filling.Logs g body filling address shop after := by
  have safe (shop : Workshop Logbook) (part : Address) (sound : shop.Sound g)
      (has : shop.Has part) : (fill part).Safe g shop := (fills shop part sound has).safe
  induction filling generalizing shop address with
  | rules => exact (fills shop address sound has).mono fun _ _ => .rules
  | typed typeName =>
    refine (asType_safe sound has safe typeName).of_ran fun _ after ran => ?_
    obtain ⟨part, start, entered, performed⟩ := runOn_bind_ok ran
    obtain ⟨sound', -, there⟩ := (enter_keeps sound has _).ran entered
    obtain ⟨-, -, logs⟩ := (fills start part sound' there).ran performed
    obtain ⟨hashable, rfl, rfl⟩ := enter_ran entered
    exact .typed (.cons hashable (Workshop.fits_step sound has _) logs .nil)
  | tested c rest ih =>
    obtain ⟨sound', grows, -⟩ := (register_safe sound has c).ran (runOn_register shop address c)
    have keeps := ih sound' (grows.has _ has)
    refine ((register_safe sound has c).bind fun _ after sound grows _ =>
      (ih sound (grows.has _ has)).safe).of_ran fun _ after ran => ?_
    rw [runOn_bind, runOn_register] at ran
    exact .tested (keeps.ran ran).2.2
  | group anyOf shortCircuit inner ih =>
    refine (addGroup_safe sound has (fun _ _ sound has => (ih sound has).safe) anyOf
      shortCircuit).of_ran fun _ after ran => ?_
    obtain ⟨filled, performed, rfl⟩ := addGroup_ran address ran
    obtain ⟨sound', -, -, there, begun⟩ :=
      (addDraft_keeps sound anyOf shortCircuit).ran (runOn_addDraft shop _)
    obtain ⟨-, grows, logs⟩ := (ih sound' there).ran performed
    rw [(grows.begun _ _ _ begun).build_eq]
    exact .group logs
  | stops on =>
    exact (declare_keeps sound has (.shortCircuit on) trivial).mono fun _ _ is => is ▸ .stops

end Fill

end Declaring

open Declaring

mutual

theorem PathSpec.resolve_leads (spec : PathSpec) {shop after : Workshop Logbook} {path : Path}
    (sound : shop.Sound g) (ran : spec.resolve.runOn g shop = (.ok path, after)) :
    spec.Leads g shop path after := by
  cases spec with
  | segment s => cases ran; exact .segment
  | text name => cases ran; exact .text
  | raw v => cases v <;> cases ran; exact .raw
  | named name =>
    rw [PathSpec.resolve, runOn_pathNamed] at ran
    split at ran <;> cases ran
    next found => exact .named found
  | guarded inner condition =>
    obtain ⟨path, between, led, ran⟩ := runOn_bind_ok ran
    obtain ⟨made, _, makes, ended⟩ := runOn_bind_ok ran
    cases ended
    have sound' := ((PathSpec.resolve_safe inner shop sound).ran led).1
    exact .guarded (PathSpec.resolve_leads inner sound led)
      (ValidationSpec.make_makes condition sound' makes)
termination_by structural spec

/-- What rules declare for a validation of its own is built to their canonical form. -/
theorem ValidationSpec.make_makes (spec : ValidationSpec) {shop after : Workshop Logbook}
    {made : Numbered} (sound : shop.Sound g) (ran : spec.make.runOn g shop = (.ok made, after)) :
    spec.Makes g shop made after := by
  cases spec with
  | declared anyOf rules =>
    obtain ⟨address, start, new, filling⟩ := runOn_bind_ok ran
    obtain ⟨_, filled, performed, building⟩ := runOn_bind_ok filling
    obtain ⟨v, _, built, ended⟩ := runOn_bind_ok building
    obtain ⟨sound', -, rfl, there, begun⟩ := (addDraft_keeps sound anyOf anyOf).ran new
    obtain ⟨-, grows, -⟩ := (performAll_safe rules _ _ sound' there).ran performed
    rw [runOn_build] at built
    cases new
    cases built
    cases ended
    rw [(grows.begun _ _ _ begun).build_eq]
    exact .declared (performAll_logs rules sound' there performed)
  | step presence path inner =>
    obtain ⟨p, between, led, ran⟩ := runOn_bind_ok ran
    obtain ⟨made, _, makes, ended⟩ := runOn_bind_ok ran
    cases ended
    have sound' := ((PathSpec.resolve_safe path shop sound).ran led).1
    exact .step (PathSpec.resolve_leads path sound led)
      (ValidationSpec.make_makes inner sound' makes)
  | elements kind inner =>
    obtain ⟨made, between, makes, ran⟩ := runOn_bind_ok ran
    obtain ⟨g', _, asked, ended⟩ := runOn_bind_ok ran
    cases asked
    obtain ⟨-, ended⟩ := runOn_ite_ok ended
    cases ended
    exact .elements (ValidationSpec.make_makes inner sound makes)
  | object constraints specs anyOf shortCircuit =>
    obtain ⟨subs, _, makes, ended⟩ := runOn_bind_ok ran
    cases ended
    exact .object (makeAll_makes specs sound makes)
  | script steps answer => exact .script ran
  | named name =>
    rw [ValidationSpec.make, runOn_validationNamed] at ran
    split at ran <;> cases ran
    next found => exact .named found
  | model registry cls => cases ran; exact .model
termination_by structural spec

theorem makeAll_makes (specs : List ValidationSpec) {shop after : Workshop Logbook}
    {subs : List Validation} (sound : shop.Sound g)
    (ran : (makeAll specs).runOn g shop = (.ok subs, after)) : MakeAll g specs shop subs after := by
  cases specs with
  | nil => cases ran; exact .nil
  | cons spec specs =>
    obtain ⟨made, between, makes, ran⟩ := runOn_bind_ok ran
    obtain ⟨rest, _, others, ended⟩ := runOn_bind_ok ran
    cases ended
    have sound' := ((ValidationSpec.make_safe spec shop sound).ran makes).1
    exact .cons (ValidationSpec.make_makes spec sound makes) (makeAll_makes specs sound' others)
termination_by structural specs

/-- A rule logs what its account says. -/
theorem Rule.perform_logs (rule : Rule) {shop after : Workshop Logbook} {address : Address}
    {product : Product} (sound : shop.Sound g) (has : shop.Has address)
    (ran : (rule.perform address).runOn g shop = (.ok product, after)) :
    rule.Logs g address shop after := by
  cases rule with
  | constrain call name =>
    obtain ⟨r, _, constrained, ended⟩ := runOn_bind_ok ran
    cases ended
    have stands : (constraintOf address (.fresh call name)).runOn g shop = _ := constrained
    exact .constrain (constraintOf_ran stands)
  | detached name c =>
    cases ran
    exact .detached
  | hint handle message name =>
    obtain ⟨r, between, stands, replaces⟩ := change_ran (·.withHint message) sound has ran
    exact .hint stands replaces
  | warn handle name =>
    obtain ⟨r, between, stands, replaces⟩ := change_ran (·.asWarning) sound has ran
    exact .warn stands replaces
  | navigate navigation path selection hasBody body names =>
    have fills (shop : Workshop Logbook) (part : Address) (sound : shop.Sound g)
        (has : shop.Has part) :
        Keeps g shop (if hasBody then performAll body part else pure ()) fun _ after =>
          LogAll g (if hasBody then body else []) part shop after := by
      cases hasBody with
      | false => exact .of_pure sound .nil
      | true =>
        exact (performAll_safe body shop part sound has).of_ran fun _ _ ran =>
          performAll_logs body sound has ran
    cases path with
    | none =>
      have navigated : (navigate address navigation none selection _ names).runOn g shop =
        (.ok product, after) := ran
      obtain ⟨start, parts, filled, starts, selects, logs, rfl⟩ :=
        navigate_logs fills sound has navigated
      exact .navigate .none starts selects logs
    | some path =>
      obtain ⟨p, between, resolved, navigated⟩ := runOn_bind_ok ran
      rw [pure_bind] at navigated
      obtain ⟨sound', grows, -⟩ := (PathSpec.resolve_safe path shop sound).ran resolved
      obtain ⟨start, parts, filled, starts, selects, logs, rfl⟩ :=
        navigate_logs fills sound' (grows.has _ has) navigated
      exact .navigate (.some (PathSpec.resolve_leads path sound resolved)) starts selects logs
  | on name rules =>
    obtain ⟨there, between, found, ran⟩ := runOn_bind_ok ran
    obtain ⟨sound', -, has'⟩ := (addressNamed_keeps sound name).ran found
    obtain ⟨_, _, performed, ended⟩ := runOn_bind_ok ran
    cases ended
    rw [runOn_addressNamed] at found
    split at found <;> cases found
    next is => exact .on is (performAll_logs rules sound' has' performed)
  | group kind hasBody body =>
    obtain ⟨_, _, declared, ended⟩ := runOn_bind_ok ran
    cases ended
    obtain ⟨filling, offered, performed⟩ := declareGroup_ran declared
    refine .group offered ((fillWith_keeps (fun shop part sound has => ?_) filling sound has).ran
      performed).2.2
    exact (performAll_safe body shop part sound has).of_ran fun _ _ ran =>
      performAll_logs body sound has ran
  | run validation =>
    obtain ⟨made, between, makes, ran⟩ := runOn_bind_ok ran
    cases ran
    exact .run (ValidationSpec.make_makes validation sound makes)
  | guard name path condition =>
    obtain ⟨made, between, makes, ran⟩ := runOn_bind_ok ran
    obtain ⟨p, _, leads, ran⟩ := runOn_bind_ok ran
    cases ran
    have sound' := ((ValidationSpec.make_safe condition shop sound).ran makes).1
    exact .guard (ValidationSpec.make_makes condition sound makes)
      (PathSpec.resolve_leads path sound' leads)
  | thisPath => cases ran; exact .thisPath
  | unknown => cases ran
termination_by structural rule

theorem performAll_logs (rules : List Rule) {shop after : Workshop Logbook} {address : Address}
    (sound : shop.Sound g) (has : shop.Has address)
    (ran : (performAll rules address).runOn g shop = (.ok (), after)) :
    LogAll g rules address shop after := by
  cases rules with
  | nil => cases ran; exact .nil
  | cons rule rules =>
    obtain ⟨_, between, performed, ran⟩ := runOn_bind_ok ran
    obtain ⟨sound', grows, -⟩ := (Rule.perform_safe rule shop address sound has).ran performed
    exact .cons (Rule.perform_logs rule sound has performed)
      (performAll_logs rules sound' (grows.has _ has) ran)
termination_by structural rules

end

end PathRules
