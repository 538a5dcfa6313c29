import PathRules.Proofs.Declaration.Chains
import PathRules.Proofs.Declaration.Narrowing

/-!
# Changes follow the chains of constraints

Drafts know nothing of chains: a change looks for the constraint that it is given, and puts a copy
in its place.  Whatever is registered, made apart and changed, on whatever drafts and in whatever
order, the drafts hold the last constraints of the chains of a roster, and calls are answered as the
roster says.
-/

namespace PathRules

variable {α : Type} {g : ObjectGraph} {shop start : Workshop Logbook} {roster : Roster}
    {address : Address}

/-! ## What calls register -/

/-- The constraint that is made, if one is, reports errors. -/
def Erring (made : Except Fault Constraint) : Prop := ∀ c, made = .ok c → c.isError = true

namespace Erring

variable {call : Call}

theorem ok {c : Constraint} (h : c.isError = true) : Erring (.ok c) :=
  fun _ is => Except.ok.inj is ▸ h

theorem error (fault : Fault) : Erring (.error fault) := nofun

theorem bind {made : Except Fault α} {f : α → Except Fault Constraint} (h : ∀ a, Erring (f a)) :
    Erring (made >>= f) := by
  cases made with
  | error fault => exact error fault
  | ok a => exact h a

theorem nullary {c : Constraint} (h : c.isError = true) : Erring (call.nullary c) :=
  bind fun _ => ok h

theorem unary {param : Param} {make : Value → Except Fault Constraint} (h : ∀ v, Erring (make v)) :
    Erring (call.unary param make) := by
  refine bind fun values => ?_
  split
  · exact h _
  · exact error _

theorem binary {first second : Param} {make : Value → Value → Except Fault Constraint}
    (h : ∀ v w, Erring (make v w)) : Erring (call.binary first second make) := by
  refine bind fun values => ?_
  split
  · exact h _ _
  · exact error _

theorem ternary {first second third : Param}
    {make : Value → Value → Value → Except Fault Constraint} (h : ∀ v w x, Erring (make v w x)) :
    Erring (call.ternary first second third make) := by
  refine bind fun values => ?_
  split
  · exact h _ _ _
  · exact error _

theorem tested {make : Test → Constraint} (h : ∀ test, (make test).isError = true) :
    Erring (call.tested make) := by
  unfold Call.tested
  split
  · exact ok (h _)
  · exact error _

/-- No call makes a constraint that warns. -/
theorem constraint (g : ObjectGraph) (call : Call) : Erring (call.constraint g) := by
  unfold Call.constraint
  split
  -- The calls that may fail in ways of their own: one of several values, a pattern, a range.
  case h_6 =>
    split
    · exact ok rfl
    · exact error _
  case h_14 =>
    refine unary fun text => ?_
    unfold Constraint.matching
    split
    · split
      · exact ok rfl
      · exact error _
    · exact error _
  case h_17 =>
    refine ternary fun low high exclusive => ok ?_
    unfold Constraint.between
    split <;> rfl
  case h_24 => exact error _
  all_goals first
    | exact nullary rfl
    | exact unary fun _ => ok rfl
    | exact unary fun _ => bind fun _ => ok rfl
    | exact binary fun _ _ => ok rfl
    | exact tested fun _ => rfl
    | exact ok rfl

end Erring

/-! ## Errands -/

open Declaring

namespace Workshop

/-- The workshop after a constraint was handed out under a name. -/
def handing (name : String) (r : Registered) (shop : Workshop Logbook) : Workshop Logbook :=
  { shop with constraints := (name, r) :: shop.constraints, next := shop.next + 1 }

end Workshop

namespace Errand

theorem runOn_register (address : Address) (call : Call) (name : String) :
    (perform ⟨address, .register call, name⟩).runOn g shop =
      match call.constraint g with
      | .ok c => (.ok (.ok (.constraint ⟨shop.next, c⟩)),
          (shop.handing name ⟨shop.next, c⟩).declared g address (.constraint ⟨shop.next, c⟩))
      | .error fault => (.ok (.error fault), shop) := by
  rw [perform, runOn_attempt]
  dsimp only [rule, Rule.perform]
  rw [runOn_bind, constrain, runOn_bind, runOn_read]
  dsimp only
  rw [runOn_bind]
  cases call.constraint g <;> rfl

theorem runOn_change (address : Address) (handle : String) (change : Change) (name : String) :
    (perform ⟨address, .change handle change, name⟩).runOn g shop =
      match shop.constraints.lookup handle with
      | some r =>
          let new := Chain.copy r (change, shop.next)
          if (shop.draft address).constraints.any (·.number == r.number) then
            (.ok (.ok (.constraint new)),
              (shop.handing name new).declared g address (.replacement r.number new))
          else (.ok (.error .foreignConstraint), { shop with next := shop.next + 1 })
      | none => (.ok (.error .missingKey), shop) := by
  rw [perform, runOn_attempt]
  cases change <;>
  · dsimp only [rule, Rule.perform, constraintOf]
    rw [runOn_bind, runOn_constraintNamed]
    cases shop.constraints.lookup handle with
    | none => rfl
    | some r =>
      dsimp only
      rw [runOn_bind, runOn_replace]
      cases (shop.draft address).constraints.any (·.number == r.number) <;> rfl

end Errand

theorem Errand.perform_erases (errand : Errand) :
    Erases g (errand.perform : Declaring Logbook (Except Fault Product)) errand.perform :=
  (Rule.perform_erases Logbook g errand.rule errand.draft).of_attempt

theorem performErrands_erases (errands : List Errand) :
    Erases g (performErrands errands : Declaring Logbook (List (Except Fault Product)))
      (performErrands errands) := by
  induction errands with
  | nil => exact .of_pure _
  | cons errand errands ih =>
    exact (errand.perform_erases).bind fun _ => ih.bind fun _ => .of_pure _

/-! ## Runs -/

/-- The roster tells what the drafts that were there at the start hold, and what was handed out. -/
structure Roster.Describes (g : ObjectGraph) (start : Workshop Logbook) (roster : Roster)
    (shop : Workshop Logbook) : Prop where
  sound : shop.Sound g
  grows : start.Grows g shop
  listed : ∀ address, start.Has address →
    (shop.draft address).constraints = (roster.on address).map Chain.current
  names : shop.constraints = roster.names
  next : shop.next = roster.next

namespace Roster.Describes

variable (describes : roster.Describes g start shop)

include describes

theorem hand (name : String) (r : Registered) :
    (roster.hand name r).Describes g start (shop.handing name r) where
  sound := @Workshop.Sound.of_same g shop _ rfl rfl describes.sound describes.sound.named
  grows := describes.grows.trans (.of_same rfl rfl)
  listed := describes.listed
  names := congrArg ((name, r) :: ·) describes.names
  next := congrArg (· + 1) describes.next

theorem counted : Describes g start { roster with next := roster.next + 1 }
    { shop with next := shop.next + 1 } where
  sound := @Workshop.Sound.of_same g shop _ rfl rfl describes.sound describes.sound.named
  grows := describes.grows.trans (.of_same rfl rfl)
  listed := describes.listed
  names := describes.names
  next := congrArg (· + 1) describes.next

theorem declared (has : start.Has address) (deed : Draft.Deed)
    (fits : deed.Fits g shop.deeds address) {chains : List Chain}
    (listed : ∀ other, (({ roster with chains } : Roster).on other).map Chain.current =
      if address = other then deed.constraints ((roster.on other).map Chain.current)
      else (roster.on other).map Chain.current) :
    Describes g start { roster with chains } (shop.declared g address deed) where
  sound := Workshop.sound_declared deed describes.sound (describes.grows.has _ has) fits
  grows := describes.grows.trans (Workshop.grows_declared deed (describes.grows.has _ has))
  listed other there := by
    rw [describes.sound.constraints_declared (describes.grows.has _ has) deed fits
      (describes.grows.has _ there), describes.listed other there]
    exact (listed other).symm
  names := describes.names
  next := describes.next

/-- A draft has a constraint if one of its chains ends in it. -/
theorem any_iff_holds (has : start.Has address) (r : Registered) :
    (shop.draft address).constraints.any (·.number == r.number) = true ↔ roster.Holds address r := by
  rw [describes.listed address has]
  simp [Roster.Holds, mem_on, and_assoc]

theorem register (has : start.Has address) (name : String) (c : Constraint) :
    ((roster.begin ⟨address, ⟨roster.next, c⟩, []⟩).hand name ⟨roster.next, c⟩).Describes g start
      ((shop.handing name ⟨roster.next, c⟩).declared g address (.constraint ⟨roster.next, c⟩)) := by
  refine (describes.hand name ⟨roster.next, c⟩).declared has (.constraint _) trivial fun other => ?_
  change ((roster.begin _).on other).map _ = if _ then ((roster.on other).map _) ++ [_]
    else (roster.on other).map _
  rw [on_begin, List.map_append]
  split
  · rfl
  · exact List.append_nil _

theorem change (valid : roster.Valid) (has : start.Has address) (name : String) {handle : String}
    {r : Registered} (handed : (handle, r) ∈ roster.names) (change : Change) :
    let new := Chain.copy r (change, roster.next)
    ((roster.extend address r (change, roster.next)).hand name new).Describes g start
      ((shop.handing name new).declared g address (.replacement r.number new)) := by
  intro new
  refine (describes.hand name new).declared has (.replacement _ new) trivial fun other => ?_
  change ((roster.extend address r _).on other).map _ = if _ then ((roster.on other).map _).map _
    else (roster.on other).map _
  rw [on_extend, List.map_map, List.map_map]
  split
  · next same =>
    refine List.map_congr_left fun chain among => ?_
    obtain ⟨held, is⟩ := mem_on.mp among
    by_cases ends : chain.current.number = r.number
    · have last := valid.agrees _ handed chain held ends
      simp [same, is, Chain.current_extend, last, new]
    · simp [ends]
  · next apart =>
    refine List.map_congr_left fun chain among => ?_
    have elsewhere : chain.draft ≠ address := fun is => apart (is.symm.trans (mem_on.mp among).2)
    simp [elsewhere]

/-- One errand is answered as the roster says, and leaves what the roster says. -/
theorem errand (valid : roster.Valid) (errand : Errand) (has : start.Has errand.draft) : ∃ after,
    errand.perform.runOn g shop = (.ok ((roster.step g errand).1.map Product.constraint), after) ∧
      (roster.step g errand).2.Describes g start after := by
  obtain ⟨draft, request, name⟩ := errand
  obtain ⟨chains, names, next⟩ := roster
  obtain rfl : names = shop.constraints := describes.names.symm
  obtain rfl : next = shop.next := describes.next.symm
  cases request with
  | register call =>
    rw [Errand.runOn_register]
    simp only [Roster.step]
    cases call.constraint g with
    | error fault => exact ⟨shop, rfl, describes⟩
    | ok c => exact ⟨_, rfl, describes.register has name c⟩
  | detached c => exact ⟨_, rfl, describes.hand name ⟨shop.next, c⟩⟩
  | change handle change =>
    rw [Errand.runOn_change]
    simp only [Roster.step]
    cases found : shop.constraints.lookup handle with
    | none => exact ⟨shop, rfl, describes⟩
    | some r =>
      simp only [describes.any_iff_holds has r]
      split
      · exact ⟨_, rfl, describes.change valid has name (Registry.mem_of_lookup found) change⟩
      · exact ⟨_, rfl, describes.counted⟩

/-- Errands are answered one after the other, as the roster says. -/
theorem run (valid : roster.Valid) (errands : List Errand)
    (held : ∀ errand ∈ errands, start.Has errand.draft) : ∃ after,
    (performErrands errands).runOn g shop =
      (.ok ((roster.run g errands).1.map fun reply => reply.map Product.constraint), after) ∧
    (roster.run g errands).2.Describes g start after := by
  induction errands generalizing roster shop with
  | nil => exact ⟨shop, rfl, describes⟩
  | cons errand errands ih =>
    obtain ⟨has, later⟩ := List.forall_mem_cons.mp held
    obtain ⟨between, answered, describes⟩ := describes.errand valid errand has
    obtain ⟨after, ran, describes⟩ := ih describes (valid.step g errand) later
    refine ⟨after, ?_, describes⟩
    rw [performErrands, runOn_bind_of_ok answered, runOn_bind_of_ok ran]
    rfl

end Roster.Describes

namespace Roster

theorem run_append (errands more : List Errand) :
    (roster.run g (errands ++ more)).2 = ((roster.run g errands).2.run g more).2 := by
  induction errands generalizing roster with
  | nil => rfl
  | cons errand errands ih => exact ih

/-- What is registered. -/
theorem on_register {call : Call} {c : Constraint} (made : call.constraint g = .ok c)
    (address other : Address) (name : String) :
    ((roster.run g [⟨address, .register call, name⟩]).2.on other).map (·.current.constraint) =
      (roster.on other).map (·.current.constraint) ++ if address = other then [c] else [] := by
  have ran : (roster.run g [⟨address, .register call, name⟩]).2.on other =
      (roster.begin ⟨address, ⟨roster.next, c⟩, []⟩).on other := by
    simp only [Roster.run, Roster.step, made]
    rfl
  rw [ran, on_begin, List.map_append]
  split <;> rfl

namespace Valid

variable (valid : roster.Valid)

include valid

/-- A constraint stands at one place of one draft. -/
theorem place_eq {a b : Address} {i j : Nat} {c d : Chain} (first : (roster.on a)[i]? = some c)
    (second : (roster.on b)[j]? = some d) (same : c.current.number = d.current.number) :
    a = b ∧ i = j := by
  obtain ⟨held, is⟩ := mem_on.mp (List.mem_of_getElem? first)
  obtain ⟨held', is'⟩ := mem_on.mp (List.mem_of_getElem? second)
  obtain rfl := valid.eq_of_number held held' same
  obtain rfl := is.symm.trans is'
  have nodup : roster.chains.Nodup :=
    valid.distinct.imp fun differ is => differ (congrArg (·.current.number) is)
  refine ⟨rfl, (List.getElem?_inj (List.getElem?_eq_some_iff.mp first).1 (nodup.filter _)).mp ?_⟩
  rw [first, second]

/-- What is registered and changed at once. -/
theorem on_register_change {call : Call} {c : Constraint} (made : call.constraint g = .ok c)
    (address other : Address) (name : String) (change : Change) :
    ((roster.run g [⟨address, .register call, name⟩, ⟨address, .change name change, name⟩]).2.on
        other).map (·.current.constraint) =
      (roster.on other).map (·.current.constraint) ++
        if address = other then [change.apply c] else [] := by
  let r : Registered := ⟨roster.next, c⟩
  let chain : Chain := ⟨address, r, []⟩
  let begun := (roster.begin chain).hand name r
  have found : begun.names.lookup name = some r := by simp [begun, hand]
  have held : begun.Holds address r := ⟨chain, by simp [begun, hand, begin], rfl, rfl⟩
  have stepped : (roster.step g ⟨address, .register call, name⟩).2 = begun := by
    simp only [Roster.step, made]
    rfl
  have changed : (begun.step g ⟨address, .change name change, name⟩).2.on other =
      (begun.extend address r (change, begun.next)).on other := by
    simp only [Roster.step, found, if_pos held]
    rfl
  have ran : (roster.run g [⟨address, .register call, name⟩, ⟨address, .change name change, name⟩]).2 =
      ((roster.step g ⟨address, .register call, name⟩).2.step g
        ⟨address, .change name change, name⟩).2 := rfl
  rw [ran, stepped, changed, on_extend]
  change (((roster.begin chain).on other).map _).map _ = _
  rw [on_begin, List.map_append, List.map_append, List.map_map]
  congr 1
  · -- The chains that were there end in older constraints.
    refine List.map_congr_left fun old among => ?_
    have older := Nat.ne_of_lt (valid.below old (mem_on.mp among).1)
    simp [r, older]
  · split
    · rw [List.map_singleton, List.map_singleton, if_pos ⟨rfl, rfl⟩, Chain.current_extend]
      rfl
    · rfl

end Valid

end Roster

theorem Registered.map_replace_eq_set {rs : List Registered} {i : Nat} {r : Registered}
    (held : rs[i]? = some r)
    (distinct : ∀ (j : Nat) s, rs[j]? = some s → s.number = r.number → i = j) (new : Registered) :
    rs.map (fun s => if s.number == r.number then new else s) = rs.set i new := by
  refine List.ext_getElem? fun j => ?_
  rw [List.getElem?_map, List.getElem?_set]
  split
  · next same =>
    subst same
    obtain ⟨inside, rfl⟩ := List.getElem?_eq_some_iff.mp held
    simp [inside]
  · next other =>
    cases there : rs[j]? with
    | none => rfl
    | some s =>
      have differs : s.number ≠ r.number := fun same => other (distinct j s there same)
      simp [differs]

namespace Roster

/-- Every chain begins with a constraint that reports errors. -/
theorem isError_origin {next : Nat} {errands : List Errand} {chain : Chain}
    (among : chain ∈ (run g errands { next }).2.chains) : chain.origin.constraint.isError = true := by
  have first := List.mem_map_of_mem (f := (·.origin.constraint)) (mem_on.mpr ⟨among, rfl⟩)
  rw [origins_run] at first
  obtain ⟨⟨draft, request, name⟩, -, is⟩ := List.mem_filterMap.mp first
  cases request with
  | register call =>
    simp only [Errand.registered?] at is
    split at is
    · cases made : call.constraint g with
      | error fault =>
        rw [made] at is
        cases is
      | ok c =>
        rw [made] at is
        exact Erring.constraint g call _ (Option.some.inj is ▸ made)
    · cases is
  | detached c => cases is
  | change handle change => cases is

namespace Describes

variable (describes : roster.Describes g start shop) (valid : roster.Valid)

include describes valid

/-- A constraint stands at one place of one of the drafts that were there. -/
theorem place_eq {a b : Address} (hasA : start.Has a) (hasB : start.Has b) {i j : Nat}
    {r s : Registered} (first : (shop.draft a).constraints[i]? = some r)
    (second : (shop.draft b).constraints[j]? = some s) (same : r.number = s.number) :
    a = b ∧ i = j := by
  rw [describes.listed a hasA, List.getElem?_map, Option.map_eq_some_iff] at first
  rw [describes.listed b hasB, List.getElem?_map, Option.map_eq_some_iff] at second
  obtain ⟨c, first, rfl⟩ := first
  obtain ⟨d, second, rfl⟩ := second
  exact valid.place_eq first second same

/-- A change of the last constraint of a chain of the draft puts a copy in its place; any other
change is refused and leaves the drafts alone. -/
theorem answers_change (has : start.Has address) {handle : String} {r : Registered}
    (found : shop.constraints.lookup handle = some r) (change : Change) (name : String) :
    let answered := (Errand.perform ⟨address, .change handle change, name⟩).runOn g shop
    let new := Chain.copy r (change, shop.next)
    (roster.Holds address r → answered.1 = .ok (.ok (.constraint new)) ∧
      ∃ i, (shop.draft address).constraints[i]? = some r ∧ ∀ other, start.Has other →
        (answered.2.draft other).constraints =
          if address = other then (shop.draft other).constraints.set i new
          else (shop.draft other).constraints) ∧
    (¬ roster.Holds address r → answered.1 = .ok (.error .foreignConstraint) ∧
      answered.2.drafts = shop.drafts) := by
  intro answered new
  have answer : answered = if (shop.draft address).constraints.any (·.number == r.number) then
      (.ok (.ok (.constraint new)),
        (shop.handing name new).declared g address (.replacement r.number new))
      else (.ok (.error .foreignConstraint), { shop with next := shop.next + 1 }) := by
    simp only [answered, Errand.runOn_change, found]
    rfl
  have any := describes.any_iff_holds has r
  refine ⟨fun held => ?_, fun apart => ?_⟩
  · rw [if_pos (any.mpr held)] at answer
    obtain ⟨chain, among, here, ends⟩ := held
    have last : chain.current = r :=
      valid.agrees _ (describes.names ▸ Registry.mem_of_lookup found) chain among ends
    obtain ⟨i, there⟩ := List.mem_iff_getElem?.mp (mem_on.mpr ⟨among, here⟩)
    have stands : (shop.draft address).constraints[i]? = some r := by
      rw [describes.listed address has, List.getElem?_map, there]
      exact congrArg some last
    refine ⟨by rw [answer], i, stands, fun other known => ?_⟩
    have grown := (describes.hand name new).sound.constraints_declared
      (describes.grows.has _ has) (.replacement r.number new) trivial
      (describes.grows.has _ known)
    rw [answer, grown]
    split
    · next same =>
      subst same
      exact Registered.map_replace_eq_set stands (fun j s found same =>
        (describes.place_eq valid has has stands found same.symm).2) new
    · rfl
  · rw [if_neg (mt any.mp apart)] at answer
    exact ⟨by rw [answer], by rw [answer]⟩

end Describes

end Roster

namespace Call

/-- A call that bounds a number by zero and has a message of its own. -/
def signed (negative allowZero : Bool) : Call :=
  { name := if negative then "negative" else "positive", positional := [.bool allowZero] }

def signedMessage (negative allowZero : Bool) : String :=
  (if negative then "must be negative" else "must be positive") ++ if allowZero then " or 0" else ""

/-- The bound alone. -/
def limited (negative allowZero : Bool) : Call :=
  { name := if negative then "maximum" else "minimum", positional := [.int 0, .bool !allowZero] }

theorem constraint_signed (negative allowZero : Bool) : ∃ c,
    (limited negative allowZero).constraint g = .ok c ∧
      (signed negative allowZero).constraint g =
        .ok ((Change.hint (signedMessage negative allowZero)).apply c) := by
  cases negative <;> cases allowZero <;> exact ⟨_, rfl, rfl⟩

end Call

/-- Constraints are registered, made apart and changed in any order, on drafts that hold none at the
start.  Every call is answered as the roster says.  Each draft holds the last constraints of its
chains, which begin with what was registered on it, in order; they have the tests and the template
values of the registered ones, the messages given last, and are warnings if they were turned into
warnings at some time.  No constraint stands at two places.  A change succeeds if it is asked for
the last constraint of a chain of its draft, which the copy replaces; otherwise it is refused, and
no draft changes.  A call that bounds a number by zero does the same as the bound alone, the message
of which is changed at once. -/
theorem changes_follow_chains (sound : start.Sound g) (unnamed : start.constraints = [])
    (bare : ∀ address, start.Has address → (start.draft address).constraints = [])
    (errands : List Errand) (held : ∀ errand ∈ errands, start.Has errand.draft) :
    let roster := (Roster.run g errands { next := start.next }).2
    let answers := (Roster.run g errands { next := start.next }).1
    ∃ shop, (performErrands errands).runOn g start.erased =
        (.ok (answers.map fun answer => answer.map Product.constraint), shop) ∧
      (∀ address, start.Has address →
        (shop.draft address).constraints = (roster.on address).map Chain.current ∧
        (roster.on address).map (·.origin.constraint) =
          errands.filterMap (Errand.registered? g address)) ∧
      (∀ chain ∈ roster.chains,
        chain.current.constraint.test = chain.origin.constraint.test ∧
        chain.current.constraint.templates = chain.origin.constraint.templates ∧
        chain.current.constraint.hint = chain.message ∧
        (chain.current.constraint.isError = false ↔ chain.warns = true)) ∧
      (∀ a b, start.Has a → start.Has b → ∀ (i j : Nat) r s,
        (shop.draft a).constraints[i]? = some r → (shop.draft b).constraints[j]? = some s →
          r.number = s.number → a = b ∧ i = j) ∧
      (∀ address, start.Has address → ∀ handle r,
        shop.constraints.lookup handle = some r → ∀ change name,
          let answered := (Errand.perform ⟨address, .change handle change, name⟩).runOn g shop
          let new := Chain.copy r (change, shop.next)
          (roster.Holds address r → answered.1 = .ok (.ok (.constraint new)) ∧
            ∃ i, (shop.draft address).constraints[i]? = some r ∧ ∀ other, start.Has other →
              (answered.2.draft other).constraints =
                if address = other then (shop.draft other).constraints.set i new
                else (shop.draft other).constraints) ∧
          (¬ roster.Holds address r → answered.1 = .ok (.error .foreignConstraint) ∧
            answered.2.drafts = shop.drafts)) ∧
      (∀ address, start.Has address → ∀ negative allowZero name other, start.Has other →
        let whole := (performErrands
          (errands ++ [⟨address, .register (.signed negative allowZero), name⟩])).runOn g
            start.erased
        let steps := (performErrands
          (errands ++ [⟨address, .register (.limited negative allowZero), name⟩,
            ⟨address, .change name (.hint (Call.signedMessage negative allowZero)), name⟩])).runOn
              g start.erased
        (whole.2.draft other).constraints.map (·.constraint) =
          (steps.2.draft other).constraints.map (·.constraint)) := by
  intro roster answers
  have begins : Roster.Describes g start { next := start.next } start :=
    ⟨sound, .refl start, bare, unnamed, rfl⟩
  have valid : roster.Valid := (Roster.Valid.empty start.next).run g errands
  obtain ⟨shop, ran, describes⟩ := begins.run (.empty start.next) errands held
  refine ⟨shop.erased, by rw [performErrands_erases errands start, ran],
    fun address has => ⟨describes.listed address has, ?_⟩, fun chain among => ?_,
    fun a b hasA hasB i j r s => describes.place_eq valid hasA hasB,
    fun address has handle r found change name => ?_,
    fun address has negative allowZero name other there => ?_⟩
  · exact Roster.origins_run errands address
  · have isError := Roster.isError_origin among
    rw [chain.current_constraint]
    simp [isError]
  · rw [Errand.perform_erases _ shop]
    exact describes.answers_change valid has found change name
  · obtain ⟨c, made, whole⟩ := Call.constraint_signed (g := g) negative allowZero
    have lasts (more : List Errand) (heldMore : ∀ errand ∈ more, start.Has errand.draft) :
        (((performErrands (errands ++ more)).runOn g start.erased).2.draft other).constraints.map
          (·.constraint) = ((roster.run g more).2.on other).map (·.current.constraint) := by
      obtain ⟨after, ran, describes⟩ := begins.run (.empty start.next) (errands ++ more)
        fun errand among => (List.mem_append.mp among).elim (held errand) (heldMore errand)
      rw [performErrands_erases (errands ++ more) start, ran, Workshop.erased_draft,
        describes.listed other there, Roster.run_append, List.map_map]
      rfl
    dsimp only
    rw [lasts _ (by simpa using has), lasts _ (by simpa using has),
      valid.on_register_change made, Roster.on_register whole]

/-- A draft with another in it, and a separate one. -/
def threeDrafts {Log : Type} [Journal Log] : Declaring Log Unit := do
  let first ← addDraft { anyOf := false, shortCircuit := false }
  let _ ← enter first { path := { target := .property "name" Extract.nothing } }
  let _ ← addDraft { anyOf := true, shortCircuit := true }

/-- A constraint is changed twice; what it was in between, a constraint of another draft and one that
was made apart can not be changed. -/
def changedTwice : List Errand :=
  let first : Address := { root := 0 }
  let inner : Address := { root := 0, positions := [0] }
  let second : Address := { root := 1 }
  [⟨first, .register { name := "is_none" }, "null"⟩,
    ⟨inner, .register { name := "positive" }, "positive"⟩,
    ⟨first, .change "null" .warning, "warning"⟩,
    ⟨first, .change "null" (.hint "late"), "late"⟩,
    ⟨second, .change "warning" (.hint "foreign"), "foreign"⟩,
    ⟨first, .detached { hint := "free", test := fun _ => pure true }, "free"⟩,
    ⟨first, .change "free" .warning, "freed"⟩,
    ⟨first, .change "warning" (.hint "should be empty"), "last"⟩]

theorem changes_follow_chains_of_changedTwice :
    let start := (threeDrafts.runOn {} {}).2
    let shown (rs : List Registered) := rs.map fun r => (r.constraint.hint, r.constraint.isError)
    ∃ answers shop, (performErrands changedTwice).runOn {} start = (.ok answers, shop) ∧
      answers.map (·.isOk) = [true, true, true, false, false, true, false, true] ∧
      shown (shop.draft { root := 0 }).constraints = [("should be empty", false)] ∧
      shown (shop.draft { root := 0, positions := [0] }).constraints =
        [("must be positive", true)] ∧
      shown (shop.draft { root := 1 }).constraints = [] := by
  intro start shown
  let logged : Workshop Logbook := (threeDrafts.runOn {} {}).2
  have safe : threeDrafts.Safe {} ({} : Workshop Logbook) := by
    refine (addDraft_keeps (Workshop.sound_empty {}) false false).bind
      fun first _ sound _ there => ?_
    refine (enter_keeps sound there.2.1 _).bind fun _ _ sound _ _ => ?_
    exact (addDraft_keeps sound true true).bind fun _ _ sound _ _ => .of_pure sound trivial
  have sound : logged.Sound {} := safe.sound
  have first : logged.Has { root := 0 } := ⟨_, rfl, rfl⟩
  have inner : logged.Has { root := 0, positions := [0] } := ⟨_, rfl, rfl⟩
  have second : logged.Has { root := 1 } := ⟨_, rfl, rfl⟩
  have held : ∀ errand ∈ changedTwice, logged.Has errand.draft := by
    simp [changedTwice, first, inner, second]
  have bare : ∀ address, logged.Has address → (logged.draft address).constraints = [] := by
    intro address there
    rw [sound.constraints_eq there]
    change Draft.constraintsOf (Logbook.onDraft address [({ root := 0 }, .step _ 0)]) = []
    rw [Logbook.onDraft_singleton]
    split <;> rfl
  obtain ⟨shop, ran, listed, -⟩ := changes_follow_chains sound rfl bare changedTwice held
  refine ⟨_, shop, ran, by decide, ?_, ?_, ?_⟩
  · rw [(listed _ first).1]
    decide
  · rw [(listed _ inner).1]
    decide
  · rw [(listed _ second).1]
    decide

end PathRules
