import Mathlib.Data.List.Induction
import Mathlib.Data.List.Nodup
import PathRules.Declaration.Perform
import PathRules.Proofs.Model.Material

/-!
# Chains of changed constraints

A constraint that was registered on a draft can be given another message or be turned into a
warning.  Each change makes a copy with an identity of its own, which takes the place of what was
there; what was there before can not be changed any more.  A registration and its changes are a
chain, and a roster keeps the chains of all drafts.  It says what a call is answered with and what
the drafts hold, without a look at them.

The changes are `hint` and `as_warning`.
-/

namespace PathRules

/-- A change of a registered constraint. -/
inductive Change
  | hint (message : String)
  | warning

namespace Change

def apply (c : Constraint) : Change → Constraint
  | .hint message => c.withHint message
  | .warning => c.asWarning

def message? : Change → Option String
  | .hint message => some message
  | .warning => none

def isWarning : Change → Bool
  | .hint _ => false
  | .warning => true

end Change

/-- A registration on a draft, with the changes that were made since; each of them comes with the
number of the copy that it made. -/
structure Chain where
  draft : Address
  origin : Registered
  changes : List (Change × Nat) := []

namespace Chain

/-- The changed copy of a constraint. -/
def copy (r : Registered) (change : Change × Nat) : Registered :=
  ⟨change.2, change.1.apply r.constraint⟩

/-- The last constraint of a chain. -/
def current (chain : Chain) : Registered := chain.changes.foldl copy chain.origin

def extend (change : Change × Nat) (chain : Chain) : Chain :=
  { chain with changes := chain.changes ++ [change] }

theorem current_extend (change : Change × Nat) (chain : Chain) :
    (chain.extend change).current = copy chain.current change := by
  simp [current, extend]

/-- The message that was given last. -/
def message (chain : Chain) : String :=
  (chain.changes.filterMap (·.1.message?)).getLast?.getD chain.origin.constraint.hint

/-- Whether some change turned the constraint into a warning. -/
def warns (chain : Chain) : Bool := chain.changes.any (·.1.isWarning)

/-- The last constraint of a chain has the test and the template values of the registered one, the
message that was given last, and is a warning if it was turned into one at any time. -/
theorem current_constraint (chain : Chain) : chain.current.constraint =
    { chain.origin.constraint with
      hint := chain.message
      isError := chain.origin.constraint.isError && !chain.warns } := by
  obtain ⟨draft, origin, changes⟩ := chain
  induction changes using List.reverseRecOn with
  | nil => simp [current, message, warns]
  | append_singleton changes change ih =>
    obtain ⟨change, number⟩ := change
    have last := current_extend (change, number) ⟨draft, origin, changes⟩
    rw [extend] at last
    rw [last, copy, ih]
    cases change <;>
      simp [Change.apply, Constraint.withHint, Constraint.asWarning, message, warns,
        Change.message?, Change.isWarning]

end Chain

/-! ## Errands -/

/-- What a draft is asked for. -/
inductive Request
  | register (call : Call)
  /-- Makes a constraint that belongs to no draft. -/
  | detached (c : Constraint)
  /-- Changes the constraint that was handed out under a name. -/
  | change (handle : String) (change : Change)

/-- A request to a draft, and the name under which the constraint is handed out that comes of it. -/
structure Errand where
  draft : Address
  request : Request
  name : String

namespace Errand

def rule (errand : Errand) : Rule :=
  match errand.request with
  | .register call => .constrain call (some errand.name)
  | .detached c => .detached errand.name c
  | .change handle (.hint message) => .hint (.named handle) message (some errand.name)
  | .change handle .warning => .warn (.named handle) (some errand.name)

/-- Performs the rule; a fault ends the errand alone. -/
def perform {Log : Type} [Journal Log] (errand : Errand) : Declaring Log (Except Fault Product) :=
  Declaring.attempt (errand.rule.perform errand.draft)

/-- The constraint that is registered on a draft, if the errand registers one there. -/
def registered? (g : ObjectGraph) (address : Address) (errand : Errand) : Option Constraint :=
  match errand.request with
  | .register call => if errand.draft = address then (call.constraint g).toOption else none
  | _ => none

end Errand

def performErrands {Log : Type} [Journal Log] :
    List Errand → Declaring Log (List (Except Fault Product))
  | [] => pure []
  | errand :: errands => do
      let reply ← errand.perform
      let replies ← performErrands errands
      pure (reply :: replies)

/-! ## Rosters -/

structure Roster where
  /-- The chains of all drafts, in order of registration. -/
  chains : List Chain := []
  /-- The constraints that were handed out. -/
  names : List (String × Registered) := []
  /-- The next number for a constraint. -/
  next : Nat

namespace Roster

/-- The chains of a draft. -/
def on (roster : Roster) (address : Address) : List Chain :=
  roster.chains.filter fun chain => decide (chain.draft = address)

/-- Whether a constraint is the last one of a chain of the draft. -/
def Holds (roster : Roster) (address : Address) (r : Registered) : Prop :=
  ∃ chain ∈ roster.chains, chain.draft = address ∧ chain.current.number = r.number

instance (roster : Roster) (address : Address) (r : Registered) :
    Decidable (roster.Holds address r) :=
  inferInstanceAs (Decidable (∃ chain ∈ roster.chains, _ ∧ _))

/-- A constraint is handed out. -/
def hand (name : String) (r : Registered) (roster : Roster) : Roster :=
  { roster with names := (name, r) :: roster.names, next := roster.next + 1 }

def begin (chain : Chain) (roster : Roster) : Roster :=
  { roster with chains := roster.chains ++ [chain] }

/-- The chain of the draft that ends in `r` is extended. -/
def extend (address : Address) (r : Registered) (change : Change × Nat) (roster : Roster) :
    Roster :=
  { roster with chains := roster.chains.map fun chain =>
      if chain.draft = address ∧ chain.current.number = r.number then chain.extend change
      else chain }

/-- What comes of an errand. -/
def step (g : ObjectGraph) (errand : Errand) (roster : Roster) : Except Fault Registered × Roster :=
  match errand.request with
  | .register call =>
      match call.constraint g with
      | .ok c =>
          let r : Registered := ⟨roster.next, c⟩
          (.ok r, (roster.begin ⟨errand.draft, r, []⟩).hand errand.name r)
      | .error fault => (.error fault, roster)
  | .detached c =>
      let r : Registered := ⟨roster.next, c⟩
      (.ok r, roster.hand errand.name r)
  | .change handle change =>
      match roster.names.lookup handle with
      | some r =>
          if roster.Holds errand.draft r then
            let new := Chain.copy r (change, roster.next)
            (.ok new, (roster.extend errand.draft r (change, roster.next)).hand errand.name new)
          else (.error .foreignConstraint, { roster with next := roster.next + 1 })
      | none => (.error .missingKey, roster)

def run (g : ObjectGraph) : List Errand → Roster → List (Except Fault Registered) × Roster
  | [], roster => ([], roster)
  | errand :: errands, roster =>
      let (reply, roster) := roster.step g errand
      let (replies, roster) := run g errands roster
      (reply :: replies, roster)

variable {g : ObjectGraph} {roster : Roster}

theorem mem_on {chain : Chain} {address : Address} :
    chain ∈ roster.on address ↔ chain ∈ roster.chains ∧ chain.draft = address := by
  simp [on]

theorem on_begin (chain : Chain) (address : Address) :
    (roster.begin chain).on address =
      roster.on address ++ if chain.draft = address then [chain] else [] := by
  simp only [on, begin, List.filter_append]
  split <;> simp_all

/-- No chain leaves its draft. -/
theorem on_extend (address other : Address) (r : Registered) (change : Change × Nat) :
    (roster.extend address r change).on other = (roster.on other).map fun chain =>
      if chain.draft = address ∧ chain.current.number = r.number then chain.extend change
      else chain := by
  rw [on, extend, List.filter_map]
  refine congrArg _ (List.filter_congr fun chain _ => ?_)
  dsimp only [Function.comp]
  split <;> rfl

/-! ### Registrations -/

theorem origins_step (errand : Errand) (address : Address) :
    ((roster.step g errand).2.on address).map (·.origin.constraint) =
      (roster.on address).map (·.origin.constraint) ++ (errand.registered? g address).toList := by
  obtain ⟨draft, request, name⟩ := errand
  cases request with
  | register call =>
    simp only [step, Errand.registered?]
    cases call.constraint g with
    | error fault => simp [Except.toOption]
    | ok c =>
      change ((roster.begin _).on address).map _ = _
      rw [on_begin]
      split <;> simp [Except.toOption]
  | detached c => simp [step, Errand.registered?, hand, on]
  | change handle change =>
    simp only [step, Errand.registered?, Option.toList_none, List.append_nil]
    split
    · split
      · change ((roster.extend draft _ _).on address).map _ = _
        rw [on_extend, List.map_map]
        refine List.map_congr_left fun chain _ => ?_
        dsimp only [Function.comp]
        split <;> rfl
      · rfl
    · rfl

/-- The chains of a draft begin with what was registered there, in order. -/
theorem origins_run (errands : List Errand) (address : Address) :
    ((roster.run g errands).2.on address).map (·.origin.constraint) =
      (roster.on address).map (·.origin.constraint) ++
        errands.filterMap (Errand.registered? g address) := by
  induction errands generalizing roster with
  | nil => simp [run]
  | cons errand errands ih =>
    change ((run g errands (roster.step g errand).2).2.on address).map _ = _
    rw [ih, origins_step, List.append_assoc]
    cases found : errand.registered? g address <;> simp [found]

/-! ### Identities -/

/-- A roster whose chains end in different constraints, all of them older than the next one, and
which are what was handed out under their numbers. -/
structure Valid (roster : Roster) : Prop where
  distinct : roster.chains.Pairwise fun a b => a.current.number ≠ b.current.number
  below : ∀ chain ∈ roster.chains, chain.current.number < roster.next
  handed : ∀ entry ∈ roster.names, entry.2.number < roster.next
  agrees : ∀ entry ∈ roster.names, ∀ chain ∈ roster.chains,
    chain.current.number = entry.2.number → chain.current = entry.2

namespace Valid

theorem empty (next : Nat) : Valid { next } := ⟨.nil, nofun, nofun, nofun⟩

variable (valid : roster.Valid)

include valid

/-- A chain is found by the number of its last constraint. -/
theorem eq_of_number {a b : Chain} (ha : a ∈ roster.chains) (hb : b ∈ roster.chains)
    (same : a.current.number = b.current.number) : a = b :=
  List.inj_on_of_nodup_map (List.pairwise_map.mpr valid.distinct) ha hb same

theorem counted : Valid { roster with next := roster.next + 1 } where
  distinct := valid.distinct
  below chain among := Nat.lt_succ_of_lt (valid.below chain among)
  handed entry among := Nat.lt_succ_of_lt (valid.handed entry among)
  agrees := valid.agrees

/-- A new constraint is handed out that no chain ends in. -/
theorem detach (name : String) (c : Constraint) : (roster.hand name ⟨roster.next, c⟩).Valid where
  distinct := valid.distinct
  below := valid.counted.below
  handed entry among := by
    rcases List.mem_cons.mp among with rfl | old
    · exact Nat.lt_succ_self _
    · exact valid.counted.handed entry old
  agrees entry among chain held same := by
    rcases List.mem_cons.mp among with rfl | old
    · exact absurd same (Nat.ne_of_lt (valid.below chain held))
    · exact valid.agrees entry old chain held same

theorem register (name : String) (address : Address) (c : Constraint) :
    ((roster.begin ⟨address, ⟨roster.next, c⟩, []⟩).hand name ⟨roster.next, c⟩).Valid where
  distinct := by
    refine List.pairwise_append.mpr ⟨valid.distinct, List.pairwise_singleton _ _, ?_⟩
    intro chain held new is
    rw [List.mem_singleton.mp is]
    exact Nat.ne_of_lt (valid.below chain held)
  below chain among := by
    rcases List.mem_append.mp among with old | new
    · exact valid.counted.below chain old
    · rw [List.mem_singleton.mp new]
      exact Nat.lt_succ_self _
  handed := (valid.detach name c).handed
  agrees entry among chain held same := by
    rcases List.mem_append.mp held with old | new
    · exact (valid.detach name c).agrees entry among chain old same
    · rw [List.mem_singleton.mp new] at same ⊢
      rcases List.mem_cons.mp among with rfl | handed
      · rfl
      · exact absurd same.symm (Nat.ne_of_lt (valid.handed entry handed))

/-- A copy takes the place of the last constraint of a chain. -/
theorem change (name : String) (address : Address) {handle : String} {r : Registered}
    (handed : (handle, r) ∈ roster.names) (change : Change) :
    ((roster.extend address r (change, roster.next)).hand name
      (Chain.copy r (change, roster.next))).Valid where
  distinct := by
    refine List.pairwise_map.mpr (valid.distinct.imp_of_mem fun {a b} ha hb differ => ?_)
    have older := Nat.ne_of_lt (valid.below a ha)
    have older' := Nat.ne_of_lt (valid.below b hb)
    split <;> split
    · rename_i first second
      exact absurd (first.2.trans second.2.symm) differ
    · rw [Chain.current_extend]
      exact older'.symm
    · rw [Chain.current_extend]
      exact older
    · exact differ
  below chain among := by
    obtain ⟨old, held, rfl⟩ := List.mem_map.mp among
    split
    · rw [Chain.current_extend]
      exact Nat.lt_succ_self _
    · exact valid.counted.below old held
  handed entry among := by
    rcases List.mem_cons.mp among with rfl | old
    · exact Nat.lt_succ_self _
    · exact valid.counted.handed entry old
  agrees entry among chain held same := by
    obtain ⟨old, there, rfl⟩ := List.mem_map.mp held
    split at same
    · next ends =>
      rw [if_pos ends]
      rw [Chain.current_extend] at same ⊢
      rcases List.mem_cons.mp among with rfl | earlier
      · rw [valid.agrees _ handed old there ends.2]
      · exact absurd same.symm (Nat.ne_of_lt (valid.handed entry earlier))
    · next other =>
      rw [if_neg other]
      rcases List.mem_cons.mp among with rfl | earlier
      · exact absurd same (Nat.ne_of_lt (valid.below old there))
      · exact valid.agrees entry earlier old there same

/-- No errand makes two chains end in one constraint. -/
theorem step (g : ObjectGraph) (errand : Errand) : (roster.step g errand).2.Valid := by
  obtain ⟨draft, request, name⟩ := errand
  cases request with
  | register call =>
    simp only [Roster.step]
    split
    · exact valid.register name draft _
    · exact valid
  | detached c => exact valid.detach name c
  | change handle change =>
    simp only [Roster.step]
    split
    · next r found =>
      split
      · exact valid.change name draft (Registry.mem_of_lookup found) change
      · exact valid.counted
    · exact valid

theorem run (g : ObjectGraph) (errands : List Errand) : (roster.run g errands).2.Valid := by
  induction errands generalizing roster with
  | nil => exact valid
  | cons errand errands ih => exact ih (valid.step g errand)

end Valid

end Roster

end PathRules
