import PathRules.Proofs.Model.CycleGuard
import PathRules.Proofs.Run.Turns
import PathRules.Proofs.Value.Parts

/-!
# Entries of maps

A group of steps to the entries of keys checks the entries of a map one after the other, each
below its own step: `EntriesChecked` tells how that went, from run to run.  A key that the map
does not have raises a fault, and a group that stops at the first failure leaves the rest of the
keys alone.
-/

namespace PathRules

variable {g : ObjectGraph} {expand : Expand}

/-- The step to the entry of a key, with rules for the entry. -/
def Validation.entryStep (g : ObjectGraph) (part : Value × Validation) : Validation :=
  .step .undefined [] (.ofKey g part.1) part.2

/-- How the rules for a value came out that were evaluated once, below a step from a place. -/
inductive Below (g : ObjectGraph) (expand : Expand) (rules : Validation) (v : Value)
    (target : Segment) (place : DataPath) (run : Run) : Ending → Run → Prop
  | returned {below : Stack} {mid : Run} {passed : Bool} {child : Option (Node Leaf)} :
      below.place = place →
      (rules.evaluate expand v).runOn g { run with stack := below.push (.path ⟨target, []⟩ none) } =
        (.ok passed, { mid with stack := below.push (.path ⟨target, []⟩ child) }) →
      Below g expand rules v target place run
        (.complete passed (Node.leavesAt (place.snoc target) child.toList)) mid
  | raised {below : Stack} {after : Run} {fault : Fault} :
      below.place = place →
      (rules.evaluate expand v).runOn g { run with stack := below.push (.path ⟨target, []⟩ none) } =
        (.error fault, after) →
      Below g expand rules v target place run
        (.stopped ⟨rules, v, place.snoc target⟩ (some fault)) after
  | disordered {below : Stack} {after : Run} {passed : Bool} :
      below.place = place →
      (rules.evaluate expand v).runOn g { run with stack := below.push (.path ⟨target, []⟩ none) } =
        (.ok passed, after) →
      (∀ child, after.stack ≠ below.push (.path ⟨target, []⟩ child)) →
      Below g expand rules v target place run (.stopped ⟨rules, v, place.snoc target⟩ none) after

/-- How the entries of a map were checked, key by key, each with its rules. -/
inductive EntriesChecked (g : ObjectGraph) (expand : Expand) (pairs : List (Value × Value))
    (short : Bool) (place : DataPath) : List (Value × Validation) → Run → Ending → Run → Prop
  | done (run : Run) (stack : Stack) :
      EntriesChecked g expand pairs short place [] run (.complete true []) { run with stack }
  /-- The map has no entry for the key. -/
  | absent {key : Value} {rules : Validation} {parts : List (Value × Validation)} (run : Run)
      (stack : Stack) :
      Value.lookupPair g pairs key = none →
      EntriesChecked g expand pairs short place ((key, rules) :: parts) run
        (.stopped ⟨rules, .map pairs, place⟩ (some (.noMapping (key.quoted g)))) { run with stack }
  | next {key value : Value} {rules : Validation} {parts : List (Value × Validation)}
      {run mid after : Run} {passed : Bool} {leaves : List Placed} {ending : Ending} :
      Value.lookupPair g pairs key = some value →
      Below g expand rules (.entry key value) (.ofKey g key) place run (.complete passed leaves)
        mid →
      (short = true → passed = true) →
      EntriesChecked g expand pairs short place parts mid ending after →
      EntriesChecked g expand pairs short place ((key, rules) :: parts) run
        (ending.since passed leaves) after
  /-- The entry was rejected and the first failure counts, or the rules did not come to an end. -/
  | ended {key value : Value} {rules : Validation} {parts : List (Value × Validation)}
      {run after : Run} {ending : Ending} :
      Value.lookupPair g pairs key = some value →
      Below g expand rules (.entry key value) (.ofKey g key) place run ending after →
      (∀ passed leaves, ending = .complete passed leaves → short = true ∧ passed = false) →
      EntriesChecked g expand pairs short place ((key, rules) :: parts) run ending after

/-- Below a step, a validation returns and leaves the open nodes as it found them, but for what it
attaches to the step. -/
def Validation.ReturnsBelow (g : ObjectGraph) (expand : Expand) (rules : Validation) (v : Value)
    (target : Segment) : Prop :=
  ∀ (run : Run) (below : Stack), ∃ passed child, ∃ mid : Run,
    (rules.evaluate expand v).runOn g { run with stack := below.push (.path ⟨target, []⟩ none) } =
      (.ok passed, { mid with stack := below.push (.path ⟨target, []⟩ child) })

namespace Below

variable {rules : Validation} {v : Value} {target : Segment} {place : DataPath} {run after : Run}
  {ending : Ending}

/-- The stack of the run does not matter. -/
theorem of_stack {stack : Stack}
    (h : Below g expand rules v target place { run with stack } ending after) :
    Below g expand rules v target place run ending after := by
  cases h with
  | returned at_ ran => exact .returned at_ ran
  | raised at_ ran => exact .raised at_ ran
  | disordered at_ ran kept => exact .disordered at_ ran kept

/-- Rules that return come to an end. -/
theorem complete (h : Below g expand rules v target place run ending after)
    (returns : rules.ReturnsBelow g expand v target) :
    ∃ passed leaves, ending = .complete passed leaves := by
  cases h with
  | returned => exact ⟨_, _, rfl⟩
  | @raised below _ _ _ ran =>
    obtain ⟨_, _, _, returned⟩ := returns run below
    cases ran.symm.trans returned
  | @disordered below _ _ _ ran disordered =>
    obtain ⟨_, child, _, returned⟩ := returns run below
    cases ran.symm.trans returned
    exact absurd rfl (disordered child)

/-- What is checked under a step of its own is checked below it. -/
theorem descend (g : ObjectGraph) (expand : Expand) (rules : Validation) (v : Value)
    (target : Segment) {run : Run} (isOpen : run.stack.isOpen = true) :
    ∃ ending after, Below g expand rules v target run.stack.place run ending after ∧
      ending.Shows g (Validation.descend (rules.evaluate expand) target v) run after := by
  have closes {ending : Ending} {after : Run} (h : ending.Shows g (rules.evaluate expand v)
      { run with stack := run.stack.push (.path ⟨target, []⟩ none) } after) :
      ending.Shows g (Validation.descend (rules.evaluate expand) target v) run after :=
    h.enclosed isOpen rfl fun node =>
      ⟨_, Stack.receive_push_path .., rfl, Node.leavesBelow_placedBelow ..⟩
  rcases ran : (rules.evaluate expand v).runOn g
    { run with stack := run.stack.push (.path ⟨target, []⟩ none) } with ⟨fault | passed, after⟩
  · exact ⟨_, _, .raised rfl ran, closes ran⟩
  · by_cases kept : ∃ child, after.stack = run.stack.push (.path ⟨target, []⟩ child)
    · obtain ⟨child, stack⟩ := kept
      have same :
          { after with stack := run.stack.push (.path ⟨target, []⟩ child) } = after := by
        rw [← stack]
      refine ⟨_, _, .returned rfl (by rw [same, ran]), closes ⟨child, ?_, rfl⟩⟩
      rw [ran, Stack.receive_push_path, same]
    · exact ⟨_, _, .disordered rfl ran (not_exists.mp kept), trivial⟩

end Below

/-- A step to an entry reads the entry, or raises a fault if the map has none. -/
theorem Segment.runOn_get_entry {pairs : List (Value × Value)} {key : Value}
    (hashable : key.isHashable g = true) (name : String) (store : Store) :
    ((entry key name).get (.map pairs)).runOn g store =
      (match Value.lookupPair g pairs key with
        | some value => .ok (.entry key value)
        | none => .error (.noMapping (key.quoted g)), store) := by
  have contained : (Value.contains (.map pairs) key).runOn g store =
      (.ok (Value.lookupPair g pairs key).isSome, store) := by
    simp [Value.contains, Check.runOn_bind, hashable]
  rw [get, Check.runOn_bind, contained]
  cases found : Value.lookupPair g pairs key with
  | none => rfl
  | some value =>
    have taken : Value.item g (.map pairs) key = .ok value := by
      simp [Value.item, hashable, found]
    simp only [Option.isSome_some, if_true, Check.runOn_bind, Check.runOn_read, taken]
    rfl

/-- The step to an entry reads it and checks it below. -/
theorem Validation.runOn_entryStep {pairs : List (Value × Value)} {part : Value × Validation}
    (hashable : part.1.isHashable g = true) (run : Run) :
    ((entryStep g part).evaluate expand (.map pairs)).runOn g run =
      match Value.lookupPair g pairs part.1 with
      | some value =>
          (descend (part.2.evaluate expand) (.ofKey g part.1) (.entry part.1 value)).runOn g run
      | none => (.error (.noMapping (part.1.quoted g)), run) := by
  obtain ⟨name, entered⟩ := Segment.exists_ofKey_eq g part.1
  rw [entryStep, evaluate, guardsPass, pure_bind, if_pos rfl, RunM.runOn_bind, RunM.runOn_ofCheck,
    entered, Segment.runOn_get_entry hashable]
  cases Value.lookupPair g pairs part.1 <;> rfl

/-- A validation accepts no map that lacks a key, or has an entry for it that rules reject. -/
def Validation.HoldsEntryTo (g : ObjectGraph) (validation : Validation) (key : Value)
    (rules : Validation) : Prop :=
  ∀ expand pairs run after,
    (validation.evaluate expand (.map pairs)).runOn g run = (.ok true, after) →
      ∃ value, Value.lookupPair g pairs key = some value ∧ ∃ begun ended,
        (rules.evaluate expand (.entry key value)).runOn g begun = (.ok true, ended)

section Accepting

variable {run after : Run} {sub : Validation} {subs behind : List Validation} {v : Value}
  {short : Bool}

theorem RunM.eq_of_runOn_close {valid keepWarnings passed : Bool}
    (ran : (close valid keepWarnings).runOn g run = (.ok passed, after)) : passed = valid := by
  unfold close at ran
  obtain ⟨_, _, _, ran⟩ := runOn_bind_ok ran
  dsimp only at ran
  -- Whether the frame holds a leaf, and then whether it is attached.
  split at ran <;> split at ran
  all_goals
    obtain ⟨_, _, _, ended⟩ := runOn_bind_ok ran
    cases ended
    rfl

namespace Validation

open RunM (runOn_bind_ok)

theorem allOf_cons_accepts
    (ran : (allOf? expand short (sub :: subs) v).runOn g run = (.ok true, after)) :
    ∃ mid, (sub.evaluate expand v).runOn g run = (.ok true, mid) ∧
      (allOf? expand short subs v).runOn g mid = (.ok true, after) := by
  rw [allOf?] at ran
  obtain ⟨passed, mid, asked, ran⟩ := runOn_bind_ok ran
  cases passed with
  | true => exact ⟨mid, asked, ran⟩
  | false =>
    cases short with
    | true => cases ran
    | false =>
      obtain ⟨_, _, _, ended⟩ := runOn_bind_ok ran
      cases ended

theorem allOf_accepts
    (ran : (allOf? expand short (subs ++ sub :: behind) v).runOn g run = (.ok true, after)) :
    ∃ begun ended, (sub.evaluate expand v).runOn g begun = (.ok true, ended) := by
  induction subs generalizing run with
  | nil =>
    obtain ⟨mid, asked, -⟩ := allOf_cons_accepts ran
    exact ⟨_, _, asked⟩
  | cons first subs ih =>
    obtain ⟨mid, -, rest⟩ := allOf_cons_accepts ran
    exact ih rest

/-- A group of which all checks have to pass accepts only what each of its validations accepts. -/
theorem object_accepts {constraints : List Constraint}
    (ran : ((object constraints (subs ++ sub :: behind) false short).evaluate expand v).runOn g
      run = (.ok true, after)) :
    ∃ begun ended, (sub.evaluate expand v).runOn g begun = (.ok true, ended) := by
  rw [evaluate_all, groupOf] at ran
  obtain ⟨_, _, _, ran⟩ := runOn_bind_ok ran
  obtain ⟨valid, _, decided, closed⟩ := runOn_bind_ok ran
  obtain rfl := RunM.eq_of_runOn_close closed
  obtain ⟨answer, _, _, decided⟩ := runOn_bind_ok decided
  cases answer with
  | none => cases decided
  | some passed =>
    dsimp only at decided
    rw [map_eq_pure_bind] at decided
    obtain ⟨others, _, asked, ended⟩ := runOn_bind_ok decided
    obtain ⟨-, rfl⟩ : passed = true ∧ others = true :=
      Bool.and_eq_true_iff.mp (Except.ok.inj (Prod.mk.inj ended).1)
    exact allOf_accepts asked

/-- If all checks have to pass, the step to an entry holds the entry to its rules. -/
theorem entryStep_holds {constraints : List Constraint} {key : Value} {rules : Validation}
    (hashable : key.isHashable g = true) :
    (object constraints (subs ++ entryStep g (key, rules) :: behind) false short).HoldsEntryTo g
      key rules := by
  intro expand pairs run after ran
  obtain ⟨begun, ended, asked⟩ := object_accepts ran
  rw [runOn_entryStep hashable] at asked
  cases found : Value.lookupPair g pairs key with
  | none =>
    rw [found] at asked
    cases asked
  | some value =>
    rw [found] at asked
    dsimp only at asked
    unfold descend at asked
    obtain ⟨_, opened, _, asked⟩ := runOn_bind_ok asked
    obtain ⟨valid, closing, checked, closed⟩ := runOn_bind_ok asked
    obtain rfl := RunM.eq_of_runOn_close closed
    exact ⟨value, rfl, opened, closing, checked⟩

end Validation

end Accepting

namespace EntriesChecked

variable {pairs : List (Value × Value)} {short : Bool} {place : DataPath}
  {parts : List (Value × Validation)} {run after : Run} {ending : Ending}

/-- The stack of the run does not matter. -/
theorem of_stack {stack : Stack}
    (h : EntriesChecked g expand pairs short place parts { run with stack } ending after) :
    EntriesChecked g expand pairs short place parts run ending after := by
  cases h with
  | done _ stack => exact .done run stack
  | absent _ stack missing => exact .absent run stack missing
  | next found checked goesOn rest => exact .next found checked.of_stack goesOn rest
  | ended found checked ends => exact .ended found checked.of_stack ends

section Steps

variable (g : ObjectGraph) (expand : Expand) (pairs : List (Value × Value)) (short : Bool)
  {parts : List (Value × Validation)} (hashable : ∀ part ∈ parts, part.1.isHashable g = true)

include hashable

/-- In a group, the steps to the entries are taken one after the other. -/
theorem allOf (run : Run) (inGroup : run.stack.InGroup) :
    ∃ ending after, EntriesChecked g expand pairs short run.stack.place parts run ending after ∧
      ending.Shows g (Validation.allOf? expand short (parts.map (Validation.entryStep g))
        (.map pairs)) run after := by
  induction parts generalizing run with
  | nil => exact ⟨_, _, .done run run.stack, none, by simp [Validation.allOf?], rfl⟩
  | cons part parts ih =>
    obtain ⟨first, others⟩ := List.forall_mem_cons.mp hashable
    rw [List.map_cons, Validation.allOf_cons]
    cases found : Value.lookupPair g pairs part.1 with
    | none =>
      refine ⟨_, _, .absent run run.stack found, ?_⟩
      change RunM.runOn _ _ _ = _
      rw [RunM.runOn_bind, Validation.runOn_entryStep first, found]
    | some value =>
      obtain ⟨ending, mid, checked, shows⟩ :=
        Below.descend g expand part.2 (.entry part.1 value) (.ofKey g part.1) inGroup.isOpen
      replace shows := shows.congr ((Validation.runOn_entryStep first run).trans (by rw [found]))
      cases ending with
      | stopped turn fault =>
        refine ⟨_, _, .ended found checked ?_, shows.stopped fun f ran => ?_⟩
        · rintro _ _ ⟨⟩
        · rw [RunM.runOn_bind, ran]
      | complete passed leaves =>
        obtain ⟨node, ran, rfl⟩ := shows
        by_cases ends : short = true ∧ passed = false
        · obtain ⟨rfl, rfl⟩ := ends
          refine ⟨_, _, .ended found checked ?_, node, ?_, rfl⟩
          · rintro _ _ ⟨⟩
            exact ⟨rfl, rfl⟩
          · rw [RunM.runOn_bind, ran]
            rfl
        · have goesOn : short = true → passed = true := fun is =>
            Bool.not_eq_false _ ▸ fun failed => ends ⟨is, failed⟩
          obtain ⟨ending, after, rest, shows⟩ :=
            ih others { mid with stack := run.stack.receive node } (inGroup.receive node)
          dsimp only at rest
          rw [inGroup.place_receive] at rest
          refine ⟨_, _, .next found checked goesOn rest.of_stack,
            (shows.both inGroup ran).congr ?_⟩
          rw [RunM.runOn_bind, RunM.runOn_bind, ran]
          cases short <;> cases passed <;> simp_all [Sign.decidedBy, Sign.join_all]

/-- A group of steps to entries checks the entries one after the other. -/
theorem object (run : Run) (isOpen : run.stack.isOpen = true) :
    ∃ ending after, EntriesChecked g expand pairs short run.stack.place parts run ending after ∧
      ending.Shows g ((Validation.object [] (parts.map (Validation.entryStep g)) false
        short).evaluate expand (.map pairs)) run after := by
  obtain ⟨ending, after, checked, shows⟩ := allOf g expand pairs short hashable
    { run with stack := run.stack.push (.group .all true []) } ⟨_, _, rfl⟩
  dsimp only at checked
  rw [Stack.place_push_group] at checked
  have whole (empty : Bool) : Validation.conclude .all empty true = id := by
    funext others
    exact Bool.true_and others
  refine ⟨ending, after, checked.of_stack, ?_⟩
  rw [Validation.evaluate_all, Validation.groupOf]
  simp only [Validation.allConstraints, pure_bind, whole, id_map]
  exact shows.group isOpen

end Steps

section Returning

variable (h : EntriesChecked g expand pairs short place parts run ending after)
  (returns : ∀ part ∈ parts, ∀ value, Value.lookupPair g pairs part.1 = some value →
    part.2.ReturnsBelow g expand (.entry part.1 value) (.ofKey g part.1))

include h returns

/-- If the map has all keys and no rules raise a fault, nothing does. -/
theorem complete (held : ∀ part ∈ parts, (Value.lookupPair g pairs part.1).isSome = true) :
    ∃ passed leaves, ending = .complete passed leaves := by
  induction h with
  | done => exact ⟨_, _, rfl⟩
  | absent _ _ missing =>
    have there := held _ List.mem_cons_self
    rw [missing] at there
    cases there
  | next _ _ _ _ ih =>
    obtain ⟨passed, leaves, rfl⟩ := ih (fun part member => returns part (.tail _ member))
      fun part member => held part (.tail _ member)
    exact ⟨_, _, rfl⟩
  | ended found checked _ => exact checked.complete (returns _ List.mem_cons_self _ found)

/-- If the map does not have all keys and no rules raise a fault, the first key that it does not
have does, unless a rejected entry before it ends the group. -/
theorem absent_raises (missing : ∃ part ∈ parts, Value.lookupPair g pairs part.1 = none) :
    (∃ part ∈ parts, Value.lookupPair g pairs part.1 = none ∧
      ∃ turn, ending = .stopped turn (some (.noMapping (part.1.quoted g)))) ∨
    short = true ∧ ∃ leaves, ending = .complete false leaves := by
  induction h with
  | done => exact absurd missing (by simp)
  | absent _ _ none => exact .inl ⟨_, List.mem_cons_self, none, _, rfl⟩
  | @next key _ _ parts _ _ _ _ _ _ found _ _ _ ih =>
    have later : ∃ part ∈ parts, Value.lookupPair g pairs part.1 = none := by
      obtain ⟨part, member, none⟩ := missing
      rcases List.mem_cons.mp member with rfl | member
      · cases found.symm.trans none
      · exact ⟨part, member, none⟩
    rcases ih (fun part member => returns part (.tail _ member)) later with
      ⟨part, member, none, turn, rfl⟩ | ⟨stops, leaves, rfl⟩
    · exact .inl ⟨part, .tail _ member, none, turn, rfl⟩
    · exact .inr ⟨stops, _, by rw [Ending.since, Bool.and_false]⟩
  | ended found checked ends =>
    obtain ⟨passed, leaves, rfl⟩ := checked.complete (returns _ List.mem_cons_self _ found)
    obtain ⟨stops, rfl⟩ := ends _ _ rfl
    exact .inr ⟨stops, leaves, rfl⟩

end Returning

end EntriesChecked

/-- What a whole run of a validation reports if its evaluation ended so. -/
def Ending.Reported (g : ObjectGraph) (validation : Validation) (v : Value) (run : Run) :
    Ending → Prop
  | complete passed leaves => ∃ root : Node Placed, root.leaves = leaves ∧
      ((validation.validate v).runOn g run).1 = .ok (Validation.outcomeOf v passed root)
  | stopped _ (some fault) => ((validation.validate v).runOn g run).1 = .error fault
  | stopped _ none => True

/-- A run that starts on an empty stack reports what its evaluation shows. -/
theorem Ending.Shows.reported {validation : Validation} {v : Value} {run after : Run}
    {ending : Ending} (fresh : run.stack = {})
    (h : ending.Shows g (validation.check v) (validation.started g v run) after) :
    ending.Reported g validation v run := by
  obtain ⟨events, started⟩ := validation.started_eq (g := g) v run
  have empty : (validation.started g v run).stack = {} := by rw [started, fresh]
  cases ending with
  | complete passed leaves =>
    obtain ⟨node, ran, left⟩ := h
    rw [empty] at ran left
    obtain ⟨done, reported, -⟩ := Validation.runOn_reporting ran (Stack.receive_empty node)
    refine ⟨_, ?_, congrArg Prod.fst reported⟩
    rw [← left]
    exact Node.leavesBelow_placedBelow [] node
  | stopped turn fault =>
    cases fault with
    | none => trivial
    | some fault =>
      have emitted : (RunM.emit .started
          [("value", v), ("validation", .str validation.className)]).runOn g run =
            (.ok (), validation.started g v run) := rfl
      change ((validation.reporting v (validation.check v)).runOn g run).1 = _
      rw [Validation.reporting, RunM.runOn_bind, emitted]
      dsimp only
      rw [RunM.runOn_bind, h]

/-- A whole run of a group of steps to entries reports how the entries were checked. -/
theorem EntriesChecked.validate (pairs : List (Value × Value)) (short : Bool)
    {parts : List (Value × Validation)} {run : Run}
    (hashable : ∀ part ∈ parts, part.1.isHashable g = true) (fresh : run.stack = {}) :
    let v : Validation := .object [] (parts.map (Validation.entryStep g)) false short
    ∃ ending after,
      EntriesChecked g (expandModel (g.expansions (.map pairs) run.store.sources)) pairs short []
        parts (v.started g (.map pairs) run) ending after ∧
      ending.Reported g v (.map pairs) run := by
  intro v
  obtain ⟨events, started⟩ := v.started_eq (g := g) (.map pairs) run
  have empty : (v.started g (.map pairs) run).stack = {} := by rw [started, fresh]
  obtain ⟨ending, after, checked, shows⟩ := EntriesChecked.object g
    (expandModel (g.expansions (.map pairs) run.store.sources)) pairs short hashable
    (v.started g (.map pairs) run) (by rw [empty]; rfl)
  rw [empty] at checked
  refine ⟨ending, after, checked, Ending.Shows.reported fresh (shows.congr ?_)⟩
  rw [Validation.runOn_check, started]

end PathRules
