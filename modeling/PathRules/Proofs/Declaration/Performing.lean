import PathRules.Declaration.Perform

/-!
# Performing a declaration step by step

What a declaration comes to, and the workshop it leaves, for each of the steps that
declarations are made of.  This is so whatever is noted of them; a logbook holds them all.
-/

namespace PathRules

variable {α β Log : Type} {g : ObjectGraph}

/-- The draft at an address. -/
def Workshop.draft (shop : Workshop Log) (address : Address) : Draft :=
  match shop.drafts[address.root]? with
  | some draft => (draft.at? address.positions).getD default
  | none => default

/-- Whether there is a draft at an address. -/
def Workshop.Has (shop : Workshop Log) (address : Address) : Prop :=
  ∃ draft, shop.drafts[address.root]? = some draft ∧ (draft.at? address.positions).isSome

/-- The workshop after a declaration. -/
def Workshop.declared [Journal Log] (g : ObjectGraph) (address : Address) (deed : Draft.Deed)
    (shop : Workshop Log) : Workshop Log :=
  { shop with
    drafts := shop.drafts.modify address.root (Draft.modifyAt address.positions (·.after g deed))
    deeds := Journal.note shop.deeds address deed }

namespace Workshop

/-- The workshop after a number was given. -/
def counted (shop : Workshop Log) : Workshop Log := { shop with next := shop.next + 1 }

/-- The workshop with one more separate draft. -/
def withDraft (draft : Draft) (shop : Workshop Log) : Workshop Log :=
  { shop with drafts := shop.drafts ++ [draft] }

/-- The workshop after a constraint was named, if it was. -/
def namingConstraint (name : Option String) (r : Registered) (shop : Workshop Log) : Workshop Log :=
  match name with
  | some name => { shop with constraints := (name, r) :: shop.constraints }
  | none => shop

/-- The workshop after drafts were named. -/
def namingDrafts (named : List (String × Address)) (shop : Workshop Log) : Workshop Log :=
  { shop with addresses := named.reverse ++ shop.addresses }

/-- The workshop after a path was named. -/
def namingPath (name : String) (path : Path) (shop : Workshop Log) : Workshop Log :=
  { shop with paths := (name, path) :: shop.paths }

end Workshop

/-- Where a step leads to. -/
def positionOf (g : ObjectGraph) (key : StepKey) (draft : Draft) : Nat :=
  (draft.find? g key).getD draft.nested.length

/-- All declarations in the order in which they were made, each with the draft it was made on. -/
abbrev Logbook := List (Address × Draft.Deed)

instance : Journal Logbook := ⟨[], fun logbook address deed => logbook ++ [(address, deed)]⟩

namespace Logbook

@[simp] theorem blank_eq : (Journal.blank : Logbook) = [] := rfl

@[simp] theorem note_eq (logbook : Logbook) (address : Address) (deed : Draft.Deed) :
    Journal.note logbook address deed = logbook ++ [(address, deed)] := rfl

end Logbook

@[simp] theorem Workshop.declared_deeds (shop : Workshop Logbook) (address : Address)
    (deed : Draft.Deed) :
    (shop.declared g address deed).deeds = shop.deeds ++ [(address, deed)] := rfl

namespace Declaring

theorem runOn_bind (m : Declaring Log α) (f : α → Declaring Log β) (shop : Workshop Log) :
    (m >>= f).runOn g shop =
      match m.runOn g shop with
      | (.ok a, after) => (f a).runOn g after
      | (.error fault, after) => (.error fault, after) := by
  unfold runOn
  simp only [ReaderT.run_bind, ExceptT.run_bind, StateT.run_bind]
  change _ = match StateT.run (ExceptT.run (ReaderT.run m g)) shop with | _ => _
  generalize StateT.run (ExceptT.run (ReaderT.run m g)) shop = x
  rcases x with ⟨_ | a, after⟩ <;> rfl

/-- After a step that comes to something the rest is performed. -/
theorem runOn_bind_of_ok {m : Declaring Log α} {f : α → Declaring Log β}
    {shop between : Workshop Log} {a : α} (ran : m.runOn g shop = (.ok a, between)) :
    (m >>= f).runOn g shop = (f a).runOn g between := by
  rw [runOn_bind, ran]

/-- A declaration in two steps that comes to something, as its steps do. -/
theorem runOn_bind_ok {m : Declaring Log α} {f : α → Declaring Log β} {shop after : Workshop Log}
    {b : β} (h : (m >>= f).runOn g shop = (.ok b, after)) :
    ∃ a between, m.runOn g shop = (.ok a, between) ∧ (f a).runOn g between = (.ok b, after) := by
  rw [runOn_bind] at h
  rcases ran : m.runOn g shop with ⟨fault | a, between⟩ <;> rw [ran] at h
  · cases h
  · exact ⟨a, between, rfl, h⟩

/-- A declaration that may be refused comes to something only if it is not. -/
theorem runOn_ite_ok {c : Prop} [Decidable c] {m : Declaring Log α} {fault : Fault}
    {shop after : Workshop Log} {a : α}
    (h : (if c then m else throw fault).runOn g shop = (.ok a, after)) :
    c ∧ m.runOn g shop = (.ok a, after) := by
  split at h
  · next holds => exact ⟨holds, h⟩
  · cases h

/-- A declaration in two steps that raises a fault does so in one of them. -/
theorem runOn_bind_error {m : Declaring Log α} {f : α → Declaring Log β}
    {shop after : Workshop Log} {fault : Fault}
    (h : (m >>= f).runOn g shop = (.error fault, after)) :
    m.runOn g shop = (.error fault, after) ∨
      ∃ a between, m.runOn g shop = (.ok a, between) ∧
        (f a).runOn g between = (.error fault, after) := by
  rw [runOn_bind] at h
  rcases ran : m.runOn g shop with ⟨raised | a, between⟩ <;> rw [ran] at h
  · cases h
    exact .inl rfl
  · exact .inr ⟨a, between, rfl, h⟩

variable (shop : Workshop Log)

@[simp] theorem runOn_pure (a : α) : (pure a : Declaring Log α).runOn g shop = (.ok a, shop) := rfl

@[simp] theorem runOn_read : (read : Declaring Log ObjectGraph).runOn g shop = (.ok g, shop) := rfl

@[simp] theorem runOn_get : (get : Declaring Log (Workshop Log)).runOn g shop =
    (.ok shop, shop) := rfl

@[simp] theorem runOn_modify (f : Workshop Log → Workshop Log) :
    (modify f : Declaring Log Unit).runOn g shop = (.ok (), f shop) := rfl

@[simp] theorem runOn_fresh :
    fresh.runOn g shop = (.ok shop.next, { shop with next := shop.next + 1 }) := rfl

@[simp] theorem runOn_addDraft (draft : Draft) :
    (addDraft draft).runOn g shop =
      (.ok { root := shop.drafts.length }, { shop with drafts := shop.drafts ++ [draft] }) := rfl

@[simp] theorem runOn_draftAt (address : Address) :
    (draftAt address).runOn g shop = (.ok (shop.draft address), shop) := by
  unfold draftAt Workshop.draft
  rw [runOn_bind, runOn_get]
  dsimp only
  cases shop.drafts[address.root]? <;> rfl

@[simp] theorem runOn_declare [Journal Log] (address : Address) (deed : Draft.Deed) :
    (declare address deed).runOn g shop =
      (.ok (), shop.declared g address deed) := rfl

@[simp] theorem runOn_build (address : Address) :
    (build address).runOn g shop = (.ok (shop.draft address).build, shop) := by
  rw [build, runOn_bind, runOn_draftAt]
  rfl

@[simp] theorem runOn_validationNamed (name : String) :
    (validationNamed name).runOn g shop =
      (match shop.validations.lookup name with
        | some v => .ok v
        | none => .error .missingKey, shop) := by
  unfold validationNamed
  rw [runOn_bind, runOn_get]
  dsimp only
  cases shop.validations.lookup name <;> rfl

@[simp] theorem runOn_constraintNamed (name : String) :
    (constraintNamed name).runOn g shop =
      (match shop.constraints.lookup name with
        | some r => .ok r
        | none => .error .missingKey, shop) := by
  unfold constraintNamed
  rw [runOn_bind, runOn_get]
  dsimp only
  cases shop.constraints.lookup name <;> rfl

@[simp] theorem runOn_addressNamed (name : String) :
    (addressNamed name).runOn g shop =
      (match shop.addresses.lookup name with
        | some address => .ok address
        | none => .error .missingKey, shop) := by
  unfold addressNamed
  rw [runOn_bind, runOn_get]
  dsimp only
  cases shop.addresses.lookup name <;> rfl

@[simp] theorem runOn_pathNamed (name : String) :
    (pathNamed name).runOn g shop =
      (match shop.paths.lookup name with
        | some path => .ok path
        | none => .error .missingKey, shop) := by
  unfold pathNamed
  rw [runOn_bind, runOn_get]
  dsimp only
  cases shop.paths.lookup name <;> rfl

theorem runOn_replace [Journal Log] (address : Address) (r : Registered) (c : Constraint) :
    (replace address r c).runOn g shop =
      let counted := { shop with next := shop.next + 1 }
      if (shop.draft address).constraints.any (·.number == r.number) then
        (.ok ⟨shop.next, c⟩, counted.declared g address (.replacement r.number ⟨shop.next, c⟩))
      else (.error .foreignConstraint, counted) := by
  have same : Workshop.draft { shop with next := shop.next + 1 } address = shop.draft address := rfl
  rw [replace, runOn_bind, runOn_fresh]
  dsimp only
  rw [runOn_bind, runOn_draftAt, same]
  dsimp only [Draft.replace?]
  cases (shop.draft address).constraints.any (·.number == r.number) <;> rfl

/-- A constraint is replaced if the draft has it. -/
theorem replace_ran [Journal Log] {shop after : Workshop Log} {address : Address}
    {r new : Registered} {c : Constraint}
    (ran : (replace address r c).runOn g shop = (.ok new, after)) :
    (shop.draft address).constraints.any (·.number == r.number) = true ∧ new = ⟨shop.next, c⟩ ∧
      after = shop.counted.declared g address (.replacement r.number new) := by
  rw [runOn_replace] at ran
  dsimp only at ran
  split at ran
  · next held =>
    cases ran
    exact ⟨held, rfl, rfl⟩
  · cases ran

@[simp] theorem runOn_nameConstraint (name : Option String) (r : Registered) :
    (nameConstraint name r).runOn g shop = (.ok (), shop.namingConstraint name r) := by
  cases name <;> rfl

theorem runOn_nameAddresses (named : List (String × Address)) :
    (named.forM fun (name, part) => nameAddress name part).runOn g shop =
      (.ok (), shop.namingDrafts named) := by
  induction named generalizing shop with
  | nil => rfl
  | cons entry named ih =>
    change (nameAddress entry.1 entry.2 >>= fun _ => named.forM _).runOn g shop = _
    rw [runOn_bind, nameAddress, runOn_modify]
    dsimp only
    rw [ih]
    simp [Workshop.namingDrafts, bindName]

@[simp] theorem runOn_attempt (m : Declaring Log α) :
    m.attempt.runOn g shop = (.ok (m.runOn g shop).1, (m.runOn g shop).2) := rfl

variable [Journal Log]

@[simp] theorem runOn_register (address : Address) (c : Constraint) :
    (register address c).runOn g shop = (.ok ⟨shop.next, c⟩,
      { shop with next := shop.next + 1 }.declared g address (.constraint ⟨shop.next, c⟩)) := rfl

variable {shop}

theorem runOn_enter {key : StepKey} (hashable : Value.areHashable g key.selection = true)
    (address : Address) (shop : Workshop Log) :
    let position := positionOf g key (shop.draft address)
    (enter address key).runOn g shop =
      (.ok { address with positions := address.positions ++ [position] },
        shop.declared g address (.step key position)) := by
  rw [enter, runOn_bind, runOn_read]
  dsimp only
  rw [hashable, if_neg (by simp), runOn_bind, runOn_draftAt]
  rfl

/-- A constraint is made, registered and named. -/
theorem constrain_ran {address : Address} {call : Call} {name : Option String} {r : Registered}
    {after : Workshop Log} (ran : (constrain address call name).runOn g shop = (.ok r, after)) :
    ∃ c, call.constraint g = .ok c ∧ r = ⟨shop.next, c⟩ ∧
      after = (shop.counted.declared g address (.constraint r)).namingConstraint name r := by
  rw [constrain, runOn_bind, runOn_read] at ran
  dsimp only at ran
  cases made : call.constraint g with
  | error fault =>
    rw [made] at ran
    cases ran
  | ok c =>
    rw [made, runOn_bind, ofExcept, runOn_pure] at ran
    dsimp only at ran
    rw [runOn_bind, runOn_register] at ran
    dsimp only at ran
    rw [runOn_bind, runOn_nameConstraint] at ran
    cases ran
    exact ⟨c, rfl, rfl, rfl⟩

/-- A draft is entered by a step that can be kept. -/
theorem enter_ran {address part : Address} {key : StepKey} {after : Workshop Log}
    (ran : (enter address key).runOn g shop = (.ok part, after)) :
    let position := positionOf g key (shop.draft address)
    Value.areHashable g key.selection = true ∧
      part = { address with positions := address.positions ++ [position] } ∧
      after = shop.declared g address (.step key position) := by
  cases hashable : Value.areHashable g key.selection with
  | false =>
    rw [enter, runOn_bind, runOn_read] at ran
    simp only [hashable, Bool.not_false, if_true] at ran
    cases ran
  | true =>
    cases (runOn_enter hashable address shop).symm.trans ran
    exact ⟨rfl, rfl, rfl⟩

/-- A group is declared after what was declared in it. -/
theorem addGroup_ran (address : Address) {draft : Draft} {fill : Address → Declaring Log Unit}
    {after : Workshop Log}
    (ran : (addGroup address draft fill).runOn g shop = (.ok (), after)) :
    let root := shop.drafts.length
    ∃ filled, (fill { root }).runOn g { shop with drafts := shop.drafts ++ [draft] } =
        (.ok (), filled) ∧
      after = filled.declared g address (.group root draft.anyOf draft.shortCircuit
        (filled.draft { root }).build) := by
  obtain ⟨group, _, new, ran⟩ := runOn_bind_ok ran
  simp only [runOn_addDraft, Prod.mk.injEq, Except.ok.injEq] at new
  obtain ⟨rfl, rfl⟩ := new
  obtain ⟨_, filled, fills, ran⟩ := runOn_bind_ok ran
  obtain ⟨v, _, built, made⟩ := runOn_bind_ok ran
  simp only [runOn_build, runOn_declare, Prod.mk.injEq, Except.ok.injEq] at built made
  obtain ⟨rfl, rfl⟩ := built
  exact ⟨filled, fills, made.2.symm⟩

end Declaring

end PathRules
