import Mathlib.Data.List.Induction
import PathRules.Declaration.Draft
import PathRules.Proofs.Value.Same

/-!
# What declarations on a draft come to

Declarations are made in any order on a draft and on the drafts in it.  `canonical` reads the
validation off the list of them: the constraints as they were registered, then one step for each
key that was used, with the canonical form of what was declared on it, then the complete
validations and the groups.  A draft that `Reflects` the declarations is built to that form, and
one more declaration on it or in it keeps this.
-/

namespace PathRules

variable {g : ObjectGraph}

/-- What a path is hashed by: its name, with the outermost of its guards if it has any. -/
def Path.hash (p : Path) : String × Option Nat := (p.name, p.numbers.head?)

namespace StepKey

theorem same_refl (g : ObjectGraph) (key : StepKey) : key.same g key = true := by
  have objects (i : Nat) : g.sameObject g.reach i i = true := Value.same_refl g (.object i)
  simp [same, Path.sameKey, Segment.sameKey_refl, Value.sameItems_refl objects]

/-- Two keys are one: their paths lead the same way, behind the same guards, and have one hash, and
all the rest is the same. -/
structure IsOne (g : ObjectGraph) (a b : StepKey) : Prop where
  target : Segment.eqBy (Value.same g) a.path.target b.path.target = true
  guards : a.path.numbers = b.path.numbers
  hash : a.path.hash = b.path.hash
  presence : a.presence = b.presence
  kind : a.kind = b.kind
  selection : List.Forall₂ (fun x y => Value.same g x y = true) a.selection b.selection

theorem same_iff_isOne {a b : StepKey} : a.same g b = true ↔ a.IsOne g b := by
  simp only [same, Path.sameKey, Segment.sameKey, Bool.and_eq_true, beq_iff_eq,
    Value.sameItems_iff]
  constructor
  · rintro ⟨⟨⟨⟨guards, target, name⟩, presence⟩, kind⟩, selection⟩
    exact ⟨target, guards, by rw [Path.hash, Path.hash, guards, Path.name, name]; rfl, presence,
      kind, selection⟩
  · rintro ⟨target, guards, hash, presence, kind, selection⟩
    exact ⟨⟨⟨⟨guards, target, congrArg Prod.fst hash⟩, presence⟩, kind⟩, selection⟩

/-- The elements of a part that are validated, if it is not the part itself. -/
def elements? (key : StepKey) : Option Elements :=
  match key.kind with
  | .single => none
  | .iterable => some (.iterated key.selection)
  | .array => some (.positions key.selection)
  | .map => some (.entries key.selection)

/-- The step that a key stands for. -/
def step (key : StepKey) (inner : Validation) : Validation :=
  .step key.presence key.path.guards key.path.target
    (key.elements?.elim inner fun elements => .elements elements inner)

theorem wrap_eq_step (key : StepKey) (inner : Validation) : key.wrap inner = key.step inner := by
  obtain ⟨path, presence, kind, selection⟩ := key
  cases kind <;> rfl

end StepKey

namespace Draft

/-- Declarations on a draft and on the drafts in it, each with the positions that lead to the
draft it was made on. -/
abbrev Deeds := List (List Nat × Deed)

namespace Deeds

/-- The declarations on the one draft that positions lead to. -/
def on (positions : List Nat) (deeds : Deeds) : List Deed :=
  deeds.filterMap fun entry => if entry.1 = positions then some entry.2 else none

/-- The declarations on the draft itself. -/
abbrev own (deeds : Deeds) : List Deed := deeds.on []

/-- The declarations on the nested draft at a position and on the drafts in that. -/
def below (position : Nat) (deeds : Deeds) : Deeds :=
  deeds.filterMap fun
    | ([], _) => none
    | (first :: rest, deed) => if first = position then some (rest, deed) else none

end Deeds

/-- The constraints after a declaration; a replacement takes the place of what it replaces. -/
def Deed.constraints (registered : List Registered) : Deed → List Registered
  | .constraint r => registered ++ [r]
  | .replacement number new => registered.map fun r => if r.number == number then new else r
  | _ => registered

/-- The keys after a declaration; only a key that is not yet there is new. -/
def Deed.keys (g : ObjectGraph) (used : List StepKey) : Deed → List StepKey
  | .step key _ => if used.any (·.same g key) then used else used ++ [key]
  | _ => used

def Deed.validation? : Deed → Option Validation
  | .validation v | .group _ _ _ v => some v
  | _ => none

def Deed.stops (shortCircuit : Bool) : Deed → Bool
  | .shortCircuit on => on
  | _ => shortCircuit

def constraintsOf (deeds : List Deed) : List Registered := deeds.foldl Deed.constraints []

/-- The keys that were used, in order of first use. -/
def keysOf (g : ObjectGraph) (deeds : List Deed) : List StepKey := deeds.foldl (Deed.keys g) []

def validationsOf (deeds : List Deed) : List Validation := deeds.filterMap Deed.validation?

def stopsOf (initially : Bool) (deeds : List Deed) : Bool := deeds.foldl Deed.stops initially

section Snoc

variable (deeds : List Deed) (deed : Deed)

theorem constraintsOf_snoc :
    constraintsOf (deeds ++ [deed]) = deed.constraints (constraintsOf deeds) := by
  simp [constraintsOf]

theorem keysOf_snoc : keysOf g (deeds ++ [deed]) = deed.keys g (keysOf g deeds) := by
  simp [keysOf]

theorem validationsOf_snoc :
    validationsOf (deeds ++ [deed]) = validationsOf deeds ++ validationsOf [deed] :=
  List.filterMap_append ..

theorem stopsOf_snoc (initially : Bool) :
    stopsOf initially (deeds ++ [deed]) = deed.stops (stopsOf initially deeds) := by
  simp [stopsOf]

end Snoc

/-- No key that was used is there twice. -/
theorem keysOf_pairwise (g : ObjectGraph) (deeds : List Deed) :
    (keysOf g deeds).Pairwise fun a b => a.same g b = false := by
  induction deeds using List.reverseRecOn with
  | nil => exact .nil
  | append_singleton deeds deed ih =>
    rw [keysOf_snoc]
    cases deed with
    | step key position =>
      simp only [Deed.keys]
      split
      · exact ih
      · rename_i unused
        refine List.pairwise_append.mpr ⟨ih, List.pairwise_singleton _ _, ?_⟩
        intro used member key' is
        obtain rfl := List.mem_singleton.mp is
        exact Bool.eq_false_iff.mpr fun same => unused (List.any_eq_true.mpr ⟨used, member, same⟩)
    | _ => exact ih

/-- The keys that were used are there still, at their positions. -/
theorem keysOf_prefix (deeds more : List Deed) : keysOf g deeds <+: keysOf g (deeds ++ more) := by
  induction more using List.reverseRecOn with
  | nil => simp
  | append_singleton more deed ih =>
    rw [← List.append_assoc, keysOf_snoc]
    refine ih.trans ?_
    cases deed with
    | step key position =>
      simp only [Deed.keys]
      split
      · exact List.prefix_refl _
      · exact List.prefix_append ..
    | _ => exact List.prefix_refl _

namespace Deeds

theorem length_below_lt {deeds : Deeds} (h : deeds.own ≠ []) (position : Nat) :
    (deeds.below position).length < deeds.length := by
  obtain ⟨deed, member⟩ := List.exists_mem_of_ne_nil _ h
  obtain ⟨⟨positions, made⟩, held, is⟩ := List.mem_filterMap.mp member
  refine List.length_filterMap_lt_length_iff_exists.mpr ⟨(positions, made), held, ?_⟩
  cases positions with
  | nil => rfl
  | cons first rest => simp at is

theorem on_cons (i : Nat) (rest : List Nat) (deeds : Deeds) :
    deeds.on (i :: rest) = (deeds.below i).on rest := by
  unfold on below
  rw [List.filterMap_filterMap]
  congr 1
  funext ⟨positions, deed⟩
  cases positions with
  | nil => simp
  | cons first inner => by_cases is : first = i <;> simp [is]

end Deeds

/-- The validation that declarations come to, on a draft of a kind that stops early from the
beginning or not.  Nested drafts are of the kind of the draft they are in. -/
def canonical (g : ObjectGraph) (anyOf initially : Bool) (deeds : Deeds) : Validation :=
  .object ((constraintsOf deeds.own).map (·.constraint))
    ((keysOf g deeds.own).zipIdx.attach.map
        (fun entry => entry.val.1.step (canonical g anyOf anyOf (deeds.below entry.val.2)))
      ++ validationsOf deeds.own)
    anyOf (stopsOf initially deeds.own)
termination_by deeds.length
decreasing_by
  refine Deeds.length_below_lt (fun none => ?_) _
  simpa [none, keysOf] using entry.property

theorem canonical_eq (g : ObjectGraph) (anyOf initially : Bool) (deeds : Deeds) :
    canonical g anyOf initially deeds =
      .object ((constraintsOf deeds.own).map (·.constraint))
        ((keysOf g deeds.own).zipIdx.map
            (fun entry => entry.1.step (canonical g anyOf anyOf (deeds.below entry.2)))
          ++ validationsOf deeds.own)
        anyOf (stopsOf initially deeds.own) := by
  let step (entry : StepKey × Nat) : Validation :=
    entry.1.step (canonical g anyOf anyOf (deeds.below entry.2))
  rw [canonical]
  exact congrArg (fun steps => Validation.object _ (steps ++ _) _ _)
    (List.attach_map_val (f := step))

/-- Only the declarations on each draft matter, and their order there: not whether one draft was
declared on in one go or in portions, before or after the others. -/
theorem canonical_congr {deeds deeds' : Deeds}
    (same : ∀ positions, deeds.on positions = deeds'.on positions) (anyOf initially : Bool) :
    canonical g anyOf initially deeds = canonical g anyOf initially deeds' := by
  induction initially, deeds using canonical.induct g anyOf generalizing deeds' with
  | case1 initially deeds ih =>
    have own : deeds.own = deeds'.own := same []
    have steps : (keysOf g deeds.own).zipIdx.map (fun entry =>
          entry.1.step (canonical g anyOf anyOf (deeds.below entry.2))) =
        (keysOf g deeds.own).zipIdx.map fun entry =>
          entry.1.step (canonical g anyOf anyOf (deeds'.below entry.2)) := by
      refine List.map_congr_left fun entry member => congrArg entry.1.step ?_
      refine ih ⟨entry, member⟩ fun positions => ?_
      rw [← Deeds.on_cons, ← Deeds.on_cons]
      exact same (entry.2 :: positions)
    rw [canonical_eq, canonical_eq g anyOf initially deeds', ← own, steps]

/-- A draft that holds what the declarations on it and in it say.  `initially` tells whether it
stopped early from the beginning. -/
inductive Reflects (g : ObjectGraph) : (initially : Bool) → Draft → Deeds → Prop
  | intro {initially : Bool} {draft : Draft} {deeds : Deeds}
    (constraints : draft.constraints = constraintsOf deeds.own)
    (keys : draft.nested.map (·.1) = keysOf g deeds.own)
    (prebuilt : draft.prebuilt = validationsOf deeds.own)
    (shortCircuit : draft.shortCircuit = stopsOf initially deeds.own)
    (kinds : ∀ (i : Nat) entry, draft.nested[i]? = some entry → entry.2.anyOf = draft.anyOf)
    (nested : ∀ (i : Nat) entry, draft.nested[i]? = some entry →
      Reflects g draft.anyOf entry.2 (deeds.below i))
    (beyond : ∀ i, draft.nested.length ≤ i → deeds.below i = []) :
    Reflects g initially draft deeds

theorem buildNested_eq (nested : List (StepKey × Draft)) :
    buildNested nested = nested.map fun entry => entry.1.wrap entry.2.build := by
  induction nested with
  | nil => rfl
  | cons entry nested ih => simp [buildNested, ih]

theorem build_eq (draft : Draft) :
    draft.build = .object (draft.constraints.map (·.constraint))
      (draft.nested.map (fun entry => entry.1.wrap entry.2.build) ++ draft.prebuilt)
      draft.anyOf draft.shortCircuit := by
  obtain ⟨anyOf, shortCircuit, constraints, nested, prebuilt⟩ := draft
  rw [build, buildNested_eq]

/-- A draft is built to the canonical form of what was declared on it and in it. -/
theorem Reflects.build_eq {initially : Bool} {draft : Draft} {deeds : Deeds}
    (h : draft.Reflects g initially deeds) :
    draft.build = canonical g draft.anyOf initially deeds := by
  induction h with
  | @intro initially draft deeds constraints keys prebuilt shortCircuit kinds nested beyond ih =>
    have steps : draft.nested.map (fun entry => entry.1.wrap entry.2.build) =
        (keysOf g deeds.own).zipIdx.map fun entry =>
          entry.1.step (canonical g draft.anyOf draft.anyOf (deeds.below entry.2)) := by
      rw [← keys]
      refine List.ext_getElem (by simp) fun i inside _ => ?_
      have held := List.getElem?_eq_getElem (List.length_map _ ▸ inside)
      simp [StepKey.wrap_eq_step, ih i _ held, kinds i _ held]
    rw [Draft.build_eq, canonical_eq, steps, constraints, prebuilt, shortCircuit]

section After

variable (draft : Draft) (deed : Deed)

/-- Nothing stands in for a constraint that the draft does not have. -/
theorem after_replacement (number : Nat) (new : Registered) :
    draft.after g (.replacement number new) =
      { draft with constraints := Deed.constraints draft.constraints (.replacement number new) } := by
  simp only [after, replace?]
  split
  · rfl
  · rename_i foreign
    have same : draft.constraints.map (fun r => if r.number == number then new else r) =
        draft.constraints := by
      refine List.map_congr_left (g := id) (fun r member => if_neg fun is => ?_) |>.trans
        (List.map_id _)
      exact foreign (List.any_eq_true.mpr ⟨r, member, is⟩)
    cases draft
    simp only [Deed.constraints, same, Option.getD_none]

theorem after_step (key : StepKey) (position : Nat) :
    draft.after g (.step key position) =
      { draft with nested := draft.nested ++
          if (draft.find? g key).isSome then [] else [(key, empty draft.anyOf)] } := by
  simp only [after]
  split
  · cases draft
    rw [List.append_nil]
  · rfl

@[simp] theorem after_anyOf : (draft.after g deed).anyOf = draft.anyOf := by
  cases deed with
  | replacement number new => rw [after_replacement]
  | step key position => rw [after_step]
  | _ => rfl

theorem after_constraints :
    (draft.after g deed).constraints = deed.constraints draft.constraints := by
  cases deed with
  | replacement number new => rw [after_replacement]
  | step key position => rw [after_step]; rfl
  | _ => rfl

theorem after_keys :
    (draft.after g deed).nested.map (·.1) = deed.keys g (draft.nested.map (·.1)) := by
  cases deed with
  | replacement number new => rw [after_replacement]; rfl
  | step key position =>
    simp only [after_step, Deed.keys, find?, List.findIdx?_isSome, List.any_map, Function.comp_def]
    split <;> simp
  | _ => rfl

theorem after_prebuilt :
    (draft.after g deed).prebuilt = draft.prebuilt ++ validationsOf [deed] := by
  cases deed with
  | replacement number new => rw [after_replacement]; simp [validationsOf, Deed.validation?]
  | step key position => rw [after_step]; simp [validationsOf, Deed.validation?]
  | _ => simp [after, validationsOf, Deed.validation?, addConstraint, addPrebuilt]

theorem after_shortCircuit :
    (draft.after g deed).shortCircuit = deed.stops draft.shortCircuit := by
  cases deed with
  | replacement number new => rw [after_replacement]; rfl
  | step key position => rw [after_step]; rfl
  | _ => rfl

/-- A declaration adds at most an empty draft to the drafts in it. -/
theorem after_nested :
    ∃ more : List (StepKey × Draft), (draft.after g deed).nested = draft.nested ++ more ∧
      ∀ entry ∈ more, entry.2 = empty draft.anyOf := by
  cases deed with
  | replacement number new => rw [after_replacement]; exact ⟨[], by simp⟩
  | step key position =>
    rw [after_step]
    refine ⟨_, rfl, fun entry member => ?_⟩
    split at member <;> simp_all
  | _ => exact ⟨[], by simp [after, addConstraint, addPrebuilt]⟩

theorem modifyAt_anyOf (positions : List Nat) :
    (draft.modifyAt positions (·.after g deed)).anyOf = draft.anyOf := by
  cases positions with
  | nil => exact after_anyOf draft deed
  | cons position rest => rfl

theorem modifyAt_getElem? (position : Nat) (rest : List Nat) (f : Draft → Draft) (i : Nat) :
    (draft.modifyAt (position :: rest) f).nested[i]? = draft.nested[i]?.map fun entry =>
      if position = i then (entry.1, entry.2.modifyAt rest f) else entry := by
  simp only [modifyAt, List.getElem?_modify]
  rfl

end After

section Places

variable {draft inner : Draft} {positions : List Nat}

theorem at?_cons {position : Nat} {rest : List Nat}
    (there : draft.at? (position :: rest) = some inner) :
    ∃ entry, draft.nested[position]? = some entry ∧ entry.2.at? rest = some inner := by
  unfold at? at there
  split at there
  · rename_i key child held
    exact ⟨(key, child), held, there⟩
  · cases there

theorem at?_append (draft : Draft) (positions rest : List Nat) :
    draft.at? (positions ++ rest) = (draft.at? positions).bind (·.at? rest) := by
  induction positions generalizing draft with
  | nil => rfl
  | cons position positions ih =>
    simp only [List.cons_append, at?]
    cases draft.nested[position]? with
    | none => rfl
    | some entry => exact ih entry.2

/-- A declaration leaves every draft at its place. -/
theorem isSome_at?_modifyAt (there : (draft.at? positions).isSome) (made : List Nat)
    (deed : Deed) : ((draft.modifyAt made (·.after g deed)).at? positions).isSome := by
  induction positions generalizing draft made with
  | nil => rfl
  | cons position rest ih =>
    obtain ⟨inner, is⟩ := Option.isSome_iff_exists.mp there
    obtain ⟨entry, held, inside⟩ := at?_cons is
    cases made with
    | nil =>
      obtain ⟨more, grown, -⟩ := draft.after_nested (g := g) deed
      have before := (List.getElem?_eq_some_iff.mp held).1
      simp [modifyAt, at?, grown, List.getElem?_append_left before, held, inside]
    | cons first made =>
      have within : (entry.2.at? rest).isSome := by simp [inside]
      have kept := ih within made
      simp only [at?, modifyAt_getElem?, held, Option.map_some]
      split <;> simp_all

/-- The draft that a step leads to is where the step says. -/
theorem isSome_at?_step (there : draft.at? positions = some inner) (key : StepKey)
    (position : Nat) :
    ((draft.modifyAt positions (·.after g (.step key position))).at?
      (positions ++ [(inner.find? g key).getD inner.nested.length])).isSome := by
  induction positions generalizing draft with
  | nil =>
    obtain rfl := Option.some.inj there
    simp only [modifyAt, List.nil_append, at?, after_step]
    cases found : draft.find? g key with
    | none => simp
    | some i =>
      have inside := (List.findIdx?_eq_some_iff_getElem.mp found).1
      simp [inside]
  | cons first rest ih =>
    obtain ⟨entry, held, inside⟩ := at?_cons there
    have kept := ih inside
    simp only [List.cons_append, at?, modifyAt_getElem?, held, Option.map_some]
    simpa using kept

/-- The position of a step is that of its key among the keys that were used, itself included. -/
theorem findIdx?_keys (draft : Draft) (key : StepKey) (position : Nat) :
    (Deed.keys g (draft.nested.map (·.1)) (.step key position)).findIdx? (·.same g key) =
      some ((draft.find? g key).getD draft.nested.length) := by
  have found : (draft.nested.map (·.1)).findIdx? (·.same g key) = draft.find? g key :=
    List.findIdx?_map
  simp only [Deed.keys, ← List.findIdx?_isSome, found]
  cases is : draft.find? g key with
  | none =>
    rw [if_neg (by simp), List.findIdx?_append, found, is]
    simp [StepKey.same_refl]
  | some i => simp [found, is]

end Places

namespace Deeds

theorem on_append (positions : List Nat) (first second : Deeds) :
    on positions (first ++ second) = on positions first ++ on positions second :=
  List.filterMap_append ..

theorem below_append (i : Nat) (first second : Deeds) :
    below i (first ++ second) = below i first ++ below i second := List.filterMap_append ..

theorem below_inside (i position : Nat) (rest : List Nat) (deed : Deed) :
    below i [(position :: rest, deed)] = if position = i then [(rest, deed)] else [] := by
  unfold below
  split <;> simp_all

end Deeds

theorem reflects_empty (anyOf shortCircuit : Bool) :
    Draft.Reflects g shortCircuit { anyOf, shortCircuit } [] :=
  .intro rfl rfl rfl rfl (fun _ _ held => by simp at held) (fun _ _ held => by simp at held)
    fun _ _ => rfl

namespace Reflects

variable {initially : Bool} {draft : Draft} {deeds : Deeds}

theorem after_here (h : draft.Reflects g initially deeds) (deed : Deed) :
    (draft.after g deed).Reflects g initially (deeds ++ [([], deed)]) := by
  obtain ⟨constraints, keys, prebuilt, shortCircuit, kinds, nested, beyond⟩ := h
  have own : Deeds.own (deeds ++ [([], deed)]) = deeds.own ++ [deed] := Deeds.on_append ..
  have below (i : Nat) : Deeds.below i (deeds ++ [([], deed)]) = deeds.below i :=
    (Deeds.below_append ..).trans (List.append_nil _)
  obtain ⟨more, grown, new⟩ := draft.after_nested (g := g) deed
  -- What stands in the drafts afterwards stood there before, or is an empty draft beyond them.
  have parts (i : Nat) (entry : StepKey × Draft)
      (held : (draft.after g deed).nested[i]? = some entry) :
      draft.nested[i]? = some entry ∨
        entry.2 = empty draft.anyOf ∧ deeds.below i = [] := by
    rw [grown, List.getElem?_append] at held
    split at held
    · exact .inl held
    · exact .inr ⟨new entry (List.mem_of_getElem? held), beyond i (by omega)⟩
  refine .intro ?_ ?_ ?_ ?_ (fun i entry held => ?_) (fun i entry held => ?_) fun i past => ?_
  · rw [after_constraints, constraints, own, constraintsOf_snoc]
  · rw [after_keys, keys, own, keysOf_snoc]
  · rw [after_prebuilt, prebuilt, own, validationsOf_snoc]
  · rw [after_shortCircuit, shortCircuit, own, stopsOf_snoc]
  · rw [after_anyOf]
    rcases parts i entry held with old | ⟨is, -⟩
    · exact kinds i entry old
    · rw [is]; rfl
  · rw [after_anyOf, below]
    rcases parts i entry held with old | ⟨is, none⟩
    · exact nested i entry old
    · rw [is, none]
      exact reflects_empty draft.anyOf draft.anyOf
  · rw [below]
    rw [grown, List.length_append] at past
    exact beyond i (by omega)

/-- One more declaration, on the draft itself or on one in it. -/
theorem after (h : draft.Reflects g initially deeds) {positions : List Nat}
    (there : (draft.at? positions).isSome) (deed : Deed) :
    (draft.modifyAt positions (·.after g deed)).Reflects g initially
      (deeds ++ [(positions, deed)]) := by
  induction positions generalizing initially draft deeds with
  | nil => exact h.after_here deed
  | cons position rest ih =>
    obtain ⟨constraints, keys, prebuilt, shortCircuit, kinds, nested, beyond⟩ := h
    have own : Deeds.own (deeds ++ [(position :: rest, deed)]) = deeds.own :=
      (Deeds.on_append ..).trans (List.append_nil _)
    have below (i : Nat) : Deeds.below i (deeds ++ [(position :: rest, deed)]) =
        deeds.below i ++ if position = i then [(rest, deed)] else [] := by
      rw [Deeds.below_append, Deeds.below_inside]
    have inner : ∀ entry, draft.nested[position]? = some entry → (entry.2.at? rest).isSome := by
      intro entry held
      simpa only [at?, held] using there
    have parts (i : Nat) (entry : StepKey × Draft)
        (held : (draft.modifyAt (position :: rest) (·.after g deed)).nested[i]? = some entry) :
        ∃ old, draft.nested[i]? = some old ∧
          entry = if position = i then (old.1, old.2.modifyAt rest (·.after g deed)) else old := by
      rw [modifyAt_getElem?] at held
      obtain ⟨old, before, rfl⟩ := Option.map_eq_some_iff.mp held
      exact ⟨old, before, rfl⟩
    refine .intro ?_ ?_ ?_ ?_ (fun i entry held => ?_) (fun i entry held => ?_) fun i past => ?_
    · rw [own]; exact constraints
    · rw [own, ← keys]
      refine List.ext_getElem? fun i => ?_
      rw [List.getElem?_map, modifyAt_getElem?, List.getElem?_map]
      cases draft.nested[i]? with
      | none => rfl
      | some entry => simp only [Option.map_some]; split <;> rfl
    · rw [own]; exact prebuilt
    · rw [own]; exact shortCircuit
    · obtain ⟨old, before, rfl⟩ := parts i entry held
      split
      · exact (modifyAt_anyOf ..).trans (kinds i old before)
      · exact kinds i old before
    · obtain ⟨old, before, rfl⟩ := parts i entry held
      rw [below]
      split
      · rename_i is
        subst is
        exact ih (nested _ old before) (inner old before)
      · rw [List.append_nil]
        exact nested i old before
    · have apart : position ≠ i := by
        rintro rfl
        simp only [modifyAt, List.length_modify] at past
        simp [at?, List.getElem?_eq_none past] at there
      rw [below, if_neg apart, List.append_nil]
      exact beyond i (by simpa [modifyAt] using past)

/-- The keys of a draft inside are those that were used on it, too. -/
theorem keys_at (h : draft.Reflects g initially deeds) {positions : List Nat} {inner : Draft}
    (there : draft.at? positions = some inner) :
    inner.nested.map (·.1) = keysOf g (deeds.on positions) := by
  induction positions generalizing initially draft deeds with
  | nil =>
    obtain ⟨-, keys, -⟩ := h
    exact Option.some.inj there ▸ keys
  | cons position rest ih =>
    obtain ⟨-, -, -, -, -, nested, -⟩ := h
    obtain ⟨entry, held, inside⟩ := at?_cons there
    rw [Deeds.on_cons]
    exact ih (nested position entry held) inside

/-- A draft in another reflects what was declared there. -/
theorem inside (h : draft.Reflects g initially deeds) {positions : List Nat} {inner : Draft}
    (there : draft.at? positions = some inner) :
    inner.anyOf = draft.anyOf ∧ ∃ initially' deeds', inner.Reflects g initially' deeds' ∧
      ∀ rest, deeds'.on rest = deeds.on (positions ++ rest) := by
  induction positions generalizing initially draft deeds with
  | nil =>
    obtain rfl := Option.some.inj there
    exact ⟨rfl, initially, deeds, h, fun rest => rfl⟩
  | cons position rest ih =>
    obtain ⟨-, -, -, -, kinds, nested, -⟩ := h
    obtain ⟨entry, held, inside⟩ := at?_cons there
    obtain ⟨kind, initially', deeds', reflects, same⟩ := ih (nested position entry held) inside
    exact ⟨kind.trans (kinds position entry held), initially', deeds', reflects,
      fun rest => (same rest).trans (Deeds.on_cons ..).symm⟩

/-- What a draft is built to, up to what the drafts in it are built to. -/
theorem build_own (h : draft.Reflects g initially deeds) :
    draft.build = .object ((constraintsOf deeds.own).map (·.constraint))
      ((keysOf g deeds.own).zipIdx.map (fun entry =>
          entry.1.wrap ((draft.at? [entry.2]).getD default).build) ++ validationsOf deeds.own)
      draft.anyOf (stopsOf initially deeds.own) := by
  obtain ⟨constraints, keys, prebuilt, shortCircuit, -, -, -⟩ := h
  have steps : draft.nested.map (fun entry => entry.1.wrap entry.2.build) =
      (keysOf g deeds.own).zipIdx.map fun entry =>
        entry.1.wrap ((draft.at? [entry.2]).getD default).build := by
    rw [← keys]
    refine List.ext_getElem (by simp) fun i inside _ => ?_
    have held := List.getElem?_eq_getElem (List.length_map _ ▸ inside)
    simp [at?, held]
  rw [Draft.build_eq, steps, constraints, prebuilt, shortCircuit]

end Reflects

end Draft

end PathRules
