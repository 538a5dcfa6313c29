import PathRules.Proofs.Run.Keeps
import PathRules.Proofs.Trace.Groups
import PathRules.Proofs.Trace.Shortened
import PathRules.Proofs.Validation.Material
import PathRules.Proofs.Value.Unaware

/-!
# Making all checks

`Validation.thorough` is the validation in which no group is left early.  Where no test and no
extractor takes notice of the store, whatever this one answers the validation itself answers too,
with a trace that is shortened.
-/

namespace PathRules

variable {α β γ δ : Type} {g : ObjectGraph}

namespace Validation

mutual

/-- The validation in which no group is left early, those of guards included. -/
def thorough : Validation → Validation
  | .object constraints subs anyOf _ => .object constraints (allThorough subs) anyOf false
  | .step presence guards target inner =>
      .step presence (guardsThorough guards) target (thorough inner)
  | .elements kind inner => .elements kind (thorough inner)
  | .script steps answer => .script steps answer
  | .model registry cls => .model registry cls
termination_by structural validation => validation

def allThorough : List Validation → List Validation
  | [] => []
  | sub :: subs => thorough sub :: allThorough subs
termination_by structural validations => validations

def guardsThorough : List Guard → List Guard
  | [] => []
  | .mk number condition :: guards => .mk number (thorough condition) :: guardsThorough guards
termination_by structural guards => guards

end

end Validation

/-- Constraints and segments that take no notice of the store. -/
def Material.unaware (g : ObjectGraph) : Material where
  constraint c := ∀ v, (c.test v).Unaware g
  segment s := ∀ extract ∈ s.extract?, ∀ v, (extract v).Unaware g

namespace Check

/-- Whenever `m'` answers, `m` answers too, and the answers are related; the stores hold no
one-shot source and may differ otherwise. -/
def Shadows (g : ObjectGraph) (m : Check α) (m' : Check β) (R : α → β → Prop) : Prop :=
  ∀ store store', store.sources = [] → store'.sources = [] → ∀ b after',
    m'.runOn g store' = (.ok b, after') → after'.sources = [] ∧
      ∃ a after, m.runOn g store = (.ok a, after) ∧ after.sources = [] ∧ R a b

namespace Shadows

variable {R : α → β → Prop}

theorem of_pure {a : α} {b : β} (h : R a b) : Shadows g (pure a) (pure b) R := by
  intro store store' dry dry' _ _ ran
  cases ran
  exact ⟨dry', a, store, rfl, dry, h⟩

theorem of_unaware {m : Check α} (h : m.Unaware g) : Shadows g m m (· = ·) := by
  intro store store' dry dry' b after' ran
  have same := h.same dry dry'
  have left := h.sources dry
  have left' := h.sources dry'
  rw [ran] at same left'
  rcases answered : m.runOn g store with ⟨outcome, after⟩
  rw [answered] at same left
  exact ⟨left', b, after, congrArg (·, after) same, left, rfl⟩

theorem bind {m : Check α} {m' : Check β} {f : α → Check γ} {f' : β → Check δ} {S : γ → δ → Prop}
    (h : Shadows g m m' R) (hf : ∀ a b, R a b → Shadows g (f a) (f' b) S) :
    Shadows g (m >>= f) (m' >>= f') S := by
  intro store store' dry dry' d after' ran
  rw [runOn_bind] at ran
  rcases first : m'.runOn g store' with ⟨fault | b, mid'⟩ <;> rw [first] at ran
  · cases ran
  obtain ⟨left', a, mid, answered, left, related⟩ := h store store' dry dry' b mid' first
  rw [runOn_bind, answered]
  exact hf a b related mid mid' left left' d after' ran

theorem of_ite {c : Prop} [Decidable c] {m n : Check α} {m' n' : Check β} (h : Shadows g m m' R)
    (h' : Shadows g n n' R) : Shadows g (if c then m else n) (if c then m' else n') R := by
  split
  · exact h
  · exact h'

theorem and_ensures {m : Check α} {m' : Check β} {Q : β → Prop} (h : Shadows g m m' R)
    (ensured : m'.Ensures g Q) : Shadows g m m' fun a b => R a b ∧ Q b := by
  intro store store' dry dry' b after' ran
  obtain ⟨left', a, after, answered, left, related⟩ := h store store' dry dry' b after' ran
  have holds := ensured store'
  rw [ran] at holds
  exact ⟨left', a, after, answered, left, related, holds⟩

theorem of_get : Shadows g (get : Check Store) get fun store store' =>
    store.sources = [] ∧ store'.sources = [] := by
  intro store store' dry dry' _ _ ran
  cases ran
  exact ⟨dry', store, store, rfl, dry, dry, dry'⟩

/-- What is answered without a check. -/
theorem skip {m : Check α} {m' : Check β} (h : Shadows g m m' R) (c : γ) :
    Shadows g (pure c) m' fun c' _ => c' = c := by
  intro store store' dry dry' b after' ran
  exact ⟨(h store store' dry dry' b after' ran).1, c, store, rfl, dry, rfl⟩

/-- Checks that are left early answer as those do that are all made. -/
theorem inTurn {ends : α → Bool} {checks : List (Check α)} {checks' : List (Check β)}
    (h : List.Forall₂ (Shadows g · · R) checks checks') :
    Shadows g (Check.inTurn ends checks) (Check.inTurn (fun _ => false) checks')
      (CutBy ends R) := by
  induction h with
  | nil => exact of_pure .done
  | cons first _ ih =>
    refine first.bind fun a b related => ?_
    rw [if_neg Bool.false_ne_true]
    cases ended : ends a with
    | true =>
      refine (ih.skip []).bind fun as bs none => of_pure ?_
      rw [none]
      exact .cut related ended
    | false => exact ih.bind fun as bs cut => of_pure (.next related ended cut)

end Shadows

end Check

namespace GroupRule

/-- A group of which all checks have to pass is not left early. -/
def runsOn : GroupRule := fun _ _ anyOf short => anyOf = false → short = false

end GroupRule

open Check.Unaware

/-- Taking the parts of a value is unaware of the store, and so is each of the parts. -/
theorem Elements.unaware_parts (graph : ObjectGraph) (v : Value) (kind : Elements) :
    (kind.parts graph v).Unaware g := by
  cases kind with
  | iterated indices =>
    dsimp only [parts]
    split
    · exact of_pure _
    · exact of_throw _
  | positions indices =>
    dsimp only [parts]
    split
    · exact of_pure _
    · exact of_throw _
  | entries keys => exact (Value.unaware_pairs v).bind fun pairs => of_pure _

theorem Elements.ensures_unaware (graph : ObjectGraph) (v : Value) (kind : Elements) :
    (kind.parts graph v).Ensures g fun parts => ∀ part ∈ parts, part.2.Unaware g := by
  cases kind with
  | iterated indices =>
    dsimp only [parts]
    split
    · refine Check.Meets.of_pure fun part member => ?_
      obtain ⟨_, -, rfl⟩ := List.mem_map.mp member
      exact of_pure _
    · exact Check.Meets.of_throw trivial
  | positions indices =>
    dsimp only [parts]
    split
    · refine Check.Meets.of_pure fun part member => ?_
      obtain ⟨_, -, rfl⟩ := List.mem_map.mp member
      exact of_ofExcept _
    · exact Check.Meets.of_throw trivial
  | entries keys =>
    refine (Check.ensures_true _).bind fun pairs _ => Check.Meets.of_pure fun part member => ?_
    obtain ⟨_, -, rfl⟩ := List.mem_map.mp member
    exact of_pure _

namespace Trace

open Check.Shadows

variable {exact : Prop} {visit visit' : Value → Check Trace}

theorem shadows_ofPart (h : ∀ v, (visit v).Shadows g (visit' v) (Shortened exact))
    {part : Segment × Check Value} (unaware : part.2.Unaware g) :
    (ofPart visit part).Shadows g (ofPart visit' part) (Shortened exact) := by
  refine (of_unaware unaware).bind fun v _ same => ?_
  subst same
  exact (h v).bind fun inner inner' shortened => of_pure (shortened.step part.1 v)

theorem shadows_ofElements (h : ∀ v, (visit v).Shadows g (visit' v) (Shortened exact)) (v : Value)
    (kind : Elements) : (ofElements visit v kind).Shadows g (ofElements visit' v kind)
      (CutBy (fun _ => false) (Shortened exact)) := by
  refine (of_unaware of_read).bind fun graph _ same => ?_
  subst same
  split
  · refine of_get.bind fun store store' dry => ?_
    rw [Store.remaining_of_dry dry.1, Store.remaining_of_dry dry.2]
    exact of_pure .done
  · refine ((of_unaware (kind.unaware_parts graph v)).and_ensures
      (kind.ensures_unaware graph v)).bind fun parts _ both => ?_
    obtain ⟨rfl, unaware⟩ := both
    exact inTurn (List.forall₂_map_right_iff.mpr (List.forall₂_map_left_iff.mpr
      (List.forall₂_same.mpr fun part member => shadows_ofPart h (unaware part member))))

theorem shadows_ofGroup {sign : Sign} {short : Bool} {tests : List (Check (Option Leaf))}
    (unaware : ∀ test ∈ tests, test.Unaware g) {subs subs' : List (Check Trace)}
    (h : List.Forall₂ (Check.Shadows g · · (Shortened exact)) subs subs')
    (runsOn : exact → sign = .all → short = false) :
    (ofGroup sign short tests subs).Shadows g (ofGroup sign false tests subs')
      (Shortened exact) := by
  have tested : List.Forall₂ (Check.Shadows g · · (· = ·)) tests tests :=
    List.forall₂_same.mpr fun test member => of_unaware (unaware test member)
  refine (inTurn tested).bind fun made made' own => ?_
  have undecided : (made'.any fun test => false && sign.decidedBy (sign.counts test)) = false :=
    List.any_eq_false.mpr fun test _ => Bool.false_ne_true
  rw [undecided, if_neg Bool.false_ne_true]
  have further : (Check.inTurn (fun t => short && sign.decidedBy t.passed) subs).Shadows g
      (Check.inTurn (fun _ => false) subs') (CutBy _ (Shortened exact)) := inTurn h
  cases decided : made.any fun test => short && sign.decidedBy (sign.counts test) with
  | true =>
    refine (further.skip []).bind fun ts ts' none => of_pure ?_
    exact shortened_group own (fun continued => nomatch decided.symm.trans continued) (fun _ => none)
      runsOn
  | false =>
    refine further.bind fun ts ts' nested => of_pure ?_
    exact shortened_group own (fun _ => nested) (fun ended => nomatch decided.symm.trans ended)
      runsOn

end Trace

namespace Validation

open Check.Shadows

theorem tested_unaware {c : Constraint} (h : (Material.unaware g).constraint c) (v : Value) :
    (c.tested v).Unaware g := by
  refine (h v).bind fun passed => Check.Unaware.of_ite (.of_pure _) ?_
  exact (c.unaware_render v).bind fun message => .of_pure _

variable {expand : TraceModel}

mutual

/-- Whatever the thorough validation answers, the validation answers with a shortened trace. -/
theorem shadows_traceWith : (validation : Validation) → validation.MadeOf (.unaware g) →
    validation.Keeps g (fun _ _ => True) False → ∀ exact : Prop,
      (exact → validation.EachGroup .runsOn) → ∀ v : Value,
        (validation.traceWith expand v).Shadows g (validation.thorough.traceWith expand v)
          (Trace.Shortened exact)
  | .object constraints subs anyOf short, made, free, exact, runsOn, v => by
    have nested := shadows_tracesWith subs made.2 free.2 exact (fun exactly => (runsOn exactly).2) v
    refine Trace.shadows_ofGroup (fun test member => ?_) nested fun exactly all => ?_
    · obtain ⟨c, declared, rfl⟩ := List.mem_map.mp member
      exact tested_unaware (made.1 c declared) v
    · cases anyOf with
      | false => exact (runsOn exactly).1 rfl
      | true => cases all
  | .step presence guards target inner, made, free, exact, runsOn, v => by
    refine (shadows_guardsHold guards made.1 free.1 v).bind fun held _ same => ?_
    subst same
    refine of_ite ?_ (of_pure (.refl _))
    refine (of_unaware (Segment.unaware_get fun extract own =>
      made.2.1 extract own v)).bind fun part _ same => ?_
    subst same
    split
    · exact of_pure (.refl _)
    · exact of_pure (.refl _)
    · exact (shadows_traceWith inner made.2.2 free.2.2 exact runsOn part).bind
        fun t t' shortened => of_pure (shortened.step target part)
  | .elements kind inner, made, free, exact, runsOn, v => by
    refine (Trace.shadows_ofElements (shadows_traceWith inner made free exact runsOn) v
      kind).bind fun visits visits' cut => of_pure ?_
    exact Trace.shortened_elements kind v cut
  | .script .., made, _, _, _, _ => made.elim
  | .model .., _, free, _, _, _ => free.elim
termination_by structural validation => validation

theorem shadows_tracesWith : (subs : List Validation) → AllMadeOf (.unaware g) subs →
    AllKeep g (fun _ _ => True) False subs → ∀ exact : Prop,
      (exact → EachGroupIn .runsOn subs) → ∀ v : Value,
        List.Forall₂ (Check.Shadows g · · (Trace.Shortened exact)) (tracesWith expand subs v)
          (tracesWith expand (allThorough subs) v)
  | [], _, _, _, _, _ => .nil
  | sub :: subs, made, free, exact, runsOn, v =>
    .cons (shadows_traceWith sub made.1 free.1 exact (fun exactly => (runsOn exactly).1) v)
      (shadows_tracesWith subs made.2 free.2 exact (fun exactly => (runsOn exactly).2) v)
termination_by structural subs => subs

/-- Guards answer the same, for nothing more is asked of them than whether they accept a value. -/
theorem shadows_guardsHold : (guards : List Guard) → GuardsMadeOf (.unaware g) guards →
    GuardsKeep g (fun _ _ => True) False guards → ∀ v : Value,
      (guardsHold expand guards v).Shadows g (guardsHold expand (guardsThorough guards) v) (· = ·)
  | [], _, _, _ => of_pure rfl
  | .mk _ condition :: guards, made, free, v => by
    refine (shadows_traceWith condition made.1 free.1 False (fun exactly => exactly.elim) v).bind
      fun t t' shortened => ?_
    rw [shortened.passed]
    exact of_ite (shadows_guardsHold guards made.2 free.2 v) (of_pure rfl)
termination_by structural guards => guards

end

end Validation

end PathRules
