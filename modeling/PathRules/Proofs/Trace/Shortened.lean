import PathRules.Proofs.Trace.Leaves

/-!
# Groups that are left early

A group that is left early makes its checks up to one that decides it.  What it tells is compared
with what it tells if it makes all of them: the verdict is the same, the leaves are some of those
reported otherwise, and all of them if the value passed or if no group of which all checks have to
pass was left early.
-/

namespace PathRules

variable {α β γ δ : Type}

/-- The first list holds what the second one holds up to the first that ends it. -/
inductive CutBy (ends : α → Bool) (R : α → β → Prop) : List α → List β → Prop
  | done : CutBy ends R [] []
  | next {a b as bs} : R a b → ends a = false → CutBy ends R as bs → CutBy ends R (a :: as) (b :: bs)
  | cut {a b bs} : R a b → ends a = true → CutBy ends R [a] (b :: bs)

namespace CutBy

variable {ends : α → Bool} {R : α → β → Prop} {as : List α} {bs : List β}

/-- What is made only if nothing ended the first part. -/
theorem append {cs : List α} {ds : List β} (h : CutBy ends R as bs)
    (later : as.any ends = false → CutBy ends R cs ds) :
    CutBy ends R (as ++ if as.any ends then [] else cs) (bs ++ ds) := by
  induction h with
  | done => exact later rfl
  | next related continued _ ih =>
    rw [List.any_cons, continued, Bool.false_or] at later ⊢
    exact .next related continued (ih later)
  | cut related ended =>
    rw [List.any_cons, ended, Bool.true_or, if_pos rfl]
    exact .cut related ended

theorem map {ends' : γ → Bool} {R' : γ → δ → Prop} {f : α → γ} {f' : β → δ}
    (h : CutBy ends R as bs) (same : ∀ a, ends' (f a) = ends a)
    (imp : ∀ a b, R a b → R' (f a) (f' b)) : CutBy ends' R' (as.map f) (bs.map f') := by
  induction h with
  | done => exact .done
  | next related continued _ ih => exact .next (imp _ _ related) ((same _).trans continued) ih
  | cut related ended => exact .cut (imp _ _ related) ((same _).trans ended)

end CutBy

namespace Trace

/-- The first trace tells the same verdict and part of the leaves; it tells all of them if the
value passed, or if `exact` holds. -/
structure Shortened (exact : Prop) (t t' : Trace) : Prop where
  passed : t.passed = t'.passed
  leaves : t.leaves.Sublist t'.leaves
  same : t'.passed = true ∨ exact → t.leaves = t'.leaves

/-- A test as a group of its own. -/
def ofTest (sign : Sign) (test : Option Leaf) : Trace := .group sign [test] []

@[simp] theorem passed_ofTest (sign : Sign) (test : Option Leaf) :
    (ofTest sign test).passed = sign.counts test := by
  cases sign <;> simp [ofTest, passed]

@[simp] theorem leaves_ofTest (sign : Sign) (test : Option Leaf) :
    (ofTest sign test).leaves = failures [test] := by
  cases sign <;> cases test <;> simp [ofTest, leaves, passed, Sign.counts, failures]

theorem flatMap_leaves_ofTest (sign : Sign) (tests : List (Option Leaf)) :
    (tests.map (ofTest sign)).flatMap leaves = failures tests := by
  induction tests with
  | nil => rfl
  | cons test tests ih => cases test <;> simp_all [failures]

/-- A group with tests tells what a group tells that has traces only. -/
theorem passed_group (sign : Sign) (tests : List (Option Leaf)) (subs : List Trace) :
    (group sign tests subs).passed = (group sign [] (tests.map (ofTest sign) ++ subs)).passed := by
  cases sign with
  | all => simp [passed, Function.comp_def]
  | any => cases tests <;> cases subs <;> simp [passed, Function.comp_def, Bool.or_assoc]

theorem leaves_group (sign : Sign) (tests : List (Option Leaf)) (subs : List Trace) :
    (group sign tests subs).leaves = (group sign [] (tests.map (ofTest sign) ++ subs)).leaves := by
  have told : failures tests ++ subs.flatMap leaves =
      (tests.map (ofTest sign) ++ subs).flatMap leaves := by
    rw [List.flatMap_append, flatMap_leaves_ofTest]
  cases sign with
  | all => simpa [leaves, failures] using told
  | any =>
    rw [leaves, leaves, leavesOf_eq_flatMap, leavesOf_eq_flatMap, told, passed_group]
    rfl

end Trace

namespace CutBy

open Trace

variable {exact : Prop} {ends : Trace → Bool} {ts ts' : List Trace}

theorem isEmpty_eq (h : CutBy ends (Shortened exact) ts ts') : ts.isEmpty = ts'.isEmpty := by
  cases h <;> rfl

theorem sublist_leaves (h : CutBy ends (Shortened exact) ts ts') :
    (ts.flatMap leaves).Sublist (ts'.flatMap leaves) := by
  induction h with
  | done => exact .refl _
  | next first _ _ ih => exact first.leaves.append ih
  | cut first _ =>
    rw [List.flatMap_cons, List.flatMap_cons]
    exact first.leaves.append (List.nil_sublist _)

/-- If a failure ends the list, all pass on both sides or on none. -/
theorem all_passed (h : CutBy ends (Shortened exact) ts ts')
    (fails : ∀ t, ends t = true → t.passed = false) : ts.all passed = ts'.all passed := by
  induction h with
  | done => rfl
  | next first _ _ ih => rw [List.all_cons, List.all_cons, first.passed, ih]
  | cut first ended =>
    have failed := fails _ ended
    rw [List.all_cons, List.all_cons, ← first.passed, failed]
    rfl

/-- If a pass ends the list, some pass on both sides or on none. -/
theorem any_passed (h : CutBy ends (Shortened exact) ts ts')
    (passes : ∀ t, ends t = true → t.passed = true) : ts.any passed = ts'.any passed := by
  induction h with
  | done => rfl
  | next first _ _ ih => rw [List.any_cons, List.any_cons, first.passed, ih]
  | cut first ended =>
    have passed := passes _ ended
    rw [List.any_cons, List.any_cons, ← first.passed, passed]
    rfl

/-- If nothing ended the list, it tells all that is told otherwise. -/
theorem leaves_eq (h : CutBy ends (Shortened exact) ts ts') (continued : ts.any ends = false)
    (whole : ∀ t ∈ ts', t.passed = true ∨ exact) : ts.flatMap leaves = ts'.flatMap leaves := by
  induction h with
  | done => rfl
  | next first _ _ ih =>
    rw [List.any_cons, Bool.or_eq_false_iff] at continued
    rw [List.flatMap_cons, List.flatMap_cons, first.same (whole _ List.mem_cons_self),
      ih continued.2 fun t member => whole t (List.mem_cons_of_mem _ member)]
  | cut _ ended =>
    rw [List.any_cons, ended] at continued
    cases continued

end CutBy

namespace Trace

variable {exact : Prop} {sign : Sign} {short : Bool}

theorem shortened_group_all {ts ts' : List Trace}
    (h : CutBy (fun t => short && !t.passed) (Shortened exact) ts ts') (runsOn : exact → short = false) :
    Shortened exact (.group .all [] ts) (.group .all [] ts') := by
  have passes : ts.all passed = ts'.all passed := h.all_passed fun t ended => by simp_all
  refine ⟨by simpa [passed] using passes, by simpa [leaves, failures] using h.sublist_leaves, ?_⟩
  intro told
  have reported : ts.flatMap leaves = ts'.flatMap leaves := by
    rcases told with all | exactly
    · rw [passed, List.all_nil, Bool.true_and, allPassed_eq_all] at all
      refine h.leaves_eq (List.any_eq_false.mpr fun t member => ?_) fun t member =>
        .inl (List.all_eq_true.mp all t member)
      simp [List.all_eq_true.mp (passes.trans all) t member]
    · refine h.leaves_eq (List.any_eq_false.mpr fun t _ => ?_) fun t _ => .inr exactly
      simp [runsOn exactly]
  simpa [leaves, failures] using reported

theorem shortened_group_any {ts ts' : List Trace}
    (h : CutBy (fun t => short && t.passed) (Shortened exact) ts ts') :
    Shortened exact (.group .any [] ts) (.group .any [] ts') := by
  have passes : (Trace.group .any [] ts).passed = (Trace.group .any [] ts').passed := by
    have some : ts.any passed = ts'.any passed := h.any_passed fun t ended => by simp_all
    simp [passed, some, h.isEmpty_eq]
  refine ⟨passes, ?_, ?_⟩
  · rw [leaves, leaves, passes]
    split
    · exact .refl _
    · simpa [failures] using h.sublist_leaves
  · intro told
    rw [leaves, leaves, passes]
    split
    · rfl
    · next failed =>
      have exactly : exact := told.resolve_left failed
      have none : ∀ t ∈ ts, t.passed = false := by
        rw [← passes] at failed
        simp only [passed, anyPassed_eq_any, Bool.or_eq_true, not_or] at failed
        simpa using failed.2
      have reported : ts.flatMap leaves = ts'.flatMap leaves := by
        refine h.leaves_eq (List.any_eq_false.mpr fun t member => ?_) fun t _ => .inr exactly
        simp [none t member]
      simpa [failures] using reported

theorem Shortened.refl (t : Trace) : Shortened exact t t := ⟨rfl, .refl _, fun _ => rfl⟩

/-- Only verdicts and leaves are compared. -/
theorem Shortened.of_eq {t t' u u' : Trace} (h : Shortened exact u u')
    (passed : t.passed = u.passed) (leaves : t.leaves = u.leaves) (passed' : t'.passed = u'.passed)
    (leaves' : t'.leaves = u'.leaves) : Shortened exact t t' := by
  refine ⟨?_, ?_, ?_⟩
  · rw [passed, passed', h.passed]
  · rw [leaves, leaves']
    exact h.leaves
  · rw [leaves, leaves', passed']
    exact h.same

theorem Shortened.step {inner inner' : Trace} (h : Shortened exact inner inner') (target : Segment)
    (part : Value) : Shortened exact (.step target part inner) (.step target part inner') :=
  ⟨h.passed, h.leaves.map _, fun told => congrArg (List.map _) (h.same told)⟩

theorem shortened_elements {visits visits' : List Trace} (kind : Elements) (v : Value)
    (h : CutBy (fun _ => false) (Shortened exact) visits visits') :
    Shortened exact (.elements kind v visits) (.elements kind v visits') := by
  have whole : CutBy (fun t => false && !t.passed) (Shortened exact) visits visits' := h
  have grouped := shortened_group_all whole fun _ => rfl
  refine grouped.of_eq ?_ ?_ ?_ ?_ <;> simp [passed, leaves, failures]

/-- A group that is left early tells the same verdict, and of its leaves some or all. -/
theorem shortened_group {tests tests' : List (Option Leaf)} {subs subs' : List Trace}
    (own : CutBy (fun test => short && sign.decidedBy (sign.counts test)) (· = ·) tests tests')
    (nested : (tests.any fun test => short && sign.decidedBy (sign.counts test)) = false →
      CutBy (fun t => short && sign.decidedBy t.passed) (Shortened exact) subs subs')
    (unmade : (tests.any fun test => short && sign.decidedBy (sign.counts test)) = true → subs = [])
    (runsOn : exact → sign = .all → short = false) :
    Shortened exact (.group sign tests subs) (.group sign tests' subs') := by
  have tested : CutBy (fun t => short && sign.decidedBy t.passed) (Shortened exact)
      (tests.map (ofTest sign)) (tests'.map (ofTest sign)) :=
    own.map (fun test => by rw [passed_ofTest]) fun test _ same => same ▸ .refl _
  have decided : (tests.map (ofTest sign)).any (fun t => short && sign.decidedBy t.passed) =
      tests.any fun test => short && sign.decidedBy (sign.counts test) := by
    simp [Function.comp_def]
  have whole : CutBy (fun t => short && sign.decidedBy t.passed) (Shortened exact)
      (tests.map (ofTest sign) ++ if (tests.map (ofTest sign)).any fun t =>
        short && sign.decidedBy t.passed then [] else subs) (tests'.map (ofTest sign) ++ subs') :=
    tested.append fun continued => nested (decided.symm.trans continued)
  have made : (if (tests.map (ofTest sign)).any fun t => short && sign.decidedBy t.passed then []
      else subs) = subs := by
    rw [decided]
    split
    · next ended => exact (unmade ended).symm
    · rfl
  rw [made] at whole
  refine Shortened.of_eq ?_ (passed_group sign tests subs) (leaves_group sign tests subs)
    (passed_group sign tests' subs') (leaves_group sign tests' subs')
  cases sign with
  | all => exact shortened_group_all whole fun exactly => runsOn exactly rfl
  | any => exact shortened_group_any whole

end Trace

end PathRules
