import PathRules.Proofs.Run.Meaning

/-!
# Findings

A finding is a verdict with the leaves to report.  A group of which all checks have to pass makes
its checks one after the other, tests of constraints and further validations alike, and joins what
they find; this is how it is taken apart at any of its checks.
-/

namespace PathRules

variable {α : Type}

/-- A verdict and the leaves to report. -/
abbrev Finding := Bool × List Placed

namespace Finding

def ofTest (test : Option Leaf) : Finding := (Sign.all.counts test, Trace.failures [test])

def ofTrace (t : Trace) : Finding := (t.passed, t.leaves)

/-- What two parts of a group find together. -/
def join (first rest : Finding) : Finding := (first.1 && rest.1, first.2 ++ rest.2)

theorem join_assoc (a b c : Finding) : (a.join b).join c = a.join (b.join c) := by
  simp [join, Bool.and_assoc]

@[simp] theorem join_nil (a : Finding) : a.join (true, []) = a := by
  simp [join]

@[simp] theorem nil_join (a : Finding) : join (true, []) a = a := by
  simp [join]

/-- What is found by all together. -/
def joinAll (find : α → Finding) (as : List α) : Finding :=
  (as.all fun a => (find a).1, as.flatMap fun a => (find a).2)

theorem joinAll_cons (find : α → Finding) (a : α) (as : List α) :
    joinAll find (a :: as) = (find a).join (joinAll find as) := rfl

/-- Goes on after the first check, unless it did not pass and this ends the group. -/
def followedBy {m : Type → Type} [Monad m] (short : Bool) (first rest : m Finding) :
    m Finding := do
  let found ← first
  if short && !found.1 then pure found
  else
    let others ← rest
    pure (found.join others)

variable {m : Type → Type} [Monad m] [LawfulMonad m] {short : Bool}

theorem followedBy_assoc (a b c : m Finding) :
    followedBy short (followedBy short a b) c = followedBy short a (followedBy short b c) := by
  unfold followedBy
  rw [bind_assoc]
  congr
  funext first
  cases ended : short && !first.1 with
  | true => rw [if_pos rfl, if_pos rfl, pure_bind, ended, if_pos rfl]
  | false =>
    rw [if_neg Bool.false_ne_true, bind_assoc, if_neg Bool.false_ne_true, bind_assoc]
    congr
    funext second
    have decided : (short && !(first.join second).1) = (short && !second.1) := by
      cases short <;> simp_all [join]
    rw [pure_bind, decided]
    split
    · rw [pure_bind]
    · simp [join_assoc]

@[simp] theorem followedBy_nothing (a : m Finding) :
    followedBy short a (pure (true, [])) = a := by
  unfold followedBy
  simp

@[simp] theorem nothing_followedBy (a : m Finding) :
    followedBy short (pure (true, [])) a = a := by
  unfold followedBy
  simp only [pure_bind, Bool.not_true, Bool.and_false, Bool.false_eq_true, if_false, nil_join,
    bind_pure]

end Finding

namespace Check

open Finding

variable {short : Bool}

/-- Checks one after the other, all of which have to pass. -/
def allInTurn (short : Bool) : List (Check Finding) → Check Finding
  | [] => pure (true, [])
  | check :: checks => followedBy short check (allInTurn short checks)

theorem allInTurn_append (checks others : List (Check Finding)) :
    allInTurn short (checks ++ others) =
      followedBy short (allInTurn short checks) (allInTurn short others) := by
  induction checks with
  | nil => simp [allInTurn]
  | cons check checks ih => rw [List.cons_append, allInTurn, allInTurn, ih, followedBy_assoc]

/-- Checks that are left where one does not pass have found what they find in turn. -/
theorem joinAll_inTurn {find : α → Finding} (ends : α → Bool)
    (ending : ∀ a, ends a = (short && !(find a).1)) (checks : List (Check α)) :
    Finding.joinAll find <$> inTurn ends checks = allInTurn short (checks.map (find <$> ·)) := by
  induction checks with
  | nil => simp [inTurn, allInTurn, Finding.joinAll]
  | cons check checks ih =>
    rw [List.map_cons, allInTurn, ← ih, inTurn, followedBy]
    simp only [map_eq_pure_bind, bind_assoc, pure_bind, ← ending]
    congr
    funext a
    cases ends a with
    | true => simp [Finding.joinAll]
    | false => simp [Finding.joinAll_cons]

end Check

namespace Trace

theorem ofTrace_group (tests : List (Option Leaf)) (subs : List Trace) :
    Finding.ofTrace (.group .all tests subs) =
      (Finding.joinAll Finding.ofTest tests).join (Finding.joinAll Finding.ofTrace subs) := by
  have failed : failures tests = tests.flatMap fun test => failures [test] := by
    induction tests with
    | nil => rfl
    | cons test tests ih => cases test <;> simp_all [failures]
  simp [Finding.ofTrace, Finding.join, Finding.joinAll, Finding.ofTest, passed, leaves, failed]

/-- A group of which all checks have to pass finds what its checks find in turn. -/
theorem ofGroup_all (short : Bool) (tests : List (Check (Option Leaf)))
    (subs : List (Check Trace)) :
    Finding.ofTrace <$> ofGroup .all short tests subs =
      Check.allInTurn short
        (tests.map (Finding.ofTest <$> ·) ++ subs.map (Finding.ofTrace <$> ·)) := by
  let decides := fun test => short && Sign.all.decidedBy (Sign.all.counts test)
  have ended (ts : List (Option Leaf)) :
      ts.any decides = (short && !(Finding.joinAll Finding.ofTest ts).1) := by
    induction ts with
    | nil => simp [Finding.joinAll]
    | cons t ts ih =>
      rw [List.any_cons, ih, Finding.joinAll_cons]
      cases short <;> simp [decides, Finding.join, Finding.ofTest, Sign.decidedBy]
  rw [Check.allInTurn_append, ← Check.joinAll_inTurn decides (fun _ => rfl),
    ← Check.joinAll_inTurn (fun t => short && Sign.all.decidedBy t.passed) (fun _ => rfl),
    ofGroup, Finding.followedBy]
  simp only [map_eq_pure_bind, bind_assoc, pure_bind]
  congr
  funext ts
  rw [← ended]
  split
  · simp [ofTrace_group, Finding.joinAll]
  · simp [ofTrace_group]

end Trace

namespace Validation

/-- A group of which all checks have to pass finds what its constraints find, and then what its
further validations do. -/
theorem find_object (expand : TraceModel) (constraints : List Constraint) (subs : List Validation)
    (short : Bool) (v : Value) :
    Finding.ofTrace <$> (object constraints subs false short).traceWith expand v =
      Check.allInTurn short (constraints.map (fun c => Finding.ofTest <$> c.tested v) ++
        subs.map fun sub => Finding.ofTrace <$> sub.traceWith expand v) := by
  have traces (subs : List Validation) :
      tracesWith expand subs v = subs.map fun sub => sub.traceWith expand v := by
    induction subs with
    | nil => rfl
    | cons sub subs ih => rw [tracesWith, ih, List.map_cons]
  rw [traceWith, if_neg Bool.false_ne_true, Trace.ofGroup_all, traces, List.map_map, List.map_map]
  rfl

variable {g : ObjectGraph}

/-- The verdict on a value and all that was recorded, or the fault that was raised. -/
def finding (g : ObjectGraph) (run : Run) (validation : Validation) (v : Value) :
    Except Fault Finding :=
  ((validation.validate v).runOn g run).1.map fun outcome => (outcome.isAccepted, outcome.recorded)

/-- A run that starts on an empty stack finds what the trace of its evaluation tells. -/
theorem finding_of_told {validation : Validation} {run : Run} (fresh : run.stack = {}) {v : Value}
    {traced : Check Trace}
    (told : Told g (run.rulebook.rules g) (validation.evaluate
      (expandModel (g.expansions v run.store.sources)) v) traced) :
    validation.finding g run v = ((Finding.ofTrace <$> traced).runOn g run.store).1 := by
  have evaluated : (validation.validate v).runOn g run = (validation.reporting v
      (validation.evaluate (expandModel (g.expansions v run.store.sources)) v)).runOn g run := by
    rw [validate, reporting, reporting, RunM.runOn_bind, RunM.runOn_bind, RunM.runOn_emit]
    dsimp only
    rw [RunM.runOn_bind, RunM.runOn_bind, runOn_check]
  have ended := ((reporting_follows told validation fresh v).runOn_eq
    fun _ _ _ related => related.1).1
  rw [finding, evaluated, ended, map_eq_pure_bind, Check.runOn_bind]
  rcases traced.runOn g run.store with ⟨fault | t, store⟩
  · rfl
  · simp [Except.map, Finding.ofTrace]

/-- What rules without scripts find. -/
theorem finding_eq {validation : Validation} (made : validation.MadeOf .any) {run : Run}
    (book : run.rulebook.MadeOf .any) (fresh : run.stack = {}) (v : Value) :
    validation.finding g run v = ((Finding.ofTrace <$> validation.traceWith
      (traceModel (run.rulebook.rules g) (g.expansions v run.store.sources)) v).runOn g
        run.store).1 :=
  finding_of_told fresh (validation.evaluate_told
    (expandModel_told (book.served Material.any_holdsFields) _) made v)

end Validation

end PathRules
