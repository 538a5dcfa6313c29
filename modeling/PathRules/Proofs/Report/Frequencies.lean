import Mathlib.Algebra.GroupWithZero.Nat
import Mathlib.Data.List.Induction
import PathRules.Proofs.Run.Meaning
import PathRules.Proofs.Trace.Recordings
import PathRules.Proofs.Value.Transitive
import PathRules.Report.Tally
import PathRules.Run.Libraries

/-!
# What a tally comes to

A tally looks at one event at a time and keeps three numbers up to date.  After any events they are
what can be read off the events as a whole: how many runs ended, how many of them in a rejection,
and how often each error occurred.  The summary ranks the errors by how often they occurred, and
those that occurred equally often by which of them occurred first.
-/

namespace PathRules

variable {g : ObjectGraph}

/-! ## What an event tells -/

namespace Event

/-- What an error is counted under: its place and its message, empty texts if they are not given. -/
def errorKey (e : Event) : Value :=
  .tuple [(e.data.lookup "data_path").getD (.str ""), (e.data.lookup "message").getD (.str "")]

def isError (e : Event) : Bool := e.type == .errorAdded

def isEnd (e : Event) : Bool := e.type == .completed

/-- The end of a run that rejected its value. -/
def isRejection (e : Event) : Bool :=
  e.isEnd && (e.outcome.map fun outcome => !outcome.isAccepted).getD false

/-- The place and the message of an error, if the event tells of one and they are texts. -/
def error? (e : Event) : Option (String × String) :=
  if e.isError then
    match e.errorKey with
    | .tuple [.str place, .str message] => some (place, message)
    | _ => none
  else none

/-- An error is told in texts. -/
def TellsTexts (e : Event) : Prop := e.isError = true → e.error?.isSome = true

end Event

namespace Tally

/-- The key of an error that is told in texts. -/
def textKey (error : String × String) : Value := .tuple [.str error.1, .str error.2]

/-- The counts after an event; what can not be a key is not counted. -/
def countsAfter (g : ObjectGraph) (counts : List (Value × Nat)) (e : Event) : List (Value × Nat) :=
  if e.isError && e.errorKey.isHashable g then countIn g e.errorKey counts else counts

section Display

variable [Display]

/-- The tally after events, each of which it is told, whatever comes of it. -/
def after (g : ObjectGraph) (events : List Event) (tally : Tally) : Tally :=
  events.foldl (fun tally e => (tally.observe g e).2) tally

/-- What one event changes. -/
theorem observe_snd (tally : Tally) (e : Event) : (tally.observe g e).2 =
    { tally with
      runs := tally.runs + if e.isEnd then 1 else 0
      failed := tally.failed + if e.isRejection then 1 else 0
      counts := countsAfter g tally.counts e } := by
  obtain ⟨type, origin, data, outcome⟩ := e
  cases type with
  | errorAdded =>
    have counted : (tally.count g data).2 =
        { tally with counts := countsAfter g tally.counts ⟨.errorAdded, origin, data, outcome⟩ } := by
      unfold count countsAfter Event.errorKey
      dsimp only
      split <;> simp_all [Event.isError]
    simpa [observe, Event.isEnd, Event.isRejection] using counted
  | completed =>
    cases outcome with
    | some outcome =>
      cases verdict : outcome.isAccepted <;>
        simp [observe, countsAfter, Event.isError, Event.isEnd, Event.isRejection, verdict]
    | none =>
      have unchanged : (observe g tally ⟨.completed, origin, data, none⟩).2 =
          { tally with runs := tally.runs + 1 } := by
        unfold observe
        dsimp only
        split <;> simp_all
      simp [unchanged, countsAfter, Event.isError, Event.isEnd, Event.isRejection]
  | _ => simp [observe, countsAfter, Event.isError, Event.isEnd, Event.isRejection]

/-- What events change. -/
theorem after_eq (events : List Event) (tally : Tally) : tally.after g events =
    { tally with
      runs := tally.runs + events.countP (·.isEnd)
      failed := tally.failed + events.countP (·.isRejection)
      counts := events.foldl (countsAfter g) tally.counts } := by
  induction events generalizing tally with
  | nil => rfl
  | cons e events ih =>
    rw [after, List.foldl_cons, ← after, ih, observe_snd]
    simp only [List.countP_cons, List.foldl_cons, mk.injEq, true_and, and_true]
    omega

theorem isHashable_of_observe {tally : Tally} {e : Event}
    (well : (tally.observe g e).1.isOk = true) (told : e.isError = true) :
    e.errorKey.isHashable g = true := by
  obtain ⟨type, origin, data, outcome⟩ := e
  obtain rfl : type = .errorAdded := eq_of_beq told
  by_contra unhashable
  have refused : (tally.count g data).1 = .error .wrongType := by
    rw [count]
    exact congrArg Prod.fst (if_neg unhashable)
  simp [observe, refused, Except.map, Except.isOk, Except.toBool] at well

/-- Observed one after the other, events that fault nowhere have the same effect, and every error
among them is told under something that can be a key. -/
theorem observeAll_of_isOk {events : List Event} {tally : Tally}
    (well : (observeAll g events tally).1.isOk = true) :
    (observeAll g events tally).2 = tally.after g events ∧
      ∀ e ∈ events, e.isError = true → e.errorKey.isHashable g = true := by
  induction events generalizing tally with
  | nil => exact ⟨rfl, nofun⟩
  | cons e events ih =>
    have here := @isHashable_of_observe g _ tally e
    rw [observeAll] at well ⊢
    rw [after, List.foldl_cons, ← after]
    rcases told : tally.observe g e with ⟨fault | panels, next⟩ <;> rw [told] at well here
    · cases well
    · have rest : (observeAll g events next).1.isOk = true := by
        dsimp only at well
        cases later : (observeAll g events next).1 with
        | error fault =>
          rw [later] at well
          cases well
        | ok panels => rfl
      exact ⟨(ih rest).1, List.forall_mem_cons.mpr ⟨here rfl, (ih rest).2⟩⟩

end Display

/-! ## How often an error was counted -/

theorem sameWith_str {objects : Nat → Nat → Bool} {v : Value} {text : String} :
    Value.sameWith objects v (.str text) = true ↔ v = .str text := by
  cases v <;> simp [Value.sameWith, Value.tupleItems?, Value.number?]

theorem str_sameWith {objects : Nat → Nat → Bool} {v : Value} {text : String} :
    Value.sameWith objects (.str text) v = true ↔ v = .str text := by
  cases v with
  | str other => simpa [Value.sameWith] using eq_comm
  | _ => simp [Value.sameWith]

theorem same_textKey {a b : Value} {error : String × String} :
    Value.same g (.tuple [a, b]) (textKey error) = true ↔ .tuple [a, b] = textKey error := by
  rw [Value.same, Value.sameWith_tuple rfl]
  simp [textKey, Value.tupleItems?, Value.sameItems, sameWith_str]

theorem textKey_same {a b : Value} {error : String × String} :
    Value.same g (textKey error) (.tuple [a, b]) = true ↔ .tuple [a, b] = textKey error := by
  rw [Value.same, textKey, Value.sameWith_tuple rfl]
  simp [Value.tupleItems?, Value.sameItems, str_sameWith]

theorem textKey_injective {error other : String × String} :
    textKey error = textKey other ↔ error = other := by
  simp [textKey, Prod.ext_iff]

/-- Two values under which an error may be counted. -/
def IsPair (key : Value) : Prop := ∃ a b, key = .tuple [a, b]

/-- How often an error was counted. -/
def countOf (g : ObjectGraph) (error : String × String) (counts : List (Value × Nat)) : Nat :=
  ((counts.find? fun entry => Value.same g entry.1 (textKey error)).map (·.2)).getD 0

theorem isPair_errorKey (e : Event) : IsPair e.errorKey := ⟨_, _, rfl⟩

theorem isPair_countIn {key : Value} (pair : IsPair key) {counts : List (Value × Nat)}
    (pairs : ∀ entry ∈ counts, IsPair entry.1) : ∀ entry ∈ countIn g key counts, IsPair entry.1 := by
  induction counts with
  | nil => simpa [countIn] using pair
  | cons entry counts ih =>
    obtain ⟨first, rest⟩ := List.forall_mem_cons.mp pairs
    rw [countIn]
    split
    · exact List.forall_mem_cons.mpr ⟨first, rest⟩
    · exact List.forall_mem_cons.mpr ⟨first, ih rest⟩

/-- One more is counted of the error that the key tells, and none of another. -/
theorem countOf_countIn {key : Value} (pair : IsPair key) {counts : List (Value × Nat)}
    (pairs : ∀ entry ∈ counts, IsPair entry.1) (error : String × String) :
    countOf g error (countIn g key counts) =
      countOf g error counts + if Value.same g key (textKey error) then 1 else 0 := by
  obtain ⟨a, b, rfl⟩ := pair
  induction counts with
  | nil =>
    cases h : Value.same g (.tuple [a, b]) (textKey error) <;> simp [countOf, countIn, h]
  | cons entry counts ih =>
    obtain ⟨⟨c, d, is⟩, rest⟩ := List.forall_mem_cons.mp pairs
    obtain ⟨first, n⟩ := entry
    obtain rfl : first = .tuple [c, d] := is
    rw [countIn]
    by_cases here : Value.same g (.tuple [c, d]) (.tuple [a, b]) = true
    · -- The key is that of the first entry; if one of the two is the key of the error, so is the other.
      have both : Value.same g (.tuple [c, d]) (textKey error) =
          Value.same g (.tuple [a, b]) (textKey error) := by
        rw [Bool.eq_iff_iff, same_textKey, same_textKey]
        constructor
        · intro is
          exact textKey_same.mp (is ▸ here)
        · intro is
          exact same_textKey.mp (is ▸ here)
      rw [if_pos here]
      cases h : Value.same g (.tuple [a, b]) (textKey error) <;> simp [countOf, both, h]
    · rw [if_neg here]
      cases first : Value.same g (.tuple [c, d]) (textKey error) with
      | false =>
        have later := ih rest
        simp only [countOf] at later
        simp [countOf, first, later]
      | true =>
        have other : Value.same g (.tuple [a, b]) (textKey error) = false := by
          refine Bool.eq_false_iff.mpr fun same => here ?_
          rw [same_textKey.mp same, first]
        simp [countOf, first, other]

/-- One more is counted in total, whatever it is counted under. -/
theorem sum_countIn (key : Value) (counts : List (Value × Nat)) :
    ((countIn g key counts).map (·.2)).sum = (counts.map (·.2)).sum + 1 := by
  induction counts with
  | nil => rfl
  | cons entry counts ih =>
    rw [countIn]
    split
    · simp only [List.map_cons, List.sum_cons]
      omega
    · simp only [List.map_cons, List.sum_cons, ih]
      omega

theorem error?_eq_some {e : Event} {error : String × String} :
    e.error? = some error ↔ e.isError = true ∧ e.errorKey = textKey error := by
  unfold Event.error?
  split
  · rename_i told
    split
    · rename_i place message key
      simp [told, key, textKey, Prod.ext_iff]
    · rename_i other
      simp only [reduceCtorEq, told, true_and, false_iff]
      exact fun key => other _ _ key
  · rename_i other
    simp [other]

theorem isHashable_textKey (error : String × String) : (textKey error).isHashable g = true := by
  simp [textKey, Value.isHashable, Value.areHashable]

theorem isPair_countsAfter {counts : List (Value × Nat)} (pairs : ∀ entry ∈ counts, IsPair entry.1)
    (e : Event) : ∀ entry ∈ countsAfter g counts e, IsPair entry.1 := by
  unfold countsAfter
  split
  · exact isPair_countIn (isPair_errorKey e) pairs
  · exact pairs

/-- What one event changes about how often an error was counted. -/
theorem countOf_countsAfter {counts : List (Value × Nat)} (pairs : ∀ entry ∈ counts, IsPair entry.1)
    (e : Event) (error : String × String) :
    countOf g error (countsAfter g counts e) =
      countOf g error counts + if e.error? = some error then 1 else 0 := by
  unfold countsAfter
  split
  · rename_i counted
    rw [Bool.and_eq_true] at counted
    have told : Value.same g e.errorKey (textKey error) = true ↔ e.error? = some error := by
      rw [error?_eq_some, and_iff_right counted.1]
      exact same_textKey
    rw [countOf_countIn (isPair_errorKey e) pairs]
    simp only [told]
  · rename_i ignored
    rw [if_neg, Nat.add_zero]
    rintro told
    obtain ⟨isError, key⟩ := error?_eq_some.mp told
    simp [isError, key, isHashable_textKey] at ignored

/-- Whatever else is told, an error is counted as often as it occurs. -/
theorem countOf_foldl (events : List Event) {counts : List (Value × Nat)}
    (pairs : ∀ entry ∈ counts, IsPair entry.1) (error : String × String) :
    countOf g error (events.foldl (countsAfter g) counts) =
      countOf g error counts + (events.filterMap Event.error?).count error := by
  induction events generalizing counts with
  | nil => rfl
  | cons e events ih =>
    rw [List.foldl_cons, ih (isPair_countsAfter pairs e), countOf_countsAfter pairs]
    cases told : e.error? with
    | none => simp [told]
    | some other =>
      simp only [Option.some.injEq, List.filterMap_cons, told, List.count_cons, beq_iff_eq]
      omega

/-- In total, every error is counted that is told under something that can be a key. -/
theorem sum_foldl (events : List Event) (counts : List (Value × Nat)) :
    ((events.foldl (countsAfter g) counts).map (·.2)).sum =
      (counts.map (·.2)).sum + events.countP fun e => e.isError && e.errorKey.isHashable g := by
  induction events generalizing counts with
  | nil => rfl
  | cons e events ih =>
    rw [List.foldl_cons, ih, countsAfter, List.countP_cons]
    split
    · rw [sum_countIn]
      omega
    · omega

/-! ## The counts of errors told in texts -/

/-- The errors that occurred, in order of first occurrence, each with how often it did. -/
def occurrences (errors : List (String × String)) : List ((String × String) × Nat) :=
  errors.eraseDups.map fun error => (error, errors.count error)

/-- The entry under which the tally keeps an error and how often it occurred. -/
def entryOf (occurrence : (String × String) × Nat) : Value × Nat :=
  (textKey occurrence.1, occurrence.2)

theorem eraseDups_snoc (errors : List (String × String)) (error : String × String) :
    (errors ++ [error]).eraseDups =
      if error ∈ errors then errors.eraseDups else errors.eraseDups ++ [error] := by
  rw [List.eraseDups_append]
  split <;> simp_all [List.removeAll, List.eraseDups_cons]

/-- Without their repetitions, errors stand in order of first occurrence. -/
theorem pairwise_eraseDups (errors : List (String × String)) :
    errors.eraseDups.Pairwise fun a b => errors.idxOf a < errors.idxOf b := by
  induction errors using List.reverseRecOn with
  | nil => exact .nil
  | append_singleton errors error ih =>
    have before : errors.eraseDups.Pairwise fun a b =>
        (errors ++ [error]).idxOf a < (errors ++ [error]).idxOf b :=
      ih.imp_of_mem fun ha hb lt => by
        rwa [List.idxOf_append_of_mem (List.mem_eraseDups.mp ha),
          List.idxOf_append_of_mem (List.mem_eraseDups.mp hb)]
    rw [eraseDups_snoc]
    split
    · exact before
    · rename_i unknown
      refine List.pairwise_append.mpr ⟨before, List.pairwise_singleton _ _, fun a ha b hb => ?_⟩
      rw [List.mem_singleton.mp hb, List.idxOf_append_of_mem (List.mem_eraseDups.mp ha),
        List.idxOf_append_of_notMem unknown]
      exact Nat.lt_add_right _ (List.idxOf_lt_length_of_mem (List.mem_eraseDups.mp ha))

theorem nodup_eraseDups (errors : List (String × String)) : errors.eraseDups.Nodup :=
  (pairwise_eraseDups errors).imp fun lt same => by
    rw [same] at lt
    exact Nat.lt_irrefl _ lt

theorem countIn_map (error : String × String) {order : List (String × String)}
    (distinct : order.Nodup) (n : String × String → Nat) :
    countIn g (textKey error) (order.map fun other => entryOf (other, n other)) =
      (order.map fun other => entryOf (other, n other + if other = error then 1 else 0)) ++
        if error ∈ order then [] else [entryOf (error, 1)] := by
  induction order with
  | nil => rfl
  | cons first order ih =>
    obtain ⟨fresh, distinct⟩ := List.nodup_cons.mp distinct
    rw [List.map_cons, entryOf, countIn]
    have same : Value.same g (textKey first) (textKey error) = true ↔ first = error :=
      same_textKey.trans textKey_injective
    by_cases here : first = error
    · subst here
      rw [if_pos (same.mpr rfl)]
      have others : ∀ other ∈ order, other ≠ first := fun other among is => fresh (is ▸ among)
      simp +contextual [entryOf, others]
    · rw [if_neg (mt same.mp here), ih distinct]
      simp [entryOf, here, Ne.symm here]

/-- The next error is counted once more, or for the first time and behind all others. -/
theorem countIn_occurrences (errors : List (String × String)) (error : String × String) :
    countIn g (textKey error) ((occurrences errors).map entryOf) =
      (occurrences (errors ++ [error])).map entryOf := by
  rw [occurrences, List.map_map]
  refine (countIn_map error (nodup_eraseDups errors) fun other => errors.count other).trans ?_
  simp only [occurrences, eraseDups_snoc, List.mem_eraseDups, List.map_map, List.count_append]
  split
  · simp [List.count_singleton, entryOf, @eq_comm _ error]
  · rename_i unknown
    simp [List.count_singleton, entryOf, @eq_comm _ error, List.count_eq_zero.mpr unknown]

/-- While errors are told in texts, the counts are their occurrences. -/
theorem foldl_countsAfter {events : List Event}
    (texts : ∀ e ∈ events, e.TellsTexts) (errors : List (String × String)) :
    events.foldl (countsAfter g) ((occurrences errors).map entryOf) =
      (occurrences (errors ++ events.filterMap Event.error?)).map entryOf := by
  induction events generalizing errors with
  | nil => simp
  | cons e events ih =>
    obtain ⟨here, later⟩ := List.forall_mem_cons.mp texts
    rw [List.foldl_cons]
    cases told : e.error? with
    | none =>
      have other : e.isError = false := by
        by_contra isError
        simp [Event.TellsTexts, told, Bool.not_eq_false _ ▸ isError] at here
      rw [countsAfter, other, Bool.false_and, if_neg Bool.false_ne_true, ih later,
        List.filterMap_cons_none told]
    | some error =>
      obtain ⟨isError, key⟩ := error?_eq_some.mp told
      rw [countsAfter, isError, key, isHashable_textKey, Bool.and_self, if_pos rfl,
        countIn_occurrences, ih later, List.filterMap_cons_some told, List.append_assoc]
      rfl

/-! ## The ranking -/

/-- Sorting keeps the order of elements that are tied. -/
theorem filter_mergeSort {α : Type} {le : α → α → Bool}
    (trans : ∀ a b c, le a b = true → le b c = true → le a c = true)
    (total : ∀ a b, (le a b || le b a) = true) {p : α → Bool} {l : List α}
    (tied : (l.filter p).Pairwise (le · · = true)) : (l.mergeSort le).filter p = l.filter p := by
  have within : (l.filter p).Sublist ((l.mergeSort le).filter p) := by
    simpa [List.filter_filter] using
      (List.sublist_mergeSort trans total tied List.filter_sublist).filter p
  exact (within.eq_of_length (((List.mergeSort_perm l le).filter p).length_eq.symm)).symm

/-- Of two errors, the one that occurred more often, or equally often and first. -/
def Precedes (errors : List (String × String)) (a b : (String × String) × Nat) : Prop :=
  b.2 < a.2 ∨ a.2 = b.2 ∧ errors.idxOf a.1 < errors.idxOf b.1

instance (errors : List (String × String)) (a b : (String × String) × Nat) :
    Decidable (Precedes errors a b) :=
  inferInstanceAs (Decidable (_ ∨ _ ∧ _))

theorem Precedes.asymm {errors : List (String × String)} {a b : (String × String) × Nat}
    (first : Precedes errors a b) : ¬ Precedes errors b a := by
  unfold Precedes at first ⊢
  omega

/-- There is only one ranking. -/
theorem eq_of_precedes {errors : List (String × String)}
    {ranked listed : List ((String × String) × Nat)} (same : ranked.Perm listed)
    (first : ranked.Pairwise (Precedes errors)) (second : listed.Pairwise (Precedes errors)) :
    ranked = listed :=
  same.eq_of_pairwise (fun _ _ _ _ ab ba => absurd ba ab.asymm) first second

/-- The errors by how often they occurred. -/
def ranking (errors : List (String × String)) : List ((String × String) × Nat) :=
  (occurrences errors).mergeSort fun a b => decide (b.2 ≤ a.2)

theorem ranking_pairwise (errors : List (String × String)) :
    (ranking errors).Pairwise (Precedes errors) := by
  have trans : ∀ a b c : (String × String) × Nat, decide (b.2 ≤ a.2) = true →
      decide (c.2 ≤ b.2) = true → decide (c.2 ≤ a.2) = true := by
    intro a b c
    simp only [decide_eq_true_eq]
    omega
  have total : ∀ a b : (String × String) × Nat,
      (decide (b.2 ≤ a.2) || decide (a.2 ≤ b.2)) = true := by
    intro a b
    simp only [Bool.or_eq_true, decide_eq_true_eq]
    omega
  have inOrder : (occurrences errors).Pairwise fun a b =>
      errors.idxOf a.1 < errors.idxOf b.1 := by
    rw [occurrences, List.pairwise_map]
    exact pairwise_eraseDups errors
  rw [List.pairwise_iff_forall_sublist]
  intro a b before
  have most : b.2 ≤ a.2 := of_decide_eq_true <|
    List.pairwise_iff_forall_sublist.mp (List.pairwise_mergeSort trans total _) before
  rcases Nat.lt_or_eq_of_le most with fewer | tied
  · exact .inl fewer
  · -- The two are among those of one count, and these were not moved past each other.
    refine .inr ⟨tied.symm, List.pairwise_iff_forall_sublist.mp inOrder ?_⟩
    have kept : (ranking errors).filter (·.2 == a.2) = (occurrences errors).filter (·.2 == a.2) :=
      filter_mergeSort trans total <| List.pairwise_filter.mpr <|
        List.pairwise_of_forall fun x y hx hy => by
          simp only [beq_iff_eq] at hx hy
          simp [hx, hy]
    have both := before.filter (·.2 == a.2)
    rw [List.filter_cons_of_pos (by simp), List.filter_cons_of_pos (by simp [tied]), List.filter_nil,
      kept] at both
    exact both.trans List.filter_sublist

theorem mergeSort_counts (errors : List (String × String)) :
    ((occurrences errors).map entryOf).mergeSort (fun a b => decide (b.2 ≤ a.2)) =
      (ranking errors).map entryOf :=
  (List.map_mergeSort (f := entryOf) fun _ _ _ _ => rfl).symm

/-- No error behind a place of the ranking occurred more often than one before it. -/
theorem ranking_drop_le {errors : List (String × String)} {n : Nat}
    {shown omitted : (String × String) × Nat} (first : shown ∈ (ranking errors).take n)
    (last : omitted ∈ (ranking errors).drop n) : omitted.2 ≤ shown.2 := by
  have ranked := ranking_pairwise errors
  rw [← List.take_append_drop n (ranking errors)] at ranked
  rcases (List.pairwise_append.mp ranked).2.2 shown first omitted last with fewer | ⟨tied, -⟩
  · exact Nat.le_of_lt fewer
  · exact Nat.le_of_eq tied.symm

theorem frequent_of_counts {tally : Tally} {errors : List (String × String)} {limit : Nat}
    (counts : tally.counts = (occurrences errors).map entryOf) (shown : tally.limit = limit) :
    tally.frequent = ((ranking errors).take limit).map entryOf := by
  have listed : ¬ (limit : Int) < 0 := by omega
  simp only [frequent, counts, shown, mergeSort_counts, if_neg listed, Int.toNat_natCast,
    List.map_take]

/-! ## The rows of a summary -/

/-- How an error is shown. -/
def rowOf [Display] (occurrence : (String × String) × Nat) : List String :=
  [Display.clean occurrence.1.1, Display.clean occurrence.1.2, Text.grouped occurrence.2]

/-- What is shown while there are no errors. -/
def placeholder : List String := ["-", "No errors yet", "-"]

theorem mapM_row [Display] (occurrences : List ((String × String) × Nat)) :
    (occurrences.map entryOf).mapM row = .ok (occurrences.map rowOf) := by
  induction occurrences with
  | nil => rfl
  | cons occurrence occurrences ih =>
    rw [List.map_cons, List.mapM_cons, ih]
    rfl

theorem mem_groups {c : Char} (digits : List Char) (among : c ∈ Text.grouped.groups digits) :
    c = ',' ∨ c ∈ digits := by
  fun_induction Text.grouped.groups digits with
  | case1 a b c d rest ih =>
    simp only [List.mem_cons] at among ih ⊢
    tauto
  | case2 rest => exact .inr among

theorem grouped_ne (n : Nat) : Text.grouped n ≠ "-" := by
  intro is
  have among : '-' ∈ (Text.grouped n).toList := by
    rw [is]
    decide
  rw [Text.grouped, String.toList_ofList, List.mem_reverse] at among
  rcases mem_groups _ among with comma | digit
  · exact absurd comma (by decide)
  · exact absurd (Nat.isDigit_of_mem_toDigits (by decide) (by decide) (List.mem_reverse.mp digit))
      (by decide)

theorem rows_eq_ite [Display] (occurrences : List ((String × String) × Nat)) :
    (if (occurrences.map rowOf).isEmpty then [placeholder] else occurrences.map rowOf) =
      if occurrences = [] then [placeholder] else occurrences.map rowOf := by
  cases occurrences <;> rfl

/-- The placeholder is shown where there is nothing else to show. -/
theorem rows_eq_placeholder [Display] (occurrences : List ((String × String) × Nat)) :
    (if occurrences = [] then [placeholder] else occurrences.map rowOf) = [placeholder] ↔
      occurrences = [] := by
  cases occurrences with
  | nil => simp
  | cons occurrence occurrences => simp [rowOf, placeholder, grouped_ne]

/-- What a tally comes to, whatever events it is told.  It has counted the runs that ended and
those that ended in a rejection.  Every error it was told in texts is counted as often as it was
told, and together the counts are the number of errors told under something that can be a key;
these are all, unless the tally faulted.  If all errors were told in texts, the summary shows the
first of a ranking of them by how often they occurred, equally frequent ones in order of first
occurrence; what it leaves out did not occur more often than anything it shows, and only if it has
nothing to show there is a placeholder. -/
theorem summary_ranks_errors [Display] (g : ObjectGraph) (events : List Event) (showsAccepted : Bool)
    (limit : Nat) :
    let start : Tally := { showsAccepted, limit }
    let tally := start.after g events
    let errors := events.filterMap Event.error?
    let total := (tally.counts.map (·.2)).sum
    tally.runs = events.countP Event.isEnd ∧
      tally.failed = events.countP Event.isRejection ∧
      (∀ error, countOf g error tally.counts = errors.count error) ∧
      total = (events.countP fun e => e.isError && e.errorKey.isHashable g) ∧
      ((observeAll g events start).1.isOk = true → (observeAll g events start).2 = tally ∧
        total = events.countP Event.isError) ∧
      ((∀ e ∈ events, e.TellsTexts) →
        total = events.countP Event.isError ∧
        ∃ ranked : List ((String × String) × Nat),
          ranked.Perm (errors.eraseDups.map fun error => (error, errors.count error)) ∧
          ranked.Pairwise (Precedes errors) ∧
          (∀ shown ∈ ranked.take limit, ∀ omitted ∈ ranked.drop limit, omitted.2 ≤ shown.2) ∧
          ∃ rows, tally.summary = .ok
              { title := "Top Errors (" ++ Text.grouped tally.failed ++ " of " ++
                  Text.grouped tally.runs ++ " runs failed)"
                headers := ["Path", "Error", "Count"]
                rows } ∧
            rows = (if ranked.take limit = [] then [placeholder]
              else (ranked.take limit).map rowOf) ∧
            (rows = [placeholder] ↔ ranked.take limit = [])) := by
  intro start tally errors total
  have told : tally = { start with
      runs := start.runs + events.countP (·.isEnd)
      failed := start.failed + events.countP (·.isRejection)
      counts := events.foldl (countsAfter g) start.counts } := after_eq events start
  have sum : total = events.countP fun e => e.isError && e.errorKey.isHashable g := by
    simp only [total, told]
    exact (sum_foldl events []).trans (Nat.zero_add _)
  have sum_of_keys (keys : ∀ e ∈ events, e.isError = true → e.errorKey.isHashable g = true) :
      total = events.countP Event.isError := by
    rw [sum]
    refine List.countP_congr fun e among => ?_
    rw [Bool.and_eq_true]
    exact and_iff_left_of_imp (keys e among)
  refine ⟨?_, ?_, fun error => ?_, sum, fun well => ?_, fun texts => ⟨sum_of_keys ?_, ?_⟩⟩
  · simp only [told, start, Nat.zero_add]
  · simp only [told, start, Nat.zero_add]
  · rw [told]
    exact (countOf_foldl events (List.forall_mem_nil _) error).trans (Nat.zero_add _)
  · obtain ⟨same, keys⟩ := observeAll_of_isOk well
    exact ⟨same, sum_of_keys keys⟩
  · intro e among isError
    obtain ⟨error, is⟩ := Option.isSome_iff_exists.mp (texts e among isError)
    rw [(error?_eq_some.mp is).2]
    exact isHashable_textKey error
  · have counts : tally.counts = (occurrences errors).map entryOf := by
      rw [told]
      exact foldl_countsAfter texts []
    refine ⟨ranking errors, List.mergeSort_perm _ _, ranking_pairwise errors,
      fun shown first omitted last => ranking_drop_le first last, _, ?_, rfl, ?_⟩
    · have limited : tally.limit = limit := by rw [told]
      rw [summary, frequent_of_counts counts limited, mapM_row, ← rows_eq_ite]
      rfl
    · exact rows_eq_placeholder ((ranking errors).take limit)

/-- Two runs with errors, two of which occur equally often. -/
def tiedErrors : List Event :=
  let told (place message : String) : Event :=
    { type := .errorAdded, origin := "",
      data := [("message", .str message), ("data_path", .str place), ("value", .null)] }
  let ended (outcome : Outcome) : Event :=
    { type := .completed, origin := "", data := [], outcome := some outcome }
  [told "age" "is odd", told "name" "is short", ended (.rejected (.group .all [])),
    told "name" "is short", told "age" "is odd", told "" "is late", ended (.accepted .null [])]

/-- Of the errors that occurred equally often, the one that occurred first leads. -/
theorem summary_ranks_errors_of_tied :
    let tally := ({ limit := 2 } : Tally).after {} tiedErrors
    tally.runs = 2 ∧ tally.failed = 1 ∧ countOf {} ("name", "is short") tally.counts = 2 ∧
      (tally.counts.map (·.2)).sum = 5 ∧
      ∃ title, tally.summary = .ok ⟨title, ["Path", "Error", "Count"],
        [["age", "is odd", "2"], ["name", "is short", "2"]]⟩ := by
  obtain ⟨runs, failed, counted, -, -, shown⟩ := summary_ranks_errors {} tiedErrors false 2
  have texts : ∀ e ∈ tiedErrors, e.TellsTexts := by
    unfold Event.TellsTexts
    decide
  obtain ⟨total, ranked, same, inOrder, -, rows, summary, listed, -⟩ := shown texts
  have leading : ranked = [(("age", "is odd"), 2), (("name", "is short"), 2), (("", "is late"), 1)] :=
    eq_of_precedes (same.trans (by decide)) inOrder (by decide)
  rw [leading] at listed
  rw [listed] at summary
  exact ⟨runs, failed, (counted _).trans (by decide), total, _, summary⟩

end Tally

namespace Validation

/-- Every error that observers are told of while a value is validated is told in texts. -/
theorem validate_tellsTexts {validation : Validation} (made : validation.MadeOf .any) {run : Run}
    (book : run.rulebook.MadeOf .any) (fresh : run.stack = {}) {v : Value} {outcome : Outcome}
    {after : Run} (returned : (validation.validate v).runOn g run = (.ok outcome, after))
    (before : ∀ e ∈ run.events, e.TellsTexts) : ∀ e ∈ after.events, e.TellsTexts := by
  have followed := validate_follows made (book.served (g := g) Material.any_holdsFields) fresh v
  unfold Follows at followed
  rw [returned] at followed
  rcases traced : (validation.trace (run.rulebook.rules g) v).runOn g run.store with
    ⟨fault | t, store⟩ <;> rw [traced] at followed
  · exact followed.elim
  obtain ⟨-, -, -, told⟩ := followed
  intro e among
  rw [told, List.mem_append] at among
  rcases among with earlier | sent
  · exact before e earlier
  · split at sent
    · rcases List.mem_cons.mp sent with rfl | sent
      · intro isError
        cases isError
      · rcases List.mem_append.mp sent with checked | ended
        · intro isError
          have leaf : e ∈ (t.events run.origin []).filter Event.isLeaf :=
            List.mem_filter.mpr ⟨checked, by simp_all [Event.isError, Event.isLeaf]⟩
          rw [t.events_eq_recordings run.origin false []] at leaf
          obtain ⟨recording, -, rfl⟩ := List.mem_map.mp leaf
          rw [Event.error?, if_pos isError]
          rfl
        · rw [List.mem_singleton.mp ended]
          intro isError
          cases isError
    · cases sent

end Validation

end PathRules
