import PathRules.Proofs.Run.Keeps

/-!
# The values that a run has visited

The visited values are an entry of the store.  `visit_cases` says all that `visit` does to it:
the value is added if no identical one is there; an entry that is no set makes it fail.
-/

namespace PathRules

variable {g : ObjectGraph}

namespace Value

mutual

theorem identical_self : (v : Value) → v.identical v = true
  | .list items | .tuple items | .set items => areIdentical_self items
  | .map pairs => arePairsIdentical_self pairs
  | .entry key value => by
    rw [identical, identical_self key, identical_self value]
    rfl
  | .null => rfl
  | .bool _ | .int _ | .real _ | .str _ | .source _ | .object _ => by
    rw [identical]
    exact beq_self_eq_true _
termination_by structural v => v

theorem areIdentical_self : (items : List Value) → areIdentical items items = true
  | [] => rfl
  | v :: items => by
    rw [areIdentical, identical_self v, areIdentical_self items]
    rfl
termination_by structural items => items

theorem arePairsIdentical_self : (pairs : List (Value × Value)) →
    arePairsIdentical pairs pairs = true
  | [] => rfl
  | (key, value) :: pairs => by
    rw [arePairsIdentical, identical_self key, identical_self value, arePairsIdentical_self pairs]
    rfl
termination_by structural pairs => pairs

end

end Value

namespace Store

/-- An entry that is put under its key again is found there. -/
theorem lookup_map_put {key : String} {old : Value} (v : Value) {entries : List (String × Value)}
    (found : entries.lookup key = some old) :
    (entries.map fun entry => if (entry.1 == key) = true then (key, v) else entry).lookup key =
      some v := by
  induction entries with
  | nil => cases found
  | cons entry entries ih =>
    obtain ⟨first, a⟩ := entry
    by_cases same : first = key
    · subst same
      simp
    · have other : (key == first) = false := by simpa using fun h => same h.symm
      rw [List.lookup_cons, other] at found
      simpa [List.lookup_cons, same, other] using ih found

@[simp] theorem get?_put (store : Store) (key : String) (v : Value) :
    (store.put key v).get? key = some v := by
  unfold put get?
  dsimp only
  split
  · next present =>
    obtain ⟨old, found⟩ := Option.isSome_iff_exists.mp present
    exact lookup_map_put v found
  · next absent =>
    have missing : store.entries.lookup key = none := by
      rwa [has, get?, Bool.not_eq_true, Option.isSome_eq_false_iff, Option.isNone_iff_eq_none]
        at absent
    simp [List.lookup_append, missing]

theorem has_put (store : Store) (key : String) (v : Value) : (store.put key v).has key = true := by
  rw [has, get?_put]
  rfl

/-- Of two values that are put under a key, the later one stays. -/
theorem put_put (store : Store) (key : String) (v w : Value) :
    (store.put key v).put key w = store.put key w := by
  rw [put, if_pos (has_put store key v), put, put]
  congr 1
  cases present : store.has key with
  | true =>
    simp only [if_true, List.map_map]
    refine List.map_congr_left fun entry _ => ?_
    by_cases same : entry.1 = key <;> simp [same]
  | false =>
    have absent : store.entries.lookup key = none := by
      rwa [has, get?, Option.isSome_eq_false_iff, Option.isNone_iff_eq_none] at present
    simp only [Bool.false_eq_true, if_false, List.map_append, List.map_cons, List.map_nil,
      beq_self_eq_true, if_true]
    congr 1
    refine (List.map_congr_left fun entry member => ?_).trans (List.map_id _)
    have differs : key ≠ entry.1 := by
      simpa using List.lookup_eq_none_iff.mp absent entry member
    simp [differs.symm]

/-- The values that were visited, none if the entry for them is no set. -/
def visited (store : Store) : List Value :=
  match store.get? visitedKey with
  | some (.set seen) => seen
  | _ => []

@[simp] theorem visited_put (store : Store) (seen : List Value) :
    (store.put visitedKey (.set seen)).visited = seen := by simp [visited]

/-- Whether a value is among the visited. -/
def hasVisited (store : Store) (v : Value) : Bool := store.visited.any v.identical

end Store

/-- What a visit comes to: a value that was visited before leaves the store as it is, any other
is added to the visited.  It fails if the entry for them is no set, without adding anything. -/
inductive Visited (v : Value) (before : Store) : Except Fault Bool → Store → Prop
  | again : before.hasVisited v = true → Visited v before (.ok false) before
  | first : before.hasVisited v = false →
      Visited v before (.ok true) (before.put visitedKey (.set (before.visited ++ [v])))
  | failed (fault : Fault) {after : Store} : before.Takes after →
      (∀ seen, before.get? visitedKey ≠ some (.set seen)) →
      before.get? visitedKey ≠ none → Visited v before (.error fault) after

theorem runOn_setDefault (key : String) (v : Value) (store : Store) :
    (Check.setDefault key v).runOn g store =
      match store.get? key with
      | some found => (.ok found, store)
      | none => (.ok v, store.put key v) := by
  unfold Check.setDefault
  rw [Check.runOn_bind, Check.runOn_get]
  dsimp only
  cases store.get? key <;> rfl

theorem runOn_isVisited_set (v : Value) (seen : List Value) (store : Store) :
    (isVisited v (.set seen)).runOn g store = (.ok (seen.any v.identical), store) := rfl

theorem runOn_addVisited_set (v : Value) (seen : List Value) (store : Store) :
    (addVisited v (.set seen) >>= fun _ => pure true : Check Bool).runOn g store =
      (.ok true, store.put visitedKey (.set (seen ++ [v]))) := rfl

/-- An entry that is no set makes the visit fail. -/
theorem visit_fails (v : Value) {found : Value} (noSet : ∀ seen, found ≠ .set seen)
    (store : Store) :
    ∃ fault after, (do
        if ← isVisited v found then pure false
        else
          addVisited v found
          pure true : Check Bool).runOn g store = (.error fault, after) ∧ store.Takes after := by
  have adding : addVisited v found = throw .missingAttribute := by
    cases found with
    | set seen => exact absurd rfl (noSet seen)
    | _ => rfl
  rw [adding, Check.runOn_bind]
  by_cases text : ∃ s, found = .str s
  · obtain ⟨s, rfl⟩ := text
    exact ⟨.wrongType, store, rfl, .refl store⟩
  · have asking : isVisited v found = found.elements >>= fun _ => pure false := by
      cases found with
      | set seen => exact absurd rfl (noSet seen)
      | str s => exact absurd ⟨s, rfl⟩ text
      | _ => rfl
    have taken := Check.Keeps.of_elements (g := g) Store.Permits.takings found store
    rw [asking, Check.runOn_bind]
    rcases ran : found.elements.runOn g store with ⟨fault | items, after⟩ <;> rw [ran] at taken
    · exact ⟨fault, after, rfl, taken⟩
    · exact ⟨.missingAttribute, after, rfl, taken⟩

theorem visit_cases (v : Value) (store : Store) :
    Visited v store ((visit v).runOn g store).1 ((visit v).runOn g store).2 := by
  unfold visit
  rw [Check.runOn_bind, runOn_setDefault]
  cases entry : store.get? visitedKey with
  | none =>
    have none : store.visited = [] := by simp [Store.visited, entry]
    dsimp only
    rw [Check.runOn_bind, runOn_isVisited_set, List.any_nil]
    dsimp only
    rw [if_neg Bool.false_ne_true, runOn_addVisited_set, Store.put_put]
    have added : [] ++ [v] = store.visited ++ [v] := by rw [none]
    rw [added]
    exact .first (by simp [Store.hasVisited, none])
  | some found =>
    dsimp only
    by_cases set : ∃ seen, found = .set seen
    · obtain ⟨seen, rfl⟩ := set
      have held : store.visited = seen := by simp [Store.visited, entry]
      rw [Check.runOn_bind, runOn_isVisited_set]
      cases known : seen.any v.identical with
      | true => exact .again (by rwa [Store.hasVisited, held])
      | false =>
        dsimp only
        rw [if_neg Bool.false_ne_true, runOn_addVisited_set, ← held]
        exact .first (by rwa [Store.hasVisited, held])
    · have noSet : ∀ seen, found ≠ .set seen := not_exists.mp set
      obtain ⟨fault, after, failed, taken⟩ := visit_fails (g := g) v noSet store
      rw [failed]
      exact .failed fault taken (by simpa [entry] using noSet) (by simp [entry])

end PathRules
