import PathRules.Outcome.Basic
import PathRules.Proofs.Outcome.Shape
import PathRules.Proofs.Outcome.Trails

/-!
# Places of leaves

In a tree without guarded steps the place of a leaf consists of the steps above it that lead
somewhere else.  Asking for the segments of a place finds the leaves at this place, but none whose
innermost step stays in place.  The groups of an outcome are looked up by place; where segments
serve as keys, a group holds the leaves whose places are equal.
-/

namespace PathRules

variable {g : ObjectGraph}

namespace Node

mutual

/-- The place of a leaf is where its trail leads, from the place of the node on. -/
theorem place_eq_of_trail (place : DataPath) : (node : Node Leaf) →
    ∀ t ∈ (node.placed place).trails,
      t.leaf.place = place ++ DataPath.ofSegments (t.steps.map (·.segment))
  | .leaf content, t, ht => by
    rw [List.mem_singleton.mp ht]
    simp [DataPath.ofSegments]
  | .path via child, t, ht => by
    obtain ⟨inner, member, rfl⟩ := List.mem_map.mp ht
    have below := placeBelow_eq_of_trail (place.snoc via.segment) child inner member
    rw [DataPath.snoc_eq_append, List.append_assoc, DataPath.ofSegments, DataPath.ofSegments,
      ← List.filter_append] at below
    exact below
  | .group sign children, t, ht => placeAll_eq_of_trail place children t ht
termination_by structural node => node

theorem placeBelow_eq_of_trail (place : DataPath) : (child : Option (Node Leaf)) →
    ∀ t ∈ trailsBelow (placedBelow place child),
      t.leaf.place = place ++ DataPath.ofSegments (t.steps.map (·.segment))
  | none, _, ht => nomatch ht
  | some node, t, ht => place_eq_of_trail place node t ht
termination_by structural child => child

theorem placeAll_eq_of_trail (place : DataPath) : (nodes : List (Node Leaf)) →
    ∀ t ∈ trailsOf (placedAll place nodes),
      t.leaf.place = place ++ DataPath.ofSegments (t.steps.map (·.segment))
  | [], _, ht => nomatch ht
  | node :: nodes, t, ht => by
    rcases List.mem_append.mp ht with first | later
    · exact place_eq_of_trail place node t first
    · exact placeAll_eq_of_trail place nodes t later
termination_by structural nodes => nodes

end

mutual

/-- In a tree in which nothing is hollow no step is guarded. -/
theorem unguarded_of_solid : (node : Node Placed) → (∀ m ∈ node.subtrees, m.Solid) →
    ∀ t ∈ node.trails, ∀ via ∈ t.steps, via.guards = []
  | .leaf content, _, t, ht, via, hvia => by
    rw [List.mem_singleton.mp ht] at hvia
    cases hvia
  | .path step child, solid, t, ht, via, hvia => by
    obtain ⟨inner, member, rfl⟩ := List.mem_map.mp ht
    rcases List.mem_cons.mp hvia with rfl | later
    · exact (solid _ (mem_subtrees_self _)).1
    · exact unguardedBelow_of_solid child (fun m hm => solid m (List.mem_cons_of_mem _ hm)) inner
        member via later
  | .group sign children, solid, t, ht, via, hvia =>
    unguardedOf_of_solid children (fun m hm => solid m (List.mem_cons_of_mem _ hm)) t ht via hvia
termination_by structural node => node

theorem unguardedBelow_of_solid : (child : Option (Node Placed)) →
    (∀ m ∈ subtreesBelow child, m.Solid) → ∀ t ∈ trailsBelow child, ∀ via ∈ t.steps, via.guards = []
  | none, _, _, ht, _, _ => nomatch ht
  | some node, solid, t, ht, via, hvia => unguarded_of_solid node solid t ht via hvia
termination_by structural child => child

theorem unguardedOf_of_solid : (nodes : List (Node Placed)) →
    (∀ m ∈ subtreesOf nodes, m.Solid) → ∀ t ∈ trailsOf nodes, ∀ via ∈ t.steps, via.guards = []
  | [], _, _, ht, _, _ => nomatch ht
  | node :: nodes, solid, t, ht, via, hvia => by
    rcases List.mem_append.mp ht with first | later
    · exact unguarded_of_solid node (fun m hm => solid m (List.mem_append_left _ hm)) t first via
        hvia
    · exact unguardedOf_of_solid nodes (fun m hm => solid m (List.mem_append_right _ hm)) t later
        via hvia
termination_by structural nodes => nodes

end

end Node

namespace DataPath

theorem eqBy_eq_all (segments : Segment → Segment → Bool) (p q : DataPath) :
    eqBy segments p q =
      (decide (q.length = p.length) && (p.zip q).all fun pair => segments pair.1 pair.2) := by
  induction p generalizing q with
  | nil => cases q <;> simp [eqBy]
  | cons s p ih =>
    cases q with
    | nil => simp [eqBy]
    | cons t q =>
      simp only [eqBy, ih, List.length_cons, Nat.add_right_cancel_iff, List.zip_cons_cons,
        List.all_cons]
      cases segments s t <;> simp

end DataPath

namespace Trail

/-- The steps of a trail that lead somewhere else, if none is guarded. -/
theorem segments_chain {t : Trail} (unguarded : ∀ via ∈ t.steps, via.guards = []) :
    t.chain.map (·.segment) = DataPath.ofSegments (t.steps.map (·.segment)) := by
  rw [chain, DataPath.ofSegments, List.filter_map]
  refine congrArg _ (List.filter_congr fun via member => ?_)
  simp [Via.isThis, unguarded via member]

/-- A trail answers the segments of a place if it leads to an equal place and its innermost step
does not stay there. -/
theorem consistsOf_segments (p : DataPath) (t : Trail) :
    t.consistsOf g (p.map .segment) =
      (t.endsMoving && DataPath.eqBy (Segment.eq g) p (t.chain.map (·.segment))) := by
  rw [DataPath.eqBy_eq_all, consistsOf, Bool.and_comm, Query.fits, List.zip_map_left,
    List.zip_map_right, List.all_map, List.all_map, List.length_map, List.length_map]
  rfl

/-- The leaf lies at the place, and the innermost step above it leads there. -/
def arrivesAt (g : ObjectGraph) (p : DataPath) (t : Trail) : Bool :=
  t.endsMoving && DataPath.eqBy (Segment.eq g) p t.leaf.place

end Trail

namespace Segment

/-- The segments serve as keys: each is equal to itself, equality among them is symmetric and
transitive, and equal ones have one name.  Only the identifiers of custom segments can fail it. -/
structure ServeAsKeys (g : ObjectGraph) (segments : List Segment) : Prop where
  refl : ∀ s ∈ segments, s.eq g s = true
  symm : ∀ s ∈ segments, ∀ t ∈ segments, s.eq g t = true → t.eq g s = true
  trans : ∀ s ∈ segments, ∀ t ∈ segments, ∀ u ∈ segments,
    s.eq g t = true → t.eq g u = true → s.eq g u = true
  name : ∀ s ∈ segments, ∀ t ∈ segments, s.eq g t = true → s.name = t.name

/-- The kind and the name by which segments are compared; custom segments are not compared so. -/
def label : Segment → Option (Nat × String)
  | .this => some (0, "")
  | .property name _ => some (1, name)
  | .call name _ => some (2, name)
  | .entry _ name => some (3, name)
  | .index _ name => some (4, name)
  | .custom .. => none

theorem eq_iff_label {s t : Segment} (plain : s.label.isSome) :
    s.eq g t = true ↔ s.label = t.label := by
  cases s <;> cases t <;> simp_all [label, eq, eqBy]

theorem name_of_label {s : Segment} {kind : Nat} {name : String} (h : s.label = some (kind, name)) :
    s.name = name := by
  cases s <;> cases h <;> rfl

/-- Segments that are not custom serve as keys. -/
theorem serveAsKeys_of_label {segments : List Segment} (h : ∀ s ∈ segments, s.label.isSome) :
    ServeAsKeys g segments where
  refl s hs := (eq_iff_label (h s hs)).mpr rfl
  symm s hs t ht same := (eq_iff_label (h t ht)).mpr ((eq_iff_label (h s hs)).mp same).symm
  trans s hs t ht u _ first second := (eq_iff_label (h s hs)).mpr
    (((eq_iff_label (h s hs)).mp first).trans ((eq_iff_label (h t ht)).mp second))
  name s hs t ht same := by
    have labels := (eq_iff_label (h s hs)).mp same
    obtain ⟨⟨kind, name⟩, labelled⟩ := Option.isSome_iff_exists.mp (h s hs)
    rw [name_of_label labelled, name_of_label (labels.symm.trans labelled)]

variable {segments : List Segment}

theorem ServeAsKeys.sameKey_eq (keys : ServeAsKeys g segments) {s t : Segment}
    (hs : s ∈ segments) (ht : t ∈ segments) : s.sameKey g t = s.eq g t := by
  have own := keys.refl s hs
  have named := keys.name s hs t ht
  cases s <;> cases t <;> simp_all [sameKey, eq, eqBy, Value.eq, Segment.name]

end Segment

namespace DataPath

variable {segments : List Segment} (keys : Segment.ServeAsKeys g segments)

include keys

theorem sameKey_eq {p q : DataPath} (hp : p ⊆ segments) (hq : q ⊆ segments) :
    sameKey g p q = eqBy (Segment.eq g) p q := by
  induction p generalizing q with
  | nil => cases q <;> rfl
  | cons s p ih =>
    cases q with
    | nil => rfl
    | cons t q =>
      rw [List.cons_subset] at hp hq
      have rest := ih hp.2 hq.2
      rw [sameKey] at rest ⊢
      rw [eqBy, eqBy, rest, keys.sameKey_eq hp.1 hq.1]

theorem eqBy_refl {p : DataPath} (hp : p ⊆ segments) : eqBy (Segment.eq g) p p = true := by
  induction p with
  | nil => rfl
  | cons s p ih =>
    rw [List.cons_subset] at hp
    rw [eqBy, keys.refl s hp.1, ih hp.2]
    rfl

theorem eqBy_comm {p q : DataPath} (hp : p ⊆ segments) (hq : q ⊆ segments) :
    eqBy (Segment.eq g) p q = eqBy (Segment.eq g) q p := by
  induction p generalizing q with
  | nil => cases q <;> rfl
  | cons s p ih =>
    cases q with
    | nil => rfl
    | cons t q =>
      rw [List.cons_subset] at hp hq
      rw [eqBy, eqBy, ih hp.2 hq.2, Bool.eq_iff_iff.mpr
        ⟨keys.symm s hp.1 t hq.1, keys.symm t hq.1 s hp.1⟩]

theorem eqBy_trans {p q r : DataPath} (hp : p ⊆ segments) (hq : q ⊆ segments) (hr : r ⊆ segments)
    (h : eqBy (Segment.eq g) p q = true) (h' : eqBy (Segment.eq g) q r = true) :
    eqBy (Segment.eq g) p r = true := by
  induction p generalizing q r with
  | nil => cases q <;> simp_all [eqBy]
  | cons s p ih =>
    cases q with
    | nil => cases h
    | cons t q =>
      cases r with
      | nil => cases h'
      | cons u r =>
        rw [List.cons_subset] at hp hq hr
        rw [eqBy, Bool.and_eq_true] at h h' ⊢
        exact ⟨keys.trans s hp.1 t hq.1 u hr.1 h.1 h'.1, ih hp.2 hq.2 hr.2 h.2 h'.2⟩

end DataPath

namespace Outcome

/-- The leaves that are kept under a place. -/
def groupAt (g : ObjectGraph) (groups : List (DataPath × List Placed)) (p : DataPath) :
    Option (List Placed) :=
  (groups.find? fun entry => DataPath.sameKey g entry.1 p).map (·.2)

theorem groupAt_cons (place : DataPath) (group : List Placed)
    (groups : List (DataPath × List Placed)) (p : DataPath) :
    groupAt g ((place, group) :: groups) p =
      if DataPath.sameKey g place p then some group else groupAt g groups p := by
  unfold groupAt
  rw [List.find?_cons]
  cases DataPath.sameKey g place p <;> rfl

theorem place_of_addToGroup {x : Placed} {groups : List (DataPath × List Placed)}
    {entry : DataPath × List Placed} (h : entry ∈ addToGroup g x groups) :
    entry.1 = x.place ∨ ∃ old ∈ groups, entry.1 = old.1 := by
  induction groups with
  | nil => exact .inl (congrArg Prod.fst (List.mem_singleton.mp h))
  | cons first groups ih =>
    obtain ⟨place, group⟩ := first
    rw [addToGroup] at h
    split at h <;> rcases List.mem_cons.mp h with rfl | later
    · exact .inr ⟨_, List.mem_cons_self, rfl⟩
    · exact .inr ⟨_, List.mem_cons_of_mem _ later, rfl⟩
    · exact .inr ⟨_, List.mem_cons_self, rfl⟩
    · exact (ih later).imp_right fun ⟨old, member, same⟩ => ⟨old, List.mem_cons_of_mem _ member, same⟩

variable {segments : List Segment} (keys : Segment.ServeAsKeys g segments) {p : DataPath}
  (hp : p ⊆ segments)

include keys hp

/-- A leaf is added to the group of its place and to no other. -/
theorem groupAt_addToGroup {x : Placed} (hx : x.place ⊆ segments)
    {groups : List (DataPath × List Placed)} (held : ∀ entry ∈ groups, entry.1 ⊆ segments) :
    groupAt g (addToGroup g x groups) p =
      if DataPath.eqBy (Segment.eq g) p x.place then some ((groupAt g groups p).getD [] ++ [x])
      else groupAt g groups p := by
  induction groups with
  | nil =>
    rw [addToGroup, groupAt_cons, DataPath.sameKey_eq keys hx hp, DataPath.eqBy_comm keys hx hp]
    rfl
  | cons entry groups ih =>
    obtain ⟨place, group⟩ := entry
    have hplace : place ⊆ segments := held _ List.mem_cons_self
    have later := ih fun entry member => held entry (List.mem_cons_of_mem _ member)
    have back := DataPath.eqBy_comm keys hplace hp
    rw [addToGroup, DataPath.sameKey_eq keys hplace hx]
    cases here : DataPath.eqBy (Segment.eq g) place x.place with
    | true =>
      have same : DataPath.eqBy (Segment.eq g) p x.place =
          DataPath.eqBy (Segment.eq g) place p := by
        rw [Bool.eq_iff_iff]
        constructor
        · intro h
          rw [DataPath.eqBy_comm keys hp hx] at h
          exact DataPath.eqBy_trans keys hplace hx hp here h
        · intro h
          rw [back] at h
          exact DataPath.eqBy_trans keys hp hplace hx h here
      rw [if_pos rfl, groupAt_cons, groupAt_cons, DataPath.sameKey_eq keys hplace hp, same]
      cases DataPath.eqBy (Segment.eq g) place p <;> rfl
    | false =>
      rw [if_neg Bool.false_ne_true, groupAt_cons, groupAt_cons, later,
        DataPath.sameKey_eq keys hplace hp]
      cases reached : DataPath.eqBy (Segment.eq g) place p with
      | false => rfl
      | true =>
        have apart : DataPath.eqBy (Segment.eq g) p x.place = false :=
          Bool.eq_false_iff.mpr fun joined => Bool.false_ne_true
            (here.symm.trans (DataPath.eqBy_trans keys hplace hp hx reached joined))
        rw [apart]
        rfl

/-- Looking up a place finds the leaves whose places are equal, in their order. -/
theorem groupAt_foldl {xs : List Placed} (hxs : ∀ x ∈ xs, x.place ⊆ segments)
    {groups : List (DataPath × List Placed)} (held : ∀ entry ∈ groups, entry.1 ⊆ segments) :
    (groupAt g (xs.foldl (fun groups x => addToGroup g x groups) groups) p).getD [] =
      (groupAt g groups p).getD [] ++ xs.filter fun x => DataPath.eqBy (Segment.eq g) p x.place := by
  induction xs generalizing groups with
  | nil => simp
  | cons x xs ih =>
    have hx : x.place ⊆ segments := hxs x List.mem_cons_self
    have stillHeld : ∀ entry ∈ addToGroup g x groups, entry.1 ⊆ segments := by
      intro entry member
      rcases place_of_addToGroup member with same | ⟨old, found, same⟩ <;> rw [same]
      · exact hx
      · exact held old found
    rw [List.foldl_cons, ih (fun y member => hxs y (List.mem_cons_of_mem _ member)) stillHeld,
      groupAt_addToGroup keys hp hx held, List.filter_cons]
    cases DataPath.eqBy (Segment.eq g) p x.place <;> simp

omit keys hp in
/-- The group of a reported place holds the leaves that report an equal place. -/
theorem groupAt_grouped {root : Node Placed}
    (keys : Segment.ServeAsKeys g (root.leaves.flatMap (·.place))) {q : Placed}
    (member : q ∈ root.leaves) :
    groupAt g ((Outcome.rejected root).grouped g) q.place =
      some (root.leaves.filter fun x => DataPath.eqBy (Segment.eq g) q.place x.place) := by
  have within : ∀ x ∈ root.leaves, x.place ⊆ root.leaves.flatMap (·.place) :=
    fun x hx segment hs => List.mem_flatMap.mpr ⟨x, hx, hs⟩
  have unfilled : ∀ entry ∈ ([] : List (DataPath × List Placed)),
      entry.1 ⊆ root.leaves.flatMap (·.place) := fun _ none => nomatch none
  have looked := groupAt_foldl keys (within q member) within unfilled
  have itself : q ∈ root.leaves.filter fun x => DataPath.eqBy (Segment.eq g) q.place x.place :=
    List.mem_filter.mpr ⟨member, DataPath.eqBy_refl keys (within q member)⟩
  unfold grouped
  cases group : groupAt g (root.leaves.foldl (fun groups x => addToGroup g x groups) []) q.place with
  | none =>
    rw [group] at looked
    exact absurd looked.symm (List.ne_nil_of_mem itself)
  | some leaves =>
    rw [group] at looked
    exact group.trans (congrArg some looked)

end Outcome

end PathRules
