import Mathlib.Data.List.Basic
import PathRules.Outcome.Outline
import PathRules.Proofs.Outcome.Shape
import PathRules.Proofs.Value.Same
import PathRules.Report.Record

/-!
# Summaries of an outcome

Reports, groups by place and outlines each gather the leaves of an outcome in their own way.  If
the outcome is as runs leave it, each of them shows every leaf that was recorded once: a report
sorts them by severity, the groups by place, and an outline ends in them in order.
-/

namespace PathRules

variable {g : ObjectGraph}

theorem Placed.isWarning_eq_not (p : Placed) : p.isWarning = !p.isError := by
  unfold isError isWarning
  cases p.leaf.severity <;> rfl

/-- The value of the leaf can be written out. -/
def Placed.isWritable (g : ObjectGraph) (p : Placed) : Bool := (p.leaf.value.shown? g).isSome

namespace Outcome

/-- An outcome as runs leave it: an accepted value keeps warnings, and nothing in the tree of a
rejected one is hollow. -/
inductive Coherent : Outcome → Prop
  | accepted (value : Value) {warnings : List Placed}
      (all : ∀ p ∈ warnings, p.isWarning = true) : Coherent (.accepted value warnings)
  | rejected {root : Node Placed} (solid : ∀ m ∈ root.subtrees, m.Solid) :
      Coherent (.rejected root)

theorem failures_of_rejected {outcome : Outcome} (rejected : outcome.isAccepted = false) :
    outcome.failures = outcome.recorded := by
  cases outcome with
  | accepted value warnings => cases rejected
  | rejected root => rfl

namespace Coherent

variable {outcome : Outcome} (coherent : outcome.Coherent)

include coherent

theorem errors_eq :
    outcome.failures.filter (·.isError) = outcome.recorded.filter (·.isError) := by
  cases coherent with
  | accepted value all =>
    refine (List.filter_eq_nil_iff.mpr fun p member error => ?_).symm
    have warning := all p member
    rw [p.isWarning_eq_not, error] at warning
    exact Bool.false_ne_true warning
  | rejected solid => rfl

theorem warnings_eq : outcome.warnings = outcome.recorded.filter (·.isWarning) := by
  cases coherent with
  | accepted value all => exact (List.filter_eq_self.mpr all).symm
  | rejected solid => rfl

end Coherent

end Outcome

namespace Record

/-- The record of a leaf whose value can be written out. -/
def describing (g : ObjectGraph) (p : Placed) : Record where
  severity := p.leaf.severity
  place := p.place.text
  message := p.leaf.message
  value :=
    match p.leaf.value with
    | .null => none
    | v => v.shown? g

theorem ofPlaced_eq (p : Placed) : ofPlaced g p =
    if p.isWritable g then .ok (describing g p) else .error .endless := by
  obtain ⟨⟨severity, message, value⟩, place⟩ := p
  cases value with
  | null => rfl
  | _ =>
    unfold ofPlaced Placed.isWritable describing
    dsimp only
    split <;> simp_all

/-- Leaves are recorded if all their values can be written out. -/
theorem mapM_ofPlaced (ps : List Placed) : ps.mapM (ofPlaced g) =
    if ps.all (·.isWritable g) then .ok (ps.map (describing g)) else .error .endless := by
  induction ps with
  | nil => rfl
  | cons p ps ih =>
    rw [List.mapM_cons, ofPlaced_eq, ih, List.all_cons]
    cases p.isWritable g with
    | false => rfl
    | true => cases ps.all (·.isWritable g) <;> rfl

end Record

namespace Report

/-- The report of an outcome whose leaves have values that can be written out. -/
def describing (g : ObjectGraph) (timestamp : String) (outcome : Outcome) : Report where
  isValid := outcome.isAccepted
  errors := (outcome.recorded.filter (·.isError)).map (Record.describing g)
  warnings := (outcome.recorded.filter (·.isWarning)).map (Record.describing g)
  timestamp := timestamp

theorem ofOutcome_eq (timestamp : String) (outcome : Outcome) : ofOutcome g timestamp outcome =
    if outcome.recorded.all (·.isWritable g) then .ok (describing g timestamp outcome)
    else .error .endless := by
  rw [ofOutcome, Record.mapM_ofPlaced]
  cases outcome.recorded.all (·.isWritable g) with
  | false => rfl
  | true =>
    refine congrArg Except.ok ?_
    rw [describing, List.filter_map, List.filter_map]
    rfl

/-- A report can be made of an outcome if the value of each leaf can be written out. -/
theorem ofOutcome_eq_ok {timestamp : String} {outcome : Outcome} {report : Report} :
    ofOutcome g timestamp outcome = .ok report ↔
      (∀ p ∈ outcome.recorded, p.isWritable g = true) ∧
        describing g timestamp outcome = report := by
  rw [ofOutcome_eq, ← List.all_eq_true]
  cases outcome.recorded.all (·.isWritable g) with
  | false => exact ⟨nofun, fun both => absurd both.1 Bool.false_ne_true⟩
  | true => exact ⟨fun made => ⟨rfl, Except.ok.inj made⟩, fun both => congrArg Except.ok both.2⟩

theorem map_record_log (report : Report) (source : Option String) :
    (report.log source).map (·.record) = report.errors ++ report.warnings := by
  rw [log, List.map_map]
  exact List.map_id _

/-- The log of a report has an entry for each leaf. -/
theorem length_log (timestamp : String) (outcome : Outcome) (source : Option String) :
    ((describing g timestamp outcome).log source).length = outcome.recorded.length := by
  have counted := List.length_eq_length_filter_add (l := outcome.recorded) Placed.isError
  simp only [← Placed.isWarning_eq_not] at counted
  rw [log, describing, List.length_map, List.length_append, List.length_map, List.length_map,
    counted]

end Report

namespace Outcome

/-- The groups hold the leaves, the leaves of each group in order and under a key that is their
place. -/
structure Sorts (g : ObjectGraph) (groups : List (DataPath × List Placed)) (ps : List Placed) :
    Prop where
  perm : (groups.flatMap (·.2)).Perm ps
  ordered : ∀ entry ∈ groups, entry.2.Sublist ps
  keyed : ∀ entry ∈ groups, ∀ p ∈ entry.2, DataPath.sameKey g entry.1 p.place = true

/-- A leaf ends the group whose key is its place, or it begins one. -/
theorem mem_addToGroup {x : Placed} {groups : List (DataPath × List Placed)}
    {entry : DataPath × List Placed} (h : entry ∈ addToGroup g x groups) :
    entry ∈ groups ∨ ∃ group, entry.2 = group ++ [x] ∧
      DataPath.sameKey g entry.1 x.place = true ∧ (group = [] ∨ (entry.1, group) ∈ groups) := by
  induction groups with
  | nil =>
    cases List.mem_singleton.mp h
    exact .inr ⟨[], rfl, DataPath.sameKey_refl g x.place, .inl rfl⟩
  | cons first groups ih =>
    obtain ⟨place, group⟩ := first
    rw [addToGroup] at h
    split at h
    · next same =>
      rcases List.mem_cons.mp h with rfl | later
      · exact .inr ⟨group, rfl, same, .inr List.mem_cons_self⟩
      · exact .inl (List.mem_cons_of_mem _ later)
    · rcases List.mem_cons.mp h with rfl | later
      · exact .inl List.mem_cons_self
      · refine (ih later).imp (List.mem_cons_of_mem _) fun ⟨group, ends, same, begun⟩ => ?_
        exact ⟨group, ends, same, begun.imp_right (List.mem_cons_of_mem _)⟩

theorem perm_addToGroup (x : Placed) (groups : List (DataPath × List Placed)) :
    ((addToGroup g x groups).flatMap (·.2)).Perm (groups.flatMap (·.2) ++ [x]) := by
  induction groups with
  | nil => exact .refl _
  | cons first groups ih =>
    obtain ⟨place, group⟩ := first
    rw [addToGroup]
    split
    · simp only [List.flatMap_cons, List.append_assoc]
      exact List.perm_append_comm.append_left group
    · simp only [List.flatMap_cons, List.append_assoc]
      exact ih.append_left group

namespace Sorts

variable {groups : List (DataPath × List Placed)} {ps : List Placed}

theorem addToGroup (sorts : Sorts g groups ps) (x : Placed) :
    Sorts g (addToGroup g x groups) (ps ++ [x]) where
  perm := (perm_addToGroup x groups).trans (sorts.perm.append_right [x])
  ordered entry member := by
    rcases mem_addToGroup member with old | ⟨group, ends, -, begun⟩
    · exact (sorts.ordered entry old).trans (List.sublist_append_left ps [x])
    · rw [ends]
      rcases begun with rfl | found
      · exact List.sublist_append_right ps [x]
      · exact (sorts.ordered _ found).append_right [x]
  keyed entry member p inGroup := by
    rcases mem_addToGroup member with old | ⟨group, ends, same, begun⟩
    · exact sorts.keyed entry old p inGroup
    · rw [ends] at inGroup
      rcases List.mem_append.mp inGroup with earlier | last
      · rcases begun with rfl | found
        · cases earlier
        · exact sorts.keyed _ found p earlier
      · rw [List.mem_singleton.mp last]
        exact same

theorem foldl (sorts : Sorts g groups ps) (xs : List Placed) :
    Sorts g (xs.foldl (fun groups x => Outcome.addToGroup g x groups) groups) (ps ++ xs) := by
  induction xs generalizing groups ps with
  | nil =>
    rw [List.append_nil]
    exact sorts
  | cons x xs ih =>
    rw [List.append_cons]
    exact ih (sorts.addToGroup x)

end Sorts

/-- The groups of an outcome hold its failures. -/
theorem sorts_grouped (outcome : Outcome) : Sorts g (outcome.grouped g) outcome.failures := by
  have none : Sorts g [] [] := ⟨.refl _, nofun, nofun⟩
  exact none.foldl outcome.failures

end Outcome

namespace Outline

/-- What stands below the root. -/
def branches : Outline → List Outline
  | .mk _ _ children => children

mutual

/-- The labels below which nothing stands, with their styles, in order. -/
def tips : Outline → List (String × Style)
  | .mk label style children => if children.isEmpty then [(label, style)] else tipsOf children
termination_by structural outline => outline

def tipsOf : List Outline → List (String × Style)
  | [] => []
  | outline :: outlines => tips outline ++ tipsOf outlines
termination_by structural outlines => outlines

end

theorem tipsOf_append (xs ys : List Outline) : tipsOf (xs ++ ys) = tipsOf xs ++ tipsOf ys := by
  induction xs with
  | nil => rfl
  | cons x xs ih => rw [List.cons_append, tipsOf, tipsOf, ih, List.append_assoc]

theorem tipsOf_map {entry : Placed → Outline} {shown : Placed → String × Style} {ps : List Placed}
    (h : ∀ p ∈ ps, tips (entry p) = [shown p]) : tipsOf (ps.map entry) = ps.map shown := by
  induction ps with
  | nil => rfl
  | cons p ps ih =>
    rw [List.map_cons, tipsOf, h p List.mem_cons_self,
      ih fun q member => h q (List.mem_cons_of_mem _ member)]
    rfl

section Display

variable [Display]

/-- A label with outlines below it adds no tip. -/
theorem tipsOf_labelled (label : String) (style : Style) {children : List Outline}
    (h : children ≠ []) : tipsOf [labelled label style children] = tipsOf children := by
  rw [tipsOf, labelled, tips, if_neg (mt List.isEmpty_iff.mp h), tipsOf, List.append_nil]

/-- How the label of a leaf is shown, warnings apart from errors. -/
def tip (label : String) (p : Placed) : String × Style :=
  (Display.clean label, if p.isWarning then .warning else .error)

theorem tips_ofPlaced (p : Placed) : tips (ofPlaced p) = [tip p.leaf.message p] := by
  unfold ofPlaced tip Placed.isWarning
  cases p.leaf.severity <;> rfl

theorem tips_warning (label : String) {p : Placed} (warning : p.isWarning = true) :
    tips (labelled label .warning []) = [tip label p] := by
  rw [tip, warning]
  rfl

end Display

end Outline

namespace Node

section Display

variable [Display]

mutual

/-- A node in which nothing is hollow is shown. -/
theorem outlines_ne_nil : (node : Node Placed) → (∀ m ∈ node.subtrees, m.Solid) →
    node.outlines ≠ []
  | .leaf _, _ => List.cons_ne_nil _ _
  | .path via none, solid => nomatch (solid _ (mem_subtrees_self _)).2
  | .path via (some node), solid => by
    rw [outlines]
    split
    · exact outlines_ne_nil node fun m hm => solid m (List.mem_cons_of_mem _ hm)
    · exact List.cons_ne_nil _ _
  | .group sign children, solid => by
    rw [outlines]
    split
    · exact outlinesOf_ne_nil children (solid _ (mem_subtrees_self _))
        fun m hm => solid m (List.mem_cons_of_mem _ hm)
    · exact List.cons_ne_nil _ _
termination_by structural node => node

theorem outlinesOf_ne_nil : (nodes : List (Node Placed)) → nodes ≠ [] →
    (∀ m ∈ subtreesOf nodes, m.Solid) → outlinesOf nodes ≠ []
  | [], held, _ => absurd rfl held
  | node :: _, _, solid =>
    List.append_ne_nil_of_left_ne_nil
      (outlines_ne_nil node fun m hm => solid m (List.mem_append_left _ hm)) _
termination_by structural nodes => nodes

end

mutual

/-- The outlines of a node in which nothing is hollow end in its leaves. -/
theorem tipsOf_outlines : (node : Node Placed) → (∀ m ∈ node.subtrees, m.Solid) →
    Outline.tipsOf node.outlines = node.leaves.map fun p => Outline.tip p.leaf.message p
  | .leaf content, _ => by
    rw [outlines, Outline.tipsOf, Outline.tips_ofPlaced]
    rfl
  | .path via none, solid => nomatch (solid _ (mem_subtrees_self _)).2
  | .path via (some node), solid => by
    have below : ∀ m ∈ node.subtrees, m.Solid := fun m hm => solid m (List.mem_cons_of_mem _ hm)
    rw [outlines, outlinesBelow]
    split
    · exact tipsOf_outlines node below
    · rw [Outline.tipsOf_labelled _ _ (outlines_ne_nil node below)]
      exact tipsOf_outlines node below
  | .group sign children, solid => by
    have below : ∀ m ∈ subtreesOf children, m.Solid :=
      fun m hm => solid m (List.mem_cons_of_mem _ hm)
    rw [outlines]
    split
    · exact tipsOf_outlinesOf children below
    · rw [Outline.tipsOf_labelled _ _
        (outlinesOf_ne_nil children (solid _ (mem_subtrees_self _)) below)]
      exact tipsOf_outlinesOf children below
termination_by structural node => node

theorem tipsOf_outlinesOf : (nodes : List (Node Placed)) → (∀ m ∈ subtreesOf nodes, m.Solid) →
    Outline.tipsOf (outlinesOf nodes) =
      (leavesOf nodes).map fun p => Outline.tip p.leaf.message p
  | [], _ => rfl
  | node :: nodes, solid => by
    rw [outlinesOf, Outline.tipsOf_append, leavesOf, List.map_append,
      tipsOf_outlines node fun m hm => solid m (List.mem_append_left _ hm),
      tipsOf_outlinesOf nodes fun m hm => solid m (List.mem_append_right _ hm)]
termination_by structural nodes => nodes

end

end Display

end Node

namespace Outcome

/-- What the outline of an outcome says of a leaf: its message, for an accepted value after its
place. -/
def told (outcome : Outcome) (p : Placed) : String :=
  if outcome.isAccepted then p.place.text ++ ": " ++ p.leaf.message else p.leaf.message

/-- The outline of an outcome ends in its leaves. -/
theorem Coherent.tipsOf_outline [Display] {outcome : Outcome} (coherent : outcome.Coherent)
    (label : String) : Outline.tipsOf (outcome.outline label).branches =
      outcome.recorded.map fun p => Outline.tip (outcome.told p) p := by
  cases coherent with
  | accepted value all =>
    exact Outline.tipsOf_map fun p member => Outline.tips_warning _ (all p member)
  | rejected solid => exact Node.tipsOf_outlines _ solid

end Outcome

end PathRules
