import PathRules.Proofs.Outcome.Scaffold

/-!
# Places found by parents

The place of a node on a workbench is found by going from parent to parent.  If all that is held
has its holder as the parent, it is the place in the tree, and the tree that is read off with the
places of its leaves is the placed tree.
-/

namespace PathRules

namespace Workbench

variable {bench : Workbench} {levels : List Nat} {above : DataPath} {number : Nat}

/-- The parents lead from a node to a place. -/
def StandsAt (bench : Workbench) (number : Nat) (place : DataPath) : Prop :=
  ∀ fuel, number < fuel → bench.placeWithin fuel number = .ok place

/-- The place of a node below a place: a step leads further. -/
def placeUnder (bench : Workbench) (above : DataPath) (number : Nat) : DataPath :=
  match bench.part? number with
  | some (.path via) => above.snoc via.segment
  | _ => above

theorem exists_piece {part : Part} (found : bench.part? number = some part) :
    ∃ piece, bench.pieces[number]? = some piece ∧ piece.part = part ∧
      bench.parent? number = piece.parent := by
  obtain ⟨piece, pieceAt, same⟩ := Option.map_eq_some_iff.mp found
  exact ⟨piece, pieceAt, same, by rw [parent?, pieceAt, Option.bind_some]⟩

/-- A node without parent stands at its own step. -/
theorem standsAt_root {part : Part} (found : bench.part? number = some part)
    (alone : bench.parent? number = none) :
    bench.StandsAt number (bench.placeUnder [] number) := by
  intro fuel enough
  obtain ⟨fuel, rfl⟩ : ∃ n, fuel = n + 1 := ⟨fuel - 1, by omega⟩
  obtain ⟨piece, pieceAt, rfl, parent⟩ := exists_piece found
  rw [alone] at parent
  simp only [placeWithin, pieceAt, ← parent, placeUnder, found]
  cases piece.part <;> rfl

/-- A node stands below its parent. -/
theorem standsAt_of_parent {holder : Nat} {part part' : Part}
    (holderAt : bench.part? holder = some part') (compound : part'.isCompound = true)
    (stands : bench.StandsAt holder above) (found : bench.part? number = some part)
    (made : bench.parent? number = some holder) (earlier : holder < number) :
    bench.StandsAt number (bench.placeUnder above number) := by
  intro fuel enough
  obtain ⟨fuel, rfl⟩ : ∃ n, fuel = n + 1 := ⟨fuel - 1, by omega⟩
  obtain ⟨piece, pieceAt, rfl, parent⟩ := exists_piece found
  rw [made] at parent
  have open_ : bench.isAccepted holder = false := by
    rw [isAccepted, holderAt]
    cases part' with
    | path | group => rfl
    | leaf | accepted => cases compound
  simp only [placeWithin, pieceAt, ← parent, placeUnder, found, open_, stands fuel (by omega)]
  cases piece.part <;> rfl

/-- Nodes that are read off one by one. -/
theorem mapM_placed {read : Nat → Except Fault (Node Placed)} {place : DataPath}
    {nodes : List Nat}
    (each : ∀ node ∈ nodes, read node = .ok ((bench.contents node).placed place)) :
    nodes.mapM read = .ok (Node.placedAll place (nodes.map bench.contents)) := by
  induction nodes with
  | nil => rfl
  | cons node nodes ih =>
    rw [List.mapM_cons, each node List.mem_cons_self,
      ih fun other member => each other (List.mem_cons_of_mem _ member)]
    rfl

/-- The tree below a node is read off with the places that it has in the tree. -/
theorem nodeWithin_eq (h : bench.Scaffolded levels) {fuel : Nat}
    (inUse : bench.InUse levels number) (present : number < bench.size)
    (enough : bench.size ≤ fuel + number)
    (fits : ∀ value warnings, bench.part? number ≠ some (.accepted value warnings))
    (stands : bench.StandsAt number (bench.placeUnder above number)) :
    bench.nodeWithin fuel number = .ok ((bench.contents number).placed above) := by
  -- The place goes down with the tree, each held node standing below its holder.
  induction fuel generalizing number above with
  | zero => omega
  | succ fuel ih =>
    obtain ⟨part, found⟩ := exists_part?_of_lt present
    obtain ⟨piece, pieceAt, same, -⟩ := exists_piece found
    have held : piece.children = bench.children number := by simp [children, pieceAt]
    have below : (bench.children number).mapM (bench.nodeWithin fuel) =
        .ok (Node.placedAll (bench.placeUnder above number)
          ((bench.children number).map bench.contents)) := by
      refine mapM_placed fun node member => ?_
      obtain ⟨later, inside⟩ := h.ordered number node member
      obtain ⟨made, holderPart, nodePart, holderAt, nodeAt, admits⟩ :=
        h.held number inUse node member
      obtain ⟨compound, notAccepted⟩ := Part.of_admits admits
      refine ih (.inr ⟨number, member⟩) inside (by omega) (fun value warnings accepted => ?_)
        (standsAt_of_parent holderAt compound stands nodeAt made later)
      exact notAccepted value warnings (Option.some.inj (nodeAt.symm.trans accepted))
    have read : bench.contents number = _ := tree_eq h.ordered present
    simp only [found] at read
    simp only [nodeWithin, pieceAt, held, same, read]
    cases part with
    | leaf content =>
      have here : bench.place number = .ok above := by
        have found' := stands (bench.pieces.length + 1) (Nat.lt_succ_of_lt present)
        rwa [placeUnder, found] at found'
      rw [here]
      rfl
    | path via =>
      rw [below, placeUnder, found]
      cases bench.children number <;> rfl
    | group sign =>
      rw [below, placeUnder, found]
      rfl
    | accepted value warnings => exact absurd found (fits value warnings)

end Workbench

end PathRules
