import PathRules.Outcome.Query

/-!
# Failures at a place

A trail is a leaf of a tree with the steps above it.  Asking a tree for the failures at a place
answers with the leaves, in their order, whose trail fits the question: the question is matched
with the steps that lead somewhere else, and what stands in between is passed over.
-/

namespace PathRules

/-- A leaf with the steps above it, the outermost first. -/
structure Trail where
  steps : List Via
  leaf : Placed

namespace Trail

/-- The steps that do not stay in place. -/
def chain (t : Trail) : List Via := t.steps.filter (!·.isThis)

/-- Whether the innermost step, if there is one, does not stay in place. -/
def endsMoving (t : Trail) : Bool := t.steps.getLast?.all (!·.isThis)

/-- The trail as seen from above a step. -/
def under (via : Via) (t : Trail) : Trail := { t with steps := via :: t.steps }

end Trail

/-- Whether every step answers the part of a question that stands at its position. -/
def Query.fits (g : ObjectGraph) (query : List Query) (steps : List Via) : Bool :=
  (query.zip steps).all fun (asked, via) => via.segment.answers g asked

namespace Node

mutual

/-- The leaves in order, each with its trail. -/
def trails : Node Placed → List Trail
  | .leaf content => [⟨[], content⟩]
  | .path via child => (trailsBelow child).map (Trail.under via)
  | .group _ children => trailsOf children
termination_by structural node => node

def trailsBelow : Option (Node Placed) → List Trail
  | none => []
  | some node => trails node
termination_by structural child => child

def trailsOf : List (Node Placed) → List Trail
  | [] => []
  | node :: nodes => trails node ++ trailsOf nodes
termination_by structural nodes => nodes

end

mutual

/-- Every leaf has one trail. -/
theorem leaf_trails : (node : Node Placed) → node.trails.map (·.leaf) = node.leaves
  | .leaf _ => rfl
  | .path via child => by
    rw [trails, leaves, List.map_map, ← leaf_trailsBelow child]
    rfl
  | .group _ children => leaf_trailsOf children
termination_by structural node => node

theorem leaf_trailsBelow : (child : Option (Node Placed)) →
    (trailsBelow child).map (·.leaf) = leavesBelow child
  | none => rfl
  | some node => leaf_trails node
termination_by structural child => child

theorem leaf_trailsOf : (nodes : List (Node Placed)) →
    (trailsOf nodes).map (·.leaf) = leavesOf nodes
  | [] => rfl
  | node :: nodes => by
    rw [trailsOf, leavesOf, List.map_append, leaf_trails node, leaf_trailsOf nodes]
termination_by structural nodes => nodes

end

/-- Whether a question leads along some steps, or with `below` along the first of them. -/
def leadsAlong (g : ObjectGraph) (below : Bool) : List Query → List Via → Bool
  | [], steps => below || steps.isEmpty
  | _ :: _, [] => false
  | asked :: rest, via :: steps =>
      if via.isThis then leadsAlong g below (asked :: rest) steps
      else via.segment.answers g asked && leadsAlong g below rest steps

/-- The trails that a question leads along. -/
def found (g : ObjectGraph) (below : Bool) (query : List Query) (trails : List Trail) :
    List Placed :=
  (trails.filter fun t => leadsAlong g below query t.steps).map (·.leaf)

theorem found_under (g : ObjectGraph) (below : Bool) (query : List Query) (via : Via)
    (trails : List Trail) :
    found g below query (trails.map (Trail.under via)) =
      match query with
      | [] => if below then found g below [] trails else []
      | asked :: rest =>
          if via.isThis then found g below (asked :: rest) trails
          else if via.segment.answers g asked then found g below rest trails
          else [] := by
  unfold found
  rw [List.filter_map, List.map_map]
  cases query with
  | nil => cases below <;> simp [Function.comp_def, Trail.under, leadsAlong]
  | cons asked rest =>
    cases h : via.isThis <;> cases h' : via.segment.answers g asked <;>
      simp [Function.comp_def, Trail.under, leadsAlong, h, h']

mutual

/-- Following a question step by step finds the leaves whose trails it leads along. -/
theorem errorsAt_eq_found (g : ObjectGraph) (below : Bool) : (node : Node Placed) →
    ∀ query : List Query, node.errorsAt g below query = found g below query node.trails
  | .leaf content, query => by cases query <;> cases below <;> rfl
  | .path via child, query => by
    have inner := errorsBelow_eq_found g below child
    rw [trails, found_under]
    cases query with
    | nil => simp only [errorsAt, inner]
    | cons asked rest => simp only [errorsAt, inner]
  | .group _ children, query => errorsOf_eq_found g below children query
termination_by structural node => node

theorem errorsBelow_eq_found (g : ObjectGraph) (below : Bool) : (child : Option (Node Placed)) →
    ∀ query : List Query, errorsBelow g below child query = found g below query (trailsBelow child)
  | none, _ => rfl
  | some node, query => errorsAt_eq_found g below node query
termination_by structural child => child

theorem errorsOf_eq_found (g : ObjectGraph) (below : Bool) : (nodes : List (Node Placed)) →
    ∀ query : List Query, errorsOf g below nodes query = found g below query (trailsOf nodes)
  | [], _ => rfl
  | node :: nodes, query => by
    rw [errorsOf, trailsOf, errorsAt_eq_found g below node, errorsOf_eq_found g below nodes]
    simp [found]
termination_by structural nodes => nodes

end

end Node

namespace Trail

variable {g : ObjectGraph}

/-- The trail begins with steps that answer the question, those that stay in place left out. -/
def beginsWith (g : ObjectGraph) (query : List Query) (t : Trail) : Bool :=
  decide (query.length ≤ t.chain.length) && Query.fits g query t.chain

/-- The trail consists of steps that answer the question, those that stay in place left out,
and ends with such a step. -/
def consistsOf (g : ObjectGraph) (query : List Query) (t : Trail) : Bool :=
  decide (t.chain.length = query.length) && Query.fits g query t.chain && t.endsMoving

variable {via : Via} {steps : List Via} {leaf : Placed} {asked : Query} {rest : List Query}

theorem chain_of_isThis (h : via.isThis = true) :
    chain ⟨via :: steps, leaf⟩ = chain ⟨steps, leaf⟩ := by
  simp [chain, h]

theorem chain_of_moving (h : via.isThis = false) :
    chain ⟨via :: steps, leaf⟩ = via :: chain ⟨steps, leaf⟩ := by
  simp [chain, h]

/-- A trail that has steps, all of which stay in place, does not end moving. -/
theorem endsMoving_of_chain_nil {t : Trail} (h : t.chain = []) (nonempty : t.steps ≠ []) :
    t.endsMoving = false := by
  have innermost := List.getLast?_eq_some_getLast nonempty
  have stays := List.filter_eq_nil_iff.mp h _ (List.getLast_mem nonempty)
  simpa [endsMoving, innermost] using stays

theorem endsMoving_of_moving (h : via.isThis = false) :
    endsMoving ⟨via :: steps, leaf⟩ = endsMoving ⟨steps, leaf⟩ := by
  cases steps with
  | nil => simp [endsMoving, h]
  | cons step steps => simp [endsMoving, List.getLast?_cons_cons]

theorem beginsWith_of_moving (h : via.isThis = false) :
    beginsWith g (asked :: rest) ⟨via :: steps, leaf⟩ =
      (via.segment.answers g asked && beginsWith g rest ⟨steps, leaf⟩) := by
  simp [beginsWith, chain_of_moving h, Query.fits, Bool.and_left_comm]

theorem consistsOf_of_moving (h : via.isThis = false) :
    consistsOf g (asked :: rest) ⟨via :: steps, leaf⟩ =
      (via.segment.answers g asked && consistsOf g rest ⟨steps, leaf⟩) := by
  simp [consistsOf, chain_of_moving h, endsMoving_of_moving h, Query.fits, Bool.and_left_comm,
    Bool.and_assoc]

theorem consistsOf_of_isThis (h : via.isThis = true) :
    consistsOf g (asked :: rest) ⟨via :: steps, leaf⟩ =
      consistsOf g (asked :: rest) ⟨steps, leaf⟩ := by
  cases steps with
  | nil => simp [consistsOf, chain, h]
  | cons step steps => simp [consistsOf, chain_of_isThis h, endsMoving, List.getLast?_cons_cons]

/-- By induction on the steps, for every question. -/
theorem leadsAlong_below (query : List Query) (steps : List Via) (leaf : Placed) :
    Node.leadsAlong g true query steps = beginsWith g query ⟨steps, leaf⟩ := by
  induction steps generalizing query with
  | nil => cases query <;> simp [Node.leadsAlong, beginsWith, chain, Query.fits]
  | cons via steps ih =>
    cases query with
    | nil => simp [Node.leadsAlong, beginsWith, Query.fits]
    | cons asked rest =>
      rw [Node.leadsAlong, ih, ih]
      cases h : via.isThis with
      | true => simp [beginsWith, chain_of_isThis h]
      | false => simp [beginsWith_of_moving h]

theorem leadsAlong_exactly (query : List Query) (steps : List Via) (leaf : Placed) :
    Node.leadsAlong g false query steps = consistsOf g query ⟨steps, leaf⟩ := by
  induction steps generalizing query with
  | nil => cases query <;> simp [Node.leadsAlong, consistsOf, chain, endsMoving, Query.fits]
  | cons via steps ih =>
    cases query with
    | nil =>
      by_cases stays : chain ⟨via :: steps, leaf⟩ = []
      · have ends := endsMoving_of_chain_nil stays (List.cons_ne_nil via steps)
        simp [Node.leadsAlong, consistsOf, ends]
      · simp [Node.leadsAlong, consistsOf, stays]
    | cons asked rest =>
      rw [Node.leadsAlong, ih, ih]
      cases h : via.isThis with
      | true => simp [consistsOf_of_isThis h]
      | false => simp [consistsOf_of_moving h]

end Trail

namespace Node

variable {g : ObjectGraph}

theorem found_sublist (below : Bool) (query : List Query) (node : Node Placed) :
    (found g below query node.trails).Sublist node.leaves := by
  rw [← leaf_trails node]
  exact List.filter_sublist.map _

theorem found_below (query : List Query) (trails : List Trail) :
    found g true query trails = (trails.filter (·.beginsWith g query)).map (·.leaf) :=
  congrArg _ (List.filter_congr fun t _ => Trail.leadsAlong_below query t.steps t.leaf)

theorem found_exactly (query : List Query) (trails : List Trail) :
    found g false query trails = (trails.filter (·.consistsOf g query)).map (·.leaf) :=
  congrArg _ (List.filter_congr fun t _ => Trail.leadsAlong_exactly query t.steps t.leaf)

/-- What a tree answers to a question: with what lies below, the leaves whose trail begins with
steps that answer it; otherwise those whose trail consists of such steps, which the empty
question finds none of.  The answer keeps the order of the leaves and holds none of them
twice. -/
theorem errorsAt_eq_filter (child : Option (Node Placed)) (query : List Query) :
    (path .this child).errorsAt g true query =
      ((path .this child).trails.filter (·.beginsWith g query)).map (·.leaf) ∧
    (path .this child).errorsAt g false query =
      ((path .this child).trails.filter fun t =>
        decide (1 ≤ query.length) && t.consistsOf g query).map (·.leaf) ∧
    (path .this child).trails.map (·.leaf) = (path .this child).leaves ∧
    ∀ below, ((path .this child).errorsAt g below query).Sublist (path .this child).leaves := by
  refine ⟨?_, ?_, leaf_trails _, fun below => ?_⟩
  · rw [errorsAt_eq_found, found_below]
  · cases query with
    | nil => simp [errorsAt]
    | cons asked rest =>
      rw [errorsAt_eq_found, found_exactly]
      simp
  · rw [errorsAt_eq_found]
    exact found_sublist below query _

end Node

end PathRules
