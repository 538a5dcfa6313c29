import PathRules.Outcome.Node

/-!
# Failures at a place

`Node.errorsAt` follows a question step by step.  Steps that stay in place are passed over
while a part of the question is left.

This is `errors_at` of `SimpleInvalidResult`, `CompoundResult`, `PathResult` and `Valid`.
-/

namespace PathRules.Node

mutual

/-- The leaves recorded at the place asked for, and with `below` also those recorded
beneath it. -/
def errorsAt (g : ObjectGraph) (below : Bool) : Node Placed → List Query → List Placed
  | .leaf content, query => if query.isEmpty then [content] else []
  | .path via child, query =>
      match query with
      | [] => if below then errorsBelow g below child [] else []
      | asked :: rest =>
          if via.isThis then errorsBelow g below child (asked :: rest)
          else if via.segment.answers g asked then errorsBelow g below child rest
          else []
  | .group _ children, query => errorsOf g below children query
termination_by structural node => node

def errorsBelow (g : ObjectGraph) (below : Bool) : Option (Node Placed) → List Query → List Placed
  | none, _ => []
  | some node, query => errorsAt g below node query
termination_by structural child => child

def errorsOf (g : ObjectGraph) (below : Bool) : List (Node Placed) → List Query → List Placed
  | [], _ => []
  | node :: nodes, query => errorsAt g below node query ++ errorsOf g below nodes query
termination_by structural nodes => nodes

end

end PathRules.Node
