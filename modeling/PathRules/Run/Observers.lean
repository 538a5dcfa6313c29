import PathRules.Run.Basic

/-!
# Observers

Observers are known by name and told of every event in the order in which they were added.

This is `ObservableMixin`.
-/

namespace PathRules

/-- The observers of a validation, each once. -/
abbrev Observers := List String

namespace Observers

def add (observers : Observers) (name : String) : Observers :=
  if observers.contains name then observers else observers ++ [name]

def remove (observers : Observers) (name : String) : Observers :=
  observers.filter (· != name)

/-- Who is told what, for events in the order in which they were sent. -/
def told (observers : Observers) (events : List EventType) : List (String × EventType) :=
  events.flatMap fun event => observers.map fun name => (name, event)

end Observers

end PathRules
