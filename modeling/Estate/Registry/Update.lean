import Estate.Registry.Blueprint
import Estate.Registry.Check
import Estate.Registry.Edit

/-!
# Updating entities

An update replaces the user's properties as a whole, and the name and the fields of the kind one by
one.  What it does not mention stays.
-/

namespace Estate

open Layout

/-- What an update does at a vertex. -/
structure Revision where
  vertex : VertexId
  /-- The properties that go. -/
  removed : List String
  /-- The properties that come or change. -/
  given : List (String × Json)

/-- The user's property names that a new set of properties does not have. -/
def droppedNames (old new : Properties) : List String :=
  (userProperties old).keys.filter fun key => !new.contains key

namespace Graph

/-- The user's properties that go, once the new ones have been checked. -/
def droppedAt (g : Graph) (v : VertexId) (kind : Kind) (new : Properties) :
    Except RegistryError (List String) := do
  new.checkNames kind.fieldNames
  return droppedNames ((g.vertex? v).getD ∅) new

/-- The update of the entity of a kind at a path, if nothing speaks against it. -/
def planUpdate (g : Graph) (path : CanonicalPath) (kind : Kind) (u : Update) :
    Except RegistryError Revision := do
  if path.kind ≠ kind then throw (.notFound path)
  let v ← g.require path
  let structural := u.structural kind
  structural.checkInterval path
  let removed ←
    match u.properties with
    | some new => g.droppedAt v kind new
    | none => pure []
  let name := u.name.map fun name => (nameKey, Json.string name)
  return {
    vertex := v
    removed
    given := (u.properties.getD ∅).toList ++ name.toList ++ structural.toList }

end Graph

namespace Edit

/-- Carries an update out. -/
def performUpdate (r : Revision) : Edit Unit := do
  r.removed.forM fun key => discard <| mutate (.removeVertexProperty r.vertex key)
  r.given.forM fun (key, value) => mutate (.setVertexProperty r.vertex key value)

/-- Updates the entity of a kind at a path. -/
def update (path : CanonicalPath) (kind : Kind) (u : Update) : Edit Unit := do
  performUpdate (← check (·.planUpdate path kind u))

end Edit

end Estate
