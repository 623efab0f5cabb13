import Estate.Registry.Check
import Estate.Registry.Containment
import Estate.Registry.Edit

/-!
# Deleting entities

With an entity goes everything that it contains, directly or not.  The deletion is refused if
something below the entity defines an entity that would stay; what the entity itself defines does
not count.
-/

namespace Estate

/-- What a deletion takes away. -/
structure Removal where
  /-- The paths that go, every parent before its children. -/
  paths : List CanonicalPath
  /-- The vertices that go, in the same order. -/
  vertices : List VertexId

namespace Graph

/-- An entity below the root of a subtree, and an entity outside that it defines. -/
def survivor? (g : Graph) (root : VertexId) (subtree : List VertexId) :
    Option (VertexId × VertexId) :=
  (subtree.filter (· != root)).findSome? fun v =>
    (g.edgesOf v .outgoing (some WellKnown.defines.name)).findSome? fun e =>
      (g.edge? e).bind fun edge =>
        if subtree.contains edge.target then none else some (v, edge.target)

/-- The deletion of the entity at a path, if nothing speaks against it. -/
def planRemoval (g : Graph) (path : CanonicalPath) : Except RegistryError Removal := do
  let root ← g.require path
  let subtree := g.subtree root
  match g.survivor? root subtree with
  | some (definer, defined) =>
    let definer ← g.pathOf definer
    let defined ← g.pathOf defined
    throw (.badState definer (.definesSurvivor defined path))
  | none => return ⟨← subtree.mapM g.pathOf, subtree⟩

end Graph

namespace Edit

/-- Carries a deletion out, children before their parents. -/
def performRemoval (r : Removal) : Edit Unit :=
  r.vertices.reverse.forM fun v => mutate (.removeVertex v)

/-- Deletes the entity at a path with everything that it contains, and returns the removed paths. -/
def delete (path : CanonicalPath) : Edit (List CanonicalPath) := do
  let removal ← check (·.planRemoval path)
  performRemoval removal
  return removal.paths

end Edit

end Estate
