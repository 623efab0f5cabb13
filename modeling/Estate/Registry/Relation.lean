import Estate.Registry.Containment
import Estate.Registry.Create
import Estate.Registry.Entity
import Estate.Registry.Update

/-!
# Relationships between entities

Any two entities of one tenant may be related under any name, once under each.  Containment is
special: an entity is contained in one other at most and never in itself, directly or not, and a
containment ends only with the contained entity.
-/

namespace Estate

open Layout

/-- The property names that a relationship reserves besides the usual ones. -/
def relationFieldNames : List String :=
  ["source", "target"]

namespace Graph

/-- Refuses a containment that would not leave a forest. -/
def checkContainment (g : Graph) (source target : CanonicalPath) (s t : VertexId) :
    Except RegistryError Unit := do
  match (g.parentsOf t).head? with
  | some owner => throw (.misuse (.alreadyContained target (← g.pathOf owner)))
  | none =>
    if (g.lineage s).contains t then throw (.misuse (.wouldCycle source target))

/-- The ends of a new relationship, if nothing speaks against it. -/
def planLink (g : Graph) (name : String) (source target : CanonicalPath)
    (properties : Properties) : Except RegistryError (VertexId × VertexId) := do
  if name.isEmpty then throw (.misuse .unnamed)
  properties.checkNames relationFieldNames
  if source = target then throw (.misuse (.selfRelation source))
  source.checkTenant target
  let s ← g.require source
  let t ← g.require target
  if (g.findEdge? name s t).isSome then throw (.relationExists name source target)
  if name = WellKnown.contains.name then g.checkContainment source target s t
  return (s, t)

/-- The edge of a relationship that is to be taken back, if it may be. -/
def planUnlink (g : Graph) (name : String) (source target : CanonicalPath) :
    Except RegistryError EdgeId :=
  let edge := do
    let s ← g.locate? source
    let t ← g.locate? target
    g.findEdge? name s t
  match edge with
  | none => .error (.relationNotFound name source target)
  | some e =>
    if name = WellKnown.contains.name then .error (.misuse (.cannotDetach source target))
    else .ok e

/-- A relationship and the properties that its new set of properties does not have. -/
def planRelationUpdate (g : Graph) (id : String) (properties : Properties) :
    Except RegistryError (EdgeId × List String) := do
  properties.checkNames relationFieldNames
  let (e, edge) ← g.requireRelation id
  return (e, droppedNames edge.properties properties)

/-- The edge of a relationship that is to be deleted by its id, if it may be. -/
def planRelationRemoval (g : Graph) (id : String) : Except RegistryError EdgeId := do
  let (e, edge) ← g.requireRelation id
  if edge.label = WellKnown.contains.name then throw (.misuse (.isContainment id))
  return e

/-- The relationship with an id. -/
def relation (g : Graph) (id : String) : Except RegistryError Relationship := do
  let (e, edge) ← g.requireRelation id
  g.readRelationship e edge

end Graph

namespace Edit

/-- Reads a relationship back. -/
def readBack (e : EdgeId) (id : String) : Edit Relationship :=
  check fun g =>
    match g.edge? e with
    | some edge => g.readRelationship e edge
    | none => .error (.relationIdNotFound id)

/-- Relates one entity to another. -/
def link (name : String) (source target : CanonicalPath) (properties : Properties) :
    Edit Relationship := do
  let (s, t) ← check (·.planLink name source target properties)
  let e ← addRelation name s t properties
  readBack e ("e" ++ toString e)

/-- Takes a relationship back. -/
def unlink (name : String) (source target : CanonicalPath) : Edit Unit := do
  mutate (.removeEdge (← check (·.planUnlink name source target)))

/-- Replaces the user's properties of a relationship. -/
def updateRelation (id : String) (properties : Properties) : Edit Relationship := do
  let (e, dropped) ← check (·.planRelationUpdate id properties)
  dropped.forM fun key => discard <| mutate (.removeEdgeProperty e key)
  properties.toList.forM fun (key, value) => mutate (.setEdgeProperty e key value)
  readBack e id

/-- Deletes a relationship by its id. -/
def deleteRelation (id : String) : Edit Unit := do
  mutate (.removeEdge (← check (·.planRelationRemoval id)))

end Edit

end Estate
