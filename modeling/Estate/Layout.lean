import Estate.Graph.Basic
import Estate.Path.Raw

/-!
# How entities and relationships lie in the graph

An entity is a vertex and a relationship is an edge.  Property names that start with two underscores
belong to the registry: they say where an entity is addressed (`typeKey`, `idKey`, `pathKey`) and
hold the fields of its kind.  The name of an entity is an ordinary property `name`, so that it can
be filtered for.  All other properties are the user's.

* `isReserved` — the property names that a user may not give.
* `userProperties`, `structuralProperties` — the two parts of a property map besides the address and
  the name.
-/

namespace Estate

namespace Layout

/-- The code of the kind of an entity. -/
def typeKey : String := "__type"

/-- The last id in the path of an entity, or the id of a relationship. -/
def idKey : String := "__eid"

/-- The path of an entity as text. -/
def pathKey : String := "__cp"

/-- The name of an entity. -/
def nameKey : String := "name"

/-- The unit of a metric type. -/
def unitKey : String := "__unit"

/-- The data type of a metric type. -/
def dataTypeKey : String := "__dataType"

/-- The seconds between two collections of a metric. -/
def intervalKey : String := "__collectionInterval"

/-- The role of a data entity. -/
def roleKey : String := "__role"

/-- The value of a data entity. -/
def valueKey : String := "__value"

/-- The keys that address an entity. -/
def addressing : List String :=
  [typeKey, idKey, pathKey]

/-- Whether a key belongs to the registry. -/
def isInternal (key : String) : Bool :=
  ['_', '_'].isPrefixOf key.toList

/-- Whether a user may not give a property this name.  The fields of a kind are reserved for it. -/
def isReserved (key : String) (fields : List String) : Bool :=
  isInternal key || ["id", "name", "path"].contains key || fields.contains key

/-- The user's part of a property map. -/
def userProperties (p : Properties) : Properties :=
  p.filter fun key _ => !isInternal key && key != nameKey

/-- The registry's part of a property map, without the address. -/
def structuralProperties (p : Properties) : Properties :=
  p.filter fun key _ => isInternal key && !addressing.contains key

/-- The kind of the entity at a vertex. -/
def kind? (vertex : Properties) : Option Kind := do
  Kind.ofCode? (← vertex.string? typeKey)

/-- The path of the entity at a vertex. -/
def path? (vertex : Properties) : Option CanonicalPath := do
  (CanonicalPath.parse (← vertex.string? pathKey)).toOption

/-- The id of the entity at a vertex. -/
def id? (vertex : Properties) : Option String :=
  vertex.string? idKey

/-- The id of the relationship at an edge. -/
def relationId? (edge : Edge) : Option String :=
  edge.properties.string? idKey

end Layout

namespace Graph

open Layout

/-- The vertex of the entity at a path. -/
def locate? (g : Graph) (p : CanonicalPath) : Option VertexId :=
  (g.verticesBy pathKey (.string p.text)).head?

/-- The edges of the relationship with an id. -/
def relationEdges (g : Graph) (id : String) : List EdgeId :=
  g.edgesBy idKey (.string id)

/-- The kind of the entity at a vertex. -/
def kindAt? (g : Graph) (v : VertexId) : Option Kind :=
  (g.vertex? v).bind kind?

/-- The path of the entity at a vertex. -/
def pathAt? (g : Graph) (v : VertexId) : Option CanonicalPath :=
  (g.vertex? v).bind path?

/-- The vertices that a vertex contains, in the order of the edges that contain them. -/
def childrenOf (g : Graph) (v : VertexId) : List VertexId :=
  (g.edgesOf v .outgoing (some WellKnown.contains.name)).filterMap fun e =>
    (g.edge? e).map (·.target)

/-- The vertices that contain a vertex, in the order of the edges by which they do. -/
def parentsOf (g : Graph) (v : VertexId) : List VertexId :=
  (g.edgesOf v .incoming (some WellKnown.contains.name)).filterMap fun e =>
    (g.edge? e).map (·.source)

end Graph

end Estate
