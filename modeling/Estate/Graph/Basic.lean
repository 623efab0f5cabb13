import Estate.Graph.Index
import Estate.Kind

/-!
# Graphs

A graph holds its vertices and edges, for every vertex the edges that leave and enter it, and an
index of each.  The last four say again, in another order, what the first two say; every operation
keeps them in step.

* `Graph.verticesBy`, `Graph.edgesBy` — the elements with a value for a key, from the index if it
  covers the key and by a scan otherwise.
* `Graph.edgesOf` — the edges at a vertex.
* `Mutation` — the operations that change a graph, and `Mutation.run`, what they do.  An operation
  that is refused changes nothing.
-/

namespace Estate

/-- A property graph. -/
structure Graph where
  counter : Nat := 0
  vertices : Std.ExtTreeMap VertexId Properties compare := ∅
  edges : Std.ExtTreeMap EdgeId Edge compare := ∅
  outgoing : Std.ExtTreeMap VertexId IdSet compare := ∅
  incoming : Std.ExtTreeMap VertexId IdSet compare := ∅
  vertexIndex : Index
  edgeIndex : Index

namespace Graph

/-- The graph without vertices whose indexes cover these keys. -/
def empty (vertexKeys edgeKeys : List String) : Graph where
  vertexIndex := .ofKeys vertexKeys
  edgeIndex := .ofKeys edgeKeys

/-! ## Reading -/

/-- The properties of a vertex. -/
def vertex? (g : Graph) (id : VertexId) : Option Properties :=
  g.vertices[id]?

/-- The edge of a number. -/
def edge? (g : Graph) (id : EdgeId) : Option Edge :=
  g.edges[id]?

/-- The vertices whose property has a value, in order. -/
def verticesBy (g : Graph) (key : String) (value : Json) : List VertexId :=
  match g.vertexIndex.lookup? key value with
  | some ids => ids.toList
  | none => (g.vertices.filter fun _ properties => properties[key]? == some value).keys

/-- The edges whose property has a value, in order. -/
def edgesBy (g : Graph) (key : String) (value : Json) : List EdgeId :=
  match g.edgeIndex.lookup? key value with
  | some ids => ids.toList
  | none => (g.edges.filter fun _ edge => edge.properties[key]? == some value).keys

/-- The edges at a vertex in a direction, in order. -/
def incident (g : Graph) (v : VertexId) : Direction → IdSet
  | .outgoing => g.outgoing.getD v ∅
  | .incoming => g.incoming.getD v ∅
  | .both => g.outgoing.getD v ∅ ∪ g.incoming.getD v ∅

/-- The edges at a vertex in a direction, of one label if it is given, in order. -/
def edgesOf (g : Graph) (v : VertexId) (direction : Direction) (label : Option String) :
    List EdgeId :=
  (g.incident v direction).toList.filter fun id =>
    label.all fun label => (g.edge? id).any fun edge => edge.label == label

/-! ## Vertices -/

/-- Adds a vertex. -/
def addVertex (g : Graph) (properties : Properties) : VertexId × Graph :=
  let id := g.counter + 1
  (id, { g with
    counter := id
    vertices := g.vertices.insert id properties
    vertexIndex := g.vertexIndex.addAll id properties })

/-- Gives a vertex a property in place of an old one. -/
def setVertexProperty (g : Graph) (id : VertexId) (key : String) (value : Json) :
    Except GraphError Graph :=
  match g.vertex? id with
  | none => .error (.noVertex id)
  | some properties => .ok { g with
      vertices := g.vertices.insert id (properties.insert key value)
      vertexIndex := g.vertexIndex.replace id key properties[key]? value }

/-- Takes a property from a vertex and returns it. -/
def removeVertexProperty (g : Graph) (id : VertexId) (key : String) :
    Except GraphError (Option Json × Graph) :=
  match g.vertex? id with
  | none => .error (.noVertex id)
  | some properties =>
    match properties[key]? with
    | none => .ok (none, g)
    | some old => .ok (some old, { g with
        vertices := g.vertices.insert id (properties.erase key)
        vertexIndex := g.vertexIndex.remove id key old })

/-! ## Edges -/

/-- Notes an edge at one of its ends. -/
def attach (ends : Std.ExtTreeMap VertexId IdSet compare) (v : VertexId) (e : EdgeId) :
    Std.ExtTreeMap VertexId IdSet compare :=
  ends.insert v ((ends.getD v ∅).insert e)

/-- Forgets an edge at one of its ends. -/
def detach (ends : Std.ExtTreeMap VertexId IdSet compare) (v : VertexId) (e : EdgeId) :
    Std.ExtTreeMap VertexId IdSet compare :=
  ends.modify v (·.erase e)

/-- Adds an edge between two vertices. -/
def addEdge (g : Graph) (label : String) (source target : VertexId) (properties : Properties) :
    Except GraphError (EdgeId × Graph) :=
  if source ∉ g.vertices then .error (.noVertex source)
  else if target ∉ g.vertices then .error (.noVertex target)
  else
    let id := g.counter + 1
    .ok (id, { g with
      counter := id
      edges := g.edges.insert id ⟨label, source, target, properties⟩
      outgoing := attach g.outgoing source id
      incoming := attach g.incoming target id
      edgeIndex := g.edgeIndex.addAll id properties })

/-- Gives an edge a property in place of an old one. -/
def setEdgeProperty (g : Graph) (id : EdgeId) (key : String) (value : Json) :
    Except GraphError Graph :=
  match g.edge? id with
  | none => .error (.noEdge id)
  | some edge => .ok { g with
      edges := g.edges.insert id { edge with properties := edge.properties.insert key value }
      edgeIndex := g.edgeIndex.replace id key edge.properties[key]? value }

/-- Takes a property from an edge and returns it. -/
def removeEdgeProperty (g : Graph) (id : EdgeId) (key : String) :
    Except GraphError (Option Json × Graph) :=
  match g.edge? id with
  | none => .error (.noEdge id)
  | some edge =>
    match edge.properties[key]? with
    | none => .ok (none, g)
    | some old => .ok (some old, { g with
        edges := g.edges.insert id { edge with properties := edge.properties.erase key }
        edgeIndex := g.edgeIndex.remove id key old })

/-- The graph without an edge. -/
def dropEdge (g : Graph) (id : EdgeId) : Graph :=
  match g.edge? id with
  | none => g
  | some edge => { g with
      edges := g.edges.erase id
      outgoing := detach g.outgoing edge.source id
      incoming := detach g.incoming edge.target id
      edgeIndex := g.edgeIndex.removeAll id edge.properties }

/-- Removes an edge. -/
def removeEdge (g : Graph) (id : EdgeId) : Except GraphError Graph :=
  if id ∈ g.edges then .ok (g.dropEdge id) else .error (.noEdge id)

/-- Removes a vertex together with the edges at it. -/
def removeVertex (g : Graph) (id : VertexId) : Except GraphError Graph :=
  match g.vertex? id with
  | none => .error (.noVertex id)
  | some properties =>
    let bare : Graph := { g with
      vertices := g.vertices.erase id
      outgoing := g.outgoing.erase id
      incoming := g.incoming.erase id
      vertexIndex := g.vertexIndex.removeAll id properties }
    .ok ((g.incident id .both).toList.foldl dropEdge bare)

end Graph

/-! ## Mutations -/

/-- The operations that change a graph, with the type of what each returns. -/
inductive Mutation : Type → Type 1
  | addVertex (properties : Properties) : Mutation VertexId
  | setVertexProperty (id : VertexId) (key : String) (value : Json) : Mutation Unit
  | removeVertexProperty (id : VertexId) (key : String) : Mutation (Option Json)
  | removeVertex (id : VertexId) : Mutation Unit
  | addEdge (label : String) (source target : VertexId) (properties : Properties) :
      Mutation EdgeId
  | setEdgeProperty (id : EdgeId) (key : String) (value : Json) : Mutation Unit
  | removeEdgeProperty (id : EdgeId) (key : String) : Mutation (Option Json)
  | removeEdge (id : EdgeId) : Mutation Unit

namespace Mutation

/-- What an operation returns, and the graph that it leaves. -/
def run {α : Type} (m : Mutation α) (g : Graph) : Except GraphError (α × Graph) :=
  match m with
  | addVertex properties => .ok (g.addVertex properties)
  | setVertexProperty id key value => (g.setVertexProperty id key value).map ((), ·)
  | removeVertexProperty id key => g.removeVertexProperty id key
  | removeVertex id => (g.removeVertex id).map ((), ·)
  | addEdge label source target properties => g.addEdge label source target properties
  | setEdgeProperty id key value => (g.setEdgeProperty id key value).map ((), ·)
  | removeEdgeProperty id key => g.removeEdgeProperty id key
  | removeEdge id => (g.removeEdge id).map ((), ·)

end Mutation

end Estate
