import Std.Data.ExtTreeMap
import Std.Data.ExtTreeSet
import Estate.Json.Text

/-!
# Vertices and edges

A graph is made of vertices and of labelled edges between them, both of which carry properties.
Vertices and edges are numbered from one counter, so that a number names a vertex or an edge but
never both.
-/

namespace Estate

/-- The number of a vertex, written `v7`. -/
abbrev VertexId := Nat

/-- The number of an edge, written `e7`. -/
abbrev EdgeId := Nat

/-- A set of vertex numbers or of edge numbers. -/
abbrev IdSet := Std.ExtTreeSet Nat compare

/-- Named values. -/
abbrev Properties := Std.ExtTreeMap String Json compare

/-- A vertex or an edge. -/
inductive Element
  | vertex (id : VertexId)
  | edge (id : EdgeId)
  deriving DecidableEq, Repr

/-- An edge from one vertex to another. -/
structure Edge where
  label : String
  source : VertexId
  target : VertexId
  properties : Properties

namespace Properties

/-- The text of a property that holds one. -/
def string? (p : Properties) (key : String) : Option String :=
  p[key]?.bind Json.string?

end Properties

namespace Edge

/-- The end of an edge that one comes to from `v`. -/
def otherEnd (e : Edge) (v : VertexId) : VertexId :=
  if e.source = v then e.target else e.source

end Edge

/-- The reasons for which a graph refuses an operation. -/
inductive GraphError
  /-- There is no vertex of this number. -/
  | noVertex (id : VertexId)
  /-- There is no edge of this number. -/
  | noEdge (id : EdgeId)
  /-- Another transaction has changed the graph. -/
  | conflict
  /-- The containment of a vertex goes round in a circle. -/
  | cyclic (id : VertexId)
  deriving DecidableEq, Repr

/-- The wording of a refusal. -/
def GraphError.message : GraphError → String
  | noVertex id => "vertex v" ++ toString id ++ " not found"
  | noEdge id => "edge e" ++ toString id ++ " not found"
  | conflict => "transaction conflict: the graph changed since this transaction began"
  | cyclic id => "the containment of vertex v" ++ toString id ++ " goes round in a circle"

end Estate
