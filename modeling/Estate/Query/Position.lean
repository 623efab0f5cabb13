import Estate.Graph.Basic

/-!
# Where a query stands

A query starts at no place in particular; the first fragment that narrows it leaves a set of
vertices and edges.  Such sets are joined, compared and listed; vertices come before edges.
-/

namespace Estate

/-- A set of vertices and edges. -/
structure Reach where
  vertices : IdSet := ∅
  edges : IdSet := ∅
  deriving DecidableEq

namespace Reach

/-- Vertices as a set of elements. -/
def ofVertices (ids : List VertexId) : Reach where
  vertices := .ofList ids

/-- Edges as a set of elements. -/
def ofEdges (ids : List EdgeId) : Reach where
  edges := .ofList ids

/-- A list of elements as a set. -/
def ofList (elements : List Element) : Reach where
  vertices := .ofList <| elements.filterMap fun
    | .vertex id => some id
    | .edge _ => none
  edges := .ofList <| elements.filterMap fun
    | .edge id => some id
    | .vertex _ => none

/-- The elements of either set. -/
def union (r s : Reach) : Reach :=
  ⟨r.vertices ∪ s.vertices, r.edges ∪ s.edges⟩

/-- The elements of the first set that are not in the second. -/
def diff (r s : Reach) : Reach :=
  ⟨r.vertices \ s.vertices, r.edges \ s.edges⟩

/-- The elements that pass a test. -/
def filter (keep : Element → Bool) (r : Reach) : Reach :=
  ⟨r.vertices.filter fun v => keep (.vertex v), r.edges.filter fun e => keep (.edge e)⟩

/-- Whether there are no elements. -/
def isEmpty (r : Reach) : Bool :=
  r.vertices.isEmpty && r.edges.isEmpty

/-- The elements in order, vertices before edges. -/
def toList (r : Reach) : List Element :=
  r.vertices.toList.map Element.vertex ++ r.edges.toList.map Element.edge

instance : Membership Element Reach where
  mem r
    | .vertex v => v ∈ r.vertices
    | .edge e => e ∈ r.edges

end Reach

/-- Where a query stands. -/
inductive Position
  /-- Nothing has narrowed the query yet. -/
  | everywhere
  | among (reach : Reach)
  deriving DecidableEq

namespace Position

/-- At either of two positions. -/
def union : Position → Position → Position
  | among r, among s => among (r.union s)
  | _, _ => everywhere

/-- The elements at a position.  Before anything has narrowed a query, these are all vertices. -/
def reach (g : Graph) : Position → Reach
  | everywhere => .ofVertices g.vertices.keys
  | among r => r

end Position

end Estate
