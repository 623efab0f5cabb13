import Estate.Layout

/-!
# Containment

What an entity contains, directly or not, and what contains it, are found by going from one to the
next in rounds.  A vertex is listed once, however many ways lead to it, and no vertex is listed
before all those that fewer steps lead to.

* `Graph.subtree` — an entity and everything that it contains, breadth first.
* `Graph.lineage` — an entity and everything that contains it.
-/

namespace Estate

namespace Graph

/-- Everything that one comes to from `level`, one round after the other.  What earlier rounds have
found is not listed again, and a round that finds nothing new is the last. -/
def explore (next : VertexId → List VertexId) :
    Nat → List VertexId → List VertexId → List VertexId
  | 0, found, level => found ++ level
  | rounds + 1, found, level =>
    let found := found ++ level
    match ((level.flatMap next).filter fun v => !found.contains v).eraseDups with
    | [] => found
    | fresh => explore next rounds found fresh

/-- An entity and everything that it contains, directly or not, breadth first. -/
def subtree (g : Graph) (v : VertexId) : List VertexId :=
  explore g.childrenOf g.vertices.size [] [v]

/-- An entity and everything that contains it, directly or not. -/
def lineage (g : Graph) (v : VertexId) : List VertexId :=
  explore g.parentsOf g.vertices.size [] [v]

end Graph

end Estate
