import Estate.Graph.Basic

/-!
# The shared graph and its transactions

A transaction works on the graph as it was when it began.  Committing it puts its graph in the place
of the shared one, **unless another transaction that changed something has done so in the
meantime**: the store counts such commits, and a transaction remembers the count that it began at.
A transaction that has called no mutation has nothing to put in place and always commits.
-/

namespace Estate

/-- The shared graph, and the number of commits that changed it. -/
structure Store where
  version : Nat := 0
  graph : Graph

/-- A graph of one's own to work on. -/
structure Transaction where
  /-- The version of the shared graph that the work began from. -/
  base : Nat
  graph : Graph
  /-- Whether a mutation has been called, successful or not. -/
  dirty : Bool := false

namespace Store

/-- A store without vertices whose indexes cover these keys. -/
def empty (vertexKeys edgeKeys : List String) : Store :=
  ⟨0, .empty vertexKeys edgeKeys⟩

/-- Begins a transaction. -/
def begin (s : Store) : Transaction :=
  ⟨s.version, s.graph, false⟩

/-- Puts the graph of a transaction in the place of the shared one. -/
def commit (s : Store) (t : Transaction) : Except GraphError Store :=
  if t.dirty then
    if s.version = t.base then .ok ⟨t.base + 1, t.graph⟩ else .error .conflict
  else .ok s

end Store

namespace Transaction

/-- Calls a mutation.  A refused one leaves the graph as it was. -/
def mutate {α : Type} (t : Transaction) (m : Mutation α) : Except GraphError α × Transaction :=
  match m.run t.graph with
  | .ok (a, g) => (.ok a, { t with graph := g, dirty := true })
  | .error e => (.error e, { t with dirty := true })

end Transaction

end Estate
