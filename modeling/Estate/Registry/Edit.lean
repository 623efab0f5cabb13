import Estate.Graph.Store
import Estate.Registry.Error
import Estate.Registry.Supply

/-!
# Edits

An edit is a piece of work inside a transaction.  It may be refused halfway, and then what it has
done so far stays in the transaction: nothing is undone behind the scenes.  That a refused operation
leaves the graph as it was is therefore a fact about the operations, which check everything before
they change anything.

New relationships draw their ids from a supply that outlives transactions.
-/

namespace Estate

/-- What an edit works on. -/
structure Draft where
  transaction : Transaction
  supply : Supply

/-- A piece of work inside a transaction. -/
abbrev Edit := EStateM RegistryError Draft

namespace Edit

variable {α : Type}

/-- The graph as it stands. -/
def graph : Edit Graph := fun d =>
  .ok d.transaction.graph d

/-- Calls a mutation. -/
def mutate (m : Mutation α) : Edit α := fun d =>
  match d.transaction.mutate m with
  | (.ok a, t) => .ok a { d with transaction := t }
  | (.error e, t) => .error (.graph e) { d with transaction := t }

/-- Draws an id. -/
def freshId : Edit String := fun d =>
  let (id, supply) := d.supply.draw
  .ok id { d with supply }

/-- The result of a computation that changes nothing, on the graph as it stands. -/
def check (f : Graph → Except RegistryError α) : Edit α := fun d =>
  match f d.transaction.graph with
  | .ok a => .ok a d
  | .error e => .error e d

/-- What an edit returns in a transaction, and what it leaves of the transaction and the supply. -/
def runIn (e : Edit α) (t : Transaction) (s : Supply) :
    Except RegistryError α × Transaction × Supply :=
  match e ⟨t, s⟩ with
  | .ok a d => (.ok a, d.transaction, d.supply)
  | .error err d => (.error err, d.transaction, d.supply)

end Edit

end Estate
