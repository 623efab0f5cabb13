import Estate.Proofs.Inventory.Run
import Estate.Proofs.Registry.Operation

/-!
# Refused operations change nothing

Inside a transaction nothing is undone.  That a refused operation leaves the graph as it was
therefore means that it has not touched it: whatever is refused is refused by the plan, and once a
plan has been made, none of the mutations that carry it out can fail.  The latter rests on what is
true of all graphs that operations lead to, so it is shown for these.

* `Inventory.draft_consistent` — what operations lead to inside a transaction is consistent.
* **`Inventory.refusals_change_nothing`** — an operation is carried out if its plan can be made;
  otherwise it is refused for the reason the plan gives, and the draft is what it was.
-/

namespace Estate

namespace Inventory

/-- The draft of a transaction that has begun at the shared graph, after some operations. -/
def worked (i : Inventory) (ids : Supply) (ops : List Operation) : Draft :=
  Draft.after ⟨i.store.begin, ids⟩ ops

lemma draft_consistent (config : Config) (supply : Supply) (requests : List Request) (ids : Supply)
    (ops : List Operation) :
    (worked ((empty config supply).run requests) ids ops).Consistent := by
  obtain ⟨hwf, hsound⟩ := run_empty_consistent config supply requests _ .committed
  exact Draft.Consistent.after ops ⟨hwf, hsound⟩

/-- **Refused operations change nothing.**  In a transaction on any state that requests lead to,
after any operations, carried out or refused, the next operation is carried out if and only if
nothing speaks against it; if something does, this is what it answers, and it leaves the transaction
with all vertices, edges, properties, index entries and the counter, and the supply of ids, exactly
as they were. -/
theorem refusals_change_nothing (config : Config) (supply : Supply) (requests : List Request)
    (ids : Supply) (before : List Operation) (op : Operation) :
    let d := worked ((empty config supply).run requests) ids before
    match op.edit d with
    | .ok _ _ => op.validate d.transaction.graph = .ok ()
    | .error err d' => op.validate d.transaction.graph = .error err ∧ d' = d := by
  intro d
  rcases op.decided d (draft_consistent config supply requests ids before) with
    ⟨⟨⟩, b, d', hplan, hrun, -⟩ | ⟨err, hplan, hrun⟩
  · rw [hrun]
    exact hplan
  · rw [hrun]
    exact ⟨hplan, rfl⟩

/-- A containment that is to be closed to a circle is refused behind a creation in the same
transaction, which stays. -/
example :
    let tenant : CanonicalPath := ⟨[⟨.tenant, "acme"⟩], by decide⟩
    let environment : CanonicalPath := ⟨[⟨.tenant, "acme"⟩, ⟨.environment, "prod"⟩], by decide⟩
    let d := worked (empty .usual .counting) .counting
      [.create none ⟨"acme", none, ∅, .tenant⟩,
        .create (some tenant) ⟨"prod", none, ∅, .environment⟩,
        .link WellKnown.contains.name environment tenant ∅]
    (d.transaction.graph.vertices.size, d.transaction.graph.edges.size, d.supply.drawn) =
      (2, 1, 1) := by
  decide +kernel

end Inventory

end Estate
