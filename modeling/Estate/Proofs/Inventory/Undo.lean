import Estate.Proofs.Inventory.Bulk
import Estate.Proofs.Registry.Supply
import Estate.Proofs.Registry.Undo

/-!
# Undoing in an inventory

Whatever has gone before, a creation can be taken back by a deletion and a link by unlinking or by
the id of the relationship.  Each of these is an operation of its own with a transaction of its own,
and after the two nothing but the numbers and ids that have been used up tells that there was
anything.

* `Service.UndoneBy` — one operation takes back what another has done.
* `Service.transact_undoneBy` — edits that undo one another do so in transactions of their own.
* `Inventory.Undoes` — what is undone by what.
* **`Inventory.operations_are_undone`** — it is so in every state.
-/

namespace Estate

open Layout Work

namespace Service

open Inventory

variable {α β : Type}

/-- **An operation is undone by another**: wherever it is carried out, the other can be carried out
next, with the answer that is expected, and then the shared graph looks as it did before. -/
def UndoneBy (x : Service α) (back : α → Service β) (answer : α → β) (i : Inventory) : Prop :=
  ∀ a j, x i = .ok a j →
    ∃ k, back a j = .ok (answer a) k ∧ i.store.graph.LooksLike k.store.graph

/-- What one transaction has done, another one undoes if its edit does. -/
lemma transact_undoneBy {e : Edit α} {back : α → Edit β} {answer : α → β} {i : Inventory}
    (he : e.Blind) (hback : ∀ a, (back a).Blind)
    (h : e.UndoneBy back answer ⟨i.store.begin, i.supply⟩) :
    (transact e).UndoneBy (fun a => transact (back a)) answer i := by
  intro a j hrun
  obtain ⟨-, free, d, hedit, hgraph⟩ := edit_of_transact he hrun
  obtain ⟨d₂, hundo, hlooks⟩ := h a d hedit ⟨j.store.begin, j.supply⟩ hgraph
  obtain ⟨store, hok, hstore⟩ := transact_ok (hback a) free hundo
  exact ⟨_, hok, hstore ▸ hlooks⟩

end Service

namespace Inventory

/-- **What is undone by what**: a creation by the deletion of what it has created, and a link by
unlinking the same ends and, if ids do not repeat themselves, by deleting the relationship with the
id that it has answered. -/
structure Undoes (i : Inventory) : Prop where
  create : ∀ parent b, (Service.create parent b).UndoneBy Service.delete (fun p => [p]) i
  link : ∀ name source target properties, (Service.link name source target properties).UndoneBy
    (fun _ => Service.unlink name source target) (fun _ => ()) i
  linkById : Function.Injective i.supply.name → ∀ name source target properties,
    (Service.link name source target properties).UndoneBy
      (fun r => Service.deleteRelation r.id) (fun _ => ()) i

variable {i : Inventory}

/-- What is undone in a transaction is undone from one transaction to the next. -/
lemma undoes_of_draft (h : Draft.Undoes ⟨i.store.begin, i.supply⟩) : i.Undoes where
  create parent b := Service.transact_undoneBy (Edit.create_composed parent b).blind
    (fun p => (Edit.delete_composed p).blind) (h.create parent b)
  link name source target properties :=
    Service.transact_undoneBy (Edit.link_composed name source target properties).blind
      (fun _ => (Edit.unlink_composed name source target).blind)
      (h.link name source target properties)
  linkById fresh name source target properties :=
    Service.transact_undoneBy (Edit.link_composed name source target properties).blind
      (fun r => (Edit.deleteRelation_composed r.id).blind)
      (h.linkById fresh name source target properties)

/-- **Creations and links are undone**, in every state that requests lead to: by operations of their
own, and in any transaction on a graph that can be looked at. -/
theorem operations_are_undone (config : Config) (supply : Supply) (requests : List Request) :
    ((empty config supply).run requests).Undoes ∧
      ∀ g, ((empty config supply).run requests).Shows g → ∀ base dirty,
        Draft.Undoes ⟨⟨base, g, dirty⟩, ((empty config supply).run requests).supply⟩ := by
  have hdrafts : ∀ g, ((empty config supply).run requests).Shows g → ∀ base dirty,
      Draft.Undoes ⟨⟨base, g, dirty⟩, ((empty config supply).run requests).supply⟩ := by
    intro g hg base dirty
    obtain ⟨hwf, hsound⟩ := run_empty_consistent config supply requests g hg
    have hchanges := (run_empty_from config supply requests g hg).2
    refine Draft.Consistent.undoes ⟨hwf, hsound⟩ fun fresh => ?_
    exact hchanges.identified (hchanges.supply.1 ▸ fresh) (Contents.identified_nothing supply)
  exact ⟨undoes_of_draft (hdrafts _ .committed _ _), hdrafts⟩

/-- A tenant with an environment and a resource type. -/
def typedTenant : List Request :=
  [.create none ⟨"acme", none, ∅, .tenant⟩,
    .create (some (.tenant "acme")) ⟨"live", none, ∅, .environment⟩,
    .create (some (.tenant "acme")) ⟨"machine", none, ∅, .resourceType []⟩]

/-- A resource that its type defines comes and goes, and so does a relationship with the type. -/
theorem typedTenant_undoes :
    let i := (empty .usual .counting).run typedTenant
    let live : CanonicalPath := ⟨[⟨.tenant, "acme"⟩, ⟨.environment, "live"⟩], by decide⟩
    let machine : CanonicalPath := ⟨[⟨.tenant, "acme"⟩, ⟨.resourceType, "machine"⟩], by decide⟩
    let host : CanonicalPath :=
      ⟨[⟨.tenant, "acme"⟩, ⟨.environment, "live"⟩, ⟨.resource, "host"⟩], by decide⟩
    (∃ j, Service.create (some live) ⟨"host", none, ∅, .resource "/t;acme/rt;machine"⟩ i =
        .ok host j ∧
      ∃ k, Service.delete host j = .ok [host] k ∧ i.store.graph.LooksLike k.store.graph) ∧
    ∃ r j, Service.link "uses" live machine ∅ i = .ok r j ∧
      (∃ k, Service.unlink "uses" live machine j = .ok () k ∧
        i.store.graph.LooksLike k.store.graph) ∧
      ∃ k, Service.deleteRelation r.id j = .ok () k ∧
        i.store.graph.LooksLike k.store.graph := by
  intro i live machine host
  obtain ⟨hundoes, -⟩ := operations_are_undone .usual .counting typedTenant
  have hname : i.supply.name = Supply.counting.name :=
    (run_empty_from .usual .counting typedTenant _ .committed).2.supply.1
  obtain ⟨j, hcreate⟩ := ok_of_run (a := host) (s := i)
    (x := Service.create (some live) ⟨"host", none, ∅, .resource "/t;acme/rt;machine"⟩)
    (by decide +kernel)
  obtain ⟨r, hanswer⟩ := Option.isSome_iff_exists.1
    (show ((Service.link "uses" live machine ∅).run' i).isSome by decide +kernel)
  obtain ⟨j', hlink⟩ := ok_of_run hanswer
  refine ⟨⟨j, hcreate, hundoes.create _ _ _ _ hcreate⟩, r, j', hlink, ?_, ?_⟩
  · exact hundoes.link _ _ _ _ _ _ hlink
  · exact hundoes.linkById (hname ▸ Supply.counting_injective) _ _ _ _ _ _ hlink

end Inventory

end Estate
