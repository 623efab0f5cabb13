import Estate.Proofs.Inventory.Run
import Estate.Proofs.Registry.Supply

/-!
# Relationships in an inventory

Relationships come from the creation of entities, which contain one another and refer to one
another, and from links by any name.  They go when they are taken back and when one of their
entities goes.  In every state they join different entities of one tenant, no two have the same name
and ends, and, if the ids that are drawn do not repeat themselves, no two have the same id.

* `Contents.Joined` — what holds of the edges.
* **`Inventory.relationships_are_joined`** — it holds in every state.
-/

namespace Estate

open Layout

/-- **Every edge joins two different entities of one tenant**, under an id of its own, and once for
each name. -/
structure Contents.Joined (c : Contents) : Prop where
  ends : ∀ e edge, c.edge e = some edge → ∃ p q, c.EntityAt edge.source p ∧
    c.EntityAt edge.target q ∧ edge.source ≠ edge.target ∧ p ≠ q ∧ p.root = q.root
  id : ∀ e edge, c.edge e = some edge → ∃ id, edge.properties[idKey]? = some (.string id) ∧
    ∀ e' edge', c.edge e' = some edge' → edge'.properties[idKey]? = some (.string id) → e' = e
  once : ∀ e e' a b, c.edge e = some a → c.edge e' = some b → a.label = b.label →
    a.source = b.source → a.target = b.target → e = e'

lemma Contents.Sound.joined {c : Contents} {s : Supply} (h : c.Sound) (hi : c.Identified s) :
    c.Joined where
  ends := fun e edge he => by
    obtain ⟨p, q, hp, hq, hne, htenant⟩ := h.ends he
    refine ⟨p, q, hp, hq, hne, ?_, hp.legal.root_eq hq.legal htenant⟩
    rintro rfl
    exact hne (h.unique hp hq)
  id := fun e edge he => by
    obtain ⟨n, -, hid⟩ := hi.drawn he
    exact ⟨s.name n, hid, fun e' edge' he' hid' => hi.once he' he (hid'.trans hid.symm)⟩
  once := fun e e' a b => h.once

namespace Inventory

/-- **Relationships join different entities of one tenant**, each under an id of its own, in every
state that requests lead to. -/
theorem relationships_are_joined {supply : Supply} (fresh : Function.Injective supply.name)
    (config : Config) (requests : List Request) :
    ((empty config supply).run requests).Everywhere fun g => g.contents.Joined := by
  intro g hg
  have hsound := (run_empty_consistent config supply requests g hg).2
  have hchanges := (run_empty_from config supply requests g hg).2
  exact hsound.joined (hchanges.identified fresh (Contents.identified_nothing supply))

/-- A tenant, an environment in it, and a relationship from the one to the other. -/
def watchedEnvironment : List Request :=
  let tenant : CanonicalPath := ⟨[⟨.tenant, "acme"⟩], by decide⟩
  let environment : CanonicalPath := ⟨[⟨.tenant, "acme"⟩, ⟨.environment, "prod"⟩], by decide⟩
  [.create none ⟨"acme", none, ∅, .tenant⟩,
    .create (some tenant) ⟨"prod", none, ∅, .environment⟩,
    .link "watches" tenant environment ∅]

/-- Two edges are left, each under an id of its own. -/
theorem watchedEnvironment_joined :
    Function.Injective Supply.counting.name ∧
      ((empty .usual .counting).run watchedEnvironment).store.graph.edges.size = 2 ∧
      ((empty .usual .counting).run watchedEnvironment).Everywhere fun g => g.contents.Joined :=
  ⟨Supply.counting_injective, by decide +kernel,
    relationships_are_joined Supply.counting_injective .usual watchedEnvironment⟩

end Inventory

end Estate
