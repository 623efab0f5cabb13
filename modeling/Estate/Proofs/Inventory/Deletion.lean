import Estate.Proofs.Inventory.Bulk
import Estate.Proofs.Registry.Removal

/-!
# Deleting entities from an inventory

Whether a deletion goes through, what it removes and what it answers is said here on paths and on
what is stored, for every state of an inventory.

* `Inventory.Deletes` — what deleting the entity at a path does.
* **`Inventory.deletions_take_subtrees`** — this is what it does in every state.
-/

namespace Estate

open Layout

namespace Inventory

/-- What the shared graph stores. -/
def stored (i : Inventory) : Contents :=
  i.store.graph.contents

/-- Why a deletion is refused. -/
inductive Undeletable (i : Inventory) (p : CanonicalPath) : ServiceError → Prop
  | busy (opened : i.bulk.isSome) : i.Undeletable p .busy
  | missing (none : ∀ v, ¬ i.stored.EntityAt v p) : i.Undeletable p (.refused (.notFound p))
  | blocked {definer defined : CanonicalPath} (entity : ∃ v, i.stored.EntityAt v p)
      (blocks : i.stored.Blocks p definer defined) :
      i.Undeletable p (.refused (.badState definer (.definesSurvivor defined p)))

/-- **What deleting the entity at a path does.** -/
structure Deletes (i : Inventory) (p : CanonicalPath) : Prop where
  /-- Unless a bulk is open, the deletion goes through exactly if there is an entity at the path and
  nothing below it defines what would stay. -/
  succeeds_iff : (∃ paths j, Service.delete p i = .ok paths j) ↔ i.bulk = none ∧
    (∃ v, i.stored.EntityAt v p) ∧ ∀ definer defined, ¬ i.stored.Blocks p definer defined
  /-- Then nothing but the shared graph is changed, and of it only what lies under the path. -/
  removes : ∀ paths j, Service.delete p i = .ok paths j →
    (∃ g, j = { i with store := ⟨i.store.version + 1, g⟩ }) ∧ i.stored.Removes p j.stored paths
  /-- Otherwise nothing is changed at all, and the refusal says why. -/
  refused : ∀ err j, Service.delete p i = .error err j → j = i ∧ i.Undeletable p err

variable {i : Inventory} {p : CanonicalPath}

/-- A transaction that has changed something is committed if it began from the shared graph. -/
lemma commit_of_dirty {s : Store} {t : Transaction} (hbase : t.base = s.version)
    (hdirty : t.dirty) : s.commit t = .ok ⟨s.version + 1, t.graph⟩ := by
  rw [Store.commit, if_pos hdirty, if_pos hbase.symm, hbase]

lemma delete_ok (hi : i.Consistent) (hfree : i.bulk = none) (hentity : ∃ v, i.stored.EntityAt v p)
    (hunblocked : ∀ definer defined, ¬ i.stored.Blocks p definer defined) :
    ∃ paths g, Service.delete p i = .ok paths { i with store := ⟨i.store.version + 1, g⟩ } ∧
      i.stored.Removes p g.contents paths := by
  obtain ⟨hwf, hsound⟩ := hi _ .committed
  obtain ⟨paths, ⟨t, s⟩, hrun, hremoves, rfl, hbase, hdirty⟩ :=
    Edit.delete_removes (d := ⟨i.store.begin, i.supply⟩) ⟨hwf, hsound⟩ hentity hunblocked
  refine ⟨paths, t.graph, ?_, hremoves⟩
  have hcommit := commit_of_dirty hbase hdirty
  simp only [Service.delete, Service.transact, hfree, Edit.runIn, hrun, hcommit]

/-- A refusal says why there is no success. -/
lemma Undeletable.not_deletable {err : ServiceError} (h : i.Undeletable p err) :
    ¬ (i.bulk = none ∧ (∃ v, i.stored.EntityAt v p) ∧
      ∀ definer defined, ¬ i.stored.Blocks p definer defined) := by
  rintro ⟨hfree, ⟨v, hv⟩, hunblocked⟩
  cases h with
  | busy opened =>
      rw [hfree] at opened
      cases opened
  | missing none => exact none v hv
  | blocked entity blocks => exact hunblocked _ _ blocks

lemma Deletes.of_error {err : ServiceError} (hrun : Service.delete p i = .error err i)
    (h : i.Undeletable p err) : i.Deletes p where
  succeeds_iff := by
    rw [hrun]
    exact ⟨nofun, fun hdeletable => absurd hdeletable h.not_deletable⟩
  removes := by
    rw [hrun]
    exact nofun
  refused := by
    rw [hrun]
    rintro _ _ ⟨⟩
    exact ⟨rfl, h⟩

lemma Deletes.of_ok {paths : List CanonicalPath} {j : Inventory}
    (hrun : Service.delete p i = .ok paths j)
    (hdeletable : i.bulk = none ∧ (∃ v, i.stored.EntityAt v p) ∧
      ∀ definer defined, ¬ i.stored.Blocks p definer defined)
    (hj : ∃ g, j = { i with store := ⟨i.store.version + 1, g⟩ })
    (hremoves : i.stored.Removes p j.stored paths) : i.Deletes p where
  succeeds_iff := ⟨fun _ => hdeletable, fun _ => ⟨paths, j, hrun⟩⟩
  removes := by
    rw [hrun]
    rintro _ _ ⟨⟩
    exact ⟨hj, hremoves⟩
  refused := by
    rw [hrun]
    rintro _ _ ⟨⟩

/-- **In a consistent inventory deletions take subtrees.** -/
theorem Consistent.deletes (hi : i.Consistent) (p : CanonicalPath) : i.Deletes p := by
  obtain ⟨hwf, hsound⟩ := hi _ .committed
  have hd : Draft.Consistent ⟨i.store.begin, i.supply⟩ := ⟨hwf, hsound⟩
  cases hbulk : i.bulk with
  | some b =>
      have opened : i.bulk.isSome := by rw [hbulk, Option.isSome_some]
      exact .of_error (transact_busy (Option.isSome_iff_ne_none.1 opened)) (.busy opened)
  | none =>
      by_cases hentity : ∃ v, i.stored.EntityAt v p
      · by_cases hblocked : ∃ definer defined, i.stored.Blocks p definer defined
        · obtain ⟨definer, defined, hblocks, hrun⟩ := Edit.delete_blocked hd hentity hblocked
          exact .of_error (transact_error hbulk hrun) (.blocked hentity hblocks)
        · have hunblocked : ∀ definer defined, ¬ i.stored.Blocks p definer defined :=
            fun definer defined h => hblocked ⟨definer, defined, h⟩
          obtain ⟨paths, g, hrun, hremoves⟩ := delete_ok hi hbulk hentity hunblocked
          exact .of_ok hrun ⟨hbulk, hentity, hunblocked⟩ ⟨g, rfl⟩ hremoves
      · have hmissing := not_exists.1 hentity
        exact .of_error (transact_error hbulk (Edit.delete_missing hd hmissing)) (.missing hmissing)

/-- **Deletions take what lies under a path** and nothing else, in every state that requests lead
to. -/
theorem deletions_take_subtrees (config : Config) (supply : Supply) (requests : List Request)
    (p : CanonicalPath) : ((empty config supply).run requests).Deletes p :=
  (run_empty_consistent config supply requests).deletes p

/-- A type in a feed defines an environment: the type can be deleted, but not the feed. -/
example :
    let tenant : CanonicalPath := ⟨[⟨.tenant, "acme"⟩], by decide⟩
    let feed : CanonicalPath := ⟨[⟨.tenant, "acme"⟩, ⟨.feed, "f"⟩], by decide⟩
    let type : CanonicalPath :=
      ⟨[⟨.tenant, "acme"⟩, ⟨.feed, "f"⟩, ⟨.resourceType, "rt"⟩], by decide⟩
    let prod : CanonicalPath := ⟨[⟨.tenant, "acme"⟩, ⟨.environment, "prod"⟩], by decide⟩
    let i := (empty .usual .counting).run [.create none ⟨"acme", none, ∅, .tenant⟩,
      .create (some tenant) ⟨"f", none, ∅, .feed⟩,
      .create (some tenant) ⟨"prod", none, ∅, .environment⟩,
      .create (some feed) ⟨"rt", none, ∅, .resourceType []⟩, .link "defines" type prod ∅]
    let sizes := fun j : Inventory => (j.store.graph.vertices.size, j.store.graph.edges.size)
    sizes i = (4, 4) ∧ sizes (i.run [.delete feed]) = (4, 4) ∧
      sizes (i.run [.delete type]) = (3, 2) ∧
      sizes (i.run [.delete type, .delete feed]) = (2, 1) := by
  decide +kernel

end Inventory

end Estate
