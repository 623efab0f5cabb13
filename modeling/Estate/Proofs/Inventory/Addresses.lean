import Estate.Proofs.Inventory.Run

/-!
# Addresses in an inventory

The address of an entity lies among the properties of its vertex, next to what users give.  In every
state of an inventory each vertex has the address of one legal path, no two vertices have the same,
and a vertex keeps the address that it was created with.

* `Properties.Registers` — a property map addresses the entity of a path.
* **`Inventory.entities_are_addressed`** — so does every vertex in every state, for good.
-/

namespace Estate

open Layout

/-- **A property map addresses the entity of a path**, and the path is legal. -/
structure Properties.Registers (row : Properties) (p : CanonicalPath) : Prop where
  path : row[pathKey]? = some (.string p.text)
  parse : CanonicalPath.parse p.text = .ok p
  kind : row[typeKey]? = some (.string p.last.kind.code)
  entity : p.last.kind ≠ .relationship
  id : row[idKey]? = some (.string p.last.id)
  nonempty : p.segments ≠ []
  tenant : p.root.kind = .tenant
  steps : p.segments.IsChain fun above below => above.kind.canContain below.kind
  ids : ∀ s ∈ p.segments, s.id ≠ ""

/-- Every vertex is the entity of one path, and no path is stored twice. -/
structure Contents.Registered (c : Contents) : Prop where
  entity : ∀ v row, c.vertex v = some row → ∃! p, row.Registers p
  distinct : ∀ v w row row', c.vertex v = some row → c.vertex w = some row' →
    row[pathKey]? = row'[pathKey]? → v = w

namespace Contents

variable {c : Contents} {v : VertexId} {p : CanonicalPath} {row : Properties}

lemma EntityAt.registers (h : c.EntityAt v p) (hrow : c.vertex v = some row) :
    row.Registers p := by
  obtain ⟨hlegal, row', hrow', haddr⟩ := h
  obtain rfl := Option.some.inj (hrow.symm.trans hrow')
  exact
    { path := haddr.path
      parse := CanonicalPath.parse_text hlegal.toLegal
      kind := haddr.kind
      entity := hlegal.kind_ne
      id := haddr.id
      nonempty := p.ne_nil
      tenant := hlegal.tenant
      steps := hlegal.steps
      ids := hlegal.ids }

/-- Vertices with the same path text are the same. -/
theorem Sound.registered (h : c.Sound) : c.Registered where
  entity := fun v row hrow => by
    obtain ⟨p, hp⟩ := h.entity hrow
    refine ⟨p, hp.registers hrow, fun q hq => ?_⟩
    have htext := hq.path.symm.trans (hp.registers hrow).path
    rw [Option.some.injEq, Json.string.injEq] at htext
    exact CanonicalPath.text_injective htext
  distinct := fun v w row row' hrow hrow' hsame => by
    obtain ⟨p, hp⟩ := h.entity hrow
    obtain ⟨q, hq⟩ := h.entity hrow'
    rw [(hp.registers hrow).path, (hq.registers hrow').path, Option.some.injEq,
      Json.string.injEq] at hsame
    obtain rfl := CanonicalPath.text_injective hsame
    exact h.unique hp hq

end Contents

namespace Inventory

/-- What addresses are in an inventory. -/
structure AddressesEntities (i : Inventory) : Prop where
  /-- Every vertex of the shared graph and of that of an open bulk has an address of its own. -/
  registered : i.Everywhere fun g => g.contents.Registered
  /-- No request changes an address in the graph that it works on, unless the work of a bulk is
  forgotten and the shared graph is back. -/
  kept : ∀ r : Request,
    i.current.contents.KeepsAddresses (r.leaves i).current.contents ∨
      (r.leaves i).current = i.store.graph
  /-- What has been shared is never addressed otherwise. -/
  lasting : ∀ requests, (i.run requests).Everywhere fun g =>
    i.store.graph.contents.KeepsAddresses g.contents

/-- **Every entity has an address of its own**, and keeps it, in every state that requests lead
to. -/
theorem entities_are_addressed (config : Config) (supply : Supply) (requests : List Request) :
    ((empty config supply).run requests).AddressesEntities where
  registered := fun g hg => (run_empty_consistent config supply requests g hg).2.registered
  kept := fun r => (r.step (run_empty_consistent config supply requests)).kept
  lasting := fun more g hg => by
    obtain ⟨s, hfrom⟩ := run_empty_rooted config supply requests
    have hsound := (run_empty_consistent config supply requests _ .committed).2
    exact (run_from hsound more hfrom g hg).2.keepsAddresses

/-- A property under a name of the registry is refused, and an id may have any characters. -/
example :
    let i := (empty .usual .counting).run [
      .create none ⟨"acme", none, (∅ : Properties).insert pathKey (.string "/t;other"), .tenant⟩,
      .create none ⟨"a/b;c", none, ∅, .tenant⟩]
    i.store.graph.vertices.keys = [1] ∧
      (i.store.graph.vertex? 1).bind (·.string? pathKey) = some "/t;a\\/b\\;c" := by
  decide +kernel

end Inventory

end Estate
