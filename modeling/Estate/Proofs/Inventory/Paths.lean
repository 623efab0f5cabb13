import Estate.Proofs.Inventory.Run
import Estate.Proofs.Query.Paths

/-!
# Paths in an inventory

The text of a path is stored with the entity that it leads to, and the segments of the path can be
followed over the containments.  Requests keep the two in step, so that in every state the jump to a
path and the way along its segments lead to the same element, the one that is stored at the path.

* `Graph.Leads` — what a jump and a way find at a path.
* **`Inventory.path_leads`** — it is so in every state.
-/

namespace Estate

open Layout

/-- **The jump to a path and the way to it** lead to what is stored at the path and to nothing
else. -/
structure Graph.Leads (digest : String → String) (g : Graph) (p : CanonicalPath) : Prop where
  same : (Query.path p).elements digest g = (Query.pathChain p).elements digest g
  stored : ∀ x, x ∈ (Query.path p).elements digest g ↔ g.elementPath? x = some p

/-- Not more than one element is stored at a path. -/
def Graph.HoldsOnce (g : Graph) (p : CanonicalPath) : Prop :=
  ∀ x y, g.elementPath? x = some p → g.elementPath? y = some p → x = y

namespace Graph

variable {g : Graph} {p : CanonicalPath} {s : Supply}

lemma WellFormed.leads (hwf : g.WellFormed) (h : g.contents.Sound) (hl : g.contents.Labelled)
    (digest : String → String) (hp : p.Placed) : g.Leads digest p where
  same := by rw [Query.elements, Query.elements, Query.run_pathChain hwf h hl hp]
  stored := fun _ => Query.mem_elements_path hwf h hl hp

/-- Entities have paths of their own. -/
lemma holdsOnce_entity (h : g.contents.Addressed) (hkind : p.kind ≠ .relationship) :
    g.HoldsOnce p := by
  have hvertex : ∀ x, g.elementPath? x = some p → ∃ v, x = .vertex v ∧ g.contents.EntityAt v p := by
    intro x hx
    cases x with
    | vertex v => exact ⟨v, rfl, (elementPath?_vertex h).1 hx⟩
    | edge e =>
        obtain ⟨_, _, _, _, hp⟩ := elementPath?_edge.1 hx
        exact absurd (congrArg CanonicalPath.kind hp) hkind
  intro x y hx hy
  obtain ⟨v, rfl, hv⟩ := hvertex x hx
  obtain ⟨w, rfl, hw⟩ := hvertex y hy
  rw [h.unique hv hw]

/-- Relationships have ids of their own, if these do not repeat themselves. -/
lemma holdsOnce_relationship (h : g.contents.Addressed) (hi : g.contents.Identified s)
    (hkind : p.kind = .relationship) : g.HoldsOnce p := by
  have hedge : ∀ x, g.elementPath? x = some p → ∃ e edge, x = .edge e ∧ g.edge? e = some edge ∧
      edge.properties[idKey]? = some (.string p.id) := by
    intro x hx
    cases x with
    | vertex v => exact absurd hkind ((elementPath?_vertex h).1 hx).legal.kind_ne
    | edge e =>
        obtain ⟨edge, id, he, hid, rfl⟩ := elementPath?_edge.1 hx
        exact ⟨e, edge, rfl, he, relationId?_eq_some.1 hid⟩
  intro x y hx hy
  obtain ⟨e, a, rfl, ha, hida⟩ := hedge x hx
  obtain ⟨e', b, rfl, hb, hidb⟩ := hedge y hy
  rw [hi.once ha hb (hida.trans hidb.symm)]

end Graph

namespace Inventory

/-- **A path leads to its element**, by a jump and along its segments, in every state that requests
lead to.  That there is only one such relationship rests on the ids that are drawn. -/
theorem path_leads (config : Config) (supply : Supply) (requests : List Request)
    (digest : String → String) {p : CanonicalPath} (hp : p.Placed) :
    ((empty config supply).run requests).Everywhere fun g =>
      g.Leads digest p ∧
        ((p.kind = .relationship → Function.Injective supply.name) → g.HoldsOnce p) := by
  intro g hg
  obtain ⟨hwf, hsound⟩ := run_empty_consistent config supply requests g hg
  have hchanges := (run_empty_from config supply requests g hg).2
  refine ⟨hwf.leads hsound (hchanges.labelled nofun) digest hp, fun fresh => ?_⟩
  by_cases hkind : p.kind = .relationship
  · exact Graph.holdsOnce_relationship hsound.toAddressed
      (hchanges.identified (fresh hkind) (Contents.identified_nothing supply)) hkind
  · exact Graph.holdsOnce_entity hsound.toAddressed hkind

/-- Two environments and a feed have the same id, in tenants whose ids are hard to write. -/
def namesakes : List Request :=
  let slashed : CanonicalPath := ⟨[⟨.tenant, "a/b"⟩], by decide⟩
  let typed : CanonicalPath := ⟨[⟨.tenant, "t;a"⟩], by decide⟩
  [.create none ⟨"a/b", none, ∅, .tenant⟩,
    .create none ⟨"t;a", none, ∅, .tenant⟩,
    .create (some slashed) ⟨"prod", none, ∅, .environment⟩,
    .create (some typed) ⟨"prod", none, ∅, .environment⟩,
    .create (some slashed) ⟨"prod", none, ∅, .feed⟩]

/-- The way to one of the environments ends at it alone. -/
theorem namesakes_lead :
    let p : CanonicalPath := ⟨[⟨.tenant, "t;a"⟩, ⟨.environment, "prod"⟩], by decide⟩
    let i := (empty .usual .counting).run namesakes
    p.Placed ∧
      ((Query.pathChain p).elements Digest.md5 i.store.graph).toList = [.vertex 5] ∧
      i.Everywhere fun g => g.Leads Digest.md5 p ∧
        ((p.kind = .relationship → Function.Injective Supply.counting.name) → g.HoldsOnce p) :=
  ⟨⟨rfl, by decide⟩, by decide +kernel,
    path_leads .usual .counting namesakes Digest.md5 ⟨rfl, by decide⟩⟩

end Inventory

end Estate
