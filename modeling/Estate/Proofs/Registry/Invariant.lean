import Estate.Layout
import Estate.Proofs.Graph.WellFormed
import Estate.Proofs.Path.Text

/-!
# What the registry keeps true

The registry addresses entities by paths, and a graph knows nothing of paths: they are texts among
the properties of vertices.  This module says, on the contents of a graph, what the one has to do
with the other.

* `Contents.EntityAt` — at a vertex lies the entity of a path.
* `CanonicalPath.NamesRole` — the id of a data entity is the word for its role.
* `Contents.Addressed` — every vertex is the entity of one path, and no path is used twice.
* `Contents.Linked` — every edge joins two entities of one tenant, and no two edges say the same.
* `Contents.Contained` — the containment edges are the parenthood of paths.
* `Contents.Sound` — all of them.
-/

namespace Estate

open Layout

/-- What is stored of a path at the vertex of its entity. -/
structure Properties.Addresses (row : Properties) (p : CanonicalPath) : Prop where
  path : row[pathKey]? = some (.string p.text)
  kind : row[typeKey]? = some (.string p.kind.code)
  id : row[idKey]? = some (.string p.id)

/-- The property map says the same about addresses as another one. -/
def Properties.KeepsAddress (row row' : Properties) : Prop :=
  ∀ key ∈ addressing, row'[key]? = row[key]?

namespace Properties

variable {row row' row'' : Properties} {p q : CanonicalPath}

lemma KeepsAddress.refl (row : Properties) : row.KeepsAddress row := fun _ _ => rfl

lemma KeepsAddress.trans (h : row.KeepsAddress row') (h' : row'.KeepsAddress row'') :
    row.KeepsAddress row'' := fun key hkey => (h' key hkey).trans (h key hkey)

lemma KeepsAddress.addresses_iff (h : row.KeepsAddress row') :
    row'.Addresses p ↔ row.Addresses p := by
  have hpath := h pathKey (by simp [addressing])
  have htype := h typeKey (by simp [addressing])
  have hid := h idKey (by simp [addressing])
  constructor
  · exact fun hp => ⟨hpath ▸ hp.path, htype ▸ hp.kind, hid ▸ hp.id⟩
  · exact fun hp => ⟨hpath.trans hp.path, htype.trans hp.kind, hid.trans hp.id⟩

/-- A property map addresses one path at most. -/
lemma Addresses.unique (hp : row.Addresses p) (hq : row.Addresses q) : p = q := by
  have htext := hp.path.symm.trans hq.path
  rw [Option.some.injEq, Json.string.injEq] at htext
  exact CanonicalPath.text_injective htext

lemma Addresses.path? (h : row.Addresses p) (hp : p.Legal) : Layout.path? row = some p := by
  simp [Layout.path?, Properties.string?, h.path, Json.string?, CanonicalPath.parse_text hp,
    Except.toOption]

lemma Addresses.kind? (h : row.Addresses p) : Layout.kind? row = some p.kind := by
  simp [Layout.kind?, Properties.string?, h.kind, Json.string?, Kind.ofCode?_code]

end Properties

/-- If a path is that of a data entity, it ends in the word for a role. -/
def CanonicalPath.NamesRole (p : CanonicalPath) : Prop :=
  p.kind = .dataEntity → (DataRole.ofName? p.id).isSome

namespace Contents

/-- At a vertex lies the entity of a path. -/
structure EntityAt (c : Contents) (v : VertexId) (p : CanonicalPath) : Prop where
  legal : p.OfEntity
  stored : ∃ row, c.vertex v = some row ∧ row.Addresses p

/-- All numbers that are in use have been counted. -/
structure Counted (c : Contents) : Prop where
  vertex_le : ∀ {v : VertexId}, (c.vertex v).isSome → v ≤ c.counter
  edge_le : ∀ {e : EdgeId}, (c.edge e).isSome → e ≤ c.counter

/-- Every vertex is the entity of a path, and no path is used twice. -/
structure Addressed (c : Contents) : Prop where
  entity : ∀ {v row}, c.vertex v = some row → ∃ p, c.EntityAt v p
  unique : ∀ {v w p}, c.EntityAt v p → c.EntityAt w p → v = w

/-- Every edge joins two different entities of one tenant, and no two edges have the same name and
the same ends. -/
structure Linked (c : Contents) : Prop where
  ends : ∀ {e edge}, c.edge e = some edge → ∃ p q, c.EntityAt edge.source p ∧
    c.EntityAt edge.target q ∧ edge.source ≠ edge.target ∧ p.tenantId? = q.tenantId?
  once : ∀ {e e' a b}, c.edge e = some a → c.edge e' = some b → a.label = b.label →
    a.source = b.source → a.target = b.target → e = e'

/-- Whether an edge is a containment. -/
def IsContainment (edge : Edge) : Prop :=
  edge.label = WellKnown.contains.name

/-- Every containment joins a path to one directly below it, and every path that is not a root is
contained in its parent. -/
structure Contained (c : Contents) : Prop where
  up : ∀ {e edge}, c.edge e = some edge → IsContainment edge →
    ∃ p q, c.EntityAt edge.source p ∧ c.EntityAt edge.target q ∧ q.up? = some p
  owner : ∀ {v p q}, c.EntityAt v q → q.up? = some p →
    ∃ e edge, c.edge e = some edge ∧ IsContainment edge ∧ c.EntityAt edge.source p ∧
      edge.target = v

/-- What the registry keeps true. -/
structure Sound (c : Contents) : Prop extends
  c.Counted, c.Addressed, c.Linked, c.Contained

variable {c c' : Contents} {v w : VertexId} {p q : CanonicalPath}

namespace EntityAt

lemma isSome (h : c.EntityAt v p) : (c.vertex v).isSome := by
  obtain ⟨row, hrow, -⟩ := h.stored
  rw [hrow, Option.isSome_some]

/-- A vertex is the entity of one path at most. -/
lemma path_unique (hp : c.EntityAt v p) (hq : c.EntityAt v q) : p = q := by
  obtain ⟨row, hrow, haddr⟩ := hp.stored
  obtain ⟨row', hrow', haddr'⟩ := hq.stored
  obtain rfl := Option.some.inj (hrow.symm.trans hrow')
  exact haddr.unique haddr'

/-- Whose entity lies at a vertex depends on nothing else. -/
lemma congr (h : c.EntityAt v p) (hv : c'.vertex v = c.vertex v) : c'.EntityAt v p where
  legal := h.legal
  stored := by
    rw [hv]
    exact h.stored

end EntityAt

/-- A containment ends where the parent of its target says. -/
lemma Contained.up_target (h : c.Contained) {e : EdgeId} {edge : Edge} (he : c.edge e = some edge)
    (hcontains : IsContainment edge) (hq : c.EntityAt edge.target q) :
    ∃ p, q.up? = some p ∧ c.EntityAt edge.source p := by
  obtain ⟨p, q', hp, hq', hup⟩ := h.up he hcontains
  obtain rfl := hq.path_unique hq'
  exact ⟨p, hup, hp⟩

/-- Nothing is stored. -/
def nothing : Contents :=
  ⟨0, fun _ => none, fun _ => none⟩

lemma sound_nothing : nothing.Sound where
  vertex_le := nofun
  edge_le := nofun
  entity := nofun
  unique := fun ⟨_, _, h, _⟩ => nomatch h
  ends := nofun
  once := nofun
  up := nofun
  owner := fun ⟨_, _, h, _⟩ => nomatch h

end Contents

lemma Graph.contents_empty (vertexKeys edgeKeys : List String) :
    (empty vertexKeys edgeKeys).contents = .nothing := by
  ext1
  · rfl
  · funext v
    simp [contents, empty, vertex?, Contents.nothing]
  · funext e
    simp [contents, empty, edge?, Contents.nothing]

end Estate
