import Mathlib.Logic.Relation
import Estate.Proofs.Registry.Invariant
import Estate.Registry.Supply

/-!
# What an operation does to what is stored

An operation of the registry is a sequence of changes, each of one of eight sorts.  `Change` says
what each sort takes and what it does; everything that is kept true follows from that alone, without
another look at the operations.

* **`Change.sound`** — a change keeps the contents sound.
* `Change.keepsAddresses` — a change leaves the address of every vertex alone, and no number is
  given twice.
* `Change.identified` — if the supply does not repeat itself, no two edges have the same id.
* `Change.labelledBy` — in any case the id of an edge is a text of the sort that is drawn.
* `Change.roles` — the id of a data entity tells its role.

A change of the contents alone is looked at first, one lemma for each of the invariants.
-/

namespace Estate

open Function (update)
open Layout Contents

/-- The contents without some vertices and the edges at them. -/
def Contents.prune (c : Contents) (gone : List VertexId) : Contents where
  counter := c.counter
  vertex := fun v => if v ∈ gone then none else c.vertex v
  edge := fun e => (c.edge e).filter fun edge => !gone.any (touches edge)

/-- **One change**: of what is stored, and of the supply of ids. -/
inductive Change : Contents × Supply → Contents × Supply → Prop
  /-- A new root. -/
  | root {c : Contents} {s : Supply} {p : CanonicalPath} {row : Properties}
      (legal : p.OfEntity) (top : p.up? = none) (addressed : row.Addresses p)
      (free : ∀ v, ¬ c.EntityAt v p) : Change (c, s) (c.addVertex row, s)
  /-- A new entity with its containment. -/
  | child {c : Contents} {s : Supply} {p q : CanonicalPath} {owner : VertexId}
      {row label : Properties} (legal : q.OfEntity) (up : q.up? = some p)
      (parent : c.EntityAt owner p) (addressed : row.Addresses q)
      (free : ∀ v, ¬ c.EntityAt v q) (id : label[idKey]? = some (.string s.draw.1))
      (role : q.NamesRole) : Change (c, s) ((c.addVertex row).addEdge
        ⟨WellKnown.contains.name, owner, c.counter + 1, label⟩, s.draw.2)
  /-- A new relationship. -/
  | relate {c : Contents} {s : Supply} {p q : CanonicalPath} {edge : Edge}
      (name : ¬ IsContainment edge) (source : c.EntityAt edge.source p)
      (target : c.EntityAt edge.target q) (distinct : edge.source ≠ edge.target)
      (tenant : p.tenantId? = q.tenantId?)
      (new : ∀ e old, c.edge e = some old →
        ¬ (old.label = edge.label ∧ old.source = edge.source ∧ old.target = edge.target))
      (id : edge.properties[idKey]? = some (.string s.draw.1)) :
      Change (c, s) (c.addEdge edge, s.draw.2)
  /-- Other properties of an entity. -/
  | revise {c : Contents} {s : Supply} {v : VertexId} {row row' : Properties}
      (stored : c.vertex v = some row) (kept : row.KeepsAddress row') :
      Change (c, s) (c.setVertex v (some row'), s)
  /-- Other properties of a relationship. -/
  | reword {c : Contents} {s : Supply} {e : EdgeId} {edge : Edge} {label : Properties}
      (stored : c.edge e = some edge) (kept : label[idKey]? = edge.properties[idKey]?) :
      Change (c, s) (c.setEdge e (some { edge with properties := label }), s)
  /-- A relationship that goes. -/
  | unrelate {c : Contents} {s : Supply} {e : EdgeId} {edge : Edge}
      (stored : c.edge e = some edge) (name : ¬ IsContainment edge) :
      Change (c, s) (c.setEdge e none, s)
  /-- Entities that go with all that they contain. -/
  | prune {c : Contents} {s : Supply} {gone : List VertexId}
      (closed : ∀ e edge, c.edge e = some edge → IsContainment edge → edge.source ∈ gone →
        edge.target ∈ gone) : Change (c, s) (c.prune gone, s)
  /-- Ids that are drawn for nothing. -/
  | waste {c : Contents} {s : Supply} {n : Nat} (more : s.drawn ≤ n) :
      Change (c, s) (c, { s with drawn := n })

/-- Any number of changes. -/
abbrev Changes : Contents × Supply → Contents × Supply → Prop :=
  Relation.ReflTransGen Change

namespace Contents

variable {c : Contents} {v w : VertexId} {p q : CanonicalPath} {row row' : Properties}
  {edge : Edge} {e : EdgeId} {gone : List VertexId}

lemma Counted.vertex_free (h : c.Counted) : c.vertex (c.counter + 1) = none := by
  by_contra hne
  exact Nat.not_succ_le_self _ (h.vertex_le (Option.isSome_iff_ne_none.2 hne))

lemma Counted.edge_free (h : c.Counted) : c.edge (c.counter + 1) = none := by
  by_contra hne
  exact Nat.not_succ_le_self _ (h.edge_le (Option.isSome_iff_ne_none.2 hne))

lemma EntityAt.ne_new (h : c.EntityAt v p) (hc : c.Counted) : v ≠ c.counter + 1 := by
  rintro rfl
  have hsome := h.isSome
  rw [hc.vertex_free] at hsome
  cases hsome

/-! ## A new vertex -/

lemma EntityAt.addVertex (h : c.EntityAt v p) (hc : c.Counted) :
    (c.addVertex row).EntityAt v p :=
  h.congr (Function.update_of_ne (h.ne_new hc) _ _)

lemma entityAt_new (hp : p.OfEntity) (haddr : row.Addresses p) :
    (c.addVertex row).EntityAt (c.counter + 1) p where
  legal := hp
  stored := ⟨row, Function.update_self _ _ _, haddr⟩

/-- At a vertex lies what was there, or it is the new one. -/
lemma EntityAt.of_addVertex (h : (c.addVertex row).EntityAt v p) :
    (v = c.counter + 1 ∧ row.Addresses p) ∨ c.EntityAt v p := by
  obtain ⟨row', hrow, haddr⟩ := h.stored
  rw [vertex_addVertex, Function.update_apply] at hrow
  split at hrow
  · next hv =>
      obtain rfl := Option.some.inj hrow
      exact Or.inl ⟨hv, haddr⟩
  · exact Or.inr ⟨h.legal, row', hrow, haddr⟩

lemma Counted.addVertex (h : c.Counted) : (c.addVertex row).Counted where
  vertex_le := fun {v} hv => by
    rw [vertex_addVertex, Function.update_apply] at hv
    split at hv
    · next he => exact Nat.le_of_eq he
    · exact Nat.le_succ_of_le (h.vertex_le hv)
  edge_le := fun he => Nat.le_succ_of_le (h.edge_le he)

lemma Addressed.addVertex (h : c.Addressed) (hc : c.Counted) (hp : p.OfEntity)
    (haddr : row.Addresses p) (hfree : ∀ v, ¬ c.EntityAt v p) : (c.addVertex row).Addressed where
  entity := fun {v row'} hv => by
    rw [vertex_addVertex, Function.update_apply] at hv
    split at hv
    · next he =>
        subst he
        exact ⟨p, entityAt_new hp haddr⟩
    · obtain ⟨q, hq⟩ := h.entity hv
      exact ⟨q, hq.addVertex hc⟩
  unique := fun {v w q} hv hw => by
    rcases hv.of_addVertex with ⟨rfl, hpq⟩ | hv
    · obtain rfl := haddr.unique hpq
      rcases hw.of_addVertex with ⟨rfl, -⟩ | hw
      · rfl
      · exact absurd hw (hfree w)
    · rcases hw.of_addVertex with ⟨rfl, hpq⟩ | hw
      · obtain rfl := haddr.unique hpq
        exact absurd hv (hfree v)
      · exact h.unique hv hw

lemma Linked.addVertex (h : c.Linked) (hc : c.Counted) : (c.addVertex row).Linked where
  ends := fun he => by
    obtain ⟨p, q, hp, hq, hrest⟩ := h.ends he
    exact ⟨p, q, hp.addVertex hc, hq.addVertex hc, hrest⟩
  once := h.once

/-! ## A new edge -/

/-- Edges are no part of what lies at a vertex. -/
lemma entityAt_addEdge : (c.addEdge edge).EntityAt v p ↔ c.EntityAt v p :=
  ⟨fun h => h.congr rfl, fun h => h.congr rfl⟩

lemma edge_addEdge_cases {old : Edge} (h : (c.addEdge edge).edge e = some old) :
    (e = c.counter + 1 ∧ old = edge) ∨ c.edge e = some old := by
  rw [edge_addEdge, Function.update_apply] at h
  split at h
  · next he => exact Or.inl ⟨he, (Option.some.inj h).symm⟩
  · exact Or.inr h

lemma edge_addEdge_of_some (hc : c.Counted) {old : Edge} (h : c.edge e = some old) :
    (c.addEdge edge).edge e = some old := by
  have hne : e ≠ c.counter + 1 := by
    rintro rfl
    rw [hc.edge_free] at h
    cases h
  rw [edge_addEdge, Function.update_of_ne hne, h]

lemma Counted.addEdge (h : c.Counted) : (c.addEdge edge).Counted where
  vertex_le := fun hv => Nat.le_succ_of_le (h.vertex_le hv)
  edge_le := fun {e} he => by
    rw [edge_addEdge, Function.update_apply] at he
    split at he
    · next hid => exact Nat.le_of_eq hid
    · exact Nat.le_succ_of_le (h.edge_le he)

lemma Addressed.addEdge (h : c.Addressed) : (c.addEdge edge).Addressed where
  entity := fun hv => by
    obtain ⟨p, hp⟩ := h.entity hv
    exact ⟨p, entityAt_addEdge.2 hp⟩
  unique := fun hv hw => h.unique (entityAt_addEdge.1 hv) (entityAt_addEdge.1 hw)

lemma Linked.addEdge (h : c.Linked) (hp : c.EntityAt edge.source p) (hq : c.EntityAt edge.target q)
    (hne : edge.source ≠ edge.target) (htenant : p.tenantId? = q.tenantId?)
    (hnew : ∀ e old, c.edge e = some old →
      ¬ (old.label = edge.label ∧ old.source = edge.source ∧ old.target = edge.target)) :
    (c.addEdge edge).Linked where
  ends := fun he => by
    rcases edge_addEdge_cases he with ⟨-, rfl⟩ | he
    · exact ⟨p, q, entityAt_addEdge.2 hp, entityAt_addEdge.2 hq, hne, htenant⟩
    · obtain ⟨p, q, hp, hq, hrest⟩ := h.ends he
      exact ⟨p, q, entityAt_addEdge.2 hp, entityAt_addEdge.2 hq, hrest⟩
  once := fun {e e' a b} ha hb hlabel hsource htarget => by
    rcases edge_addEdge_cases ha with ⟨he, ha'⟩ | ha'
    · rcases edge_addEdge_cases hb with ⟨he', -⟩ | hb'
      · exact he.trans he'.symm
      · subst ha'
        exact absurd ⟨hlabel.symm, hsource.symm, htarget.symm⟩ (hnew e' b hb')
    · rcases edge_addEdge_cases hb with ⟨-, hb'⟩ | hb'
      · subst hb'
        exact absurd ⟨hlabel, hsource, htarget⟩ (hnew e a ha')
      · exact h.once ha' hb' hlabel hsource htarget

/-! ## Other properties -/

lemma entityAt_setVertex (hrow : c.vertex v = some row) (hkept : row.KeepsAddress row') :
    (c.setVertex v (some row')).EntityAt w p ↔ c.EntityAt w p := by
  by_cases hw : w = v
  · subst hw
    constructor
    · intro h
      obtain ⟨r, hr, haddr⟩ := h.stored
      obtain rfl : row' = r := by simpa using hr
      exact ⟨h.legal, row, hrow, hkept.addresses_iff.1 haddr⟩
    · intro h
      obtain ⟨r, hr, haddr⟩ := h.stored
      obtain rfl := Option.some.inj (hrow.symm.trans hr)
      exact ⟨h.legal, row', Function.update_self _ _ _, hkept.addresses_iff.2 haddr⟩
  · have hsame : (c.setVertex v (some row')).vertex w = c.vertex w := Function.update_of_ne hw _ _
    exact ⟨fun h => h.congr hsame.symm, fun h => h.congr hsame⟩

lemma isSome_setVertex (row' : Properties) (hrow : c.vertex v = some row) :
    ((c.setVertex v (some row')).vertex w).isSome = (c.vertex w).isSome := by
  rw [vertex_setVertex, Function.update_apply]
  split
  · next hw => rw [hw, hrow, Option.isSome_some, Option.isSome_some]
  · rfl

lemma Sound.setVertex (h : c.Sound) (hrow : c.vertex v = some row)
    (hkept : row.KeepsAddress row') : (c.setVertex v (some row')).Sound where
  vertex_le := fun hw => h.vertex_le (isSome_setVertex row' hrow ▸ hw)
  edge_le := h.edge_le
  entity := fun {w r} hw => by
    have hsome : (c.vertex w).isSome := by
      rw [← isSome_setVertex row' hrow, hw, Option.isSome_some]
    obtain ⟨r', hr'⟩ := Option.isSome_iff_exists.1 hsome
    obtain ⟨p, hp⟩ := h.entity hr'
    exact ⟨p, (entityAt_setVertex hrow hkept).2 hp⟩
  unique := fun hv hw => h.unique ((entityAt_setVertex hrow hkept).1 hv)
    ((entityAt_setVertex hrow hkept).1 hw)
  ends := fun he => by
    obtain ⟨p, q, hp, hq, hrest⟩ := h.ends he
    exact ⟨p, q, (entityAt_setVertex hrow hkept).2 hp, (entityAt_setVertex hrow hkept).2 hq, hrest⟩
  once := h.once
  up := fun he hcontains => by
    obtain ⟨p, q, hp, hq, hup⟩ := h.up he hcontains
    exact ⟨p, q, (entityAt_setVertex hrow hkept).2 hp, (entityAt_setVertex hrow hkept).2 hq, hup⟩
  owner := fun hv hup => by
    obtain ⟨e, edge, he, hcontains, hsource, htarget⟩ :=
      h.owner ((entityAt_setVertex hrow hkept).1 hv) hup
    exact ⟨e, edge, he, hcontains, (entityAt_setVertex hrow hkept).2 hsource, htarget⟩

/-! ## Fewer edges, or the same ones with other properties -/

/-- The edges of some contents are edges of others, up to their properties. -/
structure Refines (c' c : Contents) : Prop where
  counter : c'.counter = c.counter
  vertex : c'.vertex = c.vertex
  edge : ∀ {e : EdgeId} {edge' : Edge}, c'.edge e = some edge' → ∃ edge, c.edge e = some edge ∧
    edge.label = edge'.label ∧ edge.source = edge'.source ∧ edge.target = edge'.target
  containment : ∀ {e : EdgeId} {edge : Edge}, c.edge e = some edge → IsContainment edge →
    ∃ edge', c'.edge e = some edge' ∧ edge.label = edge'.label ∧ edge.source = edge'.source ∧
      edge.target = edge'.target

/-- Edges may go, and their properties may change, as long as containments stay. -/
lemma Sound.refine {c' : Contents} (h : c.Sound) (hr : Refines c' c) : c'.Sound := by
  have hentity : ∀ {v p}, c'.EntityAt v p ↔ c.EntityAt v p := fun {v p} =>
    ⟨fun h => h.congr (congrFun hr.vertex.symm v), fun h => h.congr (congrFun hr.vertex v)⟩
  exact
    { vertex_le := fun hv => by
        rw [hr.vertex] at hv
        rw [hr.counter]
        exact h.vertex_le hv
      edge_le := fun he => by
        obtain ⟨edge', he'⟩ := Option.isSome_iff_exists.1 he
        obtain ⟨edge, hedge, -⟩ := hr.edge he'
        rw [hr.counter]
        exact h.edge_le (by rw [hedge, Option.isSome_some])
      entity := fun hv => by
        rw [hr.vertex] at hv
        obtain ⟨p, hp⟩ := h.entity hv
        exact ⟨p, hentity.2 hp⟩
      unique := fun hv hw => h.unique (hentity.1 hv) (hentity.1 hw)
      ends := fun he => by
        obtain ⟨edge, hedge, -, hs, ht⟩ := hr.edge he
        obtain ⟨p, q, hp, hq, hne, htenant⟩ := h.ends hedge
        rw [hs] at hp hne
        rw [ht] at hq hne
        exact ⟨p, q, hentity.2 hp, hentity.2 hq, hne, htenant⟩
      once := fun ha hb hlabel hsource htarget => by
        obtain ⟨a, ha, hla, hsa, hta⟩ := hr.edge ha
        obtain ⟨b, hb, hlb, hsb, htb⟩ := hr.edge hb
        exact h.once ha hb (hla.trans (hlabel.trans hlb.symm))
          (hsa.trans (hsource.trans hsb.symm)) (hta.trans (htarget.trans htb.symm))
      up := fun he hcontains => by
        obtain ⟨edge, hedge, hl, hs, ht⟩ := hr.edge he
        obtain ⟨p, q, hp, hq, hup⟩ := h.up hedge (hl.trans hcontains)
        rw [hs] at hp
        rw [ht] at hq
        exact ⟨p, q, hentity.2 hp, hentity.2 hq, hup⟩
      owner := fun hv hup => by
        obtain ⟨e, edge, he, hcontains, hsource, htarget⟩ := h.owner (hentity.1 hv) hup
        obtain ⟨edge', he', hl, hs, ht⟩ := hr.containment he hcontains
        exact ⟨e, edge', he', hl.symm.trans hcontains, hentity.2 (hs ▸ hsource),
          ht.symm.trans htarget⟩ }

lemma Refines.reword {label : Properties} (he : c.edge e = some edge) :
    Refines (c.setEdge e (some { edge with properties := label })) c where
  counter := rfl
  vertex := rfl
  edge := fun {e' edge'} h => by
    rw [edge_setEdge, Function.update_apply] at h
    split at h
    · next hid =>
        obtain rfl := Option.some.inj h
        exact ⟨edge, hid ▸ he, rfl, rfl, rfl⟩
    · exact ⟨edge', h, rfl, rfl, rfl⟩
  containment := fun {e' old} h _ => by
    rw [edge_setEdge, Function.update_apply]
    split
    · next hid =>
        subst hid
        obtain rfl := Option.some.inj (he.symm.trans h)
        exact ⟨_, rfl, rfl, rfl, rfl⟩
    · exact ⟨old, h, rfl, rfl, rfl⟩

lemma Refines.unrelate (he : c.edge e = some edge) (hname : ¬ IsContainment edge) :
    Refines (c.setEdge e none) c where
  counter := rfl
  vertex := rfl
  edge := fun {e' edge'} h => by
    rw [edge_setEdge, Function.update_apply] at h
    split at h
    · cases h
    · exact ⟨edge', h, rfl, rfl, rfl⟩
  containment := fun {e' old} h hcontains => by
    have hne : e' ≠ e := by
      rintro rfl
      obtain rfl := Option.some.inj (he.symm.trans h)
      exact hname hcontains
    exact ⟨old, (Function.update_of_ne hne _ _).trans h, rfl, rfl, rfl⟩

/-! ## Fewer vertices -/

lemma edge_prune : (c.prune gone).edge e = some edge ↔
    c.edge e = some edge ∧ edge.source ∉ gone ∧ edge.target ∉ gone := by
  simp only [prune, Option.filter_eq_some_iff, touches, Bool.not_eq_true', List.any_eq_false,
    Bool.or_eq_true, beq_iff_eq, not_or]
  refine and_congr Iff.rfl ⟨fun h => ⟨fun hs => (h _ hs).1 rfl, fun ht => (h _ ht).2 rfl⟩, ?_⟩
  rintro ⟨hs, ht⟩ v hv
  exact ⟨fun he => hs (he ▸ hv), fun he => ht (he ▸ hv)⟩

lemma vertex_prune_of_not_mem (hv : v ∉ gone) : (c.prune gone).vertex v = c.vertex v :=
  if_neg hv

lemma vertex_prune : (c.prune gone).vertex v = some row ↔ v ∉ gone ∧ c.vertex v = some row := by
  by_cases hv : v ∈ gone
  · simp [prune, hv]
  · rw [vertex_prune_of_not_mem hv]
    exact ⟨fun h => ⟨hv, h⟩, And.right⟩

lemma entityAt_prune : (c.prune gone).EntityAt v p ↔ v ∉ gone ∧ c.EntityAt v p := by
  constructor
  · rintro ⟨hp, row, hrow, haddr⟩
    obtain ⟨hv, hrow⟩ := vertex_prune.1 hrow
    exact ⟨hv, hp, row, hrow, haddr⟩
  · rintro ⟨hv, h⟩
    exact h.congr (vertex_prune_of_not_mem hv)

/-- Vertices may go together with all that they contain. -/
lemma Sound.prune (h : c.Sound)
    (hclosed : ∀ e edge, c.edge e = some edge → IsContainment edge → edge.source ∈ gone →
      edge.target ∈ gone) : (c.prune gone).Sound where
  vertex_le := fun hv => by
    obtain ⟨row, hrow⟩ := Option.isSome_iff_exists.1 hv
    exact h.vertex_le (by rw [(vertex_prune.1 hrow).2, Option.isSome_some])
  edge_le := fun he => by
    obtain ⟨edge, hedge⟩ := Option.isSome_iff_exists.1 he
    exact h.edge_le (by rw [(edge_prune.1 hedge).1, Option.isSome_some])
  entity := fun hv => by
    obtain ⟨hkept, hrow⟩ := vertex_prune.1 hv
    obtain ⟨p, hp⟩ := h.entity hrow
    exact ⟨p, entityAt_prune.2 ⟨hkept, hp⟩⟩
  unique := fun hv hw => h.unique (entityAt_prune.1 hv).2 (entityAt_prune.1 hw).2
  ends := fun he => by
    obtain ⟨he, hsource, htarget⟩ := edge_prune.1 he
    obtain ⟨p, q, hp, hq, hrest⟩ := h.ends he
    exact ⟨p, q, entityAt_prune.2 ⟨hsource, hp⟩, entityAt_prune.2 ⟨htarget, hq⟩, hrest⟩
  once := fun ha hb => h.once (edge_prune.1 ha).1 (edge_prune.1 hb).1
  up := fun he hcontains => by
    obtain ⟨he, hsource, htarget⟩ := edge_prune.1 he
    obtain ⟨p, q, hp, hq, hup⟩ := h.up he hcontains
    exact ⟨p, q, entityAt_prune.2 ⟨hsource, hp⟩, entityAt_prune.2 ⟨htarget, hq⟩, hup⟩
  owner := fun hv hup => by
    obtain ⟨hkept, hv⟩ := entityAt_prune.1 hv
    obtain ⟨e, edge, he, hcontains, hsource, htarget⟩ := h.owner hv hup
    -- If the owner went, what it contains would have gone too.
    have hstays : edge.source ∉ gone := fun hgone =>
      hkept (htarget ▸ hclosed e edge he hcontains hgone)
    exact ⟨e, edge, edge_prune.2 ⟨he, hstays, htarget ▸ hkept⟩, hcontains,
      entityAt_prune.2 ⟨hstays, hsource⟩, htarget⟩

/-! ## New entities and relationships -/

/-- A new root has nothing that contains it. -/
lemma Sound.root (h : c.Sound) (hp : p.OfEntity) (htop : p.up? = none) (haddr : row.Addresses p)
    (hfree : ∀ v, ¬ c.EntityAt v p) : (c.addVertex row).Sound where
  toCounted := h.toCounted.addVertex
  toAddressed := h.toAddressed.addVertex h.toCounted hp haddr hfree
  toLinked := h.toLinked.addVertex h.toCounted
  up := fun he hcontains => by
    obtain ⟨p, q, hp, hq, hup⟩ := h.up he hcontains
    exact ⟨p, q, hp.addVertex h.toCounted, hq.addVertex h.toCounted, hup⟩
  owner := fun {v p' q} hv hup => by
    rcases hv.of_addVertex with ⟨-, hq⟩ | hv
    · obtain rfl := haddr.unique hq
      rw [htop] at hup
      cases hup
    · obtain ⟨e, edge, he, hcontains, hsource, htarget⟩ := h.owner hv hup
      exact ⟨e, edge, he, hcontains, hsource.addVertex h.toCounted, htarget⟩

/-- A new entity comes with its containment. -/
lemma Sound.child (h : c.Sound) {owner : VertexId} {label : Properties} (hq : q.OfEntity)
    (hup : q.up? = some p) (howner : c.EntityAt owner p) (haddr : row.Addresses q)
    (hfree : ∀ v, ¬ c.EntityAt v q) :
    ((c.addVertex row).addEdge ⟨WellKnown.contains.name, owner, c.counter + 1, label⟩).Sound := by
  have hc := h.toCounted
  have hc' : (c.addVertex row).Counted := hc.addVertex
  have howner' : (c.addVertex row).EntityAt owner p := howner.addVertex hc
  have hnew : (c.addVertex row).EntityAt (c.counter + 1) q := entityAt_new hq haddr
  exact
    { toCounted := hc'.addEdge
      toAddressed := (h.toAddressed.addVertex hc hq haddr hfree).addEdge
      toLinked := by
        refine (h.toLinked.addVertex hc).addEdge howner' hnew (howner.ne_new hc)
          (CanonicalPath.tenantId?_of_up hup).symm fun e old he hsame => ?_
        -- No edge ends at the new vertex yet.
        obtain ⟨p', q', hp', hq', -⟩ := h.ends he
        exact hq'.ne_new hc hsame.2.2
      up := fun he hcontains => by
        rcases edge_addEdge_cases he with ⟨-, rfl⟩ | he
        · exact ⟨p, q, entityAt_addEdge.2 howner', entityAt_addEdge.2 hnew, hup⟩
        · obtain ⟨p', q', hp', hq', hup'⟩ := h.up he hcontains
          exact ⟨p', q', entityAt_addEdge.2 (hp'.addVertex hc),
            entityAt_addEdge.2 (hq'.addVertex hc), hup'⟩
      owner := fun {v p' q'} hv hup' => by
        rcases (entityAt_addEdge.1 hv).of_addVertex with ⟨rfl, hq'⟩ | hv
        · obtain rfl := haddr.unique hq'
          obtain rfl := Option.some.inj (hup.symm.trans hup')
          exact ⟨_, _, Function.update_self _ _ _, rfl, entityAt_addEdge.2 howner', rfl⟩
        · obtain ⟨e, edge, he, hcontains, hsource, htarget⟩ := h.owner hv hup'
          exact ⟨e, edge, edge_addEdge_of_some hc' he, hcontains,
            entityAt_addEdge.2 (hsource.addVertex hc), htarget⟩ }

/-- A new relationship is no containment. -/
lemma Sound.relate (h : c.Sound) (hname : ¬ IsContainment edge) (hp : c.EntityAt edge.source p)
    (hq : c.EntityAt edge.target q) (hne : edge.source ≠ edge.target)
    (htenant : p.tenantId? = q.tenantId?)
    (hnew : ∀ e old, c.edge e = some old →
      ¬ (old.label = edge.label ∧ old.source = edge.source ∧ old.target = edge.target)) :
    (c.addEdge edge).Sound where
  toCounted := h.toCounted.addEdge
  toAddressed := h.toAddressed.addEdge
  toLinked := h.toLinked.addEdge hp hq hne htenant hnew
  up := fun he hcontains => by
    rcases edge_addEdge_cases he with ⟨-, rfl⟩ | he
    · exact absurd hcontains hname
    · obtain ⟨p, q, hp, hq, hup⟩ := h.up he hcontains
      exact ⟨p, q, entityAt_addEdge.2 hp, entityAt_addEdge.2 hq, hup⟩
  owner := fun hv hup => by
    obtain ⟨e, old, he, hcontains, hsource, htarget⟩ := h.owner (entityAt_addEdge.1 hv) hup
    exact ⟨e, old, edge_addEdge_of_some h.toCounted he, hcontains,
      entityAt_addEdge.2 hsource, htarget⟩

end Contents

/-! ## Invariants of changes -/

variable {a b : Contents × Supply}

/-- **A change keeps the contents sound.** -/
theorem Change.sound (h : Change a b) (hc : a.1.Sound) : b.1.Sound := by
  cases h with
  | root legal top addressed free => exact hc.root legal top addressed free
  | child legal up parent addressed free => exact hc.child legal up parent addressed free
  | relate name source target distinct tenant new =>
      exact hc.relate name source target distinct tenant new
  | revise stored kept => exact hc.setVertex stored kept
  | reword stored => exact hc.refine (.reword stored)
  | unrelate stored name => exact hc.refine (.unrelate stored name)
  | prune closed => exact hc.prune closed
  | waste => exact hc

theorem Changes.sound (h : Changes a b) (hc : a.1.Sound) : b.1.Sound := by
  induction h with
  | refl => exact hc
  | tail _ hchange ih => exact hchange.sound ih

/-! ### Addresses -/

/-- The vertices that are still there have kept their addresses, and new vertices have new
numbers. -/
structure Contents.KeepsAddresses (c c' : Contents) : Prop where
  counter_le : c.counter ≤ c'.counter
  row : ∀ {v row'}, v ≤ c.counter → c'.vertex v = some row' →
    ∃ row, c.vertex v = some row ∧ row.KeepsAddress row'

namespace Contents.KeepsAddresses

variable {c c' c'' : Contents}

lemma refl (c : Contents) : c.KeepsAddresses c where
  counter_le := Nat.le_refl _
  row := fun _ hrow => ⟨_, hrow, .refl _⟩

lemma trans (h : c.KeepsAddresses c') (h' : c'.KeepsAddresses c'') : c.KeepsAddresses c'' where
  counter_le := Nat.le_trans h.counter_le h'.counter_le
  row := fun hv hrow => by
    obtain ⟨row', hrow', hkept'⟩ := h'.row (Nat.le_trans hv h.counter_le) hrow
    obtain ⟨row, hrow, hkept⟩ := h.row hv hrow'
    exact ⟨row, hrow, hkept.trans hkept'⟩

lemma of_vertex_eq (hcounter : c.counter ≤ c'.counter) (hvertex : c'.vertex = c.vertex) :
    c.KeepsAddresses c' where
  counter_le := hcounter
  row := fun _ hrow => ⟨_, hvertex ▸ hrow, .refl _⟩

lemma addVertex (row : Properties) : c.KeepsAddresses (c.addVertex row) where
  counter_le := Nat.le_succ _
  row := fun {v row'} hv hrow => by
    have hne : v ≠ c.counter + 1 := fun he => Nat.not_succ_le_self _ (he ▸ hv)
    rw [vertex_addVertex, Function.update_of_ne hne] at hrow
    exact ⟨row', hrow, .refl _⟩

/-- An entity that is still there is where it was. -/
lemma entityAt (h : c.KeepsAddresses c') (hc : c.Counted) {v : VertexId} {p : CanonicalPath}
    (hv : c.EntityAt v p) (hstays : (c'.vertex v).isSome) : c'.EntityAt v p := by
  obtain ⟨row', hrow'⟩ := Option.isSome_iff_exists.1 hstays
  obtain ⟨row, hrow, hkept⟩ := h.row (hc.vertex_le hv.isSome) hrow'
  obtain ⟨hlegal, old, hold, haddr⟩ := hv
  obtain rfl := Option.some.inj (hrow.symm.trans hold)
  exact ⟨hlegal, row', hrow', hkept.addresses_iff.2 haddr⟩

end Contents.KeepsAddresses

/-- **No change touches an address.** -/
theorem Change.keepsAddresses (h : Change a b) : a.1.KeepsAddresses b.1 := by
  cases h with
  | root => exact .addVertex _
  | child => exact (KeepsAddresses.addVertex _).trans (.of_vertex_eq (Nat.le_succ _) rfl)
  | relate => exact .of_vertex_eq (Nat.le_succ _) rfl
  | revise stored kept =>
      refine ⟨Nat.le_refl _, fun {v row'} _ hrow => ?_⟩
      rw [vertex_setVertex, Function.update_apply] at hrow
      split at hrow
      · next hv =>
          obtain rfl := Option.some.inj hrow
          exact ⟨_, hv ▸ stored, kept⟩
      · exact ⟨row', hrow, .refl _⟩
  | reword => exact .of_vertex_eq (Nat.le_refl _) rfl
  | unrelate => exact .of_vertex_eq (Nat.le_refl _) rfl
  | prune => exact ⟨Nat.le_refl _, fun _ hrow => ⟨_, (vertex_prune.1 hrow).2, .refl _⟩⟩
  | waste => exact .refl _

theorem Changes.keepsAddresses (h : Changes a b) : a.1.KeepsAddresses b.1 := by
  induction h with
  | refl => exact .refl _
  | tail _ hchange ih => exact ih.trans hchange.keepsAddresses

/-! ### Ids -/

/-- A supply is used up from the front. -/
theorem Change.supply (h : Change a b) : b.2.name = a.2.name ∧ a.2.drawn ≤ b.2.drawn := by
  cases h with
  | child => exact ⟨rfl, Nat.le_succ _⟩
  | relate => exact ⟨rfl, Nat.le_succ _⟩
  | waste more => exact ⟨rfl, more⟩
  | _ => exact ⟨rfl, Nat.le_refl _⟩

theorem Changes.supply (h : Changes a b) : b.2.name = a.2.name ∧ a.2.drawn ≤ b.2.drawn := by
  induction h with
  | refl => exact ⟨rfl, Nat.le_refl _⟩
  | tail _ hchange ih =>
      exact ⟨hchange.supply.1.trans ih.1, Nat.le_trans ih.2 hchange.supply.2⟩

/-- Whatever is not kept of some changes, the ids that they have drawn are used up. -/
lemma Changes.wasted {c c' kept : Contents} {s s' : Supply} (h : Changes (c, s) (c', s')) :
    Change (kept, s) (kept, s') := by
  obtain ⟨hname, hdrawn⟩ := h.supply
  have hs : s' = { s with drawn := s'.drawn } := by
    cases s'
    obtain rfl := hname
    rfl
  rw [hs]
  exact .waste hdrawn

/-- Every edge has an id that has been drawn, and no two edges have the same one. -/
structure Contents.Identified (c : Contents) (s : Supply) : Prop where
  drawn : ∀ {e edge}, c.edge e = some edge →
    ∃ i < s.drawn, edge.properties[idKey]? = some (.string (s.name i))
  once : ∀ {e e' a b}, c.edge e = some a → c.edge e' = some b →
    a.properties[idKey]? = b.properties[idKey]? → e = e'

lemma Contents.identified_nothing (s : Supply) : nothing.Identified s where
  drawn := nofun
  once := nofun

namespace Contents.Identified

variable {c c' : Contents} {s s' : Supply} {edge : Edge}

/-- Edges may go, and the properties of edges may change, as long as ids stay. -/
lemma refine (h : c.Identified s) (hname : s'.name = s.name) (hdrawn : s.drawn ≤ s'.drawn)
    (hedge : ∀ {e edge'}, c'.edge e = some edge' → ∃ edge, c.edge e = some edge ∧
      edge'.properties[idKey]? = edge.properties[idKey]?) : c'.Identified s' where
  drawn := fun he => by
    obtain ⟨edge, hold, hid⟩ := hedge he
    obtain ⟨i, hi, hdrawn'⟩ := h.drawn hold
    exact ⟨i, Nat.lt_of_lt_of_le hi hdrawn, by rw [hid, hname, hdrawn']⟩
  once := fun ha hb hsame => by
    obtain ⟨a, ha, hida⟩ := hedge ha
    obtain ⟨b, hb, hidb⟩ := hedge hb
    exact h.once ha hb (hida.symm.trans (hsame.trans hidb))

/-- A new edge has an id that no other edge has. -/
lemma addEdge (h : c.Identified s) (hinj : Function.Injective s.name)
    (hid : edge.properties[idKey]? = some (.string s.draw.1)) :
    (c.addEdge edge).Identified s.draw.2 := by
  have hfresh : ∀ {e old}, c.edge e = some old →
      old.properties[idKey]? ≠ edge.properties[idKey]? := by
    intro e old hold hsame
    obtain ⟨i, hi, hdrawn⟩ := h.drawn hold
    rw [hdrawn, hid, Option.some.injEq, Json.string.injEq] at hsame
    exact Nat.ne_of_lt hi (hinj hsame)
  exact
    { drawn := fun he => by
        rcases edge_addEdge_cases he with ⟨-, rfl⟩ | he
        · exact ⟨s.drawn, Nat.lt_succ_self _, hid⟩
        · obtain ⟨i, hi, hdrawn⟩ := h.drawn he
          exact ⟨i, Nat.lt_succ_of_lt hi, hdrawn⟩
      once := fun ha hb hsame => by
        rcases edge_addEdge_cases ha with ⟨he, ha'⟩ | ha'
        · rcases edge_addEdge_cases hb with ⟨he', -⟩ | hb'
          · exact he.trans he'.symm
          · exact absurd (ha' ▸ hsame.symm) (hfresh hb')
        · rcases edge_addEdge_cases hb with ⟨-, hb'⟩ | hb'
          · exact absurd (hb' ▸ hsame) (hfresh ha')
          · exact h.once ha' hb' hsame }

end Contents.Identified

/-- **If the supply does not repeat itself, no two edges have the same id.** -/
theorem Change.identified (h : Change a b) (hinj : Function.Injective a.2.name)
    (hi : a.1.Identified a.2) : b.1.Identified b.2 := by
  cases h with
  | root => exact hi.refine rfl (Nat.le_refl _) fun he => ⟨_, he, rfl⟩
  | child legal up parent addressed free id =>
      refine Identified.addEdge ?_ hinj id
      exact hi.refine rfl (Nat.le_refl _) fun he => ⟨_, he, rfl⟩
  | relate name source target distinct tenant new id => exact hi.addEdge hinj id
  | revise => exact hi.refine rfl (Nat.le_refl _) fun he => ⟨_, he, rfl⟩
  | reword stored kept =>
      refine hi.refine rfl (Nat.le_refl _) fun {e edge'} he => ?_
      rw [edge_setEdge, Function.update_apply] at he
      split at he
      · next hid =>
          obtain rfl := Option.some.inj he
          exact ⟨_, hid ▸ stored, kept⟩
      · exact ⟨edge', he, rfl⟩
  | unrelate =>
      refine hi.refine rfl (Nat.le_refl _) fun {e edge'} he => ?_
      rw [edge_setEdge, Function.update_apply] at he
      split at he
      · cases he
      · exact ⟨edge', he, rfl⟩
  | prune => exact hi.refine rfl (Nat.le_refl _) fun he => ⟨_, (edge_prune.1 he).1, rfl⟩
  | waste more => exact hi.refine rfl more fun he => ⟨_, he, rfl⟩

theorem Changes.identified (h : Changes a b) (hinj : Function.Injective a.2.name)
    (hi : a.1.Identified a.2) : b.1.Identified b.2 := by
  induction h with
  | refl => exact hi
  | tail hbefore hchange ih =>
      exact hchange.identified (by rw [(Changes.supply hbefore).1]; exact hinj) ih

/-! ## Ids are texts -/

/-- Every edge has an id, which is a text of some sort. -/
def Contents.LabelledBy (sort : String → Prop) (c : Contents) : Prop :=
  ∀ {e edge}, c.edge e = some edge → ∃ id, edge.properties[idKey]? = some (.string id) ∧ sort id

/-- Ids stay of the sort that is drawn. -/
theorem Change.labelledBy {sort : String → Prop} (h : Change a b) (names : ∀ n, sort (a.2.name n))
    (ha : a.1.LabelledBy sort) : b.1.LabelledBy sort := by
  intro e edge he
  cases h with
  | root => exact ha he
  | child legal up parent addressed free id =>
      rcases edge_addEdge_cases he with ⟨-, rfl⟩ | he
      · exact ⟨_, id, names _⟩
      · exact ha he
  | relate name source target distinct tenant new id =>
      rcases edge_addEdge_cases he with ⟨-, rfl⟩ | he
      · exact ⟨_, id, names _⟩
      · exact ha he
  | revise => exact ha he
  | reword stored kept =>
      rw [edge_setEdge, Function.update_apply] at he
      split at he
      · obtain rfl := Option.some.inj he
        obtain ⟨id, hid, hsort⟩ := ha stored
        exact ⟨id, kept.trans hid, hsort⟩
      · exact ha he
  | unrelate =>
      rw [edge_setEdge, Function.update_apply] at he
      split at he
      · cases he
      · exact ha he
  | prune => exact ha (edge_prune.1 he).1
  | waste => exact ha he

theorem Changes.labelledBy {sort : String → Prop} (h : Changes a b)
    (names : ∀ n, sort (a.2.name n)) (ha : a.1.LabelledBy sort) : b.1.LabelledBy sort := by
  induction h with
  | refl => exact ha
  | tail hbefore hchange ih =>
      exact hchange.labelledBy (by rw [(Changes.supply hbefore).1]; exact names) ih

/-- Every edge has an id, which is a text. -/
def Contents.Labelled (c : Contents) : Prop :=
  ∀ {e edge}, c.edge e = some edge → ∃ id, edge.properties[idKey]? = some (.string id)

/-- Whether or not the supply repeats itself, what it draws are texts. -/
theorem Changes.labelled (h : Changes a b) (ha : a.1.Labelled) : b.1.Labelled := by
  have hlabelled : b.1.LabelledBy fun _ => True :=
    h.labelledBy (fun _ => trivial) fun he => (ha he).imp fun _ hid => ⟨hid, trivial⟩
  intro e edge he
  obtain ⟨id, hid, -⟩ := hlabelled he
  exact ⟨id, hid⟩

/-! ## Roles are told by ids -/

/-- The ids of all data entities are words for roles. -/
def Contents.Roles (c : Contents) : Prop :=
  ∀ {v p}, c.EntityAt v p → p.NamesRole

/-- **Whatever becomes of a data entity, its id tells its role.** -/
theorem Change.roles (h : Change a b) (ha : a.1.Roles) : b.1.Roles := by
  intro v p hv
  cases h with
  | root legal top addressed =>
      rcases hv.of_addVertex with ⟨-, haddr⟩ | hv
      · obtain rfl := addressed.unique haddr
        exact fun hkind => nomatch hkind.symm.trans (legal.kind_eq_tenant_iff.2 top)
      · exact ha hv
  | child legal up parent addressed free id role =>
      rcases (entityAt_addEdge.1 hv).of_addVertex with ⟨-, haddr⟩ | hv
      · obtain rfl := addressed.unique haddr
        exact role
      · exact ha hv
  | relate => exact ha (entityAt_addEdge.1 hv)
  | revise stored kept => exact ha ((entityAt_setVertex stored kept).1 hv)
  | prune => exact ha (entityAt_prune.1 hv).2
  | reword => exact ha (hv.congr rfl)
  | unrelate => exact ha (hv.congr rfl)
  | waste => exact ha hv

theorem Changes.roles (h : Changes a b) (ha : a.1.Roles) : b.1.Roles := by
  induction h with
  | refl => exact ha
  | tail _ hchange ih => exact hchange.roles ih

end Estate
