import Estate.Inventory.Entities
import Estate.Proofs.Graph.Calls
import Estate.Proofs.Inventory.Selection
import Estate.Proofs.Registry.Edit

/-!
# What is read after a change

What is read of an entity is its own property map and, for its references, the edges at its vertex
in which it refers to others.  Later contents may store more than that; as long as an entity has
kept its property map and has not been given a reference, it is read as before.

* `Graph.relatedPaths_eq` — the paths that are read from edges are told by their ends.
* `Contents.Grows` — addresses and edges are kept, and edges that come are later ones.
* **`Graph.entityAt_kept`** — an entity that has not been touched is read as before.
* **`Graph.relation_kept`** — so is every relationship.
-/

namespace Estate

open Layout

/-! ## Paths sorted by text -/

namespace CanonicalPath

/-- Different paths are never tied. -/
lemma eq_of_sorted {l l' : List CanonicalPath} (h : l.Pairwise fun p q => p.text ≤ q.text)
    (h' : l'.Pairwise fun p q => p.text ≤ q.text) (hperm : l.Perm l') : l = l' :=
  hperm.eq_of_pairwise (fun _ _ _ _ hle hge => text_injective (Std.le_antisymm hle hge)) h h'

lemma pairwise_mergeSort (l : List CanonicalPath) :
    (l.mergeSort fun p q => p.text ≤ q.text).Pairwise fun p q => p.text ≤ q.text := by
  refine (List.pairwise_mergeSort ?_ ?_ _).imp decide_eq_true_iff.1
  · intro p q r hpq hqr
    rw [decide_eq_true_iff] at hpq hqr ⊢
    exact Std.le_trans hpq hqr
  · intro p q
    rw [Bool.or_eq_true, decide_eq_true_iff, decide_eq_true_iff]
    exact Std.le_total

end CanonicalPath

/-! ## References -/

/-- In this edge the entity at a vertex refers to another one. -/
def Edge.RefersAt (edge : Edge) (v : VertexId) : Prop :=
  ∃ name direction, WellKnown.reading name = some direction ∧ edge.label = name.name ∧
    edge.MetAt v direction

/-- By an edge of this name, met in this direction, one comes from a vertex to the entity of a
path. -/
def Contents.Related (c : Contents) (v : VertexId) (name : WellKnown) (direction : Direction)
    (q : CanonicalPath) : Prop :=
  ∃ e edge, c.edge e = some edge ∧ edge.label = name.name ∧ edge.MetAt v direction ∧
    c.EntityAt (edge.otherEnd v) q

/-- Of edges that are met in one direction, the other ends tell both. -/
lemma Edge.ends_eq {a b : Edge} {v : VertexId} {direction : Direction} (hne : direction ≠ .both)
    (ha : a.MetAt v direction) (hb : b.MetAt v direction) (hloop : a.source ≠ a.target)
    (hloop' : b.source ≠ b.target) (hsame : a.otherEnd v = b.otherEnd v) :
    a.source = b.source ∧ a.target = b.target := by
  cases direction with
  | both => exact absurd rfl hne
  | outgoing =>
      have hsource : a.source = v := ha
      have hsource' : b.source = v := hb
      rw [otherEnd, otherEnd, if_pos hsource, if_pos hsource'] at hsame
      exact ⟨hsource.trans hsource'.symm, hsame⟩
  | incoming =>
      have htarget : a.target = v := ha
      have htarget' : b.target = v := hb
      rw [otherEnd, otherEnd, if_neg (htarget ▸ hloop), if_neg (htarget' ▸ hloop')] at hsame
      exact ⟨hsame, htarget.trans htarget'.symm⟩

namespace Graph

variable {g g' : Graph} {v : VertexId} {name : WellKnown} {direction : Direction}
  {p q : CanonicalPath}

lemma mem_relatedPaths (h : g.Readable) :
    q ∈ g.relatedPaths v name direction ↔ g.contents.Related v name direction q := by
  rw [relatedPaths, (List.mergeSort_perm _ _).mem_iff, List.mem_filterMap]
  constructor
  · rintro ⟨e, he, hpath⟩
    obtain ⟨edge, hedge, hmet, hlabel⟩ := h.wellFormed.mem_edgesOf.1 he
    simp only [hedge, Option.bind_eq_bind, Option.bind_some] at hpath
    exact ⟨e, edge, hedge, hlabel _ rfl, hmet,
      (pathAt?_eq_some_iff h.sound.toAddressed).1 hpath⟩
  · rintro ⟨e, edge, he, hlabel, hmet, hq⟩
    have hedge : g.edge? e = some edge := he
    refine ⟨e, h.wellFormed.mem_edgesOf.2 ⟨edge, hedge, hmet, ?_⟩, ?_⟩
    · rintro l hl
      exact hlabel.trans (Option.some.inj hl)
    · simp only [hedge, Option.bind_eq_bind, Option.bind_some]
      exact pathAt?_eq hq

/-- No path is read twice, since no two edges say the same. -/
lemma nodup_relatedPaths (h : g.Readable) (hne : direction ≠ .both) :
    (g.relatedPaths v name direction).Nodup := by
  refine (List.mergeSort_perm _ _).nodup_iff.2 ?_
  rw [List.Nodup, List.pairwise_filterMap]
  refine (g.edgesOf_sorted v direction (some name.name)).imp_of_mem ?_
  rintro e e' he he' hlt p hp q hq rfl
  obtain ⟨a, ha, hmet, hlabel⟩ := h.wellFormed.mem_edgesOf.1 he
  obtain ⟨b, hb, hmet', hlabel'⟩ := h.wellFormed.mem_edgesOf.1 he'
  simp only [ha, hb, Option.bind_eq_bind, Option.bind_some,
    pathAt?_eq_some_iff h.sound.toAddressed] at hp hq
  obtain ⟨-, -, -, -, hloop, -⟩ := h.sound.ends ha
  obtain ⟨-, -, -, -, hloop', -⟩ := h.sound.ends hb
  obtain ⟨hsource, htarget⟩ := Edge.ends_eq hne hmet hmet' hloop hloop' (h.sound.unique hp hq)
  have hsame := h.sound.once ha hb ((hlabel _ rfl).trans (hlabel' _ rfl).symm) hsource htarget
  exact Nat.ne_of_lt hlt hsame

/-- **The paths that are read from edges** are those at their other ends, sorted by text. -/
lemma relatedPaths_eq (h : g.Readable) (hne : direction ≠ .both) {l : List CanonicalPath}
    (hl : l.Nodup) (hmem : ∀ q, q ∈ l ↔ g.contents.Related v name direction q) :
    g.relatedPaths v name direction = l.mergeSort fun p q => p.text ≤ q.text := by
  refine CanonicalPath.eq_of_sorted (CanonicalPath.pairwise_mergeSort _)
    (CanonicalPath.pairwise_mergeSort _) ?_
  refine List.Perm.trans ?_ (List.mergeSort_perm _ _).symm
  refine (List.perm_ext_iff_of_nodup (nodup_relatedPaths h hne) hl).2 fun q => ?_
  rw [mem_relatedPaths h, hmem]

/-- Where one comes to the same entities, the same paths are read. -/
lemma relatedPaths_congr (h : g.Readable) (h' : g'.Readable) (hne : direction ≠ .both)
    (hsame : ∀ q, g'.contents.Related v name direction q ↔ g.contents.Related v name direction q) :
    g'.relatedPaths v name direction = g.relatedPaths v name direction := by
  refine CanonicalPath.eq_of_sorted (CanonicalPath.pairwise_mergeSort _)
    (CanonicalPath.pairwise_mergeSort _) ?_
  refine (List.perm_ext_iff_of_nodup (nodup_relatedPaths h' hne) (nodup_relatedPaths h hne)).2
    fun q => ?_
  rw [mem_relatedPaths h', mem_relatedPaths h]
  exact hsame q

/-- Where the references are read in the same way, so are the fields of an entity. -/
lemma readDetails_congr (hsame : ∀ (name : WellKnown) direction, name.reading = some direction →
      g'.relatedPaths v name direction = g.relatedPaths v name direction)
    (row : Properties) (kind : Kind) :
    g'.readDetails v row p kind = g.readDetails v row p kind := by
  cases kind with
  | resourceType => rw [readDetails, readDetails, hsame _ _ rfl]
  | resource => rw [readDetails, readDetails, definer?, definer?, hsame _ _ rfl]
  | metric => rw [readDetails, readDetails, definer?, definer?, hsame _ _ rfl]
  | metadataPack => rw [readDetails, readDetails, hsame _ _ rfl]
  | _ => rfl

/-- What is returned at a path is read at its vertex. -/
lemma entityAt_eq (h : g.Readable) {row : Properties} (hv : g.contents.EntityAt v p)
    (hrow : g.vertex? v = some row) :
    g.entityAt p = (g.readEntity v row p.kind).map .entity := by
  obtain ⟨row', hrow', haddr⟩ := hv.stored
  obtain rfl := Option.some.inj (hrow.symm.trans hrow')
  have hlocate := (locate?_eq_some_iff h.wellFormed h.sound.toAddressed).2 hv
  simp only [entityAt, require, hlocate, Wanted.read?, bind, Except.bind, hrow,
    if_pos haddr.kind?]
  cases g.readEntity v row p.kind <;> rfl

lemma entityAt_missing (h : g.Readable) (hno : ∀ v, ¬ g.contents.EntityAt v p) :
    g.entityAt p = .error (.notFound p) := by
  have hlocate := (locate?_eq_none_iff h.wellFormed h.sound.toAddressed).2 hno
  rw [entityAt, require, hlocate]
  rfl

end Graph

/-- What has come from a graph that can be read by changes can be read. -/
lemma Draft.Leads.readable {d d' : Draft} (h : d.Leads d') (hd : d.transaction.graph.Readable) :
    d'.transaction.graph.Readable :=
  ⟨h.wellFormed, h.changes.sound hd.sound, h.changes.labelled hd.labelled,
    h.changes.roles hd.roles⟩

/-! ## What is kept -/

/-- **Later contents have the addresses and the edges of earlier ones**, and the edges that have
come are later than all of those. -/
structure Contents.Grows (c c' : Contents) : Prop where
  entity : ∀ {v p}, c.EntityAt v p → c'.EntityAt v p
  edge : ∀ {e edge}, c.edge e = some edge → c'.edge e = some edge
  later : ∀ {e edge}, c'.edge e = some edge → c.edge e = some edge ∨ c.counter < e

namespace Graph

variable {g g' : Graph} {v : VertexId} {p : CanonicalPath}

section Grown

variable (h : g.Readable) (h' : g'.Readable) (hgrows : g.contents.Grows g'.contents)

include h h' hgrows

/-- References are read as before where none have come. -/
lemma relatedPaths_kept
    (hnew : ∀ e edge, g'.edge? e = some edge → edge.RefersAt v → g.edge? e = some edge)
    (name : WellKnown) (direction : Direction) (hread : name.reading = some direction) :
    g'.relatedPaths v name direction = g.relatedPaths v name direction := by
  refine relatedPaths_congr h h' (WellKnown.reading_ne_both hread) fun q => ?_
  constructor
  · rintro ⟨e, edge, he, hlabel, hmet, hq⟩
    have hold := hnew e edge he ⟨name, direction, hread, hlabel, hmet⟩
    -- What was at the other end is there still.
    obtain ⟨r, s, hr, hs, -⟩ := h.sound.ends hold
    refine ⟨e, edge, hold, hlabel, hmet, ?_⟩
    rw [Edge.otherEnd] at hq ⊢
    split
    · next hv =>
        rw [if_pos hv] at hq
        exact hq.path_unique (hgrows.entity hs) ▸ hs
    · next hv =>
        rw [if_neg hv] at hq
        exact hq.path_unique (hgrows.entity hr) ▸ hr
  · rintro ⟨e, edge, he, hlabel, hmet, hq⟩
    exact ⟨e, edge, hgrows.edge he, hlabel, hmet, hgrows.entity hq⟩

/-- The fields of an entity are read as before. -/
lemma readDetails_kept
    (hnew : ∀ e edge, g'.edge? e = some edge → edge.RefersAt v → g.edge? e = some edge)
    (row : Properties) (kind : Kind) :
    g'.readDetails v row p kind = g.readDetails v row p kind :=
  readDetails_congr (relatedPaths_kept h h' hgrows hnew) row kind

/-- **An entity that has not been touched is read as before.** -/
theorem entityAt_kept (hv : g.contents.EntityAt v p)
    (hrow : g'.contents.vertex v = g.contents.vertex v)
    (hnew : ∀ e edge, g'.edge? e = some edge → edge.RefersAt v → g.edge? e = some edge) :
    g'.entityAt p = g.entityAt p := by
  obtain ⟨row, hold, -⟩ := hv.stored
  rw [entityAt_eq h hv hold, entityAt_eq h' (hgrows.entity hv) (hrow.trans hold)]
  simp only [readEntity, readDetails_kept h h' hgrows hnew]

/-- **A relationship that is read by its id** is read as before. -/
theorem relation_kept {id : String} {r : Relationship} (hr : g.relation id = .ok r) :
    g'.relation id = .ok r := by
  rw [relation, requireRelation, findRelation] at hr ⊢
  cases hedges : g.relationEdges id with
  | nil =>
      rw [hedges] at hr
      cases hr
  | cons e es =>
      obtain ⟨edge, he, hid⟩ := (mem_relationEdges h.wellFormed h.labelled).1
        (hedges ▸ List.mem_cons_self)
      have he' : g'.edge? e = some edge := hgrows.edge he
      -- An edge of the same id that has come since is a later one.
      have hfirst : ∃ es', g'.relationEdges id = e :: es' := by
        have hmem := (mem_relationEdges h'.wellFormed h'.labelled).2 ⟨edge, he', hid⟩
        obtain ⟨d, ds, hds⟩ := List.exists_cons_of_ne_nil (List.ne_nil_of_mem hmem)
        have hsorted : (g'.relationEdges id).Pairwise (· < ·) := g'.pairwise_edgesBy _ _
        have hsorted' : (g.relationEdges id).Pairwise (· < ·) := g.pairwise_edgesBy _ _
        rw [hds] at hsorted hmem
        rw [hedges] at hsorted'
        rcases List.mem_cons.1 hmem with rfl | hmem
        · exact ⟨ds, hds⟩
        · have hde : d < e := (List.pairwise_cons.1 hsorted).1 e hmem
          obtain ⟨edge', hd, hid'⟩ := (mem_relationEdges h'.wellFormed h'.labelled).1
            (hds ▸ List.mem_cons_self)
          rcases hgrows.later hd with hd | hlater
          · have hmem' := (mem_relationEdges h.wellFormed h.labelled).2 ⟨edge', hd, hid'⟩
            rw [hedges] at hmem'
            rcases List.mem_cons.1 hmem' with rfl | hmem'
            · exact absurd hde (Nat.lt_irrefl _)
            · exact absurd hde (Nat.lt_asymm ((List.pairwise_cons.1 hsorted').1 d hmem'))
          · have hle := h.wellFormed.edge_le (Option.isSome_iff_exists.2 ⟨edge, he⟩)
            exact absurd (Nat.lt_trans hlater hde) (Nat.not_lt.2 hle)
      obtain ⟨es', hedges'⟩ := hfirst
      obtain ⟨q, s, hq, hs, -⟩ := h.sound.ends he
      rw [hedges] at hr
      rw [hedges']
      simp only [bind, Except.bind, he, he', readRelationship, pathAt?_eq hq, pathAt?_eq hs,
        pathAt?_eq (hgrows.entity hq), pathAt?_eq (hgrows.entity hs)] at hr ⊢
      exact hr

end Grown

end Graph

end Estate
