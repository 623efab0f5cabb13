import Estate.Proofs.Inventory.Telling

/-!
# What links and rewordings leave alone

A link adds an edge, and a reworded relationship has another property map at its edge.  Neither
changes the property map of an entity, so that an entity can only look different in the references
that are read from edges: the metric types of a resource type, the type of a resource or a metric,
the members of a metadata pack.  And it does so only if it is at the right end of a new relationship
of the right name.

* `Entity.unreferenced` — an entity without its references.
* `Relationship.RefersAt` — a relationship is read as a reference of an entity.
* `Graph.entityAt_congr`, `Graph.unreferenced_eq` — what the entity at a path is read from.
* `Inventory.Touches` — what has been changed at most; **`Inventory.WorksOn.touches_link`**,
  **`Inventory.WorksOn.touches_update`** — a link and an update of a relationship change no more.
-/

namespace Estate

open Layout Contents

/-- The fields of a kind without those that are read from edges. -/
def Entity.Details.unreferenced : Entity.Details → Entity.Details
  | .resourceType _ => .resourceType []
  | .resource _ => .resource none
  | .metric _ interval => .metric none interval
  | .metadataPack _ => .metadataPack []
  | details => details

/-- **An entity without its references.** -/
def Entity.unreferenced (e : Entity) : Entity :=
  { e with details := e.details.unreferenced }

/-- **A relationship is read as a reference** of the entity at a path: it has one of the names that
references have, and the entity is at the end that refers. -/
def Relationship.RefersAt (r : Relationship) (p : CanonicalPath) : Prop :=
  ∃ (name : WellKnown) (direction : Direction), name.reading = some direction ∧
    r.name = name.name ∧ r.MetAt p direction

/-- **No more has been changed** than the relationship with an id and the references of some
entities. -/
structure Inventory.Touches (i : Inventory) (id : String) (touched : CanonicalPath → Prop)
    (j : Inventory) : Prop where
  relationships : ∀ id' r, id' ≠ id → (j.Relates id' r ↔ i.Relates id' r)
  entities : ∀ p e, ¬ touched p → (j.Reads p e ↔ i.Reads p e)
  there : ∀ p, (∃ e, j.Reads p e) ↔ ∃ e, i.Reads p e
  fields : ∀ p e e', i.Reads p e → j.Reads p e' → e'.unreferenced = e.unreferenced

namespace Graph

variable {g g' : Graph} {v : VertexId} {p : CanonicalPath} {s s' : Supply}

/-! ## What is read at a path -/

/-- Fields that are not read from edges are the same in all graphs. -/
lemma readEntity_unreferenced (g g' : Graph) (v : VertexId) (row : Properties) (kind : Kind) :
    (g'.readEntity v row kind).map Entity.unreferenced =
      (g.readEntity v row kind).map Entity.unreferenced := by
  rw [readEntity, readEntity]
  cases path? row with
  | none => rfl
  | some q => cases kind <;> rfl

/-- Under an id the same is found if the same is stored. -/
lemma relation_congr (h : g.Readable) (h' : g'.Readable)
    (hi : g.contents.Identified s) (hi' : g'.contents.Identified s')
    {id : String} {r : Relationship}
    (hsame : r.id = id → (g'.contents.Stores r ↔ g.contents.Stores r)) :
    g'.relation id = .ok r ↔ g.relation id = .ok r := by
  rw [h.relation_eq_ok_iff hi, h'.relation_eq_ok_iff hi']
  exact and_congr_left hsame

section

variable (h : g.Readable) (h' : g'.Readable)
  (hvertex : g'.contents.vertex = g.contents.vertex)

include h in
/-- An entity is read wherever one is stored. -/
lemma exists_entityAt_iff :
    (∃ e, g.entityAt p = .ok (.entity e)) ↔ ∃ v, g.contents.EntityAt v p := by
  constructor
  · rintro ⟨e, he⟩
    by_contra hno
    rw [entityAt_missing h (not_exists.1 hno)] at he
    cases he
  · rintro ⟨v, hv⟩
    obtain ⟨row, hrow, -⟩ := hv.stored
    obtain ⟨e, hread, -⟩ := readEntity_ok hv (h.roles hv) hrow
    refine ⟨e, ?_⟩
    rw [entityAt_eq h hv hrow, hread]
    rfl

include hvertex in
lemma entityAt_iff_of_vertex : g'.contents.EntityAt v p ↔ g.contents.EntityAt v p :=
  ⟨fun hv => hv.congr (congrFun hvertex v).symm, fun hv => hv.congr (congrFun hvertex v)⟩

include h h' hvertex

/-- **At a path the same is read if the same references are.** -/
lemma entityAt_congr (hrelated : ∀ {v name direction q}, WellKnown.reading name = some direction →
    (g'.contents.Related v name direction q ↔ g.contents.Related v name direction q)) :
    g'.entityAt p = g.entityAt p := by
  have hentity {v : VertexId} := entityAt_iff_of_vertex (v := v) (p := p) hvertex
  by_cases hex : ∃ v, g.contents.EntityAt v p
  · obtain ⟨v, hv⟩ := hex
    obtain ⟨row, hrow, -⟩ := hv.stored
    have hsame : ∀ (name : WellKnown) direction, name.reading = some direction →
        g'.relatedPaths v name direction = g.relatedPaths v name direction :=
      fun name direction hread =>
        relatedPaths_congr h h' (WellKnown.reading_ne_both hread) fun q => hrelated hread
    rw [entityAt_eq h hv hrow, entityAt_eq h' (hentity.2 hv) ((congrFun hvertex v).trans hrow)]
    simp only [readEntity, readDetails_congr hsame]
  · have hno := not_exists.1 hex
    rw [entityAt_missing h hno, entityAt_missing h' fun v hv => hno v (hentity.1 hv)]

/-- **The references aside, the same is read in any case.** -/
lemma unreferenced_eq {e e' : Entity} (hread : g.entityAt p = .ok (.entity e))
    (hread' : g'.entityAt p = .ok (.entity e')) : e'.unreferenced = e.unreferenced := by
  obtain ⟨v, hv⟩ := (exists_entityAt_iff h).1 ⟨e, hread⟩
  obtain ⟨row, hrow, -⟩ := hv.stored
  rw [entityAt_eq h hv hrow] at hread
  rw [entityAt_eq h' ((entityAt_iff_of_vertex hvertex).2 hv)
    ((congrFun hvertex v).trans hrow)] at hread'
  obtain ⟨_, hentity, ⟨⟩⟩ := Refusal.map_eq_ok_iff.1 hread
  obtain ⟨_, hentity', ⟨⟩⟩ := Refusal.map_eq_ok_iff.1 hread'
  have hsame := readEntity_unreferenced g g' v row p.kind
  rw [hentity, hentity'] at hsame
  exact Except.ok.inj hsame

end

end Graph

/-! ## A link, and an update of a relationship -/

namespace Edit

variable {d d' : Draft} {name id : String} {source target p : CanonicalPath}
  {properties : Properties} {r : Relationship}

/-- An entity that a new relationship is no reference of is read as before. -/
lemma link_entityAt (hd : d.transaction.graph.Readable) (h' : d'.transaction.graph.Readable)
    (h : link name source target properties d = .ok r d') (hno : ¬ r.RefersAt p) :
    d'.transaction.graph.entityAt p = d.transaction.graph.entityAt p := by
  obtain ⟨-, new, hadded, hnew⟩ := link_adds ⟨hd.wellFormed, hd.sound⟩ h
  have hgrows : d.contents.Grows d'.contents := hadded ▸ hd.sound.grows_addEdge
  have hvertex : d'.contents.vertex = d.contents.vertex := by
    rw [hadded]
    rfl
  by_cases hex : ∃ v, d.contents.EntityAt v p
  · obtain ⟨v, hv⟩ := hex
    refine Graph.entityAt_kept hd h' hgrows hv (congrFun hvertex v) ?_
    rintro e edge he ⟨known, direction, hread, hlabel, hmet⟩
    have he' : (d.contents.addEdge new).edge e = some edge := hadded ▸ he
    rcases edge_addEdge_cases he' with ⟨rfl, rfl⟩ | hold
    · have hend := (hnew.metAt_iff h'.sound (hgrows.entity hv) direction).1 hmet
      exact absurd ⟨known, direction, hread, hnew.name.symm.trans hlabel, hend⟩ hno
    · exact hold
  · have hno := not_exists.1 hex
    rw [Graph.entityAt_missing hd hno, Graph.entityAt_missing h' fun v hv =>
      hno v ((Graph.entityAt_iff_of_vertex hvertex).1 hv)]

/-- An update of a relationship leaves the ends of all edges as they are. -/
lemma updateRelation_related (hd : d.transaction.graph.Readable)
    (h : updateRelation id properties d = .ok r d') {v : VertexId} {name : WellKnown}
    {direction : Direction} {q : CanonicalPath} :
    d'.contents.Related v name direction q ↔ d.contents.Related v name direction q := by
  obtain ⟨e, edge, he, -, -, hrelabels, -⟩ := updateRelation_rewords hd.wellFormed hd.labelled h
  have hother : ∀ {e'}, e' ≠ e → d'.contents.edge e' = d.contents.edge e' := fun hne => by
    rw [hrelabels.contents, edge_setEdge, Function.update_of_ne hne]
  have hentity {w : VertexId} : d'.contents.EntityAt w q ↔ d.contents.EntityAt w q := by
    rw [hrelabels.contents]
    exact ⟨fun h => h.congr rfl, fun h => h.congr rfl⟩
  constructor
  · rintro ⟨e', edge', he', hlabel, hmet, hq⟩
    by_cases heq : e' = e
    · subst heq
      obtain rfl := Option.some.inj (hrelabels.edge_eq.symm.trans he')
      exact ⟨e', edge, he, hlabel, hmet, hentity.1 hq⟩
    · exact ⟨e', edge', (hother heq).symm.trans he', hlabel, hmet, hentity.1 hq⟩
  · rintro ⟨e', edge', he', hlabel, hmet, hq⟩
    by_cases heq : e' = e
    · subst heq
      obtain rfl := Option.some.inj (he.symm.trans he')
      exact ⟨e', _, hrelabels.edge_eq, hlabel, hmet, hentity.2 hq⟩
    · exact ⟨e', edge', (hother heq).trans he', hlabel, hmet, hentity.2 hq⟩

/-- So all entities are read as before. -/
lemma updateRelation_entityAt (hd : d.transaction.graph.Readable)
    (h' : d'.transaction.graph.Readable) (h : updateRelation id properties d = .ok r d') :
    d'.transaction.graph.entityAt p = d.transaction.graph.entityAt p := by
  obtain ⟨e, edge, -, -, -, hrelabels, -⟩ := updateRelation_rewords hd.wellFormed hd.labelled h
  have hvertex : d'.contents.vertex = d.contents.vertex := by
    rw [hrelabels.contents]
    rfl
  exact Graph.entityAt_congr hd h' hvertex fun _ => updateRelation_related hd h

end Edit

namespace Inventory

variable {i j : Inventory} {t : Transaction} {d : Draft} {name id : String}
  {source target : CanonicalPath} {properties : Properties} {r : Relationship}

namespace WorksOn

lemma shows {g : Graph} (h : i.WorksOn g) : i.Shows g := by
  cases h with
  | alone free => exact .committed
  | bulk opened => exact .bulk opened

variable (hi : i.WorksOn t.graph) (hj : j.WorksOn d.transaction.graph) (tracedBefore : i.Traceable)
  (traced : j.Traceable)

include hi hj tracedBefore traced

/-- **A link changes no more** than the relationship that it answers and the entities that this is a
reference of. -/
theorem touches_link (h : Edit.link name source target properties ⟨t, i.supply⟩ = .ok r d) :
    i.Touches r.id r.RefersAt j := by
  have hd := tracedBefore _ hi.shows t.base t.dirty
  have hd' := traced _ hj.shows 0 false
  obtain ⟨-, new, hadded, -⟩ := Edit.link_adds hd.consistent h
  have hread : t.graph.Readable := hd.readable
  have hread' : d.transaction.graph.Readable := hd'.readable
  have hvertex : d.contents.vertex = t.graph.contents.vertex := by
    rw [hadded]
    rfl
  exact
    { relationships := fun id' r' hne => by
        rw [hj.relates_iff, hi.relates_iff]
        refine Graph.relation_congr hread hread' hd.identified hd'.identified ?_
        rintro rfl
        refine (Edit.link_stores hd.consistent h).trans (or_iff_left ?_)
        rintro rfl
        exact hne rfl
      entities := fun p e hno => by
        rw [hj.reads_iff, hi.reads_iff, Edit.link_entityAt hread hread' h hno]
      there := fun p => by
        simp only [hj.reads_iff, hi.reads_iff]
        rw [Graph.exists_entityAt_iff hread', Graph.exists_entityAt_iff hread]
        exact exists_congr fun v => Graph.entityAt_iff_of_vertex hvertex
      fields := fun p e e' he he' => Graph.unreferenced_eq hread hread' hvertex
        (hi.reads_iff.1 he) (hj.reads_iff.1 he') }

/-- **An update of a relationship changes no more** than this. -/
theorem touches_update (h : Edit.updateRelation id properties ⟨t, i.supply⟩ = .ok r d) :
    i.Touches id (fun _ => False) j := by
  have hd := tracedBefore _ hi.shows t.base t.dirty
  have hd' := traced _ hj.shows 0 false
  have hread : t.graph.Readable := hd.readable
  have hread' : d.transaction.graph.Readable := hd'.readable
  have hentity : ∀ p e, j.Reads p e ↔ i.Reads p e := fun p e => by
    rw [hj.reads_iff, hi.reads_iff, Edit.updateRelation_entityAt hread hread' h]
  exact
    { relationships := fun id' r' hne => by
        rw [hj.relates_iff, hi.relates_iff]
        refine Graph.relation_congr hread hread' hd.identified hd'.identified ?_
        rintro rfl
        refine (Edit.updateRelation_stores hd h).2.trans ⟨?_, ?_⟩
        · rintro ⟨y, hy, hsame⟩
          split at hsame
          · next hid =>
              subst hsame
              exact absurd hid hne
          · exact hsame ▸ hy
        · exact fun hr => ⟨r', hr, if_neg hne⟩
      entities := fun p e _ => hentity p e
      there := fun p => exists_congr (hentity p)
      fields := fun p e e' he he' => by
        cases (hi.reads_iff.1 he).symm.trans (hi.reads_iff.1 ((hentity p e').1 he'))
        rfl }

end WorksOn

end Inventory

end Estate
