import Estate.Proofs.Inventory.Ledger
import Estate.Proofs.Inventory.Lookups
import Estate.Proofs.Query.Roles

/-!
# What is told of a relationship

A relationship is told by its id, by its path, and by every query that comes upon it.  All of this
is read from the one edge that has the id, so that what is known under the id is all that is ever
told of it, and every query that comes upon it tells just that.

* `Inventory.Answers` — a query answers an item, on a page, as a whole or first.
* `Inventory.answers_relationship_iff` — the relationships that a query answers.
* `Inventory.TellsOf`, `Inventory.Tells` — what is told under an id.
* **`Inventory.Records.tells`** — what a ledger notes is told.
-/

namespace Estate

open Layout Contents

/-- An entity is the source of a relationship, its target, or one of the two. -/
def Relationship.MetAt (r : Relationship) (p : CanonicalPath) : Direction → Prop
  | .outgoing => r.source = p
  | .incoming => r.target = p
  | .both => r.source = p ∨ r.target = p

namespace Inventory

/-- **A query answers an item**: on one of its pages, as a whole, or as the first that it finds. -/
inductive Answers (i : Inventory) (s : Selection) (item : Item) : Prop
  | page {p : Pager} {page : Page Item} (answered : Service.page s p i = .ok page i)
      (mem : item ∈ page.items)
  | all {items : List Item} (answered : Service.all s i = .ok items i) (mem : item ∈ items)
  | first (answered : Service.first? s i = .ok (some item) i)

/-- **What is told under an id** while no bulk is open: a relationship, or that there is none. -/
structure TellsOf (i : Inventory) (id : String) (o : Option Relationship) : Prop where
  relation : Service.relation id i =
    o.elim (.error (.refused (.relationIdNotFound id)) i) (.ok · i)
  get : Service.get (.relationship id) i =
    o.elim (.error (.refused (.notFound (.relationship id))) i) fun r => .ok (.relationship r) i
  /-- Whatever is asked for, the relationship is answered if it is found. -/
  queries : ∀ s, ∃ paths, Service.paths s i = .ok paths i ∧ ∀ r, r.id = id →
    (i.Answers s (.relationship r) ↔ o = some r ∧ r.path ∈ paths)
  /-- Among all relationships it is found. -/
  all : ∀ r, r.id = id → (i.Answers (.relations []) (.relationship r) ↔ o = some r)
  /-- Among those of an entity it is found if the entity is the right end. -/
  ofEntity : ∀ p direction r, r.id = id →
    (i.Answers (.relationsOf p direction) (.relationship r) ↔ o = some r ∧ r.MetAt p direction)

/-- **An inventory tells what a ledger notes** of the relationship with an id: by its operations,
of the shared graph, and in an open bulk. -/
structure Tells (i : Inventory) (id : String) (l : Ledger) : Prop where
  free : i.bulk = none → i.TellsOf id l.shared
  shared : i.store.graph.relation id = l.shared.elim (.error (.relationIdNotFound id)) .ok
  bulk : ∀ t created, i.bulk = some ⟨some t, created⟩ → Service.peekBulk (·.relation id) i =
    l.bulk.elim (.error (.refused (.relationIdNotFound id)) i) (.ok · i)

end Inventory

variable {g : Graph} {x : Element} {wanted : Wanted} {r : Relationship} {edge : Edge} {e : EdgeId}
  {id : String} {l : Ledger} {s : Selection} {item : Item}

/-! ## What is read as a relationship -/

/-- A relationship is met at an entity as its edge is met at the vertex. -/
lemma Contents.Describes.metAt_iff {c : Contents} {v : VertexId} {p : CanonicalPath}
    (h : c.Describes edge r) (hc : c.Sound) (hv : c.EntityAt v p) (direction : Direction) :
    edge.MetAt v direction ↔ r.MetAt p direction := by
  have hend {w : VertexId} {q : CanonicalPath} (hw : c.EntityAt w q) : w = v ↔ q = p := by
    constructor
    · rintro rfl
      exact hw.path_unique hv
    · rintro rfl
      exact hc.unique hw hv
  cases direction with
  | outgoing => exact hend h.source
  | incoming => exact hend h.target
  | both => exact or_congr (hend h.source) (hend h.target)

namespace Graph.Readable

variable (h : g.Readable)

include h

/-- An edge is read as what it describes, whether relationships or anything is wanted. -/
lemma read?_edge (he : g.edge? e = some edge) (hr : g.contents.Describes edge r) :
    Wanted.relationships.read? g (.edge e) = .ok (some (.relationship r)) ∧
      Wanted.anything.read? g (.edge e) = .ok (some (.relationship r)) := by
  obtain ⟨r', hread, hrelationships, hanything, -⟩ := h.relationship he
  obtain rfl := Except.ok.inj ((readRelationship_eq hr).symm.trans hread)
  exact ⟨hrelationships, hanything⟩

/-- **Only edges are read as relationships**, each as what it describes. -/
lemma read?_relationship_iff (hx : g.contents.Provides wanted x) :
    wanted.read? g x = .ok (some (.relationship r)) ↔
      ∃ e edge, x = .edge e ∧ g.edge? e = some edge ∧ g.contents.Describes edge r := by
  have hedge {e : EdgeId} {edge : Edge} (he : g.edge? e = some edge)
      (hboth : ∀ r, g.contents.Describes edge r →
        wanted.read? g (.edge e) = .ok (some (.relationship r))) :
      wanted.read? g (.edge e) = .ok (some (.relationship r)) ↔
        ∃ e' edge, Element.edge e = .edge e' ∧ g.edge? e' = some edge ∧
          g.contents.Describes edge r := by
    obtain ⟨r', hr'⟩ := h.sound.describes h.labelled he
    constructor
    · intro hread
      cases (hboth r' hr').symm.trans hread
      exact ⟨e, edge, rfl, he, hr'⟩
    · rintro ⟨_, edge', ⟨⟩, he', hr⟩
      obtain rfl := Option.some.inj (he.symm.trans he')
      exact hboth r hr
  cases hx with
  | entity hq =>
      obtain ⟨entity, hread, -⟩ := h.entity hq
      simp [hread]
  | anyEntity hq =>
      obtain ⟨entity, -, hread, -⟩ := h.entity hq
      simp [hread]
  | relationship he => exact hedge he fun r hr => (h.read?_edge he hr).1
  | anyRelationship he => exact hedge he fun r hr => (h.read?_edge he hr).2

end Graph.Readable

namespace Selection

/-- What is on a page is read of an element of the selection. -/
lemma exists_of_mem_page {digest : String → String} {limit : UInt64} {p : Pager} {page : Page Item}
    (h : g.Readable) (hpage : s.page digest limit p g = .ok page) (mem : item ∈ page.items) :
    ∃ x ∈ s.elements digest g, s.wanted.read? g x = .ok (some item) := by
  obtain ⟨items, hread⟩ := exists_readAs h s
    fun x (hx : x ∈ s.listing digest g p) => ((mem_listing h).1 hx).2
  cases (page_eq hread limit).symm.trans hpage
  have hitem : item ∈ items := by
    simp only [Pager.slice, List.extract_eq_take_drop] at mem
    exact List.mem_of_mem_drop (List.mem_of_mem_take mem)
  obtain ⟨x, hx, hitem⟩ := hread.mem_iff.1 hitem
  exact ⟨x, listing_perm.mem_iff.1 hx, hitem⟩

/-- The path of a relationship is listed if an edge with the id is found. -/
lemma relationship_mem_paths_iff {digest : String → String} (h : g.Readable) :
    CanonicalPath.relationship id ∈ s.paths digest g ↔
      ∃ e edge, g.edge? e = some edge ∧ relationId? edge = some id ∧
        .edge e ∈ s.elements digest g := by
  rw [paths, (List.mergeSort_perm _ _).mem_iff, List.mem_filterMap]
  constructor
  · rintro ⟨x, hx, hpath⟩
    cases x with
    | vertex v =>
        have hv := (Graph.elementPath?_vertex h.sound.toAddressed).1 hpath
        exact absurd rfl hv.legal.kind_ne
    | edge e =>
        obtain ⟨edge, id', he, hid, hsame⟩ := Graph.elementPath?_edge.1 hpath
        obtain rfl : id = id' := congrArg CanonicalPath.id hsame
        exact ⟨e, edge, he, hid, hx⟩
  · rintro ⟨e, edge, he, hid, hx⟩
    exact ⟨_, hx, Graph.elementPath?_edge.2 ⟨edge, id, he, hid, rfl⟩⟩

end Selection

namespace Inventory

open Service

variable {i : Inventory} {o : Option Relationship}

/-! ## What queries answer -/

section Free

variable (free : i.bulk = none) (h : i.store.graph.Readable)

include free h

/-- **A query answers what its elements are read as**, on its pages, as a whole and first. -/
theorem answers_iff : i.Answers s item ↔ ∃ x ∈ s.elements Digest.md5 i.store.graph,
    s.wanted.read? i.store.graph x = .ok (some item) := by
  constructor
  · intro hanswers
    cases hanswers with
    | @page p page answered mem =>
        have hread : Service.read (s.page Digest.md5 i.config.maxPageSize p) i = .ok page i :=
          answered
        exact s.exists_of_mem_page h ((read_eq_ok_iff free).1 hread) mem
    | @all items answered mem =>
        have hread : Service.read (s.all Digest.md5 i.config.maxPageSize) i = .ok items i :=
          answered
        obtain ⟨page, hpage, rfl⟩ := Refusal.map_eq_ok_iff.1 ((read_eq_ok_iff free).1 hread)
        exact s.exists_of_mem_page h hpage mem
    | first answered =>
        have hread : Service.read (s.first? Digest.md5 i.config.maxPageSize) i =
            .ok (some item) i := answered
        obtain ⟨page, hpage, hhead⟩ := Refusal.map_eq_ok_iff.1 ((read_eq_ok_iff free).1 hread)
        exact s.exists_of_mem_page h hpage (List.mem_of_head? hhead)
  · rintro ⟨x, hx, hitem⟩
    obtain ⟨items, hall, hread⟩ := all_free free h s
    exact .all hall (hread.mem_iff.2 ⟨x, Selection.listing_perm.mem_iff.2 hx, hitem⟩)

/-- **The relationships that a query answers** are what the edges describe that it leads to. -/
theorem answers_relationship_iff : i.Answers s (.relationship r) ↔
    ∃ e edge, i.store.graph.edge? e = some edge ∧ i.store.graph.contents.Describes edge r ∧
      .edge e ∈ s.elements Digest.md5 i.store.graph := by
  rw [answers_iff free h]
  constructor
  · rintro ⟨x, hx, hread⟩
    obtain ⟨e, edge, rfl, he, hr⟩ :=
      (h.read?_relationship_iff ((Selection.mem_elements h).1 hx).2).1 hread
    exact ⟨e, edge, he, hr, hx⟩
  · rintro ⟨e, edge, he, hr, hx⟩
    exact ⟨_, hx, (h.read?_relationship_iff ((Selection.mem_elements h).1 hx).2).2
      ⟨e, edge, rfl, he, hr⟩⟩

/-- All relationships are what the edges describe. -/
lemma answers_relations_iff : i.Answers (.relations []) (.relationship r) ↔
    i.store.graph.contents.Stores r := by
  have hall : ∀ {e edge}, i.store.graph.edge? e = some edge →
      .edge e ∈ (Selection.relations []).elements Digest.md5 i.store.graph := fun {e edge} he => by
    refine (Selection.mem_elements h).2 ⟨?_, .relationship he⟩
    show .edge e ∈ ({} : Reach).union (.ofEdges i.store.graph.edges.keys)
    rw [Reach.mem_union, or_iff_right Reach.not_mem_empty, Reach.mem_ofEdges]
    refine ⟨e, ?_, rfl⟩
    rw [Std.ExtTreeMap.mem_keys, Graph.mem_edges_iff, he]
    rfl
  rw [answers_relationship_iff free h]
  constructor
  · rintro ⟨e, edge, he, hr, -⟩
    exact ⟨e, edge, he, hr⟩
  · rintro ⟨e, edge, he, hr⟩
    exact ⟨e, edge, he, hr, hall he⟩

/-- Those of an entity are the ones that are met there. -/
lemma answers_relationsOf_iff {p : CanonicalPath} {direction : Direction} :
    i.Answers (.relationsOf p direction) (.relationship r) ↔
      i.store.graph.contents.Stores r ∧ r.MetAt p direction := by
  have hmet : ∀ {e edge}, i.store.graph.edge? e = some edge →
      i.store.graph.contents.Describes edge r →
      (.edge e ∈ (Selection.relationsOf p direction).elements Digest.md5 i.store.graph ↔
        r.MetAt p direction) := fun {e edge} he hr => by
    rw [Selection.mem_elements h, and_iff_left (.relationship he)]
    show .edge e ∈ i.store.graph.toRelationships direction (i.store.graph.atPaths [p]) ↔ _
    rw [Graph.mem_toRelationships h.wellFormed]
    constructor
    · rintro ⟨v, _, edge', hv, he', hmet, ⟨⟩⟩
      obtain rfl := Option.some.inj (he.symm.trans he')
      obtain ⟨q, hq, hsame⟩ := (Graph.vertex_mem_atPaths h.wellFormed h.sound.toAddressed).1
        (Reach.mem_vertex.2 hv)
      obtain rfl := List.mem_singleton.1 hsame
      exact (hr.metAt_iff h.sound hq direction).1 hmet
    · intro hmet
      obtain ⟨v, hv⟩ : ∃ v, i.store.graph.contents.EntityAt v p := by
        cases direction with
        | outgoing => exact ⟨_, hmet ▸ hr.source⟩
        | incoming => exact ⟨_, hmet ▸ hr.target⟩
        | both => exact hmet.elim (fun h => ⟨_, h ▸ hr.source⟩) fun h => ⟨_, h ▸ hr.target⟩
      refine ⟨v, e, edge, Reach.mem_vertex.1 ?_, he, (hr.metAt_iff h.sound hv direction).2 hmet,
        rfl⟩
      exact (Graph.vertex_mem_atPaths h.wellFormed h.sound.toAddressed).2
        ⟨p, hv, List.mem_singleton_self p⟩
  rw [answers_relationship_iff free h]
  constructor
  · rintro ⟨e, edge, he, hr, hx⟩
    exact ⟨⟨e, edge, he, hr⟩, (hmet he hr).1 hx⟩
  · rintro ⟨⟨e, edge, he, hr⟩, hend⟩
    exact ⟨e, edge, he, hr, (hmet he hr).2 hend⟩

/-- **What is known under an id is told.** -/
theorem tellsOf (hi : i.store.graph.contents.Identified i.supply)
    (hk : i.store.graph.contents.Knows id o) : i.TellsOf id o := by
  have hrelation : Service.relation id i =
      o.elim (.error (.refused (.relationIdNotFound id)) i) (.ok · i) := by
    rw [Service.relation, read_free free, h.relation_eq hi hk]
    cases o <;> rfl
  exact
    { relation := hrelation
      get := by
        cases findsRelation free h id with
        | found _ same relation get =>
            cases o with
            | none => cases hrelation.symm.trans relation
            | some r =>
                cases hrelation.symm.trans relation
                exact get
        | missing _ relation get =>
            cases o with
            | none => exact get
            | some r => cases hrelation.symm.trans relation
        | busy opened => exact absurd free opened
      queries := fun s => by
        refine ⟨s.paths Digest.md5 i.store.graph, (read_eq_ok_iff free).2 rfl, ?_⟩
        rintro r rfl
        rw [answers_relationship_iff free h, Relationship.path,
          Selection.relationship_mem_paths_iff h]
        constructor
        · rintro ⟨e, edge, he, hr, hx⟩
          exact ⟨(hk r).1 ⟨⟨e, edge, he, hr⟩, rfl⟩, e, edge, he, hr.id, hx⟩
        · rintro ⟨rfl, e, edge, he, hid, hx⟩
          obtain ⟨r', hr'⟩ := h.sound.describes h.labelled he
          have hsame := (hk r').1 ⟨⟨e, edge, he, hr'⟩, Option.some.inj (hr'.id.symm.trans hid)⟩
          obtain rfl := Option.some.inj hsame
          exact ⟨e, edge, he, hr', hx⟩
      all := by
        rintro r rfl
        rw [answers_relations_iff free h, ← hk r, and_iff_left rfl]
      ofEntity := by
        rintro p direction r rfl
        rw [answers_relationsOf_iff free h, ← hk r, and_iff_left rfl] }

end Free

/-! ## What a ledger notes -/

/-- **What is noted is told.** -/
theorem Records.tells (h : i.Records id l) (hi : i.Traceable) : i.Tells id l := by
  have hshared := hi _ .committed 0 false
  refine ⟨fun free => tellsOf free hshared.readable hshared.identified h.shared,
    hshared.readable.relation_eq hshared.identified h.shared, fun t created opened => ?_⟩
  have hopened := hi _ (.bulk opened) 0 false
  have hread := hopened.readable.relation_eq hopened.identified (h.bulk t created opened)
  rw [peekBulk, opened]
  show ofCheck (t.graph.relation id) i = _
  rw [hread]
  cases l.bulk <;> rfl

end Inventory

end Estate
