import Estate.Proofs.Inventory.Paging

/-!
# Lookups agree

There are four ways to an entity.  Whether it is there is told by the index; the handle of its path
reads the vertex that the index gives; the path taken as a query reads whatever it leads to; and the
listing of its siblings goes from the parent over the containments.  In every state they find the
same entity or none.  So do the two ways to a relationship, by its id and by its path.

* `Siblings.Offered` — the siblings that an inventory hands out; `CanonicalPath.siblings` — those
  at a path.
* `Siblings.mem_listing` — the entities among them.
* `Selection.listing_jump`, `Selection.listing_jump_relationship` — what a path leads to.
* `Inventory.FindsEntity`, `Inventory.ListsSiblings`, `Inventory.FindsRelation` — the answers that
  lookups may give.
* **`Inventory.lookups_agree`** — they give no others, in every state.
-/

namespace Estate

open Layout

/-- The siblings that an inventory hands out: the tenants, and the entities of a kind below a path
that may hold them. -/
inductive Siblings.Offered : Siblings → Prop
  | tenants : Offered .tenants
  | below {parent : CanonicalPath} {kind : Kind} {s : Siblings}
      (h : Siblings.below parent kind = .ok s) : s.Offered

/-- The siblings at a path. -/
def CanonicalPath.siblings (p : CanonicalPath) : Except RegistryError Siblings :=
  match p.up? with
  | some parent => Siblings.below parent p.kind
  | none => .ok .tenants

variable {g : Graph} {p : CanonicalPath} {v : VertexId} {x : Element} {digest : String → String}

namespace Siblings

variable {s : Siblings}

lemma below_eq_ok_iff {parent : CanonicalPath} {kind : Kind} :
    below parent kind = .ok s ↔ parent.kind.canContain kind ∧ s = ⟨some parent, kind⟩ := by
  rw [below, CanonicalPath.checkChild]
  split
  · next h => exact ⟨fun heq => ⟨h, (Except.ok.inj heq).symm⟩, fun ⟨_, heq⟩ => heq ▸ rfl⟩
  · next h => exact ⟨nofun, fun ⟨h', _⟩ => absurd h' h⟩

/-- The query for siblings leads from the parent to its children of the kind. -/
lemma mem_elements (h : g.Readable) (hs : s.Offered) :
    x ∈ (s.selection []).query.elements digest g ↔
      ∃ v p, x = .vertex v ∧ g.contents.EntityAt v p ∧ p.up? = s.parent ∧ p.kind = s.kind := by
  cases hs with
  | tenants =>
      show x ∈ g.ofKinds [.tenant] ↔ _
      rw [Graph.mem_ofKinds h.wellFormed h.sound.toAddressed (by decide)]
      refine exists₂_congr fun v p => and_congr_right fun _ => and_congr_right fun hp => ?_
      exact (and_iff_right_of_imp hp.legal.kind_eq_tenant_iff.1).symm
  | @below parent kind s hbelow =>
      obtain ⟨hfits, rfl⟩ := below_eq_ok_iff.1 hbelow
      have hparent : parent.kind ≠ .relationship := fun heq => by
        rw [heq] at hfits
        cases hfits
      show x ∈ (g.hop (.name WellKnown.contains.name) .source (g.atPaths [parent])).filter
        (g.keeps (.withKinds [kind])) ↔ _
      rw [Reach.mem_filter, Graph.mem_hop_children h.wellFormed]
      constructor
      · rintro ⟨⟨v, w, hv, hcontains, rfl⟩, hkeeps⟩
        obtain ⟨v', hv', heq⟩ := (Graph.mem_atPaths_entity h.wellFormed h.sound.toAddressed
          hparent).1 (Reach.mem_vertex.2 hv)
        obtain rfl := Element.vertex.inj heq
        obtain ⟨p, q, hp, hq, hup⟩ := h.sound.contains_ends hcontains
        obtain rfl := hp.path_unique hv'
        rw [Graph.keeps_withKinds hq, List.contains_iff_mem, List.mem_singleton] at hkeeps
        exact ⟨w, q, rfl, hq, hup, hkeeps⟩
      · rintro ⟨w, q, rfl, hq, hup, rfl⟩
        obtain ⟨e, edge, he, hcontains, hsource, htarget⟩ := h.sound.owner hq hup
        refine ⟨⟨edge.source, w, ?_, ⟨e, edge, he, hcontains, rfl, htarget⟩, rfl⟩, ?_⟩
        · exact (Graph.mem_atPaths_entity h.wellFormed h.sound.toAddressed hparent).2
            ⟨edge.source, hsource, rfl⟩
        · rw [Graph.keeps_withKinds hq, List.contains_iff_mem, List.mem_singleton]

/-- **The entities among siblings** are the children of the parent of that kind. -/
theorem mem_listing (h : g.Readable) (hs : s.Offered) {pager : Pager} :
    x ∈ (s.selection []).listing digest g pager ↔
      ∃ v p, x = .vertex v ∧ g.contents.EntityAt v p ∧ p.up? = s.parent ∧ p.kind = s.kind := by
  rw [Selection.mem_listing h, mem_elements h hs]
  refine and_iff_left_of_imp ?_
  rintro ⟨v, p, rfl, hp, -, hkind⟩
  show g.contents.Provides (.entities s.kind) _
  exact hkind ▸ .entity hp

end Siblings

/-- Every entity has siblings. -/
lemma CanonicalPath.Placed.siblings (hp : p.Placed) (hkind : p.kind ≠ .relationship) :
    ∃ s, p.siblings = .ok s ∧ s.Offered ∧ p.up? = s.parent ∧ p.kind = s.kind := by
  cases hup : p.up? with
  | none =>
      have hroot : p.root = p.last := by simp [CanonicalPath.root, up?_eq_none_iff.1 hup]
      refine ⟨.tenants, by rw [CanonicalPath.siblings, hup], .tenants, rfl, ?_⟩
      rw [kind, ← hroot, hp.root_kind hkind]
      rfl
  | some parent =>
      have hbelow := Siblings.below_eq_ok_iff.2 ⟨hp.canContain hup, rfl⟩
      exact ⟨_, by simp only [CanonicalPath.siblings, hup, hbelow], .below hbelow, rfl, rfl⟩

/-! ## Where paths lead -/

namespace Selection

lemma mem_listing_jump (h : g.Readable) (hkind : p.kind ≠ .relationship) {pager : Pager} :
    x ∈ (anything (.path p)).listing digest g pager ↔
      ∃ v, g.contents.EntityAt v p ∧ x = .vertex v := by
  rw [mem_listing h]
  show x ∈ (Query.path p).elements digest g ∧ _ ↔ _
  rw [Query.elements, Query.run_path, Position.reach,
    Graph.mem_atPaths_entity h.wellFormed h.sound.toAddressed hkind]
  refine and_iff_left_of_imp ?_
  rintro ⟨v, hv, rfl⟩
  exact .anyEntity hv

/-- **The path of an entity leads to it alone.** -/
lemma listing_jump (h : g.Readable) (hv : g.contents.EntityAt v p) {pager : Pager} :
    (anything (.path p)).listing digest g pager = [.vertex v] := by
  refine List.perm_singleton.1 ((List.perm_ext_iff_of_nodup nodup_listing
    (List.nodup_singleton _)).2 fun x => ?_)
  rw [mem_listing_jump h hv.legal.kind_ne, List.mem_singleton]
  constructor
  · rintro ⟨w, hw, rfl⟩
    rw [h.sound.unique hw hv]
  · rintro rfl
    exact ⟨v, hv, rfl⟩

/-- A path at which no entity is stored leads nowhere. -/
lemma listing_jump_missing (h : g.Readable) (hkind : p.kind ≠ .relationship)
    (hno : ∀ v, ¬ g.contents.EntityAt v p) {pager : Pager} :
    (anything (.path p)).listing digest g pager = [] := by
  refine List.eq_nil_iff_forall_not_mem.2 fun x hx => ?_
  obtain ⟨v, hv, -⟩ := (mem_listing_jump h hkind).1 hx
  exact hno v hv

/-- **The path of a relationship leads to the edges with its id**, in order.  All of them have the
same path, so that sorting by path does not move them. -/
lemma listing_jump_relationship (digest : String → String) (h : g.Readable) (id : String) :
    (anything (.path (.relationship id))).listing digest g {} =
      (g.relationEdges id).map .edge := by
  have hstored : ∀ e ∈ g.relationEdges id, ∃ edge, g.edge? e = some edge ∧
      edge.properties[idKey]? = some (.string id) := fun e he => by
    obtain ⟨edge, he, hid⟩ := (Graph.mem_relationEdges h.wellFormed h.labelled).1 he
    exact ⟨edge, he, Graph.relationId?_eq_some.1 hid⟩
  have helements : (anything (.path (.relationship id))).elements digest g =
      (g.relationEdges id).map .edge := by
    have hreached : (Query.path (.relationship id)).elements digest g =
        ({} : Reach).union (.ofEdges (g.relationEdges id)) := rfl
    have hsorted : (g.relationEdges id).Pairwise (· < ·) := g.pairwise_edgesBy _ _
    show ((Query.path (.relationship id)).elements digest g).toList.filter _ = _
    rw [hreached, Reach.empty_union, Graph.toList_ofEdges hsorted, List.filter_eq_self]
    intro x hx
    obtain ⟨e, he, rfl⟩ := List.mem_map.1 hx
    obtain ⟨edge, hedge, -⟩ := hstored e he
    exact Option.isSome_iff_exists.2 ⟨edge, hedge⟩
  have hkey : ∀ e ∈ g.relationEdges id, g.sortKey "path" (.edge e) = some (.string id) :=
    fun e he => by
      obtain ⟨edge, hedge, hid⟩ := hstored e he
      rw [Graph.sortKey, hedge]
      exact hid
  rw [listing, helements]
  refine sortRows_of_tied _ (fun x => ⟨[g.sortKey "path" x], rfl⟩) fun x hx y hy => ?_
  obtain ⟨e, he, rfl⟩ := List.mem_map.1 hx
  obtain ⟨e', he', rfl⟩ := List.mem_map.1 hy
  exact Subtype.ext (congrArg ([·]) ((hkey e he).trans (hkey e' he').symm))

end Selection

namespace Inventory

/-! ## The answers of lookups -/

/-- **The lookups of an entity** find the same entity if one is stored, and find none if there is
none.  Only while a bulk is open all of them are refused. -/
inductive FindsEntity (i : Inventory) (p : CanonicalPath) (s : Siblings) : Prop
  | found {e : Entity} {items : List Item}
      (stored : ∃ v, i.store.graph.contents.EntityAt v p) (path : e.path = p)
      (contains : Service.contains p i = .ok true i)
      (entity : Service.entity p i = .ok (.entity e) i)
      (get : Service.get p i = .ok (.entity e) i)
      (all : Service.all (s.selection []) i = .ok items i)
      (listed : ∀ item, item ∈ items ∧ item.path = p ↔ item = .entity e)
  | missing {items : List Item} (absent : ∀ v, ¬ i.store.graph.contents.EntityAt v p)
      (contains : Service.contains p i = .ok false i)
      (entity : Service.entity p i = .error (.refused (.notFound p)) i)
      (get : Service.get p i = .error (.refused (.notFound p)) i)
      (all : Service.all (s.selection []) i = .ok items i)
      (unlisted : ∀ item ∈ items, item.path ≠ p)
  | busy (opened : i.bulk ≠ none) (contains : Service.contains p i = .error .busy i)
      (entity : Service.entity p i = .error .busy i)
      (get : Service.get p i = .error .busy i)
      (all : Service.all (s.selection []) i = .error .busy i)

/-- **The listing of siblings** shows each entity of the kind directly below the parent once, and
shows the paths of all that are stored there. -/
inductive ListsSiblings (i : Inventory) (s : Siblings) : Prop
  | listed {items : List Item} (all : Service.all (s.selection []) i = .ok items i)
      (once : (items.map Item.path).Nodup)
      (mem : ∀ item, item ∈ items ↔
        ∃ p, p.up? = s.parent ∧ p.kind = s.kind ∧ Service.entity p i = .ok item i ∧ item.path = p)
      (stored : ∀ p, p ∈ items.map Item.path ↔
        p.up? = s.parent ∧ p.kind = s.kind ∧ ∃ v, i.store.graph.contents.EntityAt v p)
  | busy (opened : i.bulk ≠ none) (all : Service.all (s.selection []) i = .error .busy i)

/-- **The lookups of a relationship**, by its id and by its path, find the same relationship if one
is stored under the id, and find none if there is none. -/
inductive FindsRelation (i : Inventory) (id : String) : Prop
  | found {r : Relationship}
      (stored : ∃ e edge, i.store.graph.edge? e = some edge ∧ relationId? edge = some id)
      (same : r.id = id)
      (relation : Service.relation id i = .ok r i)
      (get : Service.get (.relationship id) i = .ok (.relationship r) i)
  | missing (absent : ∀ e edge, i.store.graph.edge? e = some edge → relationId? edge ≠ some id)
      (relation : Service.relation id i = .error (.refused (.relationIdNotFound id)) i)
      (get : Service.get (.relationship id) i =
        .error (.refused (.notFound (.relationship id))) i)
  | busy (opened : i.bulk ≠ none) (relation : Service.relation id i = .error .busy i)
      (get : Service.get (.relationship id) i = .error .busy i)

variable {i : Inventory} {s : Siblings} {item : Item}

/-! ## While a bulk is open -/

lemma all_busy (hbulk : i.bulk ≠ none) (s : Selection) : Service.all s i = .error .busy i :=
  read_busy hbulk (s.all Digest.md5 i.config.maxPageSize)

lemma get_busy (hbulk : i.bulk ≠ none) (p : CanonicalPath) : Service.get p i = .error .busy i := by
  simp only [Service.get, bind, EStateM.bind, all_busy hbulk]

/-! ## Without a bulk -/

section Free

variable (free : i.bulk = none)

include free

lemma contains_free : Service.contains p i = .ok (i.store.graph.locate? p).isSome i :=
  read_free free _

variable (h : i.store.graph.Readable)

include h

/-- A selection is read as a whole. -/
lemma all_free (s : Selection) : ∃ items, Service.all s i = .ok items i ∧
    s.ReadAs i.store.graph (s.listing Digest.md5 i.store.graph {}) items := by
  obtain ⟨items, hread⟩ := Selection.exists_readAs h s
    fun x (hx : x ∈ s.listing Digest.md5 i.store.graph {}) => ((Selection.mem_listing h).1 hx).2
  exact ⟨items, (lists_of_readAs h free hread).all rfl, hread⟩

/-- What a path leads to first is returned. -/
lemma get_found {xs : List Element}
    (hlisting : (Selection.anything (.path p)).listing Digest.md5 i.store.graph {} = x :: xs)
    (hread : Wanted.anything.read? i.store.graph x = .ok (some item)) :
    Service.get p i = .ok item i := by
  obtain ⟨items, hall, hitems⟩ := all_free free h (.anything (.path p))
  rw [hlisting] at hitems
  cases hitems with
  | cons hfirst _ =>
      obtain rfl := Option.some.inj (Except.ok.inj (hread.symm.trans hfirst.1))
      simp only [Service.get, bind, EStateM.bind, hall]
      rfl

/-- What leads nowhere is not found. -/
lemma get_missing
    (hlisting : (Selection.anything (.path p)).listing Digest.md5 i.store.graph {} = []) :
    Service.get p i = .error (.refused (.notFound p)) i := by
  obtain ⟨items, hall, hitems⟩ := all_free free h (.anything (.path p))
  rw [hlisting] at hitems
  cases hitems
  simp only [Service.get, bind, EStateM.bind, hall]
  rfl

/-! ### Entities -/

/-- The entity at a vertex is returned. -/
lemma entity_found (hv : i.store.graph.contents.EntityAt v p)
    (hread : (Wanted.entities p.kind).read? i.store.graph (.vertex v) = .ok (some item)) :
    Service.entity p i = .ok item i := by
  have hlocate := (Graph.locate?_eq_some_iff h.wellFormed h.sound.toAddressed).2 hv
  rw [Service.entity, read_free free, Graph.entityAt, Graph.require, hlocate]
  simp only [bind, Except.bind, hread]
  rfl

lemma entity_missing (hno : ∀ v, ¬ i.store.graph.contents.EntityAt v p) :
    Service.entity p i = .error (.refused (.notFound p)) i := by
  have hlocate := (Graph.locate?_eq_none_iff h.wellFormed h.sound.toAddressed).2 hno
  rw [Service.entity, read_free free, Graph.entityAt, Graph.require, hlocate]
  rfl

/-- What is returned at a path has been read from its vertex. -/
lemma entity_eq_ok_iff : Service.entity p i = .ok item i ↔
    ∃ v, i.store.graph.contents.EntityAt v p ∧
      (Wanted.entities p.kind).read? i.store.graph (.vertex v) = .ok (some item) := by
  constructor
  · intro hentity
    by_cases hex : ∃ v, i.store.graph.contents.EntityAt v p
    · obtain ⟨v, hv⟩ := hex
      obtain ⟨e, hread, -⟩ := h.entity hv
      rw [entity_found free h hv hread] at hentity
      injection hentity with hitem
      exact ⟨v, hv, hitem ▸ hread⟩
    · rw [entity_missing free h (not_exists.1 hex)] at hentity
      cases hentity
  · rintro ⟨v, hv, hread⟩
    exact entity_found free h hv hread

/-- The entity that is returned at a path has this path. -/
lemma path_of_entity (hentity : Service.entity p i = .ok item i) : item.path = p := by
  obtain ⟨v, hv, hread⟩ := (entity_eq_ok_iff free h).1 hentity
  obtain ⟨e, hread', -, hpath⟩ := h.entity hv
  obtain rfl := Option.some.inj (Except.ok.inj (hread.symm.trans hread'))
  exact hpath

/-- **Siblings are listed**, each once. -/
theorem listsSiblings (hs : s.Offered) : i.ListsSiblings s := by
  obtain ⟨items, hall, hread⟩ := all_free free h (s.selection [])
  have hmem : ∀ item, item ∈ items ↔ ∃ p, p.up? = s.parent ∧ p.kind = s.kind ∧
      Service.entity p i = .ok item i ∧ item.path = p := fun item => by
    rw [hread.mem_iff]
    constructor
    · rintro ⟨x, hx, hitem⟩
      obtain ⟨v, p, rfl, hp, hup, hkind⟩ := (Siblings.mem_listing h hs).1 hx
      have hread : (Wanted.entities s.kind).read? i.store.graph (.vertex v) = _ := hitem
      have hentity := entity_found free h hp (hkind ▸ hread)
      exact ⟨p, hup, hkind, hentity, path_of_entity free h hentity⟩
    · rintro ⟨p, hup, hkind, hentity, -⟩
      obtain ⟨v, hv, hitem⟩ := (entity_eq_ok_iff free h).1 hentity
      rw [hkind] at hitem
      exact ⟨.vertex v, (Siblings.mem_listing h hs).2 ⟨v, p, rfl, hv, hup, hkind⟩, hitem⟩
  refine .listed hall ?_ hmem fun p => ?_
  · have hpaths : ((s.selection []).listing Digest.md5 i.store.graph {}).map
        i.store.graph.elementPath? |>.Nodup := by
      refine List.Nodup.map_on (fun x hx y hy heq => ?_) Selection.nodup_listing
      obtain ⟨v, p, rfl, hp, -⟩ := (Siblings.mem_listing h hs).1 hx
      obtain ⟨w, q, rfl, hq, -⟩ := (Siblings.mem_listing h hs).1 hy
      obtain rfl : p = q := Option.some.inj
        ((Graph.pathAt?_eq hp).symm.trans (heq.trans (Graph.pathAt?_eq hq)))
      rw [h.sound.unique hp hq]
    rw [hread.map_path] at hpaths
    refine List.Nodup.of_map some ?_
    rwa [List.map_map]
  · rw [List.mem_map]
    constructor
    · rintro ⟨item, hitem, rfl⟩
      obtain ⟨q, hup, hkind, hentity, rfl⟩ := (hmem item).1 hitem
      obtain ⟨v, hv, -⟩ := (entity_eq_ok_iff free h).1 hentity
      exact ⟨hup, hkind, v, hv⟩
    · rintro ⟨hup, hkind, v, hv⟩
      obtain ⟨e, hentity, -, hpath⟩ := h.entity hv
      exact ⟨.entity e, (hmem _).2 ⟨p, hup, hkind, entity_found free h hv hentity, hpath⟩, hpath⟩

/-- **All lookups of an entity agree.** -/
theorem findsEntity (hs : s.Offered) (hup : p.up? = s.parent) (hkind : p.kind = s.kind)
    (hsort : p.kind ≠ .relationship) : i.FindsEntity p s := by
  cases listsSiblings free h hs with
  | busy opened => exact absurd free opened
  | listed all once mem =>
      by_cases hex : ∃ v, i.store.graph.contents.EntityAt v p
      · obtain ⟨v, hv⟩ := hex
        obtain ⟨e, hread, hany, hpath⟩ := h.entity hv
        have hentity := entity_found free h hv hread
        have hlocate := (Graph.locate?_eq_some_iff h.wellFormed h.sound.toAddressed).2 hv
        have hget := get_found free h (Selection.listing_jump h hv) hany
        refine .found ⟨v, hv⟩ hpath ?_ hentity hget all fun item => ⟨?_, ?_⟩
        · rw [contains_free free, hlocate]
          rfl
        · rintro ⟨hitem, rfl⟩
          obtain ⟨q, -, -, hq, rfl⟩ := (mem item).1 hitem
          rw [hentity] at hq
          injection hq with heq
          exact heq.symm
        · rintro rfl
          exact ⟨(mem _).2 ⟨p, hup, hkind, hentity, hpath⟩, hpath⟩
      · have hno := not_exists.1 hex
        have hlocate := (Graph.locate?_eq_none_iff h.wellFormed h.sound.toAddressed).2 hno
        refine .missing hno ?_ (entity_missing free h hno)
          (get_missing free h (Selection.listing_jump_missing h hsort hno)) all ?_
        · rw [contains_free free, hlocate]
          rfl
        · rintro item hitem rfl
          obtain ⟨q, -, -, hq, rfl⟩ := (mem item).1 hitem
          obtain ⟨v, hv, -⟩ := (entity_eq_ok_iff free h).1 hq
          exact hno v hv

/-! ### Relationships -/

/-- **Both lookups of a relationship agree.** -/
theorem findsRelation (id : String) : i.FindsRelation id := by
  have hjump := Selection.listing_jump_relationship Digest.md5 h id
  cases hedges : i.store.graph.relationEdges id with
  | nil =>
      rw [hedges] at hjump
      refine .missing (fun e edge he hid => ?_) ?_ (get_missing free h hjump)
      · have hmem := (Graph.mem_relationEdges h.wellFormed h.labelled).2 ⟨edge, he, hid⟩
        rw [hedges] at hmem
        cases hmem
      rw [Service.relation, read_free free, Graph.relation, Graph.requireRelation,
        Graph.findRelation, hedges]
      rfl
  | cons e es =>
      obtain ⟨edge, he, hid⟩ := (Graph.mem_relationEdges h.wellFormed h.labelled).1
        (hedges ▸ List.mem_cons_self)
      obtain ⟨r, hread, -, hany, hpath⟩ := h.relationship he
      rw [hedges] at hjump
      refine .found (r := r) ⟨e, edge, he, hid⟩ ?_ ?_ (get_found free h hjump hany)
      · obtain ⟨edge', id', he', hid', heq⟩ := Graph.elementPath?_edge.1 hpath
        obtain rfl := Option.some.inj (he.symm.trans he')
        obtain rfl := Option.some.inj (hid.symm.trans hid')
        exact congrArg CanonicalPath.id heq
      · rw [Service.relation, read_free free, Graph.relation, Graph.requireRelation,
          Graph.findRelation, hedges]
        simp only [bind, Except.bind, he, hread]
        rfl

end Free

/-! ## In every state -/

/-- **All lookups agree**, in every state that requests lead to: those of an entity and the listing
of its siblings, listings and the entities that they show, and those of a relationship.  They find
what is stored; only while a bulk is open they find nothing out. -/
theorem lookups_agree (config : Config) (supply : Supply) (requests : List Request) :
    let i := (empty config supply).run requests
    (∀ p : CanonicalPath, p.Placed → p.kind ≠ .relationship →
      ∃ s, p.siblings = .ok s ∧ i.FindsEntity p s) ∧
    (∀ s : Siblings, s.Offered → i.ListsSiblings s) ∧
    ∀ id, i.FindsRelation id := by
  intro i
  have h : i.store.graph.Readable := run_empty_readable config supply requests
  by_cases free : i.bulk = none
  · refine ⟨fun p hp hkind => ?_, fun s => listsSiblings free h, findsRelation free h⟩
    obtain ⟨s, hs, hoffered, hup, hsame⟩ := hp.siblings hkind
    exact ⟨s, hs, findsEntity free h hoffered hup hsame hkind⟩
  · refine ⟨fun p hp hkind => ?_, fun s _ => .busy free (all_busy free _), fun id =>
      .busy free (read_busy free _) (get_busy free _)⟩
    obtain ⟨s, hs, -⟩ := hp.siblings hkind
    exact ⟨s, hs, .busy free (read_busy free _) (read_busy free _) (get_busy free _)
      (all_busy free _)⟩

/-- One of three environments is found by every lookup and listed with its tenant, and so is the
relationship by which the tenant contains another. -/
theorem threeEnvironments_found :
    let i := (empty .usual .counting).run threeEnvironments
    let p : CanonicalPath := ⟨[⟨.tenant, "fleet"⟩, ⟨.environment, "test"⟩], by decide⟩
    let s : Siblings := ⟨some ⟨[⟨.tenant, "fleet"⟩], by decide⟩, .environment⟩
    let id := Supply.counted 1
    i.bulk = none ∧ p.Placed ∧ p.kind ≠ .relationship ∧ i.store.graph.locate? p = some 4 ∧
      s.Offered ∧ (∃ s, p.siblings = .ok s ∧ i.FindsEntity p s) ∧ i.ListsSiblings s ∧
      (∃ e : Entity, e.path = p ∧ Service.contains p i = .ok true i ∧
        Service.entity p i = .ok (.entity e) i ∧ Service.get p i = .ok (.entity e) i) ∧
      (∃ items, Service.all (s.selection []) i = .ok items i ∧ p ∈ items.map Item.path) ∧
      ∃ r : Relationship, r.id = id ∧ Service.relation id i = .ok r i ∧
        Service.get (.relationship id) i = .ok (.relationship r) i := by
  intro i p s id
  have free : i.bulk = none := by decide +kernel
  have hp : p.Placed := ⟨rfl, by decide⟩
  have hs : s.Offered := .below (Siblings.below_eq_ok_iff.2 ⟨rfl, rfl⟩)
  have hlocate : i.store.graph.locate? p = some 4 := by decide +kernel
  have h : i.store.graph.Readable := run_empty_readable .usual .counting threeEnvironments
  have hstored : i.store.graph.contents.EntityAt 4 p :=
    (Graph.locate?_eq_some_iff h.wellFormed h.sound.toAddressed).1 hlocate
  have hrelated : (i.store.graph.edge? 3).bind relationId? = some id := by decide +kernel
  obtain ⟨edge, hedge, hid⟩ := Option.bind_eq_some_iff.1 hrelated
  obtain ⟨hentity, hsiblings, hrelation⟩ := lookups_agree .usual .counting threeEnvironments
  have hfinds := hentity p hp (by decide)
  refine ⟨free, hp, by decide, hlocate, hs, hfinds, hsiblings s hs, ?_, ?_, ?_⟩
  · obtain ⟨_, -, hfound⟩ := hfinds
    cases hfound with
    | found _ path contains entity get => exact ⟨_, path, contains, entity, get⟩
    | missing absent => exact absurd hstored (absent 4)
    | busy opened => exact absurd free opened
  · cases hsiblings s hs with
    | listed all _ _ stored => exact ⟨_, all, (stored p).2 ⟨rfl, rfl, 4, hstored⟩⟩
    | busy opened => exact absurd free opened
  · cases hrelation id with
    | found _ same relation get => exact ⟨_, same, relation, get⟩
    | missing absent => exact absurd hid (absent 3 edge hedge)
    | busy opened => exact absurd free opened

end Inventory

end Estate
