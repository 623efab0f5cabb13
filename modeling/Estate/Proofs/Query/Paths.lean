import Estate.Inventory.Selection
import Estate.Proofs.Query.Hops
import Estate.Proofs.Registry.Change
import Estate.Proofs.Registry.Forest
import Estate.Proofs.Registry.Locate

/-!
# The jump to a path and the way to it

A path is reached by a jump, which looks its text up, or hop by hop from the root, which looks the
root up by its kind and id and then goes from parents to children.  The one reads the address of a
vertex and the other follows edges, and on sound contents both lead to the element of the path.

* `Graph.EntitiesAt` — where the way to a path stands after some segments.
* `Graph.entitiesAt_root`, `Graph.EntitiesAt.next` — its first segment, and one segment more.
* **`Query.run_pathChain`** — the way ends where the jump does.
* **`Query.mem_elements_path`** — there is the element whose path it is, and nothing else.
-/

namespace Estate

open Layout Contents

namespace Graph

variable {g : Graph} {v w : VertexId} {p : CanonicalPath} {x : Element}

/-! ## Kinds and ids of entities -/

lemma mem_verticesBy_kind (hwf : g.WellFormed) (h : g.contents.Addressed) {kind : Kind} :
    v ∈ g.verticesBy typeKey (.string kind.code) ↔
      ∃ p, g.contents.EntityAt v p ∧ p.kind = kind := by
  refine (mem_verticesBy_address hwf h fun haddr => haddr.kind).trans
    (exists_congr fun p => and_congr_right fun _ => ⟨fun hcode => ?_, congrArg Kind.code⟩)
  have hread := congrArg Kind.ofCode? hcode
  rwa [Kind.ofCode?_code, Kind.ofCode?_code, Option.some.injEq] at hread

/-- From everywhere, the entities of a kind are looked up. -/
lemma mem_ofKinds (hwf : g.WellFormed) (h : g.contents.Addressed) {kind : Kind}
    (hkind : kind ≠ .relationship) :
    x ∈ g.ofKinds [kind] ↔ ∃ v p, x = .vertex v ∧ g.contents.EntityAt v p ∧ p.kind = kind := by
  have hfound : g.ofKinds [kind] =
      ({} : Reach).union (.ofVertices (g.verticesBy typeKey (.string kind.code))) := by
    rw [ofKinds, List.foldl_cons, List.foldl_nil]
    split
    · exact absurd rfl hkind
    · rfl
  simp only [hfound, Reach.mem_union, Reach.not_mem_empty, false_or, Reach.mem_ofVertices,
    mem_verticesBy_kind hwf h]
  constructor
  · rintro ⟨v, ⟨p, hp⟩, rfl⟩
    exact ⟨v, p, rfl, hp⟩
  · rintro ⟨v, p, rfl, hp⟩
    exact ⟨v, ⟨p, hp⟩, rfl⟩

lemma keeps_withKinds (h : g.contents.EntityAt v p) (kinds : List Kind) :
    g.keeps (.withKinds kinds) (.vertex v) = kinds.contains p.kind := by
  obtain ⟨-, row, hrow, haddr⟩ := h
  rw [keeps, show g.vertex? v = some row from hrow]
  simp [keepsVertex, haddr.kind?]

lemma keeps_withIds (h : g.contents.EntityAt v p) (ids : List String) :
    g.keeps (.withIds ids) (.vertex v) = ids.contains p.id := by
  obtain ⟨-, row, hrow, haddr⟩ := h
  rw [keeps, show g.vertex? v = some row from hrow]
  simp [keepsVertex, Layout.id?, Properties.string?, haddr.id, Json.string?]

/-! ## From parents to children -/

/-- A hop to the children leads over containments. -/
lemma mem_hop_children (hwf : g.WellFormed) {r : Reach} :
    x ∈ g.hop (.name WellKnown.contains.name) .source r ↔
      ∃ v w, v ∈ r.vertices ∧ g.contents.Contains v w ∧ x = .vertex w := by
  rw [mem_hop hwf]
  refine exists₂_congr fun v w => and_congr_right fun _ => and_congr_left fun _ =>
    exists₂_congr fun e edge => and_congr_right fun _ => and_congr_right fun _ =>
      and_congr_right fun hsource => ?_
  rw [show edge.otherEnd v = edge.target from if_pos hsource]

/-! ## Along the segments of a path -/

/-- The entities whose path consists of these segments are reached, and nothing else. -/
def EntitiesAt (g : Graph) (segments : List Segment) (r : Reach) : Prop :=
  ∀ x, x ∈ r ↔ ∃ v p, x = .vertex v ∧ g.contents.EntityAt v p ∧ p.segments = segments

/-- The elements of a reach that have the kind and the id of a segment. -/
def selectSegment (g : Graph) (s : Segment) (r : Reach) : Reach :=
  (r.filter (g.keeps (.withKinds [s.kind]))).filter (g.keeps (.withIds [s.id]))

lemma vertex_mem_selectSegment {s : Segment} {r : Reach} (h : g.contents.EntityAt v p) :
    .vertex v ∈ g.selectSegment s r ↔ .vertex v ∈ r ∧ p.last = s := by
  have hlast : p.last = s ↔ p.kind = s.kind ∧ p.id = s.id := by
    rw [CanonicalPath.kind, CanonicalPath.id]
    cases p.last
    cases s
    rw [Segment.mk.injEq]
  rw [selectSegment, Reach.mem_filter, Reach.mem_filter, keeps_withKinds h, keeps_withIds h, hlast]
  simp [and_assoc]

/-- **The first segment** of the path of an entity is looked up. -/
lemma entitiesAt_root (hwf : g.WellFormed) (h : g.contents.Addressed) {s : Segment}
    (hs : s.kind = .tenant) :
    g.EntitiesAt [s] ((g.ofKinds [s.kind]).filter (g.keeps (.withIds [s.id]))) := by
  intro x
  rw [Reach.mem_filter, mem_ofKinds hwf h (hs ▸ nofun)]
  constructor
  · rintro ⟨⟨v, p, rfl, hp, hkind⟩, hid⟩
    refine ⟨v, p, rfl, hp, ?_⟩
    rw [keeps_withIds hp] at hid
    have htop := hp.legal.kind_eq_tenant_iff.1 (hkind.trans hs)
    rw [CanonicalPath.up?_eq_none_iff.1 htop]
    cases s
    cases hlast : p.last
    simp_all [CanonicalPath.kind, CanonicalPath.id]
  · rintro ⟨v, p, rfl, hp, hsegments⟩
    have hlast := CanonicalPath.last_of_singleton hsegments
    refine ⟨⟨v, p, rfl, hp, congrArg Segment.kind hlast⟩, ?_⟩
    rw [keeps_withIds hp]
    simp [CanonicalPath.id, hlast]

/-- **One segment more** is reached over the containments. -/
lemma EntitiesAt.next (hwf : g.WellFormed) (h : g.contents.Sound) {before : List Segment}
    {s : Segment} {r : Reach} (hr : g.EntitiesAt before r) (hne : before ≠ []) :
    g.EntitiesAt (before ++ [s])
      (g.selectSegment s (g.hop (.name WellKnown.contains.name) .source r)) := by
  intro x
  constructor
  · intro hx
    have hhop := (Reach.mem_filter.1 (Reach.mem_filter.1 hx).1).1
    obtain ⟨v, w, hv, hcontains, rfl⟩ := (mem_hop_children hwf).1 hhop
    obtain ⟨p, q, hp, hq, hup⟩ := h.contains_ends hcontains
    obtain ⟨v', p', hv', hp', hsegments⟩ := (hr (.vertex v)).1 hv
    obtain rfl := Element.vertex.inj hv'
    obtain rfl := hp.path_unique hp'
    refine ⟨w, q, rfl, hq, ?_⟩
    rw [CanonicalPath.up?_eq_some_iff.1 hup, hsegments, ((vertex_mem_selectSegment hq).1 hx).2]
  · rintro ⟨w, q, rfl, hq, hsegments⟩
    have hup : q.up? = some ⟨before, hne⟩ := CanonicalPath.up?_of_append hsegments
    obtain ⟨e, edge, he, hcontains, hsource, htarget⟩ := h.owner hq hup
    refine (vertex_mem_selectSegment hq).2 ⟨?_, CanonicalPath.last_of_append hsegments⟩
    refine (mem_hop_children hwf).2
      ⟨edge.source, w, ?_, ⟨e, edge, he, hcontains, rfl, htarget⟩, rfl⟩
    exact (hr (.vertex edge.source)).2 ⟨edge.source, ⟨before, hne⟩, rfl, hsource, rfl⟩

/-! ## At the end of a jump -/

/-- Edges that are in order are listed as they are. -/
lemma toList_ofEdges {ids : List EdgeId} (h : ids.Pairwise (· < ·)) :
    (Reach.ofEdges ids).toList = ids.map .edge :=
  (List.nil_append _).trans (congrArg (List.map Element.edge) (IdSet.toList_ofList h))

lemma elementPath?_vertex (h : g.contents.Addressed) :
    g.elementPath? (.vertex v) = some p ↔ g.contents.EntityAt v p :=
  pathAt?_eq_some_iff h

lemma elementPath?_edge {e : EdgeId} : g.elementPath? (.edge e) = some p ↔
    ∃ edge id, g.edge? e = some edge ∧ relationId? edge = some id ∧ p = .relationship id := by
  simp only [elementPath?, Option.map_eq_some_iff, Option.bind_eq_some_iff, eq_comm (a := p)]
  constructor
  · rintro ⟨id, ⟨edge, he, hid⟩, rfl⟩
    exact ⟨edge, id, he, hid, rfl⟩
  · rintro ⟨edge, id, he, hid, rfl⟩
    exact ⟨id, ⟨edge, he, hid⟩, rfl⟩

lemma mem_atPaths_entity (hwf : g.WellFormed) (h : g.contents.Addressed)
    (hkind : p.kind ≠ .relationship) :
    x ∈ g.atPaths [p] ↔ ∃ v, g.contents.EntityAt v p ∧ x = .vertex v := by
  have hjump : g.atPaths [p] = ({} : Reach).union (.ofVertices (g.locate? p).toList) := by
    rw [atPaths, List.foldl_cons, List.foldl_nil]
    split
    · next hk => exact absurd hk hkind
    · rfl
  simp only [hjump, Reach.mem_union, Reach.not_mem_empty, false_or, Reach.mem_ofVertices,
    Option.mem_toList, locate?_eq_some_iff hwf h]

lemma relationId?_eq_some {edge : Edge} {id : String} :
    relationId? edge = some id ↔ edge.properties[idKey]? = some (.string id) := by
  rw [relationId?, Properties.string?, Option.bind_eq_some_iff]
  constructor
  · rintro ⟨value, hvalue, hid⟩
    cases value with
    | string s =>
        obtain rfl := Option.some.inj hid
        exact hvalue
    | _ => cases hid
  · exact fun hid => ⟨_, hid, rfl⟩

lemma mem_relationEdges (hwf : g.WellFormed) (hl : g.contents.Labelled) {id : String}
    {e : EdgeId} :
    e ∈ g.relationEdges id ↔ ∃ edge, g.edge? e = some edge ∧ relationId? edge = some id := by
  rw [relationEdges, hwf.mem_edgesBy]
  · simp only [relationId?_eq_some]
  · intro e edge value he hvalue
    obtain ⟨id, hid⟩ := hl he
    exact ⟨id, Option.some.inj (hvalue.symm.trans hid)⟩

lemma mem_atPaths_relationship (hwf : g.WellFormed) (hl : g.contents.Labelled) {id : String} :
    x ∈ g.atPaths [.relationship id] ↔
      ∃ e edge, g.edge? e = some edge ∧ relationId? edge = some id ∧ x = .edge e := by
  have hjump : g.atPaths [.relationship id] =
      ({} : Reach).union (.ofEdges (g.relationEdges id)) := rfl
  simp only [hjump, Reach.mem_union, Reach.not_mem_empty, false_or, Reach.mem_ofEdges,
    mem_relationEdges hwf hl]
  constructor
  · rintro ⟨e, ⟨edge, he, hid⟩, rfl⟩
    exact ⟨e, edge, he, hid, rfl⟩
  · rintro ⟨e, edge, he, hid, rfl⟩
    exact ⟨e, ⟨edge, he, hid⟩, rfl⟩

/-- The relationships with an id are found among all of them. -/
lemma mem_ofRelationship (hwf : g.WellFormed) (hl : g.contents.Labelled) {id : String} :
    x ∈ (g.ofKinds [.relationship]).filter (g.keeps (.withIds [id])) ↔
      x ∈ g.atPaths [.relationship id] := by
  have hall : g.ofKinds [.relationship] = ({} : Reach).union (.ofEdges g.edges.keys) := rfl
  rw [mem_atPaths_relationship hwf hl, Reach.mem_filter, hall]
  simp only [Reach.mem_union, Reach.not_mem_empty, false_or, Reach.mem_ofEdges]
  constructor
  · rintro ⟨⟨e, -, rfl⟩, hkeeps⟩
    rw [keeps, Option.any_eq_true] at hkeeps
    obtain ⟨edge, he, hid⟩ := hkeeps
    rw [keepsEdge, Option.any_eq_true] at hid
    obtain ⟨id', hid', hmem⟩ := hid
    obtain rfl : id' = id := by simpa using hmem
    exact ⟨e, edge, he, hid', rfl⟩
  · rintro ⟨e, edge, he, hid, rfl⟩
    refine ⟨⟨e, ?_, rfl⟩, ?_⟩
    · rw [Std.ExtTreeMap.mem_keys, mem_edges_iff, he]
      rfl
    · simp [keeps, he, keepsEdge, hid]

end Graph

namespace Query

variable {digest : String → String} {g : Graph} {p : CanonicalPath}

/-- The first segment of a path from everywhere. -/
lemma run_firstSegment (s : Segment) :
    (ofPath (segmentFilters s)).run digest g .everywhere =
      .among ((g.ofKinds [s.kind]).filter (g.keeps (.withIds [s.id]))) := by
  simp only [ofPath, segmentFilters, List.map_cons, List.map_nil, run, List.foldl_cons,
    List.foldl_nil, Fragment.apply, Filter.apply, Position.reach]

/-- One segment more. -/
lemma run_nextSegment (s : Segment) (r : Reach) :
    (ofPath (Filter.children :: segmentFilters s)).run digest g (.among r) =
      .among (g.selectSegment s (g.hop (.name WellKnown.contains.name) .source r)) := by
  simp only [ofPath, segmentFilters, Filter.children, List.map_cons, List.map_nil, run,
    List.foldl_cons, List.foldl_nil, Fragment.apply, Filter.apply, Position.reach,
    Graph.selectSegment]

lemma run_ofPath_append (before after : List Filter) (q : Position) :
    (ofPath (before ++ after)).run digest g q =
      (ofPath after).run digest g ((ofPath before).run digest g q) := by
  rw [ofPath, List.map_append, run_append]
  rfl

/-- The way along some segments leads to the entities of the longer path. -/
lemma run_segments (digest : String → String) (hwf : g.WellFormed) (h : g.contents.Sound)
    (ss : List Segment) :
    ∀ {before : List Segment} {r : Reach}, g.EntitiesAt before r → before ≠ [] →
      ∃ r', (ofPath (ss.flatMap fun s => Filter.children :: segmentFilters s)).run digest g
          (.among r) = .among r' ∧ g.EntitiesAt (before ++ ss) r' := by
  induction ss with
  | nil =>
      intro before r hr _
      exact ⟨r, rfl, by rwa [List.append_nil]⟩
  | cons s ss ih =>
      intro before r hr hne
      obtain ⟨r', hrun, hr'⟩ := ih (hr.next hwf h (s := s) hne) (by simp)
      refine ⟨r', ?_, by simpa using hr'⟩
      rw [List.flatMap_cons, run_ofPath_append, run_nextSegment, hrun]

/-! ## Both ways -/

/-- Where a jump leads. -/
lemma run_path : (path p).run digest g .everywhere = .among (g.atPaths [p]) := by
  simp only [path, ofPath, List.map_cons, List.map_nil, run, List.foldl_cons, List.foldl_nil,
    Fragment.apply, Filter.apply]

/-- **The way to a path ends where the jump to it does.** -/
theorem run_pathChain (hwf : g.WellFormed) (h : g.contents.Sound) (hl : g.contents.Labelled)
    (hp : p.Placed) :
    (pathChain p).run digest g .everywhere = (path p).run digest g .everywhere := by
  rw [run_path]
  by_cases hkind : p.kind = .relationship
  · rw [hp.eq_relationship hkind]
    exact (run_firstSegment ⟨.relationship, p.id⟩).trans
      (congrArg Position.among (Reach.ext_mem fun x => Graph.mem_ofRelationship hwf hl))
  · obtain ⟨s, ss, hsegments⟩ := List.exists_cons_of_ne_nil p.ne_nil
    have hs : s.kind = .tenant := by
      have hroot : p.root = s := by simp [CanonicalPath.root, hsegments]
      exact hroot ▸ hp.root_kind hkind
    obtain ⟨r, hrun, hr⟩ := run_segments digest hwf h ss
      (Graph.entitiesAt_root hwf h.toAddressed hs) (by simp)
    rw [pathChain, hsegments]
    dsimp only
    rw [run_ofPath_append, run_firstSegment, hrun]
    refine congrArg Position.among (Reach.ext_mem fun x => ?_)
    rw [hr x, Graph.mem_atPaths_entity hwf h.toAddressed hkind]
    constructor
    · rintro ⟨v, q, rfl, hq, hsame⟩
      obtain rfl : q = p := CanonicalPath.ext_segments (hsame.trans hsegments.symm)
      exact ⟨v, hq, rfl⟩
    · rintro ⟨v, hv, rfl⟩
      exact ⟨v, p, rfl, hv, hsegments⟩

/-- **A jump leads to the element of the path**, and to nothing else. -/
theorem mem_elements_path (hwf : g.WellFormed) (h : g.contents.Sound) (hl : g.contents.Labelled)
    (hp : p.Placed) {x : Element} :
    x ∈ (path p).elements digest g ↔ g.elementPath? x = some p := by
  rw [elements, run_path, Position.reach]
  by_cases hkind : p.kind = .relationship
  · obtain ⟨id, rfl⟩ : ∃ id, p = .relationship id := ⟨p.id, hp.eq_relationship hkind⟩
    rw [Graph.mem_atPaths_relationship hwf hl]
    constructor
    · rintro ⟨e, edge, he, hid, rfl⟩
      exact Graph.elementPath?_edge.2 ⟨edge, id, he, hid, rfl⟩
    · intro hx
      cases x with
      | vertex v =>
          exact absurd hkind ((Graph.elementPath?_vertex h.toAddressed).1 hx).legal.kind_ne
      | edge e =>
          obtain ⟨edge, id', he, hid, hsame⟩ := Graph.elementPath?_edge.1 hx
          obtain rfl : id = id' := congrArg CanonicalPath.id hsame
          exact ⟨e, edge, he, hid, rfl⟩
  · rw [Graph.mem_atPaths_entity hwf h.toAddressed hkind]
    constructor
    · rintro ⟨v, hv, rfl⟩
      exact (Graph.elementPath?_vertex h.toAddressed).2 hv
    · intro hx
      cases x with
      | vertex v => exact ⟨v, (Graph.elementPath?_vertex h.toAddressed).1 hx, rfl⟩
      | edge e =>
          obtain ⟨edge, id, he, hid, rfl⟩ := Graph.elementPath?_edge.1 hx
          exact absurd rfl hkind

end Query

end Estate
