import Estate.Proofs.Query.Within

/-!
# Ways over relationships

There are several ways over relationships, and each has a search of its own.  A hop leads to their
other ends; with a path at the other end it becomes a condition; whether a type defines an entity is
a condition too; and a query may also stop at the relationships in between and go on to their ends.

All of these searches can be said on the stored edges.  The first three follow the same pairs of
entities, and the last one does so but for where it starts.

* `Graph.LeadsTo` — one gets from one entity to another over a relationship that is meant.
* `Graph.mem_hop`, `Graph.mem_relatedTo`, `Graph.isDefinedBy_iff` — what it is to hop, to be related
  to an entity and to be defined by it.
* `Graph.mem_relatedTo_iff_hop`, `Graph.vertex_mem_filter_definedBy` — the conditions in terms of
  hops and of each other.
* `Graph.mem_toRelationships`, `Graph.mem_toEntities` — to relationships and to their ends.
* **`Graph.mem_ends_iff_hop`** — the ends of relationships of a name are what a hop leads to; if one
  looks both ways, the entities that one comes from are found as well.
-/

namespace Estate

open Layout

/-- A relationship is one of those that are meant: it has the name, or the id. -/
def RelationRef.Means : RelationRef → Edge → Prop
  | name n, edge => edge.label = n
  | id i, edge => relationId? edge = some i

/-- The role of an entity from which relationships are walked in a direction. -/
def Direction.role : Direction → Role
  | outgoing => .source
  | incoming => .target
  | both => .any

@[simp] lemma Direction.direction_role (d : Direction) : d.role.direction = d := by
  cases d <;> rfl

namespace Edge

variable {edge : Edge} {v w : VertexId}

/-- Seen from its target, the other end of an edge is its source, also if it is a loop. -/
lemma otherEnd_of_target (h : edge.target = v) : edge.otherEnd v = edge.source := by
  rw [otherEnd]
  split
  · next hloop => rw [h, hloop]
  · rfl

/-- **Whoever walks an edge in a direction comes to its other end**: that is the end at which one
meets the edge when one looks the opposite way.  An edge that is looked at both ways is met again
where one comes from. -/
lemma MetAt.opposite_iff {d : Direction} (h : edge.MetAt v d) :
    edge.MetAt w d.opposite ↔ edge.otherEnd v = w ∨ d = .both ∧ v = w := by
  cases d with
  | outgoing =>
      have hother : edge.otherEnd v = edge.target := if_pos h
      simp [Direction.opposite, MetAt, hother]
  | incoming => simp [Direction.opposite, MetAt, otherEnd_of_target h]
  | both =>
      simp only [Direction.opposite, MetAt, true_and]
      rcases h with hsource | htarget
      · rw [otherEnd, if_pos hsource, hsource, or_comm]
      · rw [otherEnd_of_target htarget, htarget]

end Edge

namespace Graph

variable {g : Graph} {relation : RelationRef} {role : Role} {v w : VertexId} {r : Reach}
  {x : Element}

/-- **One gets from a vertex to another** over a stored relationship that is meant, walking as the
role says. -/
def LeadsTo (g : Graph) (relation : RelationRef) (role : Role) (v w : VertexId) : Prop :=
  ∃ e edge, g.edge? e = some edge ∧ relation.Means edge ∧ edge.MetAt v role.direction ∧
    edge.otherEnd v = w

namespace WellFormed

/-- The relationships that are meant, wherever they are searched for. -/
lemma mem_relationsAt (h : g.WellFormed) {edge : Edge} :
    edge ∈ g.relationsAt relation role v ↔
      ∃ e, g.edge? e = some edge ∧ relation.Means edge ∧ edge.MetAt v role.direction := by
  have hincident : ∀ label : Option String,
      edge ∈ (g.edgesOf v role.direction label).filterMap g.edge? ↔
        ∃ e, g.edge? e = some edge ∧ edge.MetAt v role.direction ∧
          ∀ l, label = some l → edge.label = l := by
    intro label
    simp only [List.mem_filterMap, h.mem_edgesOf]
    constructor
    · rintro ⟨e, ⟨edge', he', hmet⟩, he⟩
      obtain rfl := Option.some.inj (he'.symm.trans he)
      exact ⟨e, he, hmet⟩
    · rintro ⟨e, he, hmet⟩
      exact ⟨e, ⟨edge, he, hmet⟩, he⟩
  cases relation with
  | name n =>
      rw [relationsAt, hincident]
      refine exists_congr fun e => and_congr_right fun _ => ?_
      simp [RelationRef.Means, and_comm]
  | id i =>
      rw [relationsAt, List.mem_filter, hincident]
      simp [RelationRef.Means, and_assoc, and_comm]

end WellFormed

/-! ## Hops and conditions -/

lemma exists_mem_relationsAt (h : g.WellFormed) :
    (∃ edge ∈ g.relationsAt relation role v, edge.otherEnd v = w) ↔
      g.LeadsTo relation role v w := by
  simp only [h.mem_relationsAt, LeadsTo]
  constructor
  · rintro ⟨edge, ⟨e, he, hmeans, hmet⟩, hother⟩
    exact ⟨e, edge, he, hmeans, hmet, hother⟩
  · rintro ⟨e, edge, he, hmeans, hmet, hother⟩
    exact ⟨edge, ⟨e, he, hmeans, hmet⟩, hother⟩

/-- **A hop** leads to all entities that one gets to from where one stands. -/
theorem mem_hop (h : g.WellFormed) :
    x ∈ g.hop relation role r ↔
      ∃ v w, v ∈ r.vertices ∧ g.LeadsTo relation role v w ∧ x = .vertex w := by
  simp only [hop, Reach.mem_ofVertices, List.mem_flatMap, Std.ExtTreeSet.mem_toList, List.mem_map]
  constructor
  · rintro ⟨w, ⟨v, hv, hw⟩, rfl⟩
    exact ⟨v, w, hv, (exists_mem_relationsAt h).1 hw, rfl⟩
  · rintro ⟨v, w, hv, hw, rfl⟩
    exact ⟨w, ⟨v, hv, (exists_mem_relationsAt h).2 hw⟩, rfl⟩

/-- **To be related to the entity at a path** is to get to it by one hop. -/
theorem mem_relatedTo (h : g.WellFormed) {q : CanonicalPath} :
    x ∈ g.relatedTo relation role q r ↔
      ∃ v w, x = .vertex v ∧ v ∈ r.vertices ∧ g.locate? q = some w ∧
        g.LeadsTo relation role v w := by
  rw [relatedTo]
  cases hq : g.locate? q with
  | none => simp
  | some target =>
      cases x with
      | vertex v =>
          simp [← exists_mem_relationsAt h]
      | edge e => simp

/-- **To be defined by the type at a path** is to get to it by a hop against `defines`. -/
theorem isDefinedBy_iff (h : g.WellFormed) {type : CanonicalPath} :
    g.isDefinedBy v type ↔
      ∃ w, g.locate? type = some w ∧ g.LeadsTo (.name WellKnown.defines.name) .target v w := by
  rw [isDefinedBy]
  cases htype : g.locate? type with
  | none => simp
  | some definer =>
      simp only [List.any_eq_true, h.mem_edgesOf, Option.any_eq_true, beq_iff_eq,
        Option.some.injEq, exists_eq_left']
      constructor
      · rintro ⟨e, ⟨edge, he, hmet, hlabel⟩, edge', he', hsource⟩
        obtain rfl := Option.some.inj (he.symm.trans he')
        exact ⟨e, edge, he, hlabel _ rfl, hmet, (Edge.otherEnd_of_target hmet).trans hsource⟩
      · rintro ⟨e, edge, he, hlabel, hmet, hother⟩
        refine ⟨e, ⟨edge, he, hmet, ?_⟩, edge, he, (Edge.otherEnd_of_target hmet).symm.trans hother⟩
        rintro _ ⟨⟩
        exact hlabel

/-- **The condition keeps those from which a hop leads there.** -/
lemma mem_relatedTo_iff_hop (h : g.WellFormed) {q : CanonicalPath} :
    x ∈ g.relatedTo relation role q r ↔ ∃ v w, x = .vertex v ∧ v ∈ r.vertices ∧
      g.locate? q = some w ∧ .vertex w ∈ g.hop relation role (.ofVertices [v]) := by
  have hvertices : ∀ u v, u ∈ (Reach.ofVertices [v]).vertices ↔ u = v := fun u v => by
    rw [← Reach.mem_vertex, Reach.mem_ofVertices]
    simp
  simp only [mem_relatedTo h, mem_hop h, hvertices, exists_and_left, exists_eq_left,
    Element.vertex.injEq, exists_eq_right']

/-- Of entities, the condition to be defined by a type keeps the same as the condition to be
related to it against `defines`. -/
lemma vertex_mem_filter_definedBy (h : g.WellFormed) {type : CanonicalPath} :
    .vertex v ∈ r.filter (g.keeps (.definedBy type)) ↔
      .vertex v ∈ g.relatedTo (.name WellKnown.defines.name) .target type r := by
  rw [Reach.mem_filter, mem_relatedTo h, keeps, Option.any_eq_true]
  simp only [keepsVertex, isDefinedBy_iff h]
  constructor
  · rintro ⟨hv, _, -, w, hlocate, hleads⟩
    exact ⟨v, w, rfl, hv, hlocate, hleads⟩
  · rintro ⟨_, w, ⟨⟩, hv, hlocate, hleads⟩
    have hstored : (g.vertex? v).isSome := by
      obtain ⟨e, edge, he, -, rfl, -⟩ := hleads
      exact h.target_stored he
    obtain ⟨row, hrow⟩ := Option.isSome_iff_exists.1 hstored
    exact ⟨hv, row, hrow, w, hlocate, hleads⟩

/-! ## Stopping at the relationships -/

lemma mem_toRelationships (h : g.WellFormed) {d : Direction} :
    x ∈ g.toRelationships d r ↔
      ∃ v e edge, v ∈ r.vertices ∧ g.edge? e = some edge ∧ edge.MetAt v d ∧ x = .edge e := by
  simp only [toRelationships, Reach.mem_ofEdges, List.mem_flatMap, Std.ExtTreeSet.mem_toList,
    h.mem_edgesOf]
  constructor
  · rintro ⟨e, ⟨v, hv, edge, he, hmet, -⟩, rfl⟩
    exact ⟨v, e, edge, hv, he, hmet, rfl⟩
  · rintro ⟨v, e, edge, hv, he, hmet, rfl⟩
    exact ⟨e, ⟨v, hv, edge, he, hmet, by simp⟩, rfl⟩

/-- To the ends of relationships one goes on in the direction in which one has come. -/
lemma mem_toEntities {d : Direction} :
    x ∈ g.toEntities d r ↔
      ∃ e edge w, e ∈ r.edges ∧ g.edge? e = some edge ∧ edge.MetAt w d.opposite ∧
        x = .vertex w := by
  have hends : ∀ (edge : Edge) (w : VertexId),
      w ∈ (match d with
        | .outgoing => [edge.target]
        | .incoming => [edge.source]
        | .both => [edge.source, edge.target]) ↔ edge.MetAt w d.opposite := by
    intro edge w
    cases d <;> simp [Direction.opposite, Edge.MetAt, eq_comm]
  simp only [toEntities, Reach.mem_ofVertices, List.mem_flatMap, List.mem_filterMap,
    Std.ExtTreeSet.mem_toList]
  constructor
  · rintro ⟨w, ⟨edge, ⟨e, hmem, he⟩, hmet⟩, rfl⟩
    exact ⟨e, edge, w, hmem, he, (hends edge w).1 hmet, rfl⟩
  · rintro ⟨e, edge, w, hmem, he, hmet, rfl⟩
    exact ⟨w, ⟨edge, ⟨e, hmem, he⟩, (hends edge w).2 hmet⟩, rfl⟩

/-- From entities to their relationships of a name, and on to the ends of these. -/
lemma mem_ends (h : g.WellFormed) {name : String} {d : Direction} :
    x ∈ g.toEntities d ((g.toRelationships d r).filter (g.keeps (.relationNames [name]))) ↔
      ∃ v e edge w, v ∈ r.vertices ∧ g.edge? e = some edge ∧ edge.label = name ∧
        edge.MetAt v d ∧ edge.MetAt w d.opposite ∧ x = .vertex w := by
  have hkeeps : ∀ {e : EdgeId} {edge : Edge}, g.edge? e = some edge →
      (g.keeps (.relationNames [name]) (.edge e) = true ↔ edge.label = name) := by
    intro e edge he
    simp [keeps, he, keepsEdge]
  simp only [mem_toEntities, ← Reach.mem_edge, Reach.mem_filter, mem_toRelationships h]
  constructor
  · rintro ⟨e, edge, w, ⟨⟨v, _, edge', hv, he', hmet, ⟨⟩⟩, hlabel⟩, he, hend, rfl⟩
    obtain rfl := Option.some.inj (he.symm.trans he')
    exact ⟨v, e, edge, w, hv, he, (hkeeps he).1 hlabel, hmet, hend, rfl⟩
  · rintro ⟨v, e, edge, w, hv, he, hlabel, hmet, hend, rfl⟩
    exact ⟨e, edge, w, ⟨⟨v, e, edge, hv, he, hmet, rfl⟩, (hkeeps he).2 hlabel⟩, he, hend, rfl⟩

/-- **The ends of the relationships of a name are what a hop leads to.**  If one looks both ways,
the entities at which there is such a relationship are found as well. -/
theorem mem_ends_iff_hop (h : g.WellFormed) {name : String} {d : Direction} :
    x ∈ g.toEntities d ((g.toRelationships d r).filter (g.keeps (.relationNames [name]))) ↔
      x ∈ g.hop (.name name) d.role r ∨ d = .both ∧ ∃ v ∈ r.vertices, x = .vertex v ∧
        ∃ e edge, g.edge? e = some edge ∧ edge.label = name ∧
          (edge.source = v ∨ edge.target = v) := by
  rw [mem_ends h]
  simp only [mem_hop h, LeadsTo, Direction.direction_role, RelationRef.Means]
  constructor
  · rintro ⟨v, e, edge, w, hv, he, hlabel, hmet, hend, rfl⟩
    rcases hmet.opposite_iff.1 hend with hother | ⟨rfl, rfl⟩
    · exact .inl ⟨v, w, hv, ⟨e, edge, he, hlabel, hmet, hother⟩, rfl⟩
    · exact .inr ⟨rfl, v, hv, rfl, e, edge, he, hlabel, hmet⟩
  · rintro (⟨v, w, hv, ⟨e, edge, he, hlabel, hmet, hother⟩, rfl⟩ |
      ⟨rfl, v, hv, rfl, e, edge, he, hlabel, hmet⟩)
    · exact ⟨v, e, edge, w, hv, he, hlabel, hmet, hmet.opposite_iff.2 (.inl hother), rfl⟩
    · exact ⟨v, e, edge, v, hv, he, hlabel, hmet, hmet, rfl⟩

end Graph

end Estate
