import Estate.Proofs.Graph.Lookup
import Estate.Proofs.Query.Position

/-!
# Queries stay within the graph

Whatever a query looks up, follows or keeps, it never leads to anything that is not stored.  What is
looked up comes from the indexes and what is followed from the ends of edges, both of which a
well-formed graph keeps in step with its vertices and edges; all other filters narrow.

* `Graph.Holds`, `Reach.Within` — what is stored.
* `Graph.hop_within`, `Graph.ofKinds_within`, `Graph.identicalTo_within`, … — one lemma for each
  step.
* **`Query.elements_within`** — a query leads to nothing but what is stored.
-/

namespace Estate

open Layout

/-- An element is stored. -/
def Graph.Holds (g : Graph) : Element → Prop
  | .vertex v => (g.vertex? v).isSome
  | .edge e => (g.edge? e).isSome

/-- Everything reached is stored. -/
abbrev Reach.Within (r : Reach) (g : Graph) : Prop :=
  r.All g.Holds

namespace Graph

variable {g : Graph} {r : Reach}

/-! ## Looking up -/

/-- What is filed is in the table. -/
lemma isSome_of_mem_lookup? {i : Index} {table : Nat → Option Properties} {key : String}
    {value : Json} {ids : IdSet} {id : Nat} (h : i.Files (Index.tableEntries table))
    (hids : i.lookup? key value = some ids) (hid : id ∈ ids) : (table id).isSome := by
  rw [Index.lookup?, Option.map_eq_some_iff] at hids
  obtain ⟨texts, htexts, rfl⟩ := hids
  obtain ⟨row, hrow, -⟩ := (h.mem_iff htexts value.plainText id).1 hid
  rw [hrow, Option.isSome_some]

lemma isSome_of_mem_verticesBy (h : g.WellFormed) {key : String} {value : Json} {v : VertexId}
    (hv : v ∈ g.verticesBy key value) : (g.vertex? v).isSome := by
  rw [verticesBy] at hv
  split at hv
  · next ids hids => exact isSome_of_mem_lookup? h.vertexFiles hids (Std.ExtTreeSet.mem_toList.1 hv)
  · exact mem_vertices_iff.1 (Std.ExtTreeMap.mem_of_mem_filter (Std.ExtTreeMap.mem_keys.1 hv))

lemma isSome_of_mem_edgesBy (h : g.WellFormed) {key : String} {value : Json} {e : EdgeId}
    (he : e ∈ g.edgesBy key value) : (g.edge? e).isSome := by
  rw [edgesBy] at he
  split at he
  · next ids hids =>
      have hfiled := isSome_of_mem_lookup? h.edgeFiles hids (Std.ExtTreeSet.mem_toList.1 he)
      rwa [Function.comp_apply, Option.isSome_map] at hfiled
  · exact mem_edges_iff.1 (Std.ExtTreeMap.mem_of_mem_filter (Std.ExtTreeMap.mem_keys.1 he))

lemma atPaths_within (h : g.WellFormed) (paths : List CanonicalPath) :
    (g.atPaths paths).Within g := by
  refine Reach.All.foldl (fun p => ?_) paths Reach.all_empty
  split
  · exact Reach.all_ofEdges fun e he => isSome_of_mem_edgesBy h he
  · refine Reach.all_ofVertices fun v hv => ?_
    exact isSome_of_mem_verticesBy h (List.mem_of_head? (Option.mem_toList.1 hv))

lemma ofKinds_within (h : g.WellFormed) (kinds : List Kind) : (g.ofKinds kinds).Within g := by
  refine Reach.All.foldl (fun k => ?_) kinds Reach.all_empty
  split
  · refine Reach.all_ofEdges fun e he => ?_
    rwa [Std.ExtTreeMap.mem_keys, mem_edges_iff] at he
  · exact Reach.all_ofVertices fun v hv => isSome_of_mem_verticesBy h hv

lemma ofIds_within (h : g.WellFormed) (ids : List String) : (g.ofIds ids).Within g := by
  refine Reach.All.foldl (fun id => ?_) ids Reach.all_empty
  intro x hx
  cases x with
  | vertex v =>
      have hv := Std.ExtTreeSet.mem_ofList.1 hx
      exact isSome_of_mem_verticesBy h (List.contains_iff_mem.1 hv)
  | edge e =>
      have he := Std.ExtTreeSet.mem_ofList.1 hx
      exact isSome_of_mem_edgesBy h (List.contains_iff_mem.1 he)

lemma identicalTo_within (h : g.WellFormed) (digest : String → String) (r : Reach) :
    (g.identicalTo digest r).Within g := by
  refine Reach.all_ofVertices fun v hv => ?_
  obtain ⟨⟨code, w⟩, hw, hfound⟩ := List.mem_filterMap.1 hv
  obtain ⟨hash, -, hfound⟩ := Option.bind_eq_some_iff.1 hfound
  obtain ⟨code', -, hw⟩ := List.mem_flatMap.1 hw
  obtain ⟨w', hw', heq⟩ := List.mem_map.1 hw
  obtain ⟨rfl, rfl⟩ := Prod.mk.inj heq
  split at hfound
  · obtain rfl := Option.some.inj hfound
    exact isSome_of_mem_verticesBy h hw'
  · cases hfound

/-! ## Following edges -/

/-- Both ends of an edge are stored. -/
lemma isSome_otherEnd (h : g.WellFormed) {e : EdgeId} {edge : Edge} (he : g.edge? e = some edge)
    (v : VertexId) : (g.vertex? (edge.otherEnd v)).isSome := by
  rw [Edge.otherEnd]
  split
  · exact h.target_stored he
  · exact h.source_stored he

/-- The relationships that are meant are stored, and are met where one looks. -/
lemma of_mem_relationsAt (h : g.WellFormed) {relation : RelationRef} {role : Role} {v : VertexId}
    {edge : Edge} (hedge : edge ∈ g.relationsAt relation role v) :
    ∃ e, g.edge? e = some edge ∧ edge.MetAt v role.direction := by
  have hmet : ∀ {label : Option String}, edge ∈ (g.edgesOf v role.direction label).filterMap
      g.edge? → ∃ e, g.edge? e = some edge ∧ edge.MetAt v role.direction := by
    intro label hedge
    obtain ⟨e, hincident, he⟩ := List.mem_filterMap.1 hedge
    obtain ⟨edge', he', hmet, -⟩ := h.mem_edgesOf.1 hincident
    obtain rfl := Option.some.inj (he.symm.trans he')
    exact ⟨e, he, hmet⟩
  cases relation with
  | name name => exact hmet hedge
  | id id => exact hmet (List.mem_filter.1 hedge).1

lemma hop_within (h : g.WellFormed) (relation : RelationRef) (role : Role) (r : Reach) :
    (g.hop relation role r).Within g := by
  refine Reach.all_ofVertices fun w hw => ?_
  obtain ⟨v, -, hw⟩ := List.mem_flatMap.1 hw
  obtain ⟨edge, hedge, rfl⟩ := List.mem_map.1 hw
  obtain ⟨e, he, -⟩ := of_mem_relationsAt h hedge
  exact isSome_otherEnd h he v

/-- To be related to something only narrows. -/
lemma relatedTo_all {P : Element → Prop} (relation : RelationRef) (role : Role)
    (other : CanonicalPath) (hr : r.All P) : (g.relatedTo relation role other r).All P := by
  rw [relatedTo]
  split
  · exact Reach.all_empty
  · intro x hx
    cases x with
    | vertex v => exact hr (.vertex v) (Std.ExtTreeSet.mem_of_mem_filter hx)
    | edge e => exact absurd hx Std.ExtTreeSet.not_mem_empty

lemma toRelationships_within (h : g.WellFormed) (direction : Direction) (r : Reach) :
    (g.toRelationships direction r).Within g := by
  refine Reach.all_ofEdges fun e he => ?_
  obtain ⟨v, -, he⟩ := List.mem_flatMap.1 he
  obtain ⟨edge, hedge, -⟩ := h.mem_edgesOf.1 he
  exact Option.isSome_iff_exists.2 ⟨edge, hedge⟩

lemma toEntities_within (h : g.WellFormed) (direction : Direction) (r : Reach) :
    (g.toEntities direction r).Within g := by
  refine Reach.all_ofVertices fun v hv => ?_
  obtain ⟨edge, hedge, hv⟩ := List.mem_flatMap.1 hv
  obtain ⟨e, -, he⟩ := List.mem_filterMap.1 hedge
  have hends : v = edge.source ∨ v = edge.target := by
    cases direction <;> simp_all
  rcases hends with rfl | rfl
  · exact h.source_stored he
  · exact h.target_stored he

end Graph

/-! ## Filters and queries -/

section Evaluation

variable {digest : String → String} {g : Graph}

/-- Everything that is reached at a position is stored. -/
def Position.Within (p : Position) (g : Graph) : Prop :=
  (p.reach g).Within g

lemma Position.everywhere_within : everywhere.Within g := by
  refine Reach.all_ofVertices fun v hv => ?_
  rwa [Std.ExtTreeMap.mem_keys, Graph.mem_vertices_iff] at hv

lemma Position.Within.union {p q : Position} (hp : p.Within g) (hq : q.Within g) :
    (p.union q).Within g := by
  cases p with
  | everywhere => exact everywhere_within
  | among r =>
      cases q with
      | everywhere => exact everywhere_within
      | among s => exact Reach.All.union hp hq

lemma Reach.Within.all {P : Element → Prop} {r : Reach} (hr : r.Within g)
    (hP : ∀ x, g.Holds x → P x) : r.All P :=
  fun x hx => hP x (hr x hx)

mutual

/-- A filter leads to what is stored, or to where one stands already. -/
theorem Filter.apply_all {P : Element → Prop} (h : g.WellFormed) (hP : ∀ x, g.Holds x → P x) :
    ∀ (role : FragmentRole) (f : Filter) {p : Position},
      (p.reach g).All P → ((f.apply digest g role p).reach g).All P
  | _, .relatedBy relation role none, _, _ => (g.hop_within h relation role _).all hP
  | _, .relatedBy relation role (some other), _, hp => Graph.relatedTo_all relation role other hp
  | _, .toRelationships direction, _, _ => (g.toRelationships_within h direction _).all hP
  | _, .toEntities direction, _, _ => (g.toEntities_within h direction _).all hP
  | _, .identical, _, _ => (g.identicalTo_within h digest _).all hP
  | _, .noop, _, hp => hp
  | _, .recurse _, .everywhere, hp => hp
  | role, .recurse chain, .among _, hp =>
      Reach.All.close (fun r hr => applyChain_all h hP role chain (p := .among r) hr) _ hp hp
  | .path, .withPaths paths, _, _ => (g.atPaths_within h paths).all hP
  | .path, .withKinds kinds, .everywhere, _ => (g.ofKinds_within h kinds).all hP
  | .path, .withIds ids, .everywhere, _ => (g.ofIds_within h ids).all hP
  | .filter, .withPaths _, _, hp => Reach.All.filter hp _
  | .filter, .withKinds _, _, hp | .path, .withKinds _, .among _, hp => Reach.All.filter hp _
  | .filter, .withIds _, _, hp | .path, .withIds _, .among _, hp => Reach.All.filter hp _
  | _, .withProperty _ _, _, hp | _, .definedBy _, _, hp => Reach.All.filter hp _
  | _, .relationIds _, _, hp | _, .relationNames _, _, hp => Reach.All.filter hp _
  | _, .relationProperty _ _, _, hp => Reach.All.filter hp _
  | _, .relationSources _, _, hp | _, .relationTargets _, _, hp => Reach.All.filter hp _

/-- So does a chain of filters. -/
theorem applyChain_all {P : Element → Prop} (h : g.WellFormed) (hP : ∀ x, g.Holds x → P x)
    (role : FragmentRole) : ∀ (fs : List Filter) {p : Position}, (p.reach g).All P →
      ((applyChain digest g role fs p).reach g).All P
  | [], _, hp => hp
  | f :: fs, _, hp => applyChain_all h hP role fs (Filter.apply_all h hP role f hp)

end

/-- A filter stays within the graph. -/
theorem Filter.apply_within (h : g.WellFormed) (role : FragmentRole) (f : Filter) {p : Position} :
    p.Within g → (f.apply digest g role p).Within g :=
  f.apply_all h (fun _ => id) role

namespace Query

lemma fragments_within (h : g.WellFormed) :
    ∀ (fragments : List Fragment) {p : Position}, p.Within g →
      (fragments.foldl (fun p f => f.apply digest g p) p).Within g
  | [], _, hp => hp
  | f :: fs, _, hp => fragments_within h fs (f.filter.apply_within h f.role hp)

mutual

/-- A query stays within the graph. -/
theorem run_within (h : g.WellFormed) :
    ∀ (q : Query) {p : Position}, p.Within g → (q.run digest g p).Within g
  | node fragments [], _, hp => fragments_within h fragments hp
  | node fragments [only], _, hp => run_within h only (fragments_within h fragments hp)
  | node fragments (b :: b' :: bs), _, hp =>
      runAll_within h (b :: b' :: bs) (fragments_within h fragments hp)

/-- So do several. -/
theorem runAll_within (h : g.WellFormed) :
    ∀ (qs : List Query) {p : Position}, p.Within g → (runAll digest g qs p).Within g
  | [], _, _ => Reach.all_empty
  | q :: qs, _, hp => (run_within h q hp).union (runAll_within h qs hp)

end

/-- **A query leads to nothing but what is stored.** -/
theorem elements_within (h : g.WellFormed) (digest : String → String) (q : Query) :
    (q.elements digest g).Within g :=
  run_within h q Position.everywhere_within

end Query

end Evaluation

end Estate
