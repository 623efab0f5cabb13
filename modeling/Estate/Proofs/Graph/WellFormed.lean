import Estate.Graph.Basic
import Estate.Proofs.Graph.Index

/-!
# Graphs are kept in step

A graph says the same several times over.  `Graph.contents` is what it says once: its counter, its
vertices and its edges.  `Graph.WellFormed` says that the other maps agree with that: the edges that
leave and enter a vertex, and the two indexes.

`Mutation.on` gives the meaning of every mutation on the contents alone, without any of the derived
maps.

* **`Graph.WellFormed.run`** — a mutation keeps a graph well formed.
* **`Graph.WellFormed.contents_run`** — on a well-formed graph a mutation does to the contents what
  `Mutation.on` says, and refuses what it refuses.
-/

namespace Estate

open Function (update)

/-- What a graph stores, without what can be derived from it. -/
@[ext]
structure Contents where
  counter : Nat
  vertex : VertexId → Option Properties
  edge : EdgeId → Option Edge

namespace Contents

/-- Whether an edge ends at a vertex. -/
def touches (edge : Edge) (v : VertexId) : Bool :=
  edge.source == v || edge.target == v

/-- The contents with another property map at a vertex. -/
def setVertex (c : Contents) (v : VertexId) (row : Option Properties) : Contents :=
  { c with vertex := update c.vertex v row }

/-- The contents with another edge, or none, under a number. -/
def setEdge (c : Contents) (e : EdgeId) (row : Option Edge) : Contents :=
  { c with edge := update c.edge e row }

/-- The contents with a new vertex. -/
def addVertex (c : Contents) (row : Properties) : Contents :=
  { c.setVertex (c.counter + 1) (some row) with counter := c.counter + 1 }

/-- The contents with a new edge. -/
def addEdge (c : Contents) (edge : Edge) : Contents :=
  { c.setEdge (c.counter + 1) (some edge) with counter := c.counter + 1 }

/-- The contents without a vertex and the edges at it. -/
def dropVertex (c : Contents) (v : VertexId) : Contents where
  counter := c.counter
  vertex := update c.vertex v none
  edge := fun e => (c.edge e).filter fun edge => !touches edge v

section Fields

variable (c : Contents) (v : VertexId) (e : EdgeId) (row : Properties) (edge : Edge)
  (row? : Option Properties) (edge? : Option Edge)

@[simp] lemma vertex_setVertex : (c.setVertex v row?).vertex = update c.vertex v row? := rfl
@[simp] lemma edge_setVertex : (c.setVertex v row?).edge = c.edge := rfl
@[simp] lemma counter_setVertex : (c.setVertex v row?).counter = c.counter := rfl
@[simp] lemma vertex_setEdge : (c.setEdge e edge?).vertex = c.vertex := rfl
@[simp] lemma edge_setEdge : (c.setEdge e edge?).edge = update c.edge e edge? := rfl
@[simp] lemma counter_setEdge : (c.setEdge e edge?).counter = c.counter := rfl

@[simp] lemma vertex_addVertex :
    (c.addVertex row).vertex = update c.vertex (c.counter + 1) (some row) := rfl

@[simp] lemma edge_addVertex : (c.addVertex row).edge = c.edge := rfl
@[simp] lemma counter_addVertex : (c.addVertex row).counter = c.counter + 1 := rfl
@[simp] lemma vertex_addEdge : (c.addEdge edge).vertex = c.vertex := rfl

@[simp] lemma edge_addEdge :
    (c.addEdge edge).edge = update c.edge (c.counter + 1) (some edge) := rfl

@[simp] lemma counter_addEdge : (c.addEdge edge).counter = c.counter + 1 := rfl

end Fields

end Contents

/-- The meaning of a mutation: what it returns, and the contents that it leaves. -/
def Mutation.on {α : Type} (m : Mutation α) (c : Contents) : Except GraphError (α × Contents) :=
  match m with
  | addVertex properties => .ok (c.counter + 1, c.addVertex properties)
  | setVertexProperty id key value =>
    match c.vertex id with
    | none => .error (.noVertex id)
    | some properties => .ok ((), c.setVertex id (some (properties.insert key value)))
  | removeVertexProperty id key =>
    match c.vertex id with
    | none => .error (.noVertex id)
    | some properties => .ok (properties[key]?, c.setVertex id (some (properties.erase key)))
  | removeVertex id =>
    match c.vertex id with
    | none => .error (.noVertex id)
    | some _ => .ok ((), c.dropVertex id)
  | addEdge label source target properties =>
    if (c.vertex source).isNone then .error (.noVertex source)
    else if (c.vertex target).isNone then .error (.noVertex target)
    else .ok (c.counter + 1, c.addEdge ⟨label, source, target, properties⟩)
  | setEdgeProperty id key value =>
    match c.edge id with
    | none => .error (.noEdge id)
    | some edge =>
      .ok ((), c.setEdge id (some { edge with properties := edge.properties.insert key value }))
  | removeEdgeProperty id key =>
    match c.edge id with
    | none => .error (.noEdge id)
    | some edge =>
      .ok (edge.properties[key]?,
        c.setEdge id (some { edge with properties := edge.properties.erase key }))
  | removeEdge id =>
    match c.edge id with
    | none => .error (.noEdge id)
    | some _ => .ok ((), c.setEdge id none)

namespace Graph

/-- What a graph stores. -/
def contents (g : Graph) : Contents :=
  ⟨g.counter, g.vertex?, g.edge?⟩

/-- The derived maps of a graph agree with what it stores. -/
structure WellFormed (g : Graph) : Prop where
  source_stored : ∀ {e : EdgeId} {edge : Edge}, g.edge? e = some edge →
    (g.vertex? edge.source).isSome
  target_stored : ∀ {e : EdgeId} {edge : Edge}, g.edge? e = some edge →
    (g.vertex? edge.target).isSome
  mem_outgoing : ∀ (v : VertexId) (e : EdgeId),
    e ∈ g.outgoing.getD v ∅ ↔ ∃ edge, g.edge? e = some edge ∧ edge.source = v
  mem_incoming : ∀ (v : VertexId) (e : EdgeId),
    e ∈ g.incoming.getD v ∅ ↔ ∃ edge, g.edge? e = some edge ∧ edge.target = v
  vertexFiles : g.vertexIndex.Files (Index.tableEntries g.vertex?)
  edgeFiles : g.edgeIndex.Files (Index.tableEntries (Option.map Edge.properties ∘ g.edge?))
  vertex_le : ∀ {v : VertexId}, (g.vertex? v).isSome → v ≤ g.counter
  edge_le : ∀ {e : EdgeId}, (g.edge? e).isSome → e ≤ g.counter
  not_both : ∀ {id : Nat}, (g.vertex? id).isSome → ¬ (g.edge? id).isSome

/-- A graph without vertices is well formed. -/
theorem wellFormed_empty (vertexKeys edgeKeys : List String) :
    (empty vertexKeys edgeKeys).WellFormed where
  source_stored h := by simp [empty, edge?] at h
  target_stored h := by simp [empty, edge?] at h
  mem_outgoing v e := by simp [empty, edge?]
  mem_incoming v e := by simp [empty, edge?]
  vertexFiles := (Index.files_ofKeys vertexKeys).congr fun _ _ _ => by
    simp [Index.tableEntries, empty, vertex?]
  edgeFiles := (Index.files_ofKeys edgeKeys).congr fun _ _ _ => by
    simp [Index.tableEntries, empty, edge?]
  vertex_le h := by simp [empty, vertex?] at h
  edge_le h := by simp [empty, edge?] at h
  not_both h := by simp [empty, vertex?] at h

variable {g : Graph}

lemma WellFormed.vertex_free (h : g.WellFormed) : g.vertex? (g.counter + 1) = none := by
  by_contra hne
  exact Nat.not_succ_le_self _ (h.vertex_le (Option.isSome_iff_ne_none.2 hne))

lemma WellFormed.edge_free (h : g.WellFormed) : g.edge? (g.counter + 1) = none := by
  by_contra hne
  exact Nat.not_succ_le_self _ (h.edge_le (Option.isSome_iff_ne_none.2 hne))

lemma mem_vertices_iff {v : VertexId} : v ∈ g.vertices ↔ (g.vertex? v).isSome := by
  rw [vertex?, Std.ExtTreeMap.isSome_getElem?_iff_mem]

lemma mem_edges_iff {e : EdgeId} : e ∈ g.edges ↔ (g.edge? e).isSome := by
  rw [edge?, Std.ExtTreeMap.isSome_getElem?_iff_mem]

lemma getElem?_insert_eq_update {β : Type} (m : Std.ExtTreeMap Nat β compare) (id : Nat) (b : β) :
    (fun id' => (m.insert id b)[id']?) = update (fun id' => m[id']?) id (some b) := by
  funext id'
  simp only [Std.ExtTreeMap.getElem?_insert, Function.update_apply, Std.compare_eq_iff_eq,
    eq_comm (a := id)]

lemma getElem?_erase_eq_update {β : Type} (m : Std.ExtTreeMap Nat β compare) (id : Nat) :
    (fun id' => (m.erase id)[id']?) = update (fun id' => m[id']?) id none := by
  funext id'
  simp only [Std.ExtTreeMap.getElem?_erase, Function.update_apply, Std.compare_eq_iff_eq,
    eq_comm (a := id)]

/-! ## The ends of edges -/

section Ends

variable {ends : Std.ExtTreeMap VertexId IdSet compare} {v w : VertexId} {e e' : EdgeId}

lemma mem_attach :
    e' ∈ (attach ends v e).getD w ∅ ↔ (w = v ∧ e' = e) ∨ e' ∈ ends.getD w ∅ := by
  by_cases hw : w = v
  · subst hw
    simp only [attach, Std.ExtTreeMap.getD_insert_self, IdSet.mem_insert_iff, true_and]
  · simp [attach, Std.ExtTreeMap.getD_insert, hw, Ne.symm hw]

lemma mem_detach :
    e' ∈ (detach ends v e).getD w ∅ ↔ e' ∈ ends.getD w ∅ ∧ ¬ (w = v ∧ e' = e) := by
  by_cases hw : w = v
  · subst hw
    cases hrow : ends[w]? with
    | none => simp [detach, Std.ExtTreeMap.getD_eq_getD_getElem?, hrow]
    | some row =>
        simp only [detach, Std.ExtTreeMap.getD_eq_getD_getElem?, hrow, true_and,
          Std.ExtTreeMap.getElem?_modify_self, Option.map_some, Option.getD_some]
        exact IdSet.mem_erase_iff
  · simp [detach, Std.ExtTreeMap.getD_eq_getD_getElem?, Std.ExtTreeMap.getElem?_modify, hw,
      Ne.symm hw]

/-- Every edge is filed under one of its ends, and nothing else is. -/
def EndsFiled (ends : Std.ExtTreeMap VertexId IdSet compare) (edges : EdgeId → Option Edge)
    (endOf : Edge → VertexId) : Prop :=
  ∀ v e, e ∈ ends.getD v ∅ ↔ ∃ edge, edges e = some edge ∧ endOf edge = v

namespace EndsFiled

variable {edges : EdgeId → Option Edge} {endOf : Edge → VertexId} {edge edge' : Edge}

/-- A new edge is filed. -/
lemma attach (h : EndsFiled ends edges endOf) (edge : Edge) (hfree : edges e = none) :
    EndsFiled (Graph.attach ends (endOf edge) e) (update edges e (some edge)) endOf := by
  intro w e'
  rw [mem_attach, h w e', Function.update_apply]
  by_cases he : e' = e
  · simp [he, hfree, eq_comm]
  · simp [he]

/-- An edge that goes is taken out. -/
lemma detach (h : EndsFiled ends edges endOf) (hedge : edges e = some edge) :
    EndsFiled (Graph.detach ends (endOf edge) e) (update edges e none) endOf := by
  intro w e'
  rw [mem_detach, h w e', Function.update_apply]
  by_cases he : e' = e
  · simp [he, hedge, eq_comm]
  · simp [he]

/-- An edge may be replaced by one with the same end. -/
lemma refile (h : EndsFiled ends edges endOf) (hedge : edges e = some edge)
    (hsame : endOf edge' = endOf edge) : EndsFiled ends (update edges e (some edge')) endOf := by
  intro w e'
  rw [h w e', Function.update_apply]
  by_cases he : e' = e
  · simp [he, hedge, hsame]
  · simp [he]

/-- A vertex at which no edge ends may be left out. -/
lemma erase (h : EndsFiled ends edges endOf)
    (halone : ∀ {e edge}, edges e = some edge → endOf edge ≠ v) :
    EndsFiled (ends.erase v) edges endOf := by
  intro w e'
  by_cases hw : w = v
  · subst hw
    simp only [Std.ExtTreeMap.getD_erase_self, Std.ExtTreeSet.not_mem_empty, false_iff]
    rintro ⟨edge, he, hend⟩
    exact halone he hend
  · simpa [Std.ExtTreeMap.getD_erase, Ne.symm hw] using h w e'

end EndsFiled

end Ends

/-! ## Vertices -/

lemma vertex?_insert (id : VertexId) (row : Properties) (index : Index) :
    vertex? { g with vertices := g.vertices.insert id row, vertexIndex := index } =
      update g.vertex? id (some row) :=
  getElem?_insert_eq_update g.vertices id row

/-- Adding a vertex keeps a graph well formed. -/
lemma WellFormed.addVertex (h : g.WellFormed) (properties : Properties) :
    (g.addVertex properties).2.WellFormed := by
  have hview : (g.addVertex properties).2.vertex? =
      update g.vertex? (g.counter + 1) (some properties) :=
    getElem?_insert_eq_update g.vertices _ _
  have hkept : ∀ {v}, (g.vertex? v).isSome → ((g.addVertex properties).2.vertex? v).isSome := by
    intro v hv
    rw [hview, Function.update_apply]
    split
    · rfl
    · exact hv
  exact
    { source_stored := fun he => hkept (h.source_stored he)
      target_stored := fun he => hkept (h.target_stored he)
      mem_outgoing := h.mem_outgoing
      mem_incoming := h.mem_incoming
      vertexFiles := by
        rw [hview]
        exact h.vertexFiles.insertRow h.vertex_free
      edgeFiles := h.edgeFiles
      vertex_le := fun {v} hv => by
        rw [hview, Function.update_apply] at hv
        split at hv
        · next he => exact Nat.le_of_eq he
        · exact Nat.le_succ_of_le (h.vertex_le hv)
      edge_le := fun he => Nat.le_succ_of_le (h.edge_le he)
      not_both := fun {id} hv he => by
        rw [hview, Function.update_apply] at hv
        split at hv
        · next hid =>
            subst hid
            exact Nat.not_succ_le_self _ (h.edge_le he)
        · exact h.not_both hv he }

/-- A stored vertex may be given another property map, if its index follows. -/
lemma WellFormed.putVertex (h : g.WellFormed) {id : VertexId} {row : Properties} {index : Index}
    (hstored : (g.vertex? id).isSome)
    (hindex : index.Files (Index.tableEntries (update g.vertex? id (some row)))) :
    WellFormed { g with vertices := g.vertices.insert id row, vertexIndex := index } := by
  have hsame : ∀ v, (update g.vertex? id (some row) v).isSome = (g.vertex? v).isSome := by
    intro v
    rw [Function.update_apply]
    split
    · next he => rw [he, hstored, Option.isSome_some]
    · rfl
  exact
    { source_stored := fun he => by
        rw [vertex?_insert, hsame]
        exact h.source_stored he
      target_stored := fun he => by
        rw [vertex?_insert, hsame]
        exact h.target_stored he
      mem_outgoing := h.mem_outgoing
      mem_incoming := h.mem_incoming
      vertexFiles := by
        rw [vertex?_insert]
        exact hindex
      edgeFiles := h.edgeFiles
      vertex_le := fun hv => by
        rw [vertex?_insert, hsame] at hv
        exact h.vertex_le hv
      edge_le := h.edge_le
      not_both := fun hv => by
        rw [vertex?_insert, hsame] at hv
        exact h.not_both hv }

/-! ## Edges -/

lemma edge?_insert (id : EdgeId) (row : Edge) (index : Index) :
    edge? { g with edges := g.edges.insert id row, edgeIndex := index } =
      update g.edge? id (some row) :=
  getElem?_insert_eq_update g.edges id row

/-- What the edges carry follows the edges. -/
lemma properties_update (id : EdgeId) (row : Option Edge) :
    Option.map Edge.properties ∘ update g.edge? id row =
      update (Option.map Edge.properties ∘ g.edge?) id (row.map Edge.properties) :=
  Function.comp_update _ _ _ _

/-- Adding an edge between stored vertices keeps a graph well formed. -/
lemma WellFormed.addEdge (h : g.WellFormed) {label : String} {source target : VertexId}
    {properties : Properties} {e : EdgeId} {g' : Graph}
    (hadd : g.addEdge label source target properties = .ok (e, g')) : g'.WellFormed := by
  rw [Graph.addEdge] at hadd
  split at hadd
  · cases hadd
  split at hadd
  · cases hadd
  next hsource htarget =>
  rw [mem_vertices_iff, not_not] at hsource htarget
  obtain ⟨rfl, rfl⟩ := Prod.mk.inj (Except.ok.inj hadd)
  have hview : edge? { g with
      counter := g.counter + 1
      edges := g.edges.insert (g.counter + 1) ⟨label, source, target, properties⟩
      outgoing := attach g.outgoing source (g.counter + 1)
      incoming := attach g.incoming target (g.counter + 1)
      edgeIndex := g.edgeIndex.addAll (g.counter + 1) properties } =
        update g.edge? (g.counter + 1) (some ⟨label, source, target, properties⟩) :=
    getElem?_insert_eq_update g.edges _ _
  have hfree : (Option.map Edge.properties ∘ g.edge?) (g.counter + 1) = none := by
    simp [h.edge_free]
  exact
    { source_stored := fun {e' edge'} he => by
        rw [hview, Function.update_apply] at he
        split at he
        · obtain rfl := Option.some.inj he
          exact hsource
        · exact h.source_stored he
      target_stored := fun {e' edge'} he => by
        rw [hview, Function.update_apply] at he
        split at he
        · obtain rfl := Option.some.inj he
          exact htarget
        · exact h.target_stored he
      mem_outgoing := by
        rw [hview]
        exact EndsFiled.attach h.mem_outgoing ⟨label, source, target, properties⟩ h.edge_free
      mem_incoming := by
        rw [hview]
        exact EndsFiled.attach h.mem_incoming ⟨label, source, target, properties⟩ h.edge_free
      vertexFiles := h.vertexFiles
      edgeFiles := by
        rw [hview, properties_update]
        exact h.edgeFiles.insertRow hfree
      vertex_le := fun hv => Nat.le_succ_of_le (h.vertex_le hv)
      edge_le := fun {e'} he => by
        rw [hview, Function.update_apply] at he
        split at he
        · next hid => exact Nat.le_of_eq hid
        · exact Nat.le_succ_of_le (h.edge_le he)
      not_both := fun {id} hv he => by
        rw [hview, Function.update_apply] at he
        split at he
        · next hid =>
            subst hid
            exact Nat.not_succ_le_self _ (h.vertex_le hv)
        · exact h.not_both hv he }

/-- A stored edge may be given another property map, if its index follows. -/
lemma WellFormed.putEdge (h : g.WellFormed) {id : EdgeId} {edge : Edge} {row : Properties}
    {index : Index} (hedge : g.edge? id = some edge)
    (hindex : index.Files
      (Index.tableEntries (update (Option.map Edge.properties ∘ g.edge?) id (some row)))) :
    WellFormed { g with
      edges := g.edges.insert id { edge with properties := row }
      edgeIndex := index } := by
  -- The ends of every edge are what they were.
  have hends : ∀ {e : EdgeId} {edge' : Edge},
      update g.edge? id (some { edge with properties := row }) e = some edge' →
        ∃ old, g.edge? e = some old ∧ old.source = edge'.source ∧ old.target = edge'.target := by
    intro e edge' he
    rw [Function.update_apply] at he
    split at he
    · next hid =>
        obtain rfl := Option.some.inj he
        exact ⟨edge, hid ▸ hedge, rfl, rfl⟩
    · exact ⟨edge', he, rfl, rfl⟩
  have hsome : ∀ {e : EdgeId}, (edge? { g with
      edges := g.edges.insert id { edge with properties := row }, edgeIndex := index } e).isSome →
        (g.edge? e).isSome := by
    intro e he
    rw [edge?_insert] at he
    obtain ⟨edge', he⟩ := Option.isSome_iff_exists.1 he
    obtain ⟨old, hold, -⟩ := hends he
    exact Option.isSome_iff_exists.2 ⟨old, hold⟩
  exact
    { source_stored := fun he => by
        rw [edge?_insert] at he
        obtain ⟨old, hold, hs, -⟩ := hends he
        exact hs ▸ h.source_stored hold
      target_stored := fun he => by
        rw [edge?_insert] at he
        obtain ⟨old, hold, -, ht⟩ := hends he
        exact ht ▸ h.target_stored hold
      mem_outgoing := by
        rw [edge?_insert]
        exact EndsFiled.refile h.mem_outgoing hedge rfl
      mem_incoming := by
        rw [edge?_insert]
        exact EndsFiled.refile h.mem_incoming hedge rfl
      vertexFiles := h.vertexFiles
      edgeFiles := by
        rw [edge?_insert, properties_update]
        exact hindex
      vertex_le := h.vertex_le
      edge_le := fun he => h.edge_le (hsome he)
      not_both := fun hv he => h.not_both hv (hsome he) }

lemma edge?_dropEdge (id : EdgeId) : (g.dropEdge id).edge? = update g.edge? id none := by
  rw [dropEdge]
  split
  · next hnone => exact (Function.update_eq_self_iff.2 hnone.symm).symm
  · exact getElem?_erase_eq_update g.edges id

lemma vertex?_dropEdge (id : EdgeId) : (g.dropEdge id).vertex? = g.vertex? := by
  rw [dropEdge]
  split <;> rfl

lemma counter_dropEdge (id : EdgeId) : (g.dropEdge id).counter = g.counter := by
  rw [dropEdge]
  split <;> rfl

lemma contents_dropEdge (id : EdgeId) : (g.dropEdge id).contents = g.contents.setEdge id none :=
  Contents.ext (counter_dropEdge id) (vertex?_dropEdge id) (edge?_dropEdge id)

/-- Leaving an edge out keeps a graph well formed. -/
lemma WellFormed.dropEdge (h : g.WellFormed) (id : EdgeId) : (g.dropEdge id).WellFormed := by
  cases hedge : g.edge? id with
  | none =>
      simp only [Graph.dropEdge, hedge]
      exact h
  | some edge =>
      have hview : ∀ {e : EdgeId} {edge' : Edge},
          (g.dropEdge id).edge? e = some edge' ↔ e ≠ id ∧ g.edge? e = some edge' := by
        intro e edge'
        rw [edge?_dropEdge, Function.update_apply]
        by_cases he : e = id
        · simp [he]
        · simp [he]
      have hdrop : g.dropEdge id = { g with
          edges := g.edges.erase id
          outgoing := detach g.outgoing edge.source id
          incoming := detach g.incoming edge.target id
          edgeIndex := g.edgeIndex.removeAll id edge.properties } := by
        simp only [Graph.dropEdge, hedge]
      refine
        { source_stored := fun he => by
            rw [vertex?_dropEdge]
            exact h.source_stored (hview.1 he).2
          target_stored := fun he => by
            rw [vertex?_dropEdge]
            exact h.target_stored (hview.1 he).2
          mem_outgoing := ?_
          mem_incoming := ?_
          vertexFiles := ?_
          edgeFiles := ?_
          vertex_le := fun hv => by
            rw [vertex?_dropEdge] at hv
            rw [counter_dropEdge]
            exact h.vertex_le hv
          edge_le := fun he => by
            obtain ⟨edge', he⟩ := Option.isSome_iff_exists.1 he
            rw [counter_dropEdge]
            exact h.edge_le (Option.isSome_iff_exists.2 ⟨edge', (hview.1 he).2⟩)
          not_both := fun hv he => by
            obtain ⟨edge', he⟩ := Option.isSome_iff_exists.1 he
            rw [vertex?_dropEdge] at hv
            exact h.not_both hv (Option.isSome_iff_exists.2 ⟨edge', (hview.1 he).2⟩) }
      · rw [edge?_dropEdge, hdrop]
        exact EndsFiled.detach h.mem_outgoing hedge
      · rw [edge?_dropEdge, hdrop]
        exact EndsFiled.detach h.mem_incoming hedge
      · rw [vertex?_dropEdge, hdrop]
        exact h.vertexFiles
      · rw [edge?_dropEdge, properties_update, hdrop]
        exact h.edgeFiles.eraseRow (by simp [hedge])

/-! ## Removing a vertex -/

/-- The graph without a vertex, whether or not there are edges at it. -/
def withoutVertex (g : Graph) (id : VertexId) (properties : Properties) : Graph := { g with
  vertices := g.vertices.erase id
  outgoing := g.outgoing.erase id
  incoming := g.incoming.erase id
  vertexIndex := g.vertexIndex.removeAll id properties }

lemma edge?_withoutVertex (id : VertexId) (properties : Properties) :
    (g.withoutVertex id properties).edge? = g.edge? :=
  rfl

lemma detach_erase (ends : Std.ExtTreeMap VertexId IdSet compare) (id v : VertexId) (e : EdgeId) :
    detach (ends.erase id) v e = (detach ends v e).erase id := by
  ext w
  simp only [detach, Std.ExtTreeMap.getElem?_modify, Std.ExtTreeMap.getElem?_erase]
  split <;> split <;> simp_all

/-- It does not matter whether the edges go first or the vertex does. -/
lemma dropEdge_withoutVertex (id : VertexId) (properties : Properties) (e : EdgeId) :
    (g.withoutVertex id properties).dropEdge e = (g.dropEdge e).withoutVertex id properties := by
  cases he : g.edge? e with
  | none => simp only [dropEdge, edge?_withoutVertex, he]
  | some edge =>
      simp only [dropEdge, edge?_withoutVertex, he]
      simp only [withoutVertex, detach_erase]

lemma foldl_dropEdge_withoutVertex (id : VertexId) (properties : Properties) :
    ∀ (l : List EdgeId) (g : Graph), l.foldl dropEdge (g.withoutVertex id properties) =
      (l.foldl dropEdge g).withoutVertex id properties
  | [], _ => rfl
  | e :: l, g => by
      rw [List.foldl_cons, dropEdge_withoutVertex]
      exact foldl_dropEdge_withoutVertex id properties l (g.dropEdge e)

lemma WellFormed.foldl_dropEdge :
    ∀ (l : List EdgeId) {g : Graph}, g.WellFormed → (l.foldl Graph.dropEdge g).WellFormed
  | [], _, h => h
  | e :: l, _, h => foldl_dropEdge l (h.dropEdge e)

lemma contents_foldl_dropEdge : ∀ (l : List EdgeId) (g : Graph),
    (l.foldl dropEdge g).contents =
      { g.contents with edge := fun e => if e ∈ l then none else g.edge? e }
  | [], g => by simp [contents]
  | e :: l, g => by
      rw [List.foldl_cons, contents_foldl_dropEdge l, contents_dropEdge, edge?_dropEdge]
      refine Contents.ext rfl rfl (funext fun e' => ?_)
      by_cases he : e' = e
      · simp [he]
      · simp [he]

lemma WellFormed.mem_both (h : g.WellFormed) (v : VertexId) (e : EdgeId) :
    e ∈ g.incident v .both ↔ ∃ edge, g.edge? e = some edge ∧ Contents.touches edge v := by
  rw [incident, Std.ExtTreeSet.mem_union_iff, h.mem_outgoing, h.mem_incoming]
  simp only [Contents.touches, Bool.or_eq_true, beq_iff_eq, and_or_left, exists_or]

/-- A vertex without edges may be left out. -/
lemma WellFormed.withoutVertex (h : g.WellFormed) {id : VertexId} {properties : Properties}
    (hrow : g.vertex? id = some properties)
    (halone : ∀ {e : EdgeId} {edge : Edge}, g.edge? e = some edge →
      edge.source ≠ id ∧ edge.target ≠ id) :
    (g.withoutVertex id properties).WellFormed := by
  have hview : (g.withoutVertex id properties).vertex? = update g.vertex? id none :=
    getElem?_erase_eq_update g.vertices id
  have hsome : ∀ {v : VertexId}, ((g.withoutVertex id properties).vertex? v).isSome →
      (g.vertex? v).isSome := by
    intro v hv
    rw [hview, Function.update_apply] at hv
    split at hv
    · cases hv
    · exact hv
  have hkept : ∀ {v : VertexId}, v ≠ id → (g.vertex? v).isSome →
      ((g.withoutVertex id properties).vertex? v).isSome := by
    intro v hne hv
    rw [hview, Function.update_of_ne hne]
    exact hv
  exact
    { source_stored := fun he => hkept (halone he).1 (h.source_stored he)
      target_stored := fun he => hkept (halone he).2 (h.target_stored he)
      mem_outgoing := EndsFiled.erase h.mem_outgoing fun he => (halone he).1
      mem_incoming := EndsFiled.erase h.mem_incoming fun he => (halone he).2
      vertexFiles := by
        rw [hview]
        exact h.vertexFiles.eraseRow hrow
      edgeFiles := h.edgeFiles
      vertex_le := fun hv => h.vertex_le (hsome hv)
      edge_le := h.edge_le
      not_both := fun hv => h.not_both (hsome hv) }

lemma erase_of_missing {properties : Properties} {key : String}
    (h : properties[key]? = none) : properties.erase key = properties := by
  ext k value
  rw [Std.ExtTreeMap.getElem?_erase]
  split
  · next he =>
      rw [← Std.compare_eq_iff_eq.1 he, h]
  · rfl

/-- Removing a vertex takes the edges at it along. -/
lemma WellFormed.removeVertex (h : g.WellFormed) {id : VertexId} {properties : Properties}
    (hrow : g.vertex? id = some properties) :
    ∃ g', g.removeVertex id = .ok g' ∧ g'.WellFormed ∧ g'.contents = g.contents.dropVertex id := by
  set gone := (g.incident id .both).toList with hgone
  have hmem : ∀ e, e ∈ gone ↔ ∃ edge, g.edge? e = some edge ∧ Contents.touches edge id := fun e =>
    Std.ExtTreeSet.mem_toList.trans (h.mem_both id e)
  have hcontents := contents_foldl_dropEdge gone g
  have hvertex : (gone.foldl Graph.dropEdge g).vertex? = g.vertex? :=
    congrArg Contents.vertex hcontents
  have hedge : (gone.foldl Graph.dropEdge g).edge? =
      fun e => if e ∈ gone then none else g.edge? e :=
    congrArg Contents.edge hcontents
  have hcounter : (gone.foldl Graph.dropEdge g).counter = g.counter :=
    congrArg Contents.counter hcontents
  refine ⟨(gone.foldl Graph.dropEdge g).withoutVertex id properties, ?_, ?_, ?_⟩
  · simp only [Graph.removeVertex, hrow]
    exact congrArg Except.ok (foldl_dropEdge_withoutVertex id properties gone g)
  · refine (h.foldl_dropEdge gone).withoutVertex (by rw [hvertex, hrow]) fun {e edge} he => ?_
    rw [hedge] at he
    dsimp only at he
    split at he
    · cases he
    · next hkept =>
        have halone : ¬ Contents.touches edge id := fun ht => hkept ((hmem e).2 ⟨edge, he, ht⟩)
        simpa [Contents.touches] using halone
  · refine Contents.ext hcounter ?_ (funext fun e => ?_)
    · refine (getElem?_erase_eq_update _ id).trans ?_
      exact congrArg (fun f => update f id none) hvertex
    · show edge? _ e = (g.edge? e).filter fun edge => !Contents.touches edge id
      rw [edge?_withoutVertex, hedge]
      dsimp only
      cases he : g.edge? e with
      | none => simp
      | some edge =>
          by_cases ht : Contents.touches edge id
          · simp [(hmem e).2 ⟨edge, he, ht⟩, Option.filter, ht]
          · have hkept : e ∉ gone := fun hin => by
              obtain ⟨edge', he', ht'⟩ := (hmem e).1 hin
              exact ht (Option.some.inj (he.symm.trans he') ▸ ht')
            simp [hkept, Option.filter, ht]

/-! ## Mutations -/

variable {α : Type}

/-- What a mutation makes of a well-formed graph, in one statement: it is refused as its meaning is,
or it leaves a well-formed graph with the contents that its meaning leaves. -/
lemma WellFormed.run_spec (h : g.WellFormed) (m : Mutation α) :
    match m.on g.contents with
    | .ok (a, c) => ∃ g', m.run g = .ok (a, g') ∧ g'.WellFormed ∧ g'.contents = c
    | .error e => m.run g = .error e := by
  cases m with
  | addVertex properties =>
      exact ⟨_, rfl, h.addVertex properties,
        Contents.ext rfl (getElem?_insert_eq_update g.vertices _ _) rfl⟩
  | setVertexProperty id key value =>
      cases hrow : g.vertex? id with
      | none => simp [Mutation.on, contents, hrow, Mutation.run, setVertexProperty, Except.map]
      | some row =>
          simp only [Mutation.on, contents, hrow, Mutation.run, setVertexProperty, Except.map]
          exact ⟨_, rfl, h.putVertex (by simp [hrow]) (h.vertexFiles.setCell hrow key value),
            Contents.ext rfl (vertex?_insert id _ _) rfl⟩
  | removeVertexProperty id key =>
      cases hrow : g.vertex? id with
      | none => simp [Mutation.on, contents, hrow, Mutation.run, removeVertexProperty]
      | some row =>
          cases hold : row[key]? with
          | none =>
              simp only [Mutation.on, contents, hrow, hold, Mutation.run, removeVertexProperty]
              refine ⟨g, rfl, h, Contents.ext rfl ?_ rfl⟩
              rw [erase_of_missing hold]
              exact (Function.update_eq_self_iff.2 hrow.symm).symm
          | some old =>
              simp only [Mutation.on, contents, hrow, hold, Mutation.run, removeVertexProperty]
              exact ⟨_, rfl, h.putVertex (by simp [hrow]) (h.vertexFiles.eraseCell hrow hold),
                Contents.ext rfl (vertex?_insert id _ _) rfl⟩
  | removeVertex id =>
      cases hrow : g.vertex? id with
      | none => simp [Mutation.on, contents, hrow, Mutation.run, Graph.removeVertex, Except.map]
      | some row =>
          obtain ⟨g', hr, hg', hc⟩ := h.removeVertex hrow
          simp only [Mutation.on, contents, hrow, Mutation.run, hr, Except.map]
          exact ⟨g', rfl, hg', hc⟩
  | addEdge label source target properties =>
      simp only [Mutation.on, contents, Mutation.run, ← Option.not_isSome_iff_eq_none,
        Option.isNone_iff_eq_none]
      by_cases hsource : (g.vertex? source).isSome
      · by_cases htarget : (g.vertex? target).isSome
        · have hadd : g.addEdge label source target properties = .ok (g.counter + 1, { g with
              counter := g.counter + 1
              edges := g.edges.insert (g.counter + 1) ⟨label, source, target, properties⟩
              outgoing := attach g.outgoing source (g.counter + 1)
              incoming := attach g.incoming target (g.counter + 1)
              edgeIndex := g.edgeIndex.addAll (g.counter + 1) properties }) := by
            simp [Graph.addEdge, mem_vertices_iff, hsource, htarget]
          simp only [hsource, htarget, not_true, if_false]
          exact ⟨_, hadd, h.addEdge hadd,
            Contents.ext rfl rfl (getElem?_insert_eq_update g.edges _ _)⟩
        · simp [Graph.addEdge, mem_vertices_iff, hsource, htarget]
      · simp [Graph.addEdge, mem_vertices_iff, hsource]
  | setEdgeProperty id key value =>
      cases hrow : g.edge? id with
      | none => simp [Mutation.on, contents, hrow, Mutation.run, setEdgeProperty, Except.map]
      | some row =>
          simp only [Mutation.on, contents, hrow, Mutation.run, setEdgeProperty, Except.map]
          exact ⟨_, rfl, h.putEdge hrow (h.edgeFiles.setCell (by simp [hrow]) key value),
            Contents.ext rfl rfl (edge?_insert id _ _)⟩
  | removeEdgeProperty id key =>
      cases hrow : g.edge? id with
      | none => simp [Mutation.on, contents, hrow, Mutation.run, removeEdgeProperty]
      | some row =>
          cases hold : row.properties[key]? with
          | none =>
              simp only [Mutation.on, contents, hrow, hold, Mutation.run, removeEdgeProperty]
              refine ⟨g, rfl, h, Contents.ext rfl rfl ?_⟩
              rw [erase_of_missing hold]
              exact (Function.update_eq_self_iff.2 hrow.symm).symm
          | some old =>
              simp only [Mutation.on, contents, hrow, hold, Mutation.run, removeEdgeProperty]
              exact ⟨_, rfl, h.putEdge hrow (h.edgeFiles.eraseCell (by simp [hrow]) hold),
                Contents.ext rfl rfl (edge?_insert id _ _)⟩
  | removeEdge id =>
      cases hrow : g.edge? id with
      | none =>
          simp [Mutation.on, contents, hrow, Mutation.run, removeEdge, mem_edges_iff, Except.map]
      | some row =>
          have hmem : id ∈ g.edges := mem_edges_iff.2 (by simp [hrow])
          simp only [Mutation.on, contents, hrow, Mutation.run, removeEdge, hmem, if_true,
            Except.map]
          exact ⟨_, rfl, h.dropEdge id, contents_dropEdge id⟩

/-- **A mutation keeps a graph well formed.** -/
theorem WellFormed.run (h : g.WellFormed) {m : Mutation α} {a : α} {g' : Graph}
    (hrun : m.run g = .ok (a, g')) : g'.WellFormed := by
  have hspec := h.run_spec m
  split at hspec
  · obtain ⟨g'', hrun', hg'', -⟩ := hspec
    obtain ⟨-, rfl⟩ := Prod.mk.inj (Except.ok.inj (hrun.symm.trans hrun'))
    exact hg''
  · cases hrun.symm.trans hspec

/-- **What a mutation does to the contents of a well-formed graph is what it means**, answers and
refusals included. -/
theorem WellFormed.contents_run (h : g.WellFormed) (m : Mutation α) :
    (m.run g).map (Prod.map id contents) = m.on g.contents := by
  have hspec := h.run_spec m
  split at hspec
  · next a c hon =>
      obtain ⟨g', hrun, -, rfl⟩ := hspec
      rw [hrun, hon]
      rfl
  · next e hon =>
      rw [hspec, hon]
      rfl

end Graph

end Estate
