import Estate.Proofs.Graph.Lookup

/-!
# Graphs without indexes

A graph can be seen without its indexes: then everything that is looked up is found by a scan.
Mutations do the same to what is seen, since an index that covers nothing stays as it is; and the
same is found with indexes and without, as long as the values below the key are texts.

* `Graph.unindexed` — the graph without its indexes.
* **`Mutation.run_unindexed`** — mutations do the same with indexes and without.
* **`Graph.WellFormed.verticesBy_unindexed`**, `Graph.WellFormed.edgesBy_unindexed` — so do lookups.
-/

namespace Estate

/-! ## The index that covers nothing -/

namespace Index

variable (id : Nat)

@[simp] lemma add_ofKeys_nil (key : String) (value : Json) :
    (ofKeys []).add id key value = ofKeys [] :=
  congrArg mk (Std.ExtTreeMap.modify_eq_empty_iff.2 rfl)

@[simp] lemma remove_ofKeys_nil (key : String) (value : Json) :
    (ofKeys []).remove id key value = ofKeys [] :=
  congrArg mk (Std.ExtTreeMap.modify_eq_empty_iff.2 rfl)

@[simp] lemma addAll_ofKeys_nil (properties : Properties) :
    (ofKeys []).addAll id properties = ofKeys [] := by
  rw [addAll, Std.ExtTreeMap.foldl_eq_foldl_toList]
  exact List.foldl_fixed' (fun kv => add_ofKeys_nil id kv.1 kv.2) _

@[simp] lemma removeAll_ofKeys_nil (properties : Properties) :
    (ofKeys []).removeAll id properties = ofKeys [] := by
  rw [removeAll, Std.ExtTreeMap.foldl_eq_foldl_toList]
  exact List.foldl_fixed' (fun kv => remove_ofKeys_nil id kv.1 kv.2) _

@[simp] lemma replace_ofKeys_nil (key : String) (old : Option Json) (value : Json) :
    (ofKeys []).replace id key old value = ofKeys [] := by
  cases old with
  | none => exact add_ofKeys_nil id key value
  | some old => rw [replace, remove_ofKeys_nil, add_ofKeys_nil]

/-- Nothing is filed where nothing is covered. -/
lemma files_ofKeys_nil (R : Entries) : (ofKeys []).Files R where
  mem_iff h := absurd h (by simp [ofKeys])
  ne_empty h := absurd h (by simp [ofKeys])

end Index

/-! ## Without indexes -/

namespace Graph

/-- **The graph without its indexes.** -/
def unindexed (g : Graph) : Graph :=
  { g with vertexIndex := .ofKeys [], edgeIndex := .ofKeys [] }

variable {g : Graph}

@[simp] lemma vertices_unindexed : g.unindexed.vertices = g.vertices := rfl

@[simp] lemma edges_unindexed : g.unindexed.edges = g.edges := rfl

@[simp] lemma vertex?_unindexed (v : VertexId) : g.unindexed.vertex? v = g.vertex? v := rfl

@[simp] lemma edge?_unindexed (e : EdgeId) : g.unindexed.edge? e = g.edge? e := rfl

/-! ## Mutations -/

lemma dropEdge_unindexed (g : Graph) (e : EdgeId) :
    g.unindexed.dropEdge e = (g.dropEdge e).unindexed := by
  rw [dropEdge, dropEdge, edge?_unindexed]
  cases g.edge? e with
  | none => rfl
  | some edge => simp [unindexed]

lemma foldl_dropEdge_unindexed : ∀ (es : List EdgeId) (g : Graph),
    es.foldl dropEdge g.unindexed = (es.foldl dropEdge g).unindexed
  | [], _ => rfl
  | e :: es, g => by
      rw [List.foldl_cons, List.foldl_cons, dropEdge_unindexed, foldl_dropEdge_unindexed es]

lemma removeVertex_unindexed (g : Graph) (v : VertexId) :
    g.unindexed.removeVertex v = (g.removeVertex v).map unindexed := by
  rw [removeVertex, removeVertex, vertex?_unindexed]
  cases g.vertex? v with
  | none => rfl
  | some row =>
      refine congrArg Except.ok ?_
      rw [← foldl_dropEdge_unindexed]
      simp only [unindexed, Index.removeAll_ofKeys_nil]
      rfl

end Graph

/-- **Mutations do the same with indexes and without.** -/
theorem Mutation.run_unindexed {α : Type} (m : Mutation α) (g : Graph) :
    m.run g.unindexed = (m.run g).map fun r => (r.1, r.2.unindexed) := by
  cases m with
  | addVertex properties => simp [run, Graph.addVertex, Graph.unindexed, Except.map]
  | setVertexProperty v key value =>
      simp only [run, Graph.setVertexProperty, Graph.vertex?_unindexed]
      cases g.vertex? v with
      | none => rfl
      | some row => simp [Graph.unindexed, Except.map]
  | removeVertexProperty v key =>
      simp only [run, Graph.removeVertexProperty, Graph.vertex?_unindexed]
      cases g.vertex? v with
      | none => rfl
      | some row =>
          cases hold : row[key]? with
          | none => simp [hold, Except.map]
          | some old => simp [hold, Graph.unindexed, Except.map]
  | removeVertex v =>
      simp only [run, Graph.removeVertex_unindexed]
      cases g.removeVertex v <;> rfl
  | addEdge label source target properties =>
      simp only [run, Graph.addEdge, Graph.vertices_unindexed]
      by_cases hsource : source ∈ g.vertices
      · by_cases htarget : target ∈ g.vertices
        · simp [hsource, htarget, Graph.unindexed, Except.map]
        · simp [hsource, htarget, Except.map]
      · simp [hsource, Except.map]
  | setEdgeProperty e key value =>
      simp only [run, Graph.setEdgeProperty, Graph.edge?_unindexed]
      cases g.edge? e with
      | none => rfl
      | some edge => simp [Graph.unindexed, Except.map]
  | removeEdgeProperty e key =>
      simp only [run, Graph.removeEdgeProperty, Graph.edge?_unindexed]
      cases g.edge? e with
      | none => rfl
      | some edge =>
          cases hold : edge.properties[key]? with
          | none => simp [hold, Except.map]
          | some old => simp [hold, Graph.unindexed, Except.map]
  | removeEdge e =>
      simp only [run, Graph.removeEdge, Graph.edges_unindexed, Graph.dropEdge_unindexed]
      split_ifs <;> rfl

/-! ## Lookups -/

namespace Graph.WellFormed

variable {g : Graph}

lemma unindexed (h : g.WellFormed) : g.unindexed.WellFormed where
  source_stored := h.source_stored
  target_stored := h.target_stored
  mem_outgoing := h.mem_outgoing
  mem_incoming := h.mem_incoming
  vertexFiles := Index.files_ofKeys_nil _
  edgeFiles := Index.files_ofKeys_nil _
  vertex_le := h.vertex_le
  edge_le := h.edge_le
  not_both := h.not_both

/-- **The vertices with a text are found by a scan as well**, and in the same order. -/
theorem verticesBy_unindexed (h : g.WellFormed) {key : String}
    (hstrings : ∀ {v row value}, g.vertex? v = some row → row[key]? = some value →
      ∃ s, value = .string s) (text : String) :
    g.unindexed.verticesBy key (.string text) = g.verticesBy key (.string text) :=
  (pairwise_verticesBy _ _ _).eq_of_mem_iff (pairwise_verticesBy _ _ _) fun _ =>
    (h.unindexed.mem_verticesBy hstrings).trans (h.mem_verticesBy hstrings).symm

/-- So are the edges. -/
theorem edgesBy_unindexed (h : g.WellFormed) {key : String}
    (hstrings : ∀ {e edge value}, g.edge? e = some edge → edge.properties[key]? = some value →
      ∃ s, value = .string s) (text : String) :
    g.unindexed.edgesBy key (.string text) = g.edgesBy key (.string text) :=
  (pairwise_edgesBy _ _ _).eq_of_mem_iff (pairwise_edgesBy _ _ _) fun _ =>
    (h.unindexed.mem_edgesBy hstrings).trans (h.mem_edgesBy hstrings).symm

end Graph.WellFormed

end Estate
