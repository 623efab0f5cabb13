import Mathlib.Data.List.Sort
import Estate.Proofs.Graph.WellFormed
import Estate.Registry.Check

/-!
# What is found in a well-formed graph

Everything that is looked up in a well-formed graph can be said on its vertices and edges: what the
indexes and the ends of edges add is speed.

* `Graph.WellFormed.mem_edgesOf` — the edges at a vertex.
* **`Graph.WellFormed.mem_verticesBy_iff`**, `Graph.WellFormed.mem_edgesBy_iff` — the vertices and
  the edges with a value for a key.
* **`Graph.WellFormed.mem_verticesBy`** — the vertices with a text for a key, whether or not the key
  is covered by the index.
* `Graph.WellFormed.mem_edgesBy` — the same for edges.
* `Graph.pairwise_verticesBy`, `Graph.pairwise_edgesBy` — what is looked up is listed in order.
* `Graph.WellFormed.mem_childrenOf`, `Graph.WellFormed.mem_parentsOf` — containment.
* `Graph.WellFormed.findEdge?_eq_none_iff` — when there is no relationship between two vertices.
-/

namespace Estate

/-- Whether an edge is met at a vertex when one looks in a direction. -/
def Edge.MetAt (edge : Edge) (v : VertexId) : Direction → Prop
  | .outgoing => edge.source = v
  | .incoming => edge.target = v
  | .both => edge.source = v ∨ edge.target = v

/-- What is met in a direction is met at one of the ends. -/
lemma Edge.MetAt.either {edge : Edge} {v : VertexId} {direction : Direction}
    (h : edge.MetAt v direction) : edge.source = v ∨ edge.target = v := by
  cases direction with
  | outgoing => exact .inl h
  | incoming => exact .inr h
  | both => exact h

/-- A value is the same as a string only if it is that string. -/
lemma Json.beq_string_iff {j : Json} {text : String} : (j == .string text) = true ↔
    j = .string text := by
  cases j with
  | string s => simp [BEq.beq, Json.same]
  | _ => exact ⟨nofun, nofun⟩

namespace IdSet

/-- Numbers are listed in order. -/
lemma pairwise_toList (ids : IdSet) : ids.toList.Pairwise (· < ·) :=
  ids.ordered_toList.imp Nat.compare_eq_lt.1

/-- Numbers that are in order are listed as they are. -/
lemma toList_ofList {ids : List Nat} (h : ids.Pairwise (· < ·)) :
    (Std.ExtTreeSet.ofList ids compare).toList = ids :=
  (pairwise_toList _).eq_of_mem_iff h fun id => by
    rw [Std.ExtTreeSet.mem_toList, Std.ExtTreeSet.mem_ofList, List.contains_iff_mem]

end IdSet

namespace Index

/-- **Whether a lookup takes a stored value for the one that is asked for**: below a key that is
covered it compares texts, and below any other key values. -/
def Takes (i : Index) (key : String) (value stored : Json) : Prop :=
  if i.covers key then stored.plainText = value.plainText else stored == value

variable {i : Index} {key : String}

/-- Among strings, the text of a value tells it. -/
lemma takes_string_iff {text s : String} :
    i.Takes key (.string text) (.string s) ↔ s = text := by
  rw [Takes]
  split
  · rfl
  · rw [Json.beq_string_iff, Json.string.injEq]

lemma lookup?_eq_none_iff {value : Json} : i.lookup? key value = none ↔ i.covers key = false := by
  rw [lookup?, Option.map_eq_none_iff, covers, Std.ExtTreeMap.contains_eq_isSome_getElem?,
    Option.isSome_eq_false_iff, Option.isNone_iff_eq_none]

/-- What an index answers are the elements of the table with a value of the same text. -/
lemma mem_lookup? {table : Nat → Option Properties} (h : i.Files (tableEntries table))
    {value : Json} {ids : IdSet} (hids : i.lookup? key value = some ids) (id : Nat) :
    id ∈ ids ↔ ∃ row stored, table id = some row ∧ row[key]? = some stored ∧
      i.Takes key value stored := by
  have hcovers : i.covers key = true := by
    rw [← Bool.not_eq_false]
    intro hno
    cases (lookup?_eq_none_iff.2 hno).symm.trans hids
  rw [lookup?, Option.map_eq_some_iff] at hids
  obtain ⟨texts, htexts, rfl⟩ := hids
  simp only [h.mem_iff htexts value.plainText id, tableEntries, Takes, hcovers, if_true,
    exists_and_left]

end Index

namespace Graph

variable {g : Graph}

namespace WellFormed

/-! ## The edges at a vertex -/

lemma mem_incident (h : g.WellFormed) (v : VertexId) (direction : Direction) (e : EdgeId) :
    e ∈ g.incident v direction ↔ ∃ edge, g.edge? e = some edge ∧ edge.MetAt v direction := by
  cases direction with
  | outgoing => exact h.mem_outgoing v e
  | incoming => exact h.mem_incoming v e
  | both =>
      rw [h.mem_both]
      simp only [Contents.touches, Bool.or_eq_true, beq_iff_eq, Edge.MetAt]

/-- The edges at a vertex are those that are met there and have the label. -/
theorem mem_edgesOf (h : g.WellFormed) {v : VertexId} {direction : Direction}
    {label : Option String} {e : EdgeId} :
    e ∈ g.edgesOf v direction label ↔ ∃ edge, g.edge? e = some edge ∧ edge.MetAt v direction ∧
      ∀ l, label = some l → edge.label = l := by
  rw [edgesOf, List.mem_filter, Std.ExtTreeSet.mem_toList, h.mem_incident]
  constructor
  · rintro ⟨⟨edge, he, hmet⟩, hlabel⟩
    refine ⟨edge, he, hmet, ?_⟩
    rintro l rfl
    simpa [he] using hlabel
  · rintro ⟨edge, he, hmet, hlabel⟩
    refine ⟨⟨edge, he, hmet⟩, ?_⟩
    cases label with
    | none => rfl
    | some l => simpa [he] using hlabel l rfl

/-! ## The vertices with a text -/

/-- **The vertices with a value for a key** are those with a value that the lookup takes for it. -/
theorem mem_verticesBy_iff (h : g.WellFormed) {key : String} {value : Json} {v : VertexId} :
    v ∈ g.verticesBy key value ↔ ∃ row stored, g.vertex? v = some row ∧
      row[key]? = some stored ∧ g.vertexIndex.Takes key value stored := by
  rw [verticesBy]
  split
  · next ids hids =>
      rw [Std.ExtTreeSet.mem_toList]
      exact Index.mem_lookup? h.vertexFiles hids v
  · next hnone =>
      rw [Std.ExtTreeMap.mem_keys, ← Std.ExtTreeMap.isSome_getElem?_iff_mem,
        Std.ExtTreeMap.getElem?_filter', Option.isSome_iff_exists]
      simp only [Option.filter_eq_some_iff, Index.Takes, Index.lookup?_eq_none_iff.1 hnone,
        Bool.false_eq_true, if_false, exists_and_left]
      refine exists_congr fun row => and_congr Iff.rfl ?_
      cases row[key]? with
      | none => exact ⟨nofun, nofun⟩
      | some stored => simp

/-- **The edges with a value for a key** are those with a value that the lookup takes for it. -/
theorem mem_edgesBy_iff (h : g.WellFormed) {key : String} {value : Json} {e : EdgeId} :
    e ∈ g.edgesBy key value ↔ ∃ edge stored, g.edge? e = some edge ∧
      edge.properties[key]? = some stored ∧ g.edgeIndex.Takes key value stored := by
  rw [edgesBy]
  split
  · next ids hids =>
      rw [Std.ExtTreeSet.mem_toList, Index.mem_lookup? h.edgeFiles hids e]
      simp only [Function.comp_apply, Option.map_eq_some_iff]
      constructor
      · rintro ⟨row, stored, ⟨edge, he, rfl⟩, hstored, htakes⟩
        exact ⟨edge, stored, he, hstored, htakes⟩
      · rintro ⟨edge, stored, he, hstored, htakes⟩
        exact ⟨edge.properties, stored, ⟨edge, he, rfl⟩, hstored, htakes⟩
  · next hnone =>
      rw [Std.ExtTreeMap.mem_keys, ← Std.ExtTreeMap.isSome_getElem?_iff_mem,
        Std.ExtTreeMap.getElem?_filter', Option.isSome_iff_exists]
      simp only [Option.filter_eq_some_iff, Index.Takes, Index.lookup?_eq_none_iff.1 hnone,
        Bool.false_eq_true, if_false, exists_and_left]
      refine exists_congr fun edge => and_congr Iff.rfl ?_
      cases edge.properties[key]? with
      | none => exact ⟨nofun, nofun⟩
      | some stored => simp

/-- The vertices with a text for a key, if the key holds nothing but texts. -/
theorem mem_verticesBy (h : g.WellFormed) {key text : String}
    (hstrings : ∀ {v row value}, g.vertex? v = some row → row[key]? = some value →
      ∃ s, value = .string s) {v : VertexId} :
    v ∈ g.verticesBy key (.string text) ↔
      ∃ row, g.vertex? v = some row ∧ row[key]? = some (.string text) := by
  rw [h.mem_verticesBy_iff]
  refine exists_congr fun row => ⟨?_, fun hrow => ?_⟩
  · rintro ⟨stored, hrow, hstored, htakes⟩
    obtain ⟨s, rfl⟩ := hstrings hrow hstored
    obtain rfl := Index.takes_string_iff.1 htakes
    exact ⟨hrow, hstored⟩
  · exact ⟨_, hrow.1, hrow.2, Index.takes_string_iff.2 rfl⟩

/-- The edges with a text for a key, if the key holds nothing but texts. -/
theorem mem_edgesBy (h : g.WellFormed) {key text : String}
    (hstrings : ∀ {e edge value}, g.edge? e = some edge → edge.properties[key]? = some value →
      ∃ s, value = .string s) {e : EdgeId} :
    e ∈ g.edgesBy key (.string text) ↔
      ∃ edge, g.edge? e = some edge ∧ edge.properties[key]? = some (.string text) := by
  rw [h.mem_edgesBy_iff]
  refine exists_congr fun edge => ⟨?_, fun hedge => ?_⟩
  · rintro ⟨stored, he, hstored, htakes⟩
    obtain ⟨s, rfl⟩ := hstrings he hstored
    obtain rfl := Index.takes_string_iff.1 htakes
    exact ⟨he, hstored⟩
  · exact ⟨_, hedge.1, hedge.2, Index.takes_string_iff.2 rfl⟩

end WellFormed

/-- The vertices with a value are listed in order, whether or not they come from the index. -/
lemma pairwise_verticesBy (g : Graph) (key : String) (value : Json) :
    (g.verticesBy key value).Pairwise (· < ·) := by
  rw [verticesBy]
  split
  · exact IdSet.pairwise_toList _
  · exact Std.ExtTreeMap.ordered_keys.imp Nat.compare_eq_lt.1

/-- So are the edges. -/
lemma pairwise_edgesBy (g : Graph) (key : String) (value : Json) :
    (g.edgesBy key value).Pairwise (· < ·) := by
  rw [edgesBy]
  split
  · exact IdSet.pairwise_toList _
  · exact Std.ExtTreeMap.ordered_keys.imp Nat.compare_eq_lt.1

namespace WellFormed

/-! ## Containment -/

lemma mem_childrenOf (h : g.WellFormed) {v w : VertexId} :
    w ∈ g.childrenOf v ↔ ∃ e edge, g.edge? e = some edge ∧
      edge.label = WellKnown.contains.name ∧ edge.source = v ∧ edge.target = w := by
  simp only [childrenOf, List.mem_filterMap, h.mem_edgesOf, Option.map_eq_some_iff]
  constructor
  · rintro ⟨e, ⟨edge, he, hmet, hlabel⟩, edge', he', rfl⟩
    obtain rfl := Option.some.inj (he.symm.trans he')
    exact ⟨e, edge, he, hlabel _ rfl, hmet, rfl⟩
  · rintro ⟨e, edge, he, hlabel, hsource, htarget⟩
    refine ⟨e, ⟨edge, he, hsource, ?_⟩, edge, he, htarget⟩
    rintro l hl
    rw [hlabel]
    exact Option.some.inj hl

lemma mem_parentsOf (h : g.WellFormed) {v w : VertexId} :
    w ∈ g.parentsOf v ↔ ∃ e edge, g.edge? e = some edge ∧
      edge.label = WellKnown.contains.name ∧ edge.source = w ∧ edge.target = v := by
  simp only [parentsOf, List.mem_filterMap, h.mem_edgesOf, Option.map_eq_some_iff]
  constructor
  · rintro ⟨e, ⟨edge, he, hmet, hlabel⟩, edge', he', rfl⟩
    obtain rfl := Option.some.inj (he.symm.trans he')
    exact ⟨e, edge, he, hlabel _ rfl, rfl, hmet⟩
  · rintro ⟨e, edge, he, hlabel, hsource, htarget⟩
    refine ⟨e, ⟨edge, he, htarget, ?_⟩, edge, he, hsource⟩
    rintro l hl
    rw [hlabel]
    exact Option.some.inj hl

/-! ## Relationships between two vertices -/

lemma findEdge?_eq_some (h : g.WellFormed) {name : String} {s t : VertexId} {e : EdgeId}
    (hfound : g.findEdge? name s t = some e) :
    ∃ edge, g.edge? e = some edge ∧ edge.label = name ∧ edge.source = s ∧ edge.target = t := by
  obtain ⟨edge, he, hmet, hlabel⟩ := h.mem_edgesOf.1 (List.mem_of_find?_eq_some hfound)
  have htarget := List.find?_some hfound
  rw [he] at htarget
  exact ⟨edge, he, hlabel name rfl, hmet, by simpa using htarget⟩

lemma findEdge?_eq_none_iff (h : g.WellFormed) {name : String} {s t : VertexId} :
    g.findEdge? name s t = none ↔ ∀ e edge, g.edge? e = some edge →
      ¬ (edge.label = name ∧ edge.source = s ∧ edge.target = t) := by
  constructor
  · rintro hnone e edge he ⟨rfl, rfl, rfl⟩
    have hno := List.find?_eq_none.1 hnone e
      (h.mem_edgesOf.2 ⟨edge, he, rfl, fun l hl => Option.some.inj hl⟩)
    simp [he] at hno
  · intro hno
    cases hfound : g.findEdge? name s t with
    | none => rfl
    | some e =>
        obtain ⟨edge, he, htriple⟩ := h.findEdge?_eq_some hfound
        exact absurd htriple (hno e edge he)

end WellFormed

end Graph

end Estate
