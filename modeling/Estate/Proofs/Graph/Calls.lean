import Estate.Graph.Store
import Estate.Proofs.Graph.Lookup

/-!
# Graphs that calls lead to

A graph is changed by calls of mutations, one after the other, and some of them are refused.
Whatever is called on a graph that was empty, and whichever keys its indexes cover, the maps of the
graph stay in step.

* `Index.slot?` — what is filed under a key and a text; `Index.Exact` — it is what a table holds.
* `Index.covers_addAll` and its like, `Graph.KeepsKeys` — no mutation changes what is covered.
* `Graph.WellFormed.setVertexProperty_self` — what is given again changes nothing.
* `Graph.InStep` — all that the maps of a graph have to do with each other.
* **`Transaction.calls_inStep`** — it holds after any calls, of which each does what it means and a
  refused one changes nothing.
-/

namespace Estate

/-! ## Slots of an index -/

namespace Index

/-- What is filed under a key and a text, unless nothing is. -/
def slot? (i : Index) (key text : String) : Option IdSet :=
  i.files[key]?.bind fun texts => texts[text]?

/-- **An index is exact** for some keys: a slot below one of them holds the elements of the table
that have a value with this text, no slot is empty, and there are no slots below other keys. -/
structure Exact (i : Index) (keys : List String) (table : Nat → Option Properties) : Prop where
  mem_slot : ∀ key ∈ keys, ∀ text id, id ∈ (i.slot? key text).getD ∅ ↔
    ∃ row value, table id = some row ∧ row[key]? = some value ∧ value.plainText = text
  slot_ne_empty : ∀ key text, i.slot? key text ≠ some ∅
  slot_covered : ∀ key ∉ keys, ∀ text, i.slot? key text = none

variable {i : Index} {key : String}

lemma covers_iff : i.covers key ↔ ∃ texts, i.files[key]? = some texts := by
  rw [covers, Std.ExtTreeMap.contains_eq_isSome_getElem?, Option.isSome_iff_exists]

/-- What a table holds is filed exactly below the keys that are covered. -/
lemma Files.exact {keys : List String} {table : Nat → Option Properties}
    (h : i.Files (tableEntries table)) (hkeys : ∀ key, i.covers key ↔ key ∈ keys) :
    i.Exact keys table where
  mem_slot key hkey text id := by
    obtain ⟨texts, htexts⟩ := covers_iff.1 ((hkeys key).2 hkey)
    have hmem := h.mem_iff htexts text id
    rw [Std.ExtTreeMap.getD_eq_getD_getElem?] at hmem
    rw [slot?, htexts, Option.bind_some, hmem, tableEntries]
    simp only [exists_and_left]
  slot_ne_empty key text hempty := by
    obtain ⟨texts, htexts, hslot⟩ := Option.bind_eq_some_iff.1 hempty
    exact h.ne_empty htexts text ∅ hslot rfl
  slot_covered key hkey text := by
    cases hfiles : i.files[key]? with
    | none => rw [slot?, hfiles, Option.bind_none]
    | some texts => exact absurd ((hkeys key).1 (covers_iff.2 ⟨texts, hfiles⟩)) hkey

/-! ## What is covered stays the same -/

lemma covers_ofKeys (keys : List String) : (ofKeys keys).covers key ↔ key ∈ keys := by
  have hfold : ∀ (keys : List String) (files : Std.ExtTreeMap String Texts compare),
      key ∈ keys.foldl (fun files key => files.insert key ∅) files ↔
        key ∈ keys ∨ key ∈ files := by
    intro keys
    induction keys with
    | nil => simp
    | cons k keys ih =>
        intro files
        rw [List.foldl_cons, ih, Std.ExtTreeMap.mem_insert, Std.compare_eq_iff_eq, List.mem_cons,
          eq_comm (a := k), or_left_comm, or_assoc]
  rw [covers, Std.ExtTreeMap.contains_iff_mem]
  exact (hfold keys ∅).trans (by simp)

@[simp] lemma covers_modify (k : String) (f : Texts → Texts) :
    covers ⟨i.files.modify k f⟩ key = i.covers key :=
  Std.ExtTreeMap.contains_modify

lemma covers_foldl {l : List (String × Json)} {f : Index → String × Json → Index}
    (hf : ∀ i kv, (f i kv).covers key = i.covers key) :
    (l.foldl f i).covers key = i.covers key := by
  induction l generalizing i with
  | nil => rfl
  | cons kv l ih => rw [List.foldl_cons, ih, hf]

@[simp] lemma covers_add (id : Nat) (k : String) (value : Json) :
    (i.add id k value).covers key = i.covers key :=
  covers_modify _ _

@[simp] lemma covers_remove (id : Nat) (k : String) (value : Json) :
    (i.remove id k value).covers key = i.covers key :=
  covers_modify _ _

@[simp] lemma covers_addAll (id : Nat) (properties : Properties) :
    (i.addAll id properties).covers key = i.covers key := by
  rw [addAll, Std.ExtTreeMap.foldl_eq_foldl_toList]
  exact covers_foldl fun _ _ => covers_add _ _ _

@[simp] lemma covers_removeAll (id : Nat) (properties : Properties) :
    (i.removeAll id properties).covers key = i.covers key := by
  rw [removeAll, Std.ExtTreeMap.foldl_eq_foldl_toList]
  exact covers_foldl fun _ _ => covers_remove _ _ _

@[simp] lemma covers_replace (id : Nat) (k : String) (old : Option Json) (value : Json) :
    (i.replace id k old value).covers key = i.covers key := by
  cases old with
  | none => exact covers_add _ _ _
  | some old => exact (covers_add _ _ _).trans (covers_remove _ _ _)

/-- **An index is told by what it covers and what it files.** -/
lemma eq_of_files {j : Index} {R : Entries} (hi : i.Files R) (hj : j.Files R)
    (hcovers : ∀ key, i.covers key = j.covers key) : i = j := by
  -- Two files with the same elements are the same, and an empty one is left out on both sides.
  have htexts : ∀ {key : String} {ts us : Texts}, i.files[key]? = some ts →
      j.files[key]? = some us → ts = us := by
    intro key ts us hts hus
    refine Std.ExtTreeMap.ext_getElem? fun text => ?_
    have hsame : ts.getD text ∅ = us.getD text ∅ := Std.ExtTreeSet.ext_mem fun id => by
      rw [hi.mem_iff hts, hj.mem_iff hus]
    rw [Std.ExtTreeMap.getD_eq_getD_getElem?, Std.ExtTreeMap.getD_eq_getD_getElem?] at hsame
    cases ht : ts[text]? with
    | none =>
        cases hu : us[text]? with
        | none => rfl
        | some ids =>
            rw [ht, hu] at hsame
            exact absurd hsame.symm (hj.ne_empty hus text ids hu)
    | some ids =>
        cases hu : us[text]? with
        | none =>
            rw [ht, hu] at hsame
            exact absurd hsame (hi.ne_empty hts text ids ht)
        | some ids' =>
            rw [ht, hu] at hsame
            exact congrArg some hsame
  obtain ⟨files⟩ := i
  obtain ⟨files'⟩ := j
  refine congrArg Index.mk (Std.ExtTreeMap.ext_getElem? fun key => ?_)
  have hkey := hcovers key
  simp only [covers, Std.ExtTreeMap.contains_eq_isSome_getElem?] at hkey
  cases ht : files[key]? with
  | none =>
      rw [ht, Option.isSome_none] at hkey
      exact (Option.not_isSome_iff_eq_none.1 (Bool.eq_false_iff.1 hkey.symm)).symm
  | some ts =>
      rw [ht, Option.isSome_some] at hkey
      obtain ⟨us, hu⟩ := Option.isSome_iff_exists.1 hkey.symm
      rw [hu, htexts ht hu]

end Index

namespace Graph

/-- The indexes of two graphs cover the same keys. -/
structure KeepsKeys (g g' : Graph) : Prop where
  vertex : ∀ key, g'.vertexIndex.covers key = g.vertexIndex.covers key
  edge : ∀ key, g'.edgeIndex.covers key = g.edgeIndex.covers key

lemma KeepsKeys.refl (g : Graph) : g.KeepsKeys g := ⟨fun _ => rfl, fun _ => rfl⟩

lemma KeepsKeys.trans {g g' g'' : Graph} (h : g.KeepsKeys g') (h' : g'.KeepsKeys g'') :
    g.KeepsKeys g'' :=
  ⟨fun key => (h'.vertex key).trans (h.vertex key), fun key => (h'.edge key).trans (h.edge key)⟩

lemma keepsKeys_dropEdge (g : Graph) (id : EdgeId) : g.KeepsKeys (g.dropEdge id) := by
  rw [dropEdge]
  split
  · exact .refl g
  · exact ⟨fun _ => rfl, fun _ => Index.covers_removeAll _ _⟩

lemma keepsKeys_foldl_dropEdge : ∀ (l : List EdgeId) (g : Graph),
    g.KeepsKeys (l.foldl dropEdge g)
  | [], g => .refl g
  | e :: l, g => (keepsKeys_dropEdge g e).trans (keepsKeys_foldl_dropEdge l (g.dropEdge e))

/-- **No mutation changes which keys the indexes cover.** -/
theorem keepsKeys_run {α : Type} {m : Mutation α} {g g' : Graph} {a : α}
    (h : m.run g = .ok (a, g')) : g.KeepsKeys g' := by
  cases m with
  | addVertex properties =>
      cases h
      exact ⟨fun _ => Index.covers_addAll _ _, fun _ => rfl⟩
  | setVertexProperty id key value =>
      simp only [Mutation.run, setVertexProperty] at h
      split at h
      · cases h
      · cases h
        exact ⟨fun _ => Index.covers_replace _ _ _ _, fun _ => rfl⟩
  | removeVertexProperty id key =>
      simp only [Mutation.run, removeVertexProperty] at h
      split at h
      · cases h
      · split at h
        · cases h
          exact .refl g
        · cases h
          exact ⟨fun _ => Index.covers_remove _ _ _, fun _ => rfl⟩
  | removeVertex id =>
      simp only [Mutation.run, removeVertex] at h
      split at h
      · cases h
      · cases h
        -- First the vertex is taken from its index, then the edges at it are dropped.
        refine KeepsKeys.trans ?_ (keepsKeys_foldl_dropEdge _ _)
        exact ⟨fun _ => Index.covers_removeAll _ _, fun _ => rfl⟩
  | addEdge label source target properties =>
      simp only [Mutation.run, addEdge] at h
      split at h
      · cases h
      · split at h
        · cases h
        · cases h
          exact ⟨fun _ => rfl, fun _ => Index.covers_addAll _ _⟩
  | setEdgeProperty id key value =>
      simp only [Mutation.run, setEdgeProperty] at h
      split at h
      · cases h
      · cases h
        exact ⟨fun _ => rfl, fun _ => Index.covers_replace _ _ _ _⟩
  | removeEdgeProperty id key =>
      simp only [Mutation.run, removeEdgeProperty] at h
      split at h
      · cases h
      · split at h
        · cases h
          exact .refl g
        · cases h
          exact ⟨fun _ => rfl, fun _ => Index.covers_remove _ _ _⟩
  | removeEdge id =>
      simp only [Mutation.run, removeEdge] at h
      split at h
      · cases h
        exact keepsKeys_dropEdge g id
      · cases h

/-! ## What is given again -/

/-- **A property that a vertex has already** is given to it without any change. -/
lemma WellFormed.setVertexProperty_self {g : Graph} (h : g.WellFormed) {v : VertexId}
    {row : Properties} {key : String} {value : Json} (hrow : g.vertex? v = some row)
    (hvalue : row[key]? = some value) : g.setVertexProperty v key value = .ok g := by
  have hput : row.insert key value = row := Std.ExtTreeMap.ext_getElem? fun key' => by
    rw [Std.ExtTreeMap.getElem?_insert]
    split
    · next heq => rw [← Std.LawfulEqCmp.eq_of_compare heq, hvalue]
    · rfl
  have hvertices : g.vertices.insert v row = g.vertices := Std.ExtTreeMap.ext_getElem? fun v' => by
    rw [Std.ExtTreeMap.getElem?_insert]
    split
    · next heq =>
        rw [← Std.LawfulEqCmp.eq_of_compare heq]
        exact hrow.symm
    · rfl
  have hindex : g.vertexIndex.replace v key row[key]? value = g.vertexIndex := by
    refine Index.eq_of_files ?_ h.vertexFiles fun key' => Index.covers_replace v key _ value
    have hfiles := h.vertexFiles.setCell hrow key value
    rwa [hput, ← hrow, Function.update_eq_self] at hfiles
  rw [setVertexProperty, hrow]
  simp only [hput, hvertices, hindex]

/-! ## All maps in step -/

/-- The edges at a vertex are listed in order, each once. -/
lemma edgesOf_sorted (g : Graph) (v : VertexId) (direction : Direction) (label : Option String) :
    (g.edgesOf v direction label).Pairwise (· < ·) := by
  refine List.Pairwise.filter _ ?_
  exact Std.ExtTreeSet.ordered_toList.imp fun h => Nat.compare_eq_lt.1 h

/-- **The maps of a graph are in step**, when its indexes are to cover these keys. -/
structure InStep (vertexKeys edgeKeys : List String) (g : Graph) : Prop where
  /-- Both ends of an edge are stored. -/
  ends : ∀ e edge, g.edge? e = some edge →
    (g.vertex? edge.source).isSome ∧ (g.vertex? edge.target).isSome
  /-- The edges at a vertex are listed in order, each once. -/
  sorted : ∀ v direction label, (g.edgesOf v direction label).Pairwise (· < ·)
  /-- They are the edges that are met there and have the label, if one is asked for. -/
  listed : ∀ v direction label e, e ∈ g.edgesOf v direction label ↔
    ∃ edge, g.edge? e = some edge ∧ edge.MetAt v direction ∧ ∀ l, label = some l → edge.label = l
  vertexSlots : g.vertexIndex.Exact vertexKeys g.vertex?
  edgeSlots : g.edgeIndex.Exact edgeKeys fun e => (g.edge? e).map (·.properties)
  /-- Every number in use has been counted. -/
  counted : ∀ id, (g.vertex? id).isSome ∨ (g.edge? id).isSome → id ≤ g.counter
  /-- No number is that of a vertex and of an edge. -/
  apart : ∀ id, ¬ ((g.vertex? id).isSome ∧ (g.edge? id).isSome)

lemma WellFormed.inStep {g : Graph} {vertexKeys edgeKeys : List String} (h : g.WellFormed)
    (hkeys : (empty vertexKeys edgeKeys).KeepsKeys g) : g.InStep vertexKeys edgeKeys where
  ends _ _ he := ⟨h.source_stored he, h.target_stored he⟩
  sorted := g.edgesOf_sorted
  listed _ _ _ _ := h.mem_edgesOf
  vertexSlots := h.vertexFiles.exact fun key => by
    rw [hkeys.vertex]
    exact Index.covers_ofKeys vertexKeys
  edgeSlots := h.edgeFiles.exact fun key => by
    rw [hkeys.edge]
    exact Index.covers_ofKeys edgeKeys
  counted _ hid := hid.elim h.vertex_le h.edge_le
  apart _ hid := h.not_both hid.1 hid.2

end Graph

/-! ## Calls one after the other -/

/-- A mutation to be called, whatever it returns. -/
structure AnyMutation : Type 1 where
  {Answer : Type}
  mutation : Mutation Answer

namespace Transaction

/-- What some calls leave of a transaction, refused ones included. -/
def calls (t : Transaction) (ms : List AnyMutation) : Transaction :=
  ms.foldl (fun t m => (t.mutate m.mutation).2) t

/-- A call keeps the graph well formed and its keys covered. -/
lemma mutate_inStep {α : Type} {t : Transaction} (m : Mutation α) (h : t.graph.WellFormed) :
    (t.mutate m).2.graph.WellFormed ∧ t.graph.KeepsKeys (t.mutate m).2.graph := by
  rw [mutate]
  split
  · next a g hrun => exact ⟨h.run hrun, Graph.keepsKeys_run hrun⟩
  · exact ⟨h, .refl _⟩

lemma calls_wellFormed (ms : List AnyMutation) : ∀ {t : Transaction}, t.graph.WellFormed →
    (t.calls ms).graph.WellFormed ∧ t.graph.KeepsKeys (t.calls ms).graph := by
  induction ms with
  | nil => exact fun h => ⟨h, .refl _⟩
  | cons m ms ih =>
      intro t h
      obtain ⟨hwf, hkeys⟩ := mutate_inStep m.mutation h
      obtain ⟨hwf', hkeys'⟩ := ih hwf
      exact ⟨hwf', hkeys.trans hkeys'⟩

/-- **A call does what it means**: it answers so, and what is stored then is what the meaning
leaves. -/
lemma mutate_on {α : Type} {t : Transaction} (m : Mutation α) (h : t.graph.WellFormed) :
    m.on t.graph.contents = (t.mutate m).1.map (·, (t.mutate m).2.graph.contents) := by
  rw [← h.contents_run m, mutate]
  cases m.run t.graph <;> rfl

/-- A refused call leaves the graph as it was. -/
lemma graph_mutate_of_error {α : Type} {t : Transaction} {m : Mutation α} {e : GraphError}
    (he : (t.mutate m).1 = .error e) : (t.mutate m).2.graph = t.graph := by
  rw [mutate] at he ⊢
  split at he
  · cases he
  · rfl

/-- **Calls keep a graph in step.**  Whatever is called on a graph that was empty, whichever keys
its indexes cover, its maps are in step, every further call does what it means to what is stored,
and one that is refused leaves all maps as they were. -/
theorem calls_inStep (vertexKeys edgeKeys : List String) (ms : List AnyMutation) :
    let t := (Store.empty vertexKeys edgeKeys).begin.calls ms
    t.graph.InStep vertexKeys edgeKeys ∧
      ∀ {α : Type} (m : Mutation α),
        m.on t.graph.contents = (t.mutate m).1.map (·, (t.mutate m).2.graph.contents) ∧
          ∀ e, (t.mutate m).1 = .error e → (t.mutate m).2.graph = t.graph := by
  intro t
  obtain ⟨hwf, hkeys⟩ := calls_wellFormed (t := (Store.empty vertexKeys edgeKeys).begin) ms
    (Graph.wellFormed_empty vertexKeys edgeKeys)
  exact ⟨hwf.inStep hkeys, fun m => ⟨mutate_on m hwf, fun _ => graph_mutate_of_error⟩⟩

/-- A new value with the text of the old one stays filed, and a loop is met once in both
directions. -/
example :
    let t := (Store.empty ["os"] []).begin.calls [
      ⟨.addVertex ((∅ : Properties).insert "os" (.string "7"))⟩,
      ⟨.setVertexProperty 1 "os" (.int 7)⟩,
      ⟨.addEdge "watches" 1 2 ∅⟩,
      ⟨.addEdge "watches" 1 1 ∅⟩]
    (t.graph.vertexIndex.slot? "os" "7").map (·.toList) = some [1] ∧
      t.graph.edgesOf 1 .both none = [2] := by
  decide +kernel

end Transaction

end Estate
