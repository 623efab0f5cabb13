import Estate.Proofs.Graph.Calls
import Estate.Proofs.Json.Text

/-!
# Looking up and looking through

A lookup below a key that is covered by an index answers from the files of the index, and below any
other key it looks at every element.  The files are told by texts, a scan compares values; so the
two agree as far as the text of a value tells it.

* `Answers` — a list has, in order, the elements with a value that is looked for.
* **`Transaction.lookups_answer`** — below covered keys the elements are found whose value has the
  text that is asked for, below other keys those whose value is equal; and these are the same if
  all values below the key can be told by their text.
* `Transaction.lookup_confuses` — a number is taken for a string that spells it.
-/

namespace Estate

/-- **A list answers a question**: it has, in order, exactly the elements of a table that have a
value of some sort below a key. -/
structure Answers (ids : List Nat) (table : Nat → Option Properties) (key : String)
    (P : Json → Prop) : Prop where
  ordered : ids.Pairwise (· < ·)
  mem_iff : ∀ id, id ∈ ids ↔ ∃ row stored, table id = some row ∧ row[key]? = some stored ∧ P stored

/-- The values that are stored below a key. -/
def StoredBelow (table : Nat → Option Properties) (key : String) (stored : Json) : Prop :=
  ∃ id row, table id = some row ∧ row[key]? = some stored

lemma Answers.congr {ids : List Nat} {table : Nat → Option Properties} {key : String}
    {P Q : Json → Prop} (h : Answers ids table key P)
    (hPQ : ∀ stored, StoredBelow table key stored → (P stored ↔ Q stored)) :
    Answers ids table key Q where
  ordered := h.ordered
  mem_iff id := by
    rw [h.mem_iff]
    refine exists_congr fun row => exists_congr fun stored => and_congr_right fun hrow =>
      and_congr_right fun hstored => hPQ stored ⟨id, row, hrow, hstored⟩

/-- A lookup takes a value that can be told by its text for an equal one only. -/
lemma Index.takes_iff_same {i : Index} {key : String} {value stored : Json}
    (h : i.covers key → stored.Comparable value) :
    i.Takes key value stored ↔ (stored == value) = true := by
  rw [Takes]
  split
  · next hcovers => exact (h hcovers).plainText_eq_iff
  · rfl

namespace Graph

variable {g : Graph} {vertexKeys edgeKeys : List String}

/-- The property maps of the edges. -/
def edgeRows (g : Graph) (e : EdgeId) : Option Properties :=
  (g.edge? e).map (·.properties)

lemma WellFormed.answers_verticesBy (h : g.WellFormed) (key : String) (value : Json) :
    Answers (g.verticesBy key value) g.vertex? key (g.vertexIndex.Takes key value) where
  ordered := g.pairwise_verticesBy key value
  mem_iff _ := h.mem_verticesBy_iff

lemma WellFormed.answers_edgesBy (h : g.WellFormed) (key : String) (value : Json) :
    Answers (g.edgesBy key value) g.edgeRows key (g.edgeIndex.Takes key value) where
  ordered := g.pairwise_edgesBy key value
  mem_iff e := by
    rw [h.mem_edgesBy_iff]
    simp [edgeRows]

lemma KeepsKeys.covers_vertex (h : (empty vertexKeys edgeKeys).KeepsKeys g) (key : String) :
    g.vertexIndex.covers key ↔ key ∈ vertexKeys := by
  rw [h.vertex]
  exact Index.covers_ofKeys vertexKeys

lemma KeepsKeys.covers_edge (h : (empty vertexKeys edgeKeys).KeepsKeys g) (key : String) :
    g.edgeIndex.covers key ↔ key ∈ edgeKeys := by
  rw [h.edge]
  exact Index.covers_ofKeys edgeKeys

end Graph

namespace Transaction

/-- **A lookup finds what a scan finds**, as far as texts tell values.  After any calls on a graph
that was empty, the vertices that are looked up under a key are listed in order, and they are those
with a value of the text that is asked for if the key is covered, and those with an equal value if
it is not.  If all values below a covered key can be compared with the one that is asked for by
their text, they are those with an equal value as well.  The same holds of edges. -/
theorem lookups_answer (vertexKeys edgeKeys : List String) (ms : List AnyMutation) (key : String)
    (value : Json) :
    let g := ((Store.empty vertexKeys edgeKeys).begin.calls ms).graph
    (Answers (g.verticesBy key value) g.vertex? key fun stored =>
        if key ∈ vertexKeys then stored.plainText = value.plainText else stored == value) ∧
      (Answers (g.edgesBy key value) g.edgeRows key fun stored =>
        if key ∈ edgeKeys then stored.plainText = value.plainText else stored == value) ∧
      ((key ∈ vertexKeys → ∀ stored, StoredBelow g.vertex? key stored → stored.Comparable value) →
        Answers (g.verticesBy key value) g.vertex? key fun stored => stored == value) ∧
      ((key ∈ edgeKeys → ∀ stored, StoredBelow g.edgeRows key stored → stored.Comparable value) →
        Answers (g.edgesBy key value) g.edgeRows key fun stored => stored == value) := by
  intro g
  obtain ⟨hwf, hkeys⟩ := calls_wellFormed (t := (Store.empty vertexKeys edgeKeys).begin) ms
    (Graph.wellFormed_empty vertexKeys edgeKeys)
  have hvertices := hwf.answers_verticesBy key value
  have hedges := hwf.answers_edgesBy key value
  have hvertex := hkeys.covers_vertex key
  have hedge := hkeys.covers_edge key
  refine ⟨hvertices.congr fun stored _ => ?_, hedges.congr fun stored _ => ?_,
    fun hcomparable => hvertices.congr fun stored hstored => ?_,
    fun hcomparable => hedges.congr fun stored hstored => ?_⟩
  · rw [Index.Takes]
    simp only [hvertex]
  · rw [Index.Takes]
    simp only [hedge]
  · exact Index.takes_iff_same fun hcovers => hcomparable (hvertex.1 hcovers) stored hstored
  · exact Index.takes_iff_same fun hcovers => hcomparable (hedge.1 hcovers) stored hstored

/-- Two vertices with a number each. -/
def numberedPorts : List AnyMutation :=
  [⟨.addVertex ((∅ : Properties).insert "port" (.int 7))⟩,
    ⟨.addVertex ((∅ : Properties).insert "port" (.int 8))⟩]

/-- Among numbers, a number is looked up by its value. -/
theorem numberedPorts_answer :
    let g := ((Store.empty ["port"] []).begin.calls numberedPorts).graph
    (∀ stored, StoredBelow g.vertex? "port" stored → stored.Comparable (.int 7)) ∧
      g.verticesBy "port" (.int 7) = [1] ∧
      Answers (g.verticesBy "port" (.int 7)) g.vertex? "port" (fun stored => stored == .int 7) ∧
      Answers (g.edgesBy "port" (.int 7)) g.edgeRows "port" (fun stored => stored == .int 7) := by
  intro g
  have hrows : g.vertices.toList.all fun kv => kv.2["port"]?.all fun stored =>
      .int 7 == stored || .int 8 == stored := by
    decide +kernel
  have hcomparable : ∀ stored, StoredBelow g.vertex? "port" stored →
      stored.Comparable (.int 7) := by
    rintro stored ⟨v, row, hrow, hstored⟩
    have hport := List.all_eq_true.1 hrows (v, row)
      (Std.ExtTreeMap.mem_toList_iff_getElem?_eq_some.2 hrow)
    rw [hstored, Option.all_some, Bool.or_eq_true] at hport
    obtain heq | heq := hport
    all_goals
      obtain rfl := ((Json.Whole.integer _).same_iff stored).1 heq
      exact ⟨.integer _, .integer _, rfl⟩
  obtain ⟨-, -, hvertices, hedges⟩ := lookups_answer ["port"] [] numberedPorts "port" (.int 7)
  exact ⟨hcomparable, by decide +kernel, hvertices fun _ => hcomparable, hedges nofun⟩

/-- Two vertices, of which one has a number and the other one a string that spells it. -/
def spelledPort : List AnyMutation :=
  [⟨.addVertex ((∅ : Properties).insert "port" (.string "7"))⟩,
    ⟨.addVertex ((∅ : Properties).insert "port" (.int 7))⟩]

/-- A number is not told from a string that spells it below a key that is covered. -/
theorem lookup_confuses :
    let g := ((Store.empty ["port"] []).begin.calls spelledPort).graph
    g.verticesBy "port" (.int 7) = [1, 2] ∧
      ((Store.empty [] []).begin.calls spelledPort).graph.verticesBy "port" (.int 7) = [2] ∧
      ¬ Answers (g.verticesBy "port" (.int 7)) g.vertex? "port" fun stored => stored == .int 7 := by
  intro g
  have hlisted : g.verticesBy "port" (.int 7) = [1, 2] := by
    decide +kernel
  have hstring : ((g.vertex? 1).bind fun row => row["port"]?).all (· != .int 7) := by
    decide +kernel
  refine ⟨hlisted, by decide +kernel, fun h => ?_⟩
  obtain ⟨row, stored, hrow, hstored, hsame⟩ := (h.mem_iff 1).1 (by simp [hlisted])
  rw [hrow, Option.bind_some, hstored, Option.all_some, bne, hsame] at hstring
  cases hstring

end Transaction

end Estate
