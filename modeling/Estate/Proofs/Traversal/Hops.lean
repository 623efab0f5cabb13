import Estate.Proofs.Graph.Calls
import Estate.Proofs.Query.Hops
import Estate.Proofs.Traversal.Keywords

/-!
# Relationship steps that select entities

A traversal may go along relationships and then select the entities at their ends.  What it is
compiled to stops at the relationships, keeps those of the name, and goes on to their ends; and this
leads to where a hop over relationships of the name leads.

A name may be written in more than one way.  If it begins with the word for a direction, there has
to be a backslash in this word, for directions are tried first.

* `RelationshipStep.endsText` — the text of such a step; `RelationshipStep.writtenEnds` — with its
  name written in another way.
* `Query.compile_writtenEnds_iff`, `Query.compile_ends` — the query.
* **`Query.ends_are_hops`** — it does what a hop does.
-/

namespace Estate

open Parse

/-- Along the relationships of a name, and on to the entities at their ends. -/
def RelationshipStep.toEnds (name : String) (d : Direction) : RelationshipStep :=
  ⟨some name, d, [], some (.nowhere (.entities []))⟩

/-- The text of the step.  There is a backslash before every character of the name. -/
def RelationshipStep.endsText (name : String) (d : Direction) : String :=
  "relationships;" ++ String.ofList (slashed name) ++ ";" ++ d.name ++ "/entities"

/-- The text of the step with a name as it is written. -/
def RelationshipStep.writtenEnds (written : String) (d : Direction) : String :=
  "relationships;" ++ written ++ ";" ++ d.name ++ "/entities"

lemma RelationshipStep.toList_writtenEnds (written : String) (name : String) (d : Direction) :
    (writtenEnds written d).toList = "relationships".toList ++
      (Grammar.clausesChars (some written.toList) d ++
        (FilterSpecs.chars (toEnds name d).filters ++ (toEnds name d).selectorChars)) := by
  have hword : "relationships;".toList = "relationships".toList ++ [';'] := by simp
  have hsemicolon : ";".toList = [';'] := by simp
  have hselector : "/entities".toList = '/' :: "entities".toList := by simp
  have hclauses : Grammar.clausesChars (some written.toList) d =
      ';' :: (written.toList ++ ';' :: d.name.toList) := rfl
  have hafter : FilterSpecs.chars (toEnds name d).filters ++ (toEnds name d).selectorChars =
      [] ++ '/' :: ("entities".toList ++ []) := rfl
  rw [hclauses, hafter]
  -- Its equation would be found by comparing literals character by character.
  delta writtenEnds
  simp only [String.toList_append, hword, hsemicolon, hselector, List.append_nil, List.nil_append,
    List.append_assoc, List.cons_append]

/-- Behind the word for a direction, a step along relationships ends where neither filters nor a
selector follow. -/
lemma Grammar.directedStep_reads (d : Direction) {rest : List Char} (hword : WordEnds rest)
    (hbracket : rest.head? ≠ some '[') (hslash : rest.head? ≠ some '/') :
    step.Reads ("relationships".toList ++ clausesChars none d) rest fun _ => True := by
  have hkeyword : (keyword relationshipWords).Reads "relationships".toList
      (clausesChars none d ++ rest) (· = "relationships") :=
    keyword_reads (by decide) (by decide) (wordEnds_cons (by decide))
  have hfilters : (filters .relationship).Reads [] rest fun _ => True :=
    (Parser.Reads.many_nil (.bind (char_misses hbracket))).map fun _ _ => trivial
  refine .first (.bind hkeyword fun _ _ => ?_)
  refine .bind_last (directionClause_reads d hword) ?_
  rintro _ rfl
  refine .bind_nil hfilters fun _ _ => ?_
  exact .bind_nil (.absent (.bind (char_misses hslash))) fun _ _ => .pure trivial

/-- **A name that looks like a direction is taken for one**, and nothing can be made of the
direction behind it. -/
lemma Traversal.parse_directed {name written : String}
    (hwritten : Writes ['/', ';', '[', ']'] name.toList written.toList)
    (hfirst : firstWord written.toList ∈ Grammar.directionWords) (d : Direction) :
    ∃ e, parse (RelationshipStep.writtenEnds written d) = .error e := by
  let behind := ';' :: (d.name.toList ++ '/' :: "entities".toList)
  let cs := written.toList ++ behind
  have hfollows : WordEnds behind := wordEnds_cons (by decide)
  obtain ⟨d', hd'⟩ : ∃ d' : Direction, d'.name = firstWord cs := by
    rw [firstWord_append hfollows]
    simp only [Grammar.directionWords, List.mem_cons, List.not_mem_nil, or_false] at hfirst
    rcases hfirst with hin | hout | hboth
    · exact ⟨.incoming, hin.symm⟩
    · exact ⟨.outgoing, hout.symm⟩
    · exact ⟨.both, hboth.symm⟩
  obtain ⟨hsplit, hends⟩ := firstWord_split cs
  rw [← hd'] at hsplit
  have hslash : (cs.dropWhile Text.isWordChar).head? ≠ some '/' :=
    hwritten.head?_dropWhile hfollows (by decide) (by decide)
      fun h => absurd (Option.some.inj h) (by decide)
  have hbracket : (cs.dropWhile Text.isWordChar).head? ≠ some '[' :=
    hwritten.head?_dropWhile hfollows (by decide) (by decide)
      fun h => absurd (Option.some.inj h) (by decide)
  have hrest : cs.dropWhile Text.isWordChar ≠ [] := fun hnil => by
    rw [hnil, List.append_nil] at hsplit
    have hword := all_firstWord cs
    rw [← hd', hsplit, List.all_eq_true] at hword
    exact absurd (hword ';' (by simp [cs, behind])) (by decide)
  have htext : (RelationshipStep.writtenEnds written d).toList =
      "relationships".toList ++ Grammar.clausesChars none d' ++ cs.dropWhile Text.isWordChar := by
    rw [RelationshipStep.toList_writtenEnds written name d, List.append_assoc]
    refine congrArg (_ ++ ·) ?_
    show ';' :: (written.toList ++ ';' :: d.name.toList) ++ '/' :: ("entities".toList ++ []) =
      ';' :: (d'.name.toList ++ cs.dropWhile Text.isWordChar)
    rw [hsplit, List.append_nil, List.cons_append, List.append_assoc, List.cons_append]
  have hmisses := Grammar.traversal_misses
    (Grammar.directedStep_reads d' hends hbracket hslash) nofun hrest hslash
  rw [← htext] at hmisses
  obtain ⟨e, he⟩ := hmisses 0
  refine ⟨.ofFailure (RelationshipStep.writtenEnds written d) e, ?_⟩
  rw [parse, Cursor.start, he]
  rfl

section Written

variable {name written : String} (hname : name ≠ "")
  (hwritten : Writes ['/', ';', '[', ']'] name.toList written.toList)
  (hfirst : firstWord written.toList ∉ Grammar.directionWords) (d : Direction)

include hname hwritten hfirst

/-- However a name is written, it is read in front of a direction, unless it looks like one. -/
lemma Grammar.writtenClauses_reads {rest : List Char} (hrest : WordEnds rest) :
    (clauses relationshipName true).Reads (clausesChars (some written.toList) d) rest
      (· = (some name, some d)) := by
  have hstop : Delimited (';' :: (d.name.toList ++ rest)) := delimited_cons (by decide)
  refine namedClause_reads d (hwritten.text_reads hname hstop.escapeEnds) (fun _ => ?_) hrest
  refine keyword_misses_of_firstWord ?_
  rwa [firstWord_append hstop.wordEnds]

/-- The step is read from its text. -/
lemma Traversal.parse_writtenEnds : ∃ t, parse (RelationshipStep.writtenEnds written d) = .ok t ∧
    t.untraced = ⟨false, [.nowhere (.relationships (.toEnds name d))]⟩ := by
  have hstep : (RelationshipStep.toEnds name d).WellShaped := by
    refine ⟨?_, nofun, ?_⟩
    · rintro _ ⟨⟩
      exact hname
    · rintro _ ⟨⟩
      exact nofun
  have hends : StepEnds [] := nofun
  have hclauses := Grammar.writtenClauses_reads hname hwritten hfirst d
    (Grammar.wordEnds_afterClauses (.toEnds name d) hends)
  have hread := Grammar.traversal_reads_single
    (.first (Grammar.relationships_reads_of hstep hends (Grammar.endsAt_nil _) hclauses)) nofun
  obtain ⟨_, offset, hparse, s, rfl, hsame⟩ := hread 0
  rw [List.append_nil] at hparse
  refine ⟨⟨false, [s]⟩, ?_, ?_⟩
  · rw [parse, Cursor.start, RelationshipStep.toList_writtenEnds written name d]
    exact congrArg (Reply.toExcept _) hparse
  · rw [untraced, List.map_singleton, hsame]
    rfl

end Written

/-- Nothing but places is left open when the step is read. -/
lemma Step.eq_of_untraced_toEnds {s : Step} {name : String} {d : Direction}
    (h : s.untraced = .relationships (.toEnds name d)) :
    ∃ span, s = .relationships ⟨some name, d, [], some ⟨span, .entities []⟩⟩ := by
  cases s with
  | relationships r =>
      obtain ⟨name', d', filters, selector⟩ := r
      simp only [untraced, RelationshipStep.untraced, RelationshipStep.toEnds, FilterSpecs.untraced,
        relationships.injEq, RelationshipStep.mk.injEq, List.map_eq_nil_iff,
        Option.map_eq_some_iff] at h
      obtain ⟨rfl, rfl, rfl, ⟨span, selector⟩, rfl, hselector⟩ := h
      cases selector with
      | entities fs =>
          simp only [Spanned.nowhere, Selector.untraced, FilterSpecs.untraced, Spanned.mk.injEq,
            Selector.entities.injEq, List.map_eq_nil_iff, true_and] at hselector
          exact ⟨span, by rw [hselector]⟩
      | relationships fs => cases hselector
  | _ => cases h

namespace Query

/-- From entities to their relationships of a name, and on to the ends of these. -/
def ends (name : String) (d : Direction) : Query :=
  .ofPath [.toRelationships d, .relationNames [name], .toEntities d]

lemma compile_writtenEnds {name written : String} (hname : name ≠ "")
    (hwritten : Writes ['/', ';', '[', ']'] name.toList written.toList)
    (hfirst : firstWord written.toList ∉ Grammar.directionWords) (d : Direction) :
    compile (RelationshipStep.writtenEnds written d) none = .ok (ends name d) := by
  obtain ⟨⟨absolute, steps⟩, hparse, hsame⟩ := Traversal.parse_writtenEnds hname hwritten hfirst d
  simp only [Traversal.untraced, Traversal.mk.injEq, List.map_eq_singleton_iff, Spanned.nowhere,
    Spanned.mk.injEq, true_and] at hsame
  obtain ⟨rfl, ⟨span, step⟩, rfl, hstep⟩ := hsame
  obtain ⟨span', rfl⟩ := Step.eq_of_untraced_toEnds hstep
  rw [compile, hparse]
  rfl

lemma compile_writtenEnds_iff {name written : String} (hname : name ≠ "")
    (hwritten : Writes ['/', ';', '[', ']'] name.toList written.toList) (d : Direction) :
    compile (RelationshipStep.writtenEnds written d) none = .ok (ends name d) ↔
      firstWord written.toList ∉ Grammar.directionWords := by
  refine ⟨fun h hfirst => ?_, fun hfirst => compile_writtenEnds hname hwritten hfirst d⟩
  obtain ⟨e, he⟩ := Traversal.parse_directed hwritten hfirst d
  rw [compile, he] at h
  cases h

/-- A name that begins with a backslash does not look like a direction. -/
lemma compile_ends {name : String} (hname : name ≠ "") (d : Direction) :
    compile (RelationshipStep.endsText name d) none = .ok (ends name d) := by
  have hends : WordEnds (slashed name) := by
    rw [← List.append_nil (slashed name)]
    exact wordEnds_slashed hname
  have hwritten : Writes ['/', ';', '[', ']'] name.toList (slashed name) := writes_slashed name
  rw [← String.toList_ofList (l := slashed name)] at hends hwritten
  refine compile_writtenEnds hname hwritten ?_ d
  rw [firstWord_of_wordEnds hends]
  decide

/-- **To select the ends of relationships is to hop.**  In every graph that calls lead to and from
all elements, `relationships;name;direction/entities` is a traversal, and it leads to where a hop
over the relationships of this name and direction leads.  In both directions it also leads back to
those of the entities it starts from at which there is such a relationship.  The name may be written
in any other way if this does not begin with the word for a direction, and only then. -/
theorem ends_are_hops (vertexKeys edgeKeys : List String) (ms : List AnyMutation)
    (digest : String → String) (r : Reach) {name : String} (hname : name ≠ "") (d : Direction) :
    let g := ((Store.empty vertexKeys edgeKeys).begin.calls ms).graph
    ∃ q s hopped, compile (RelationshipStep.endsText name d) none = .ok q ∧
      (∀ written : String, Writes ['/', ';', '[', ']'] name.toList written.toList →
        (compile (RelationshipStep.writtenEnds written d) none = .ok q ↔
          firstWord written.toList ∉ Grammar.directionWords)) ∧
      q.run digest g (.among r) = .among s ∧
      (Filter.relatedBy (.name name) d.role none).apply digest g .path (.among r) = .among hopped ∧
      ∀ x, x ∈ s ↔ x ∈ hopped ∨ d = .both ∧ ∃ v ∈ r.vertices, x = .vertex v ∧
        ∃ e edge, g.edge? e = some edge ∧ edge.label = name ∧
          (edge.source = v ∨ edge.target = v) := by
  intro g
  have hwf : g.WellFormed := (Transaction.calls_wellFormed ms
    (Graph.wellFormed_empty vertexKeys edgeKeys)).1
  refine ⟨ends name d, g.toEntities d ((g.toRelationships d r).filter
    (g.keeps (.relationNames [name]))), g.hop (.name name) d.role r, compile_ends hname d,
    fun written hwritten => compile_writtenEnds_iff hname hwritten d, ?_, ?_,
    fun x => Graph.mem_ends_iff_hop hwf⟩
  · simp only [ends, ofPath, List.map_cons, List.map_nil, run, List.foldl_cons, List.foldl_nil,
      Fragment.apply, Filter.apply, Position.reach]
  · rw [Filter.apply, Position.reach]

/-- Of four vertices one is linked with itself, two are linked twice, and the last is linked with
none of them; the name of the links has a separator in it. -/
def separateLinks : List AnyMutation :=
  [⟨.addVertex ∅⟩, ⟨.addVertex ∅⟩, ⟨.addVertex ∅⟩, ⟨.addVertex ∅⟩,
    ⟨.addEdge "a;b" 1 1 ∅⟩, ⟨.addEdge "a;b" 1 2 ∅⟩, ⟨.addEdge "a;b" 1 2 ∅⟩,
    ⟨.addEdge "other" 2 3 ∅⟩, ⟨.addEdge "a;b" 3 2 ∅⟩, ⟨.addEdge "other" 4 3 ∅⟩]

/-- From the third vertex both ways there is a hop to the second, and the ends are both of these;
the fourth has only links of another name, and is not found again.  Of the characters of the name
only the separator needs a backslash. -/
theorem separateLinks_ends :
    let g := ((Store.empty [] []).begin.calls separateLinks).graph
    let start := Reach.ofVertices [3, 4]
    "a;b" ≠ "" ∧ RelationshipStep.endsText "a;b" .both = "relationships;\\a\\;\\b;both/entities" ∧
      RelationshipStep.writtenEnds "a\\;b" .both = "relationships;a\\;b;both/entities" ∧
      ∃ q s hopped, compile (RelationshipStep.endsText "a;b" .both) none = .ok q ∧
        compile (RelationshipStep.writtenEnds "a\\;b" .both) none = .ok q ∧
        q.run id g (.among start) = .among s ∧ s.toList = [.vertex 2, .vertex 3] ∧
        (Filter.relatedBy (.name "a;b") .any none).apply id g .path (.among start) =
          .among hopped ∧ hopped.toList = [.vertex 2] := by
  intro g start
  have hends : (((ends "a;b" .both).run id g (.among start)).reach g).toList =
      [.vertex 2, .vertex 3] := by
    decide +kernel
  have hhop : (((Filter.relatedBy (.name "a;b") .any none).apply id g .path
      (.among start)).reach g).toList = [.vertex 2] := by
    decide +kernel
  have hname : "a;b".toList = ['a', ';', 'b'] := by decide +kernel
  have hchars : "a\\;b".toList = ['a', '\\', ';', 'b'] := by decide +kernel
  have hwritten : Writes ['/', ';', '[', ']'] "a;b".toList "a\\;b".toList := by
    rw [hname, hchars]
    exact .plain (by decide) (.escaped (.plain (by decide) .nil))
  obtain ⟨q, s, hopped, hcompile, hspelled, hrun, hhopped, -⟩ :=
    ends_are_hops [] [] separateLinks id start (show "a;b" ≠ "" by decide) .both
  obtain rfl := Except.ok.inj ((compile_ends (by decide) .both).symm.trans hcompile)
  rw [hrun] at hends
  rw [show Direction.both.role = .any from rfl] at hhopped
  rw [hhopped] at hhop
  refine ⟨by decide, by decide +kernel, by decide +kernel, _, s, hopped, hcompile,
    (hspelled _ hwritten).2 (by rw [hchars]; decide +kernel), hrun, hends, hhopped, hhop⟩

end Query

end Estate
