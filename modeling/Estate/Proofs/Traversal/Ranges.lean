import Estate.Proofs.Parse.Ranges
import Estate.Traversal.Grammar

/-!
# The ranges of a traversal

A traversal that is read accounts for all of the text.  Its steps stand one behind another with a
slash between them, from the place where reading starts to the end of the text, and what a step
notes ranges of lies inside the step.

* `Step.places` — what a step notes ranges of.
* `Tiles` — steps that fill a text to its end.
* `Grammar.step_lays` — every rule of the grammar lays what it reads.
* **`Traversal.parseAt_covers`** — a traversal covers the text that it is read from.
-/

namespace Estate

open Parse Text

/-! ## What is noted -/

/-- The places of filters. -/
def FilterSpecs.places (filters : FilterSpecs) : List Place :=
  filters.map (Spanned.place fun _ => [])

/-- **What a step notes ranges of**, in the order of the text.  The filters behind a selector are
inside of it. -/
def Step.places : Step → List Place
  | .entity s => FilterSpecs.places s.filters
  | .collection s => FilterSpecs.places s.filters ++ s.id.toList.map (Spanned.place fun _ => []) ++
      FilterSpecs.places s.idFilters
  | .relationships s => FilterSpecs.places s.filters ++
      s.selector.toList.map (Spanned.place fun selector => FilterSpecs.places selector.filters)
  | .recursive s => FilterSpecs.places s.filters
  | .identical => []

/-- **Steps fill a text** from a place to its end, with a slash between two of them. -/
inductive Tiles (text : String) : Nat → List (Spanned Step) → Prop
  | last {k s} (start : s.span.start = k) (stop : s.span.stop = byteLength text.toList) :
      Tiles text k [s]
  | next {k s steps} (start : s.span.start = k) (slash : charAt? text s.span.stop = some '/')
      (others : Tiles text (s.span.stop + 1) steps) : Tiles text k (s :: steps)

/-- **A traversal covers a text** behind a place.  It is absolute if a slash stands there; its steps
fill all that follows; and each step is divided by what it notes ranges of, and so is each of
these. -/
structure Traversal.Covers (text : String) (k : Nat) (t : Traversal) : Prop where
  absolute : t.absolute ↔ charAt? text k = some '/'
  steps : Tiles text (if t.absolute then k + 1 else k) t.steps
  noted : ∀ s ∈ t.steps, (s.place Step.places).Divided text

namespace Grammar

/-! ## Filters -/

lemma value_walks : value.Walks :=
  .orElse (quotedText_walks _ _ _) <| .orElse (quotedText_walks _ _ _) (escapedText_walks _ _)

lemma filterKey_walks (context : FilterContext) : (filterKey context).Walks :=
  .walk (keyword_walks _) fun word => by
    cases FilterKey.ofWord? word with
    | some key => exact .pure rfl
    | none => exact .expected _

lemma filterSpec_lays (context : FilterContext) :
    (filterSpec context).Lays fun f => [f.place fun _ => []] :=
  .spanned <| .walk (filterKey_walks context) fun _ => .walk (char_walks _).commit fun _ =>
    .walk (Parser.Lays.sepBy1 (char_walks _) value_walks).walks.commit fun _ => .pure rfl

/-- What stands behind an opening bracket. -/
lemma opened_lays (context : FilterContext) (_ : Unit) :
    (Parser.commit do
      let specs ← Parser.sepBy1 (char ';') (filterSpec context)
      char ']'
      pure specs).Lays FilterSpecs.places :=
  .commit <| .bind (.sepBy1 (char_walks _) (filterSpec_lays context)) fun specs =>
    .walk (char_walks _) fun _ => .pure (by
      rw [FilterSpecs.places, List.map_eq_flatMap]
      rfl)

lemma bracket_lays (context : FilterContext) : (bracket context).Lays FilterSpecs.places :=
  .walk (char_walks _) (opened_lays context)

lemma filters_lays (context : FilterContext) : (filters context).Lays FilterSpecs.places :=
  .bind (.many (bracket_lays context)) fun brackets => .pure (by
    rw [FilterSpecs.places, List.map_flatten, List.flatMap]
    rfl)

/-! ## Steps -/

lemma direction_walks : direction.Walks :=
  .walk (keyword_walks _) fun word => by
    cases Direction.ofName? word with
    | some d => exact .pure rfl
    | none => exact .expected _

lemma clauses_walks {name : Parser String} (hname : name.Walks) (directionFirst : Bool) :
    (clauses name directionFirst).Walks := by
  have hnamed : (do
      let name ← name
      pure (some name, none) : Parser (Option String × Option Direction)).Walks :=
    .walk hname fun _ => .pure rfl
  have hdirected : (do
      let d ← direction
      pure (none, some d) : Parser (Option String × Option Direction)).Walks :=
    .walk direction_walks fun _ => .pure rfl
  refine .walk (char_walks _).optional.walks fun semicolon => ?_
  split
  · exact .pure rfl
  · refine .walk (.commit ?_) fun first => ?_
    · split
      · exact .orElse hdirected hnamed
      · exact .orElse hnamed hdirected
    · split
      · exact .walk (Parser.Lays.optional (.walk (char_walks _) fun _ =>
          direction_walks.commit)).walks fun _ => .pure rfl
      · exact .pure rfl

lemma selector_lays : selector.Lays fun s => FilterSpecs.places s.filters :=
  .walk (keyword_walks _) fun word => by
    split
    · exact .bind (filters_lays _) fun _ => .pure rfl
    · exact .bind (filters_lays _) fun _ => .pure rfl

lemma relationships_lays : relationships.Lays Step.places :=
  .walk (keyword_walks _) fun _ => .walk (clauses_walks (escapedText_walks _ _) _) fun _ =>
    .bind (filters_lays _) fun _ =>
      .bind (.optional (.walk (char_walks _) fun _ => (Parser.Lays.spanned selector_lays).commit))
        fun selector => .pure (by cases selector <;> rfl)

lemma relationClause_walks : relationClause.Walks :=
  .walk (keyword_walks _) fun _ => .walk (char_walks _).commit fun _ =>
    (escapedText_walks _ _).commit

lemma recursive_lays : recursive.Lays Step.places :=
  .walk (keyword_walks _) fun _ => .walk (clauses_walks relationClause_walks _) fun _ =>
    .bind (filters_lays _) fun _ => .pure rfl

lemma identical_lays : identical.Lays Step.places :=
  .walk (keyword_walks _) fun _ => .pure rfl

lemma collectionId_lays :
    collectionId.Lays fun x => x.1.place (fun _ => []) :: FilterSpecs.places x.2 := by
  refine .walk (char_walks _) fun _ => .walk (.of_leads fun c u c' hc => ?_) fun _ =>
    .bind (.spanned (escapedText_walks _ _)) fun _ => .bind (filters_lays _) fun _ => .pure rfl
  -- Looking ahead reads nothing.
  split at hc
  · cases hc
  · cases hc
    exact .refl

lemma collection_lays : collection.Lays Step.places := by
  refine .walk (keyword_walks _) fun word => ?_
  cases Kind.ofPlural? word with
  | none => exact .expected _
  | some kind =>
      refine .walk (Parser.Lays.optional (.walk (char_walks _) fun _ =>
        (keyword_walks _).commit)).walks fun _ => .bind (filters_lays _) fun _ =>
          .bind (.optional collectionId_lays) fun id => .pure ?_
      cases id with
      | none => exact List.append_nil _
      | some id => exact List.append_assoc _ _ _

lemma kindWord_walks : RawPath.kindWord.Walks :=
  .walk (keyword_walks _) fun word => by
    cases Kind.ofWord? word with
    | some kind => exact .pure rfl
    | none => exact .expected _

lemma typedEntity_lays : typedEntity.Lays Step.places :=
  .walk kindWord_walks fun _ => .walk (char_walks _) fun _ =>
    .walk (escapedText_walks _ _).commit fun _ => .bind (filters_lays _) fun _ => .pure rfl

lemma bareEntity_lays : bareEntity.Lays Step.places :=
  .walk (escapedText_walks _ _) fun _ => .bind (filters_lays _) fun _ => .pure rfl

/-- **Every step lays what it notes ranges of** in the text that it is read from. -/
lemma step_lays : step.Lays Step.places :=
  .orElse relationships_lays <| .orElse recursive_lays <| .orElse identical_lays <|
    .orElse collection_lays <| .orElse typedEntity_lays bareEntity_lays

/-! ## Whole traversals -/

/-- A slash before a traversal makes it absolute. -/
lemma absolute_done {c c' : Cursor} {absolute : Option Unit}
    (h : (char '/').optional c = .done absolute c') :
    c.Leads c' ∧ c'.offset = (if absolute.isSome then c.offset + 1 else c.offset) ∧
      (absolute.isSome ↔ c.rest.head? = some '/') := by
  rcases Parser.optional_eq_done.1 h with ⟨u, rfl, hchar⟩ | ⟨rfl, rfl, e, hmiss⟩
  · obtain ⟨hrest, hoffset⟩ := char_eq_done.1 hchar
    exact ⟨char_leads hchar, hoffset, iff_of_true rfl (by rw [hrest, List.head?_cons])⟩
  · exact ⟨.refl, rfl, iff_of_false Bool.false_ne_true (head?_ne_of_char_miss hmiss)⟩

lemma finished_done {c c' : Cursor} {u : Unit} (h : finished c = .done u c') :
    c' = c ∧ c.rest = [] := by
  rw [finished] at h
  split at h
  · next hend =>
      cases h
      exact ⟨rfl, List.isEmpty_iff.1 hend⟩
  · cases h

lemma step_spanned_done {c c' : Cursor} {s : Spanned Step}
    (h : (Parser.spanned step).commit c = .done s c') :
    c.Leads c' ∧ s.span = ⟨c.offset, c'.offset⟩ := by
  obtain ⟨hstep, hspan⟩ := Parser.spanned_eq_done.1 (Parser.commit_eq_done.1 h)
  exact ⟨(step_lays.laid hstep).leads, hspan⟩

/-- **Steps fill the text** that they are read from, up to the place behind the last one. -/
lemma tiles_of_many {text : String} {steps : List (Spanned Step)} {s : Spanned Step}
    {c c' : Cursor} (hc : (Cursor.start text).Leads c) (hs : s.span.stop = c.offset)
    (h : Parser.many (do char '/'; (Parser.spanned step).commit) c = .done steps c')
    (hend : c'.rest = []) : Tiles text s.span.start (s :: steps) := by
  induction steps generalizing s c with
  | nil =>
      rcases Parser.many_eq_done h with ⟨-, rfl, -⟩ | ⟨_, _, _, hcons, -, -⟩
      · exact .last rfl (hs.trans (hc.offset_eq hend))
      · cases hcons
  | cons next steps ih =>
      rcases Parser.many_eq_done h with ⟨hcons, -, -⟩ | ⟨_, _, d, hcons, hnext, hsteps⟩
      · cases hcons
      · cases hcons
        obtain ⟨u, behind, hchar, hstep⟩ := Parser.bind_eq_done.1 hnext
        obtain ⟨hslash, hoffset⟩ := char_eq_done.1 hchar
        obtain ⟨hleads, hspan⟩ := step_spanned_done hstep
        have hd := (hc.trans (char_leads hchar)).trans hleads
        have htiles := ih hd (congrArg Span.stop hspan) hsteps
        rw [hspan, hoffset, ← hs] at htiles
        refine .next rfl ?_ htiles
        rw [hs, hc.charAt?, hslash, List.head?_cons]

lemma traversal_lays :
    traversal.Lays fun t => t.steps.map (Spanned.place Step.places) :=
  .walk (Parser.Lays.optional (char_walks _)).walks fun _ =>
    .bind (Parser.Lays.spanned step_lays).commit fun _ =>
      .bind (.many (.walk (char_walks _) fun _ => (Parser.Lays.spanned step_lays).commit))
        fun _ => .walk (.of_leads fun _ _ _ hc => (finished_done hc).1 ▸ .refl) fun _ =>
          .pure (congrArg _ List.map_eq_flatMap)

end Grammar

/-- **A traversal covers the text that it is read from.**  Where reading starts at a boundary, the
steps fill all that follows, with a slash between two of them and perhaps one before them all.
Filters, ids and selectors lie inside their step, on boundaries, in the order of the text and
without overlap. -/
theorem Traversal.parseAt_covers {text : String} {k : Nat} {t : Traversal} (hk : Boundary text k)
    (h : parseAt text k = .ok t) : t.Covers text k := by
  obtain ⟨hoffset, hat⟩ := Cursor.at_spec hk
  obtain ⟨c', hread⟩ := Reply.eq_done_of_toExcept h
  have hdeep := ((Grammar.traversal_lays.laid hread).divided hat).2
  obtain ⟨absolute, c₁, habsolute, hread⟩ := Parser.bind_eq_done.1 hread
  obtain ⟨first, c₂, hfirst, hread⟩ := Parser.bind_eq_done.1 hread
  obtain ⟨others, c₃, hothers, hread⟩ := Parser.bind_eq_done.1 hread
  obtain ⟨u, c₄, hfinished, hread⟩ := Parser.bind_eq_done.1 hread
  obtain ⟨rfl, rfl⟩ := Parser.pure_eq_done.1 hread
  obtain ⟨hleads₁, hoffset₁, hslash⟩ := Grammar.absolute_done habsolute
  obtain ⟨hleads₂, hspan⟩ := Grammar.step_spanned_done hfirst
  have htiles := Grammar.tiles_of_many ((hat.trans hleads₁).trans hleads₂)
    (congrArg Span.stop hspan) hothers (Grammar.finished_done hfinished).2
  rw [hspan, hoffset₁, hoffset] at htiles
  refine ⟨?_, htiles, fun s hs => hdeep _ (List.mem_map_of_mem hs)⟩
  rw [hslash, ← hat.charAt?, hoffset]

/-- Behind a prefix, with characters of two bytes before and between the ranges: the filters of the
id stand in two brackets, and those of the selector inside of it. -/
theorem prefixed_covers :
    let text := "größe=/tenants/ü[name=ß][id=x]/rl;out/entities[type=r;id=y]"
    let tenants : CollectionStep := ⟨.tenant, false, [], some ⟨⟨17, 19⟩, "ü"⟩,
      [⟨⟨20, 27⟩, ⟨.name, ["ß"]⟩⟩, ⟨⟨29, 33⟩, ⟨.id, ["x"]⟩⟩]⟩
    let links : RelationshipStep := ⟨none, .outgoing, [],
      some ⟨⟨42, 63⟩, .entities [⟨⟨51, 57⟩, ⟨.type, ["r"]⟩⟩, ⟨⟨58, 62⟩, ⟨.id, ["y"]⟩⟩]⟩⟩
    let t : Traversal := ⟨true, [⟨⟨9, 34⟩, .collection tenants⟩, ⟨⟨35, 63⟩, .relationships links⟩]⟩
    Boundary text 8 ∧ Traversal.parseAt text 8 = .ok t ∧ t.Covers text 8 := by
  intro text tenants links t
  have hk : Boundary text 8 := by decide +kernel
  have h : Traversal.parseAt text 8 = .ok t := by decide +kernel
  exact ⟨hk, h, Traversal.parseAt_covers hk h⟩

end Estate
