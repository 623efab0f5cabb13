import Estate.Proofs.Path.Spelled
import Estate.Proofs.Traversal.Ranges

/-!
# The shape of what is read as a traversal

The grammar of traversals is ordered: the words that start a step are tried before ids, and a step
takes as much of the text as it can.  So not every traversal can be read from a text.  A collection
takes the id behind it, so that no untyped entity can follow a collection without an id, and a slash
behind a relationship has to be followed by a selector, so that without one there is no next step.
These two rules and the conditions on the parts of a step make up the shape.

* `Traversal.WellShaped` — the shape.
* `Grammar.step_done` — every step that is read has it, and `Step.EndsAt` says what is left.
* **`Traversal.wellShaped_of_parse`** — every traversal that is read has it.
-/

namespace Estate

open Parse

/-! ## The shape -/

/-- A filter has a key for its place, and at least one value. -/
@[mk_iff]
structure FilterSpec.WellShaped (context : FilterContext) (f : FilterSpec) : Prop where
  key : f.key ∈ context.keys
  values : f.values ≠ []

instance (context : FilterContext) (f : FilterSpec) : Decidable (f.WellShaped context) :=
  decidable_of_iff _ (f.wellShaped_iff context).symm

/-- All filters of a step have a key for their place and values. -/
def FilterSpecs.WellShaped (context : FilterContext) (fs : FilterSpecs) : Prop :=
  ∀ f ∈ fs, f.value.WellShaped context

instance (context : FilterContext) (fs : FilterSpecs) :
    Decidable (FilterSpecs.WellShaped context fs) :=
  inferInstanceAs (Decidable (∀ f ∈ fs, _))

@[mk_iff]
structure EntityStep.WellShaped (e : EntityStep) : Prop where
  id : e.id ≠ ""
  filters : FilterSpecs.WellShaped .entity e.filters

@[mk_iff]
structure CollectionStep.WellShaped (c : CollectionStep) : Prop where
  kind : c.kind.isEntity
  filters : FilterSpecs.WellShaped .entity c.filters
  id : ∀ id ∈ c.id, id.value ≠ ""
  idFilters : FilterSpecs.WellShaped .entity c.idFilters
  withoutId : c.id = none → c.idFilters = []

@[mk_iff]
structure RelationshipStep.WellShaped (r : RelationshipStep) : Prop where
  name : ∀ name ∈ r.name, name ≠ ""
  filters : FilterSpecs.WellShaped .relationship r.filters
  selector : ∀ s ∈ r.selector, FilterSpecs.WellShaped s.value.context s.value.filters

@[mk_iff]
structure RecursiveStep.WellShaped (r : RecursiveStep) : Prop where
  relation : r.relation ≠ ""
  filters : FilterSpecs.WellShaped .entity r.filters

/-- The parts of a step have their shape. -/
def Step.WellShaped : Step → Prop
  | .entity e => e.WellShaped
  | .collection c => c.WellShaped
  | .relationships r => r.WellShaped
  | .recursive r => r.WellShaped
  | .identical => True

instance : DecidablePred Step.WellShaped
  | .entity e => decidable_of_iff _ e.wellShaped_iff.symm
  | .collection c => decidable_of_iff _ c.wellShaped_iff.symm
  | .relationships r => decidable_of_iff _ r.wellShaped_iff.symm
  | .recursive r => decidable_of_iff _ r.wellShaped_iff.symm
  | .identical => inferInstanceAs (Decidable True)

/-- Whether a step is to an entity whose type is not written. -/
def Step.isUntyped : Step → Bool
  | .entity e => e.kind.isNone
  | _ => false

/-- Whether a step may stand before another one. -/
def Step.mayPrecede : Step → Step → Bool
  | .collection c, next => c.id.isSome || !next.isUntyped
  | .relationships r, _ => r.selector.isSome
  | _, _ => true

/-- **The shape of a traversal.** -/
@[mk_iff]
structure Traversal.WellShaped (t : Traversal) : Prop where
  nonempty : t.steps ≠ []
  steps : ∀ s ∈ t.steps, s.value.WellShaped
  order : t.steps.IsChain fun s next => s.value.mayPrecede next.value

instance : DecidablePred Traversal.WellShaped := fun t =>
  decidable_of_iff _ t.wellShaped_iff.symm

/-- **What follows a step cannot be taken for a part of it.** -/
def Step.EndsAt (s : Step) (c : Cursor) : Prop :=
  match s with
  | .collection step => step.id = none → ∃ e, Grammar.collectionId c = .miss e
  | .relationships step => step.selector = none → ∃ e, char '/' c = .miss e
  | _ => True

namespace Grammar

/-! ## Filters -/

lemma filterKey_yields (context : FilterContext) :
    (filterKey context).Yields (· ∈ context.keys) := by
  refine (keyword_yields _).bind fun word hword => ?_
  obtain ⟨key, hkey, rfl⟩ := List.mem_map.1 hword
  simp only [FilterKey.ofWord?_word]
  exact .pure hkey

lemma filterSpec_yields (context : FilterContext) :
    (filterSpec context).Yields fun f => f.value.WellShaped context :=
  .spanned <| (filterKey_yields context).bind fun _ hkey => Parser.Yields.trivial.bind fun _ _ =>
    (Parser.Yields.sepBy1 .trivial).commit.bind fun _ hvalues => .pure ⟨hkey, hvalues.1⟩

lemma bracket_yields (context : FilterContext) :
    (bracket context).Yields fun fs => FilterSpecs.WellShaped context fs :=
  Parser.Yields.trivial.bind fun _ _ => .commit <|
    (Parser.Yields.sepBy1 (filterSpec_yields context)).bind fun _ hspecs =>
      Parser.Yields.trivial.bind fun _ _ => .pure hspecs.2

/-- Filters that are read may stand where they are read. -/
lemma filters_yields (context : FilterContext) :
    (filters context).Yields fun fs => FilterSpecs.WellShaped context fs :=
  (Parser.Yields.many (bracket_yields context)).bind fun _ hbrackets => .pure fun f hf => by
    obtain ⟨fs, hfs, hf⟩ := List.mem_flatten.1 hf
    exact hbrackets fs hfs f hf

/-- Behind an opening bracket there is no way back. -/
lemma filters_sure (context : FilterContext) : (filters context).Sure :=
  (Parser.Sure.many (char_bind_shorter fun u => (opened_lays context u).walks)).bind
    fun _ => .pure

/-! ## Steps to entities -/

lemma id_yields : id.Yields (· ≠ "") := escapedText_yields _ _

lemma typedEntity_yields : typedEntity.Yields fun s =>
    s.WellShaped ∧ s.isUntyped = false ∧ ∀ c, s.EndsAt c :=
  Parser.Yields.trivial.bind fun _ _ => Parser.Yields.trivial.bind fun _ _ =>
    id_yields.commit.bind fun _ hid => (filters_yields .entity).bind fun _ hfilters =>
      .pure ⟨⟨hid, hfilters⟩, rfl, fun _ => trivial⟩

lemma bareEntity_yields : bareEntity.Yields fun s => s.WellShaped ∧ ∀ c, s.EndsAt c :=
  id_yields.bind fun _ hid => (filters_yields .entity).bind fun _ hfilters =>
    .pure ⟨⟨hid, hfilters⟩, fun _ => trivial⟩

lemma collectionId_yields :
    collectionId.Yields fun x => x.1.value ≠ "" ∧ FilterSpecs.WellShaped .entity x.2 :=
  Parser.Yields.trivial.bind fun _ _ => Parser.Yields.trivial.bind fun _ _ =>
    id_yields.spanned.bind fun _ hid => (filters_yields .entity).bind fun _ hfilters =>
      .pure ⟨hid, hfilters⟩

lemma mem_collectionWords {word : String} :
    word ∈ collectionWords ↔ ∃ k : Kind, k.isEntity ∧ k.plural = word := by
  simp only [collectionWords, List.mem_map, List.mem_filter, Kind.mem_all, true_and]

/-- A collection takes the id behind it. -/
lemma collection_done {c c' : Cursor} {s : Step} (h : collection c = .done s c') :
    s.WellShaped ∧ s.isUntyped = false ∧ s.EndsAt c' := by
  obtain ⟨word, _, hword, h⟩ := Parser.bind_eq_done.1 h
  obtain ⟨k, hk, rfl⟩ := mem_collectionWords.1 (keyword_yields _ _ _ _ hword)
  simp only [Kind.ofPlural?_plural] at h
  obtain ⟨recursive, _, -, h⟩ := Parser.bind_eq_done.1 h
  obtain ⟨own, _, hown, h⟩ := Parser.bind_eq_done.1 h
  obtain ⟨id, d, hid, h⟩ := Parser.bind_eq_done.1 h
  obtain ⟨rfl, rfl⟩ := Parser.pure_eq_done.1 h
  have hfilters := filters_yields _ _ _ _ hown
  rcases Parser.optional_eq_done.1 hid with ⟨⟨id, idFilters⟩, rfl, hread⟩ | ⟨rfl, rfl, hmiss⟩
  · have hyields := collectionId_yields _ _ _ hread
    exact ⟨⟨hk, hfilters, by rintro _ ⟨⟩; exact hyields.1, hyields.2, nofun⟩, rfl, nofun⟩
  · exact ⟨⟨hk, hfilters, nofun, nofun, fun _ => rfl⟩, rfl, fun _ => hmiss⟩

/-! ## Steps along relationships -/

lemma clauses_yields {name : Parser String} (hname : name.Yields (· ≠ "")) (directionFirst : Bool) :
    (clauses name directionFirst).Yields fun x => ∀ n ∈ x.1, n ≠ "" := by
  have hnamed : (do
      let name ← name
      pure (some name, none) : Parser (Option String × Option Direction)).Yields
        fun x => ∀ n ∈ x.1, n ≠ "" :=
    hname.bind fun _ h => .pure (by rintro _ ⟨⟩; exact h)
  have hdirected : (do
      let d ← direction
      pure (none, some d) : Parser (Option String × Option Direction)).Yields
        fun x => ∀ n ∈ x.1, n ≠ "" :=
    Parser.Yields.trivial.bind fun _ _ => .pure nofun
  refine Parser.Yields.trivial.bind fun semicolon _ => ?_
  split
  · exact .pure nofun
  · refine Parser.Yields.bind (P := fun x => ∀ n ∈ x.1, n ≠ "") (.commit ?_) fun first hfirst => ?_
    · split
      · exact hdirected.orElse hnamed
      · exact hnamed.orElse hdirected
    · split
      · exact Parser.Yields.trivial.bind fun _ _ => .pure hfirst
      · exact .pure nofun

/-- Behind the semicolon of a step there is no way back. -/
lemma clauses_sure (name : Parser String) (directionFirst : Bool) :
    (clauses name directionFirst).Sure := by
  refine Parser.Sure.optional.bind fun semicolon => ?_
  split
  · exact .pure
  · refine Parser.Sure.commit.bind fun first => ?_
    split
    · exact Parser.Sure.optional.bind fun _ => .pure
    · exact .pure

lemma selector_yields :
    selector.Yields fun s => FilterSpecs.WellShaped s.context s.filters := by
  refine Parser.Yields.trivial.bind fun word _ => ?_
  split
  · exact (filters_yields .entity).bind fun _ h => .pure h
  · exact (filters_yields .relationship).bind fun _ h => .pure h

/-- A step along relationships takes the selector behind it. -/
lemma relationships_done {c c' : Cursor} {s : Step} (h : relationships c = .done s c') :
    s.WellShaped ∧ s.isUntyped = false ∧ s.EndsAt c' := by
  obtain ⟨_, _, -, h⟩ := Parser.bind_eq_done.1 h
  obtain ⟨⟨name, d⟩, _, hname, h⟩ := Parser.bind_eq_done.1 h
  obtain ⟨own, _, hown, h⟩ := Parser.bind_eq_done.1 h
  obtain ⟨found, _, hfound, h⟩ := Parser.bind_eq_done.1 h
  obtain ⟨rfl, rfl⟩ := Parser.pure_eq_done.1 h
  have hnames := clauses_yields (escapedText_yields _ _) _ _ _ _ hname
  have hfilters := filters_yields _ _ _ _ hown
  rcases Parser.optional_eq_done.1 hfound with ⟨found, rfl, hread⟩ | ⟨rfl, rfl, hmiss⟩
  · obtain ⟨_, _, -, hread⟩ := Parser.bind_eq_done.1 hread
    have hyields := selector_yields.spanned.commit _ _ _ hread
    exact ⟨⟨hnames, hfilters, by rintro _ ⟨⟩; exact hyields⟩, rfl, nofun⟩
  · refine ⟨⟨hnames, hfilters, nofun⟩, rfl, fun _ => ?_⟩
    obtain ⟨e, hmiss⟩ := hmiss
    rcases Parser.bind_eq_miss.1 hmiss with hmiss | ⟨_, _, -, hmiss⟩
    · exact ⟨e, hmiss⟩
    · exact absurd hmiss (Parser.Sure.commit _ _)

lemma relationClause_yields : relationClause.Yields (· ≠ "") :=
  Parser.Yields.trivial.bind fun _ _ => Parser.Yields.trivial.bind fun _ _ =>
    (escapedText_yields _ _).commit

lemma recursive_yields : recursive.Yields fun s =>
    s.WellShaped ∧ s.isUntyped = false ∧ ∀ c, s.EndsAt c :=
  Parser.Yields.trivial.bind fun _ _ =>
    (clauses_yields relationClause_yields false).bind fun ⟨name, d⟩ hname =>
      (filters_yields .entity).bind fun _ hfilters => .pure ⟨⟨by
        cases name with
        | none => exact (by decide : RecursiveStep.contained.relation ≠ "")
        | some name => exact hname name rfl, hfilters⟩, rfl, fun _ => trivial⟩

lemma identical_yields : identical.Yields fun s =>
    s.WellShaped ∧ s.isUntyped = false ∧ ∀ c, s.EndsAt c :=
  Parser.Yields.trivial.bind fun _ _ => .pure ⟨trivial, rfl, fun _ => trivial⟩

/-! ## One step -/

/-- The step that a word always starts. -/
def keywordStep (word : String) : Parser Step :=
  if word ∈ relationshipWords then relationships
  else if word = "recursive" then recursive
  else if word = "identical" then identical
  else collection

/-- Behind the word of a step there is no way back. -/
lemma keywordStep_not_miss {c after : Cursor} {word : String}
    (hword : word? c = some (word, after)) (h : isStepWord word) (e : Failure) :
    keywordStep word c ≠ .miss e := by
  rw [keywordStep]
  intro hmiss
  split_ifs at hmiss with h₁ h₂ h₃
  · exact not_mem_of_keyword_miss hword hmiss ((clauses_sure _ _).bind fun ⟨_, _⟩ =>
      (filters_sure _).bind fun _ => Parser.Sure.optional.bind fun _ => .pure) h₁
  · exact not_mem_of_keyword_miss hword hmiss ((clauses_sure _ _).bind fun ⟨_, _⟩ =>
      (filters_sure _).bind fun _ => .pure) (List.mem_singleton.2 h₂)
  · exact not_mem_of_keyword_miss hword hmiss .pure (List.mem_singleton.2 h₃)
  · have h₄ : word ∈ collectionWords := by simpa [isStepWord, h₁, h₂, h₃] using h
    obtain ⟨k, -, rfl⟩ := mem_collectionWords.1 h₄
    refine not_mem_of_keyword_miss hword hmiss ?_ h₄
    simp only [Kind.ofPlural?_plural]
    exact Parser.Sure.optional.bind fun _ => (filters_sure _).bind fun _ =>
      Parser.Sure.optional.bind fun _ => .pure

/-- **A word that always starts a step** is read by the parser of that step. -/
lemma step_eq_keywordStep {c after : Cursor} {word : String}
    (hword : word? c = some (word, after)) (h : isStepWord word) : step c = keywordStep word c := by
  have hsure := keywordStep_not_miss hword h
  have hrelationships (h : word ∉ relationshipWords) : ∃ e, relationships c = .miss e :=
    keyword_bind_miss hword h
  have hrecursive (h : word ≠ "recursive") : ∃ e, recursive c = .miss e :=
    keyword_bind_miss hword (mt List.mem_singleton.1 h)
  have hidentical (h : word ≠ "identical") : ∃ e, identical c = .miss e :=
    keyword_bind_miss hword (mt List.mem_singleton.1 h)
  rw [keywordStep] at hsure ⊢
  split_ifs at hsure ⊢ with h₁ h₂ h₃
  · exact Parser.orElse_of_not_miss hsure
  · exact Parser.orElse_of_miss (hrelationships h₁) hsure (Parser.orElse_of_not_miss hsure)
  · exact Parser.orElse_of_miss (hrelationships h₁) hsure <|
      Parser.orElse_of_miss (hrecursive h₂) hsure (Parser.orElse_of_not_miss hsure)
  · exact Parser.orElse_of_miss (hrelationships h₁) hsure <|
      Parser.orElse_of_miss (hrecursive h₂) hsure <|
        Parser.orElse_of_miss (hidentical h₃) hsure (Parser.orElse_of_not_miss hsure)

/-- **Where a step of its own starts, one of the steps before a bare id is read.** -/
lemma startsStep_eq_false {c : Cursor}
    (hrelationships : ∃ e, relationships c = .miss e) (hrecursive : ∃ e, recursive c = .miss e)
    (hidentical : ∃ e, identical c = .miss e) (hcollection : ∃ e, collection c = .miss e)
    (htyped : ∃ e, typedEntity c = .miss e) : startsStep c = false := by
  rw [startsStep]
  cases hword : word? c with
  | none => rfl
  | some found =>
      obtain ⟨word, after⟩ := found
      have hplain : isStepWord word = false := by
        by_contra h
        have hmiss : ∃ e, keywordStep word c = .miss e := by
          rw [keywordStep]
          split_ifs <;> assumption
        obtain ⟨e, hmiss⟩ := hmiss
        exact keywordStep_not_miss hword (Bool.of_not_eq_false h) e hmiss
      have hkind : after.rest.head? = some ';' → Kind.ofWord? word = none := fun hhead => by
        by_contra hne
        obtain ⟨k, hk⟩ := Option.ne_none_iff_exists'.1 hne
        obtain ⟨rest, hrest⟩ := List.head?_eq_some_iff.1 hhead
        have hkind : RawPath.kindWord c = .done k after := by
          rw [RawPath.kindWord,
            Parser.bind_done (keyword_eq_done.2 ⟨hword, RawPath.mem_kindWords hk⟩)]
          simp only [hk]
          rfl
        have hsemicolon : char ';' after = .done () ⟨after.offset + ';'.utf8Size, rest⟩ :=
          char_eq_done.2 ⟨hrest, rfl⟩
        obtain ⟨e, htyped⟩ := htyped
        rw [typedEntity, Parser.bind_done hkind, Parser.bind_done hsemicolon] at htyped
        exact (Parser.Sure.commit.bind fun _ => (filters_sure _).bind fun _ => .pure) _ _ htyped
      simpa [hplain] using hkind

/-- **A step that is read has its shape**, and ends where it has to.  If it is to an entity without
a type, then nothing else could be read. -/
theorem step_done {c c' : Cursor} {s : Step} (h : step c = .done s c') :
    s.WellShaped ∧ s.EndsAt c' ∧
      (s.isUntyped → startsStep c = false ∧ bareEntity c = .done s c') := by
  rcases Parser.orElse_eq_done.1 h with h | ⟨hrelationships, h⟩
  · obtain ⟨hshape, htyped, hends⟩ := relationships_done h
    exact ⟨hshape, hends, by simp [htyped]⟩
  rcases Parser.orElse_eq_done.1 h with h | ⟨hrecursive, h⟩
  · obtain ⟨hshape, htyped, hends⟩ := recursive_yields _ _ _ h
    exact ⟨hshape, hends c', by simp [htyped]⟩
  rcases Parser.orElse_eq_done.1 h with h | ⟨hidentical, h⟩
  · obtain ⟨hshape, htyped, hends⟩ := identical_yields _ _ _ h
    exact ⟨hshape, hends c', by simp [htyped]⟩
  rcases Parser.orElse_eq_done.1 h with h | ⟨hcollection, h⟩
  · obtain ⟨hshape, htyped, hends⟩ := collection_done h
    exact ⟨hshape, hends, by simp [htyped]⟩
  rcases Parser.orElse_eq_done.1 h with h | ⟨htyped, h⟩
  · obtain ⟨hshape, htyped, hends⟩ := typedEntity_yields _ _ _ h
    exact ⟨hshape, hends c', by simp [htyped]⟩
  obtain ⟨hshape, hends⟩ := bareEntity_yields _ _ _ h
  exact ⟨hshape, hends c', fun _ =>
    ⟨startsStep_eq_false hrelationships hrecursive hidentical hcollection htyped, h⟩⟩

/-! ## All steps -/

lemma collectionId_of_slash {c d : Cursor} {u : Unit} (h : char '/' c = .done u d) :
    collectionId c =
      if startsStep d then .miss (.leaf d.offset (.text "id"))
      else (do
        let id ← Parser.spanned id
        let filters ← filters .entity
        pure (id, filters) : Parser _) d := by
  rw [collectionId, Parser.bind_done h]
  dsimp only [bind]
  cases startsStep d <;> rfl

/-- A step leaves nothing to the next one that it could have taken. -/
lemma mayPrecede_of_endsAt {s t : Step} {c d c' : Cursor} {u : Unit} (hs : s.EndsAt c)
    (hslash : char '/' c = .done u d) (h : step d = .done t c') : s.mayPrecede t := by
  cases s with
  | collection s =>
      cases hid : s.id with
      | some id => simp [Step.mayPrecede, hid]
      | none =>
          -- An untyped entity would have been the id of the collection.
          obtain ⟨e, hmiss⟩ := hs hid
          rw [Step.mayPrecede, hid, Option.isSome_none, Bool.false_or, Bool.not_eq_true',
            ← Bool.not_eq_true]
          intro htyped
          obtain ⟨hstart, hbare⟩ := (step_done h).2.2 htyped
          obtain ⟨i, d₁, hread, hrest⟩ := Parser.bind_eq_done.1 hbare
          obtain ⟨fs, d₂, hfilters, -⟩ := Parser.bind_eq_done.1 hrest
          have hspan : Parser.spanned id d = .done ⟨⟨d.offset, d₁.offset⟩, i⟩ d₁ :=
            Parser.spanned_eq_done.2 ⟨hread, rfl⟩
          rw [collectionId_of_slash hslash, hstart, if_neg (by simp), Parser.bind_done hspan,
            Parser.bind_done hfilters] at hmiss
          cases hmiss
  | relationships s =>
      cases hselector : s.selector with
      | some found => simp [Step.mayPrecede, hselector]
      | none =>
          obtain ⟨e, hmiss⟩ := hs hselector
          cases hmiss.symm.trans hslash
  | _ => rfl

lemma steps_done : ∀ (ts : List (Spanned Step)) {s : Spanned Step} {c c' : Cursor},
    s.value.EndsAt c →
    Parser.many (do
      char '/'
      (Parser.spanned step).commit) c = .done ts c' →
    (∀ t ∈ ts, t.value.WellShaped) ∧
      (s :: ts).IsChain fun s next => s.value.mayPrecede next.value
  | [], _, _, _, _, _ => ⟨nofun, .singleton _⟩
  | t :: ts, s, c, c', hs, h => by
      rcases Parser.many_eq_done h with ⟨h, -, -⟩ | ⟨_, _, d, h, hread, hothers⟩
      · cases h
      · cases h
        obtain ⟨_, d', hslash, hstep⟩ := Parser.bind_eq_done.1 hread
        have hstep := (Parser.spanned_eq_done.1 (Parser.commit_eq_done.1 hstep)).1
        obtain ⟨hshape, hends, -⟩ := step_done hstep
        obtain ⟨hshapes, horder⟩ := steps_done ts hends hothers
        exact ⟨List.forall_mem_cons.2 ⟨hshape, hshapes⟩,
          .cons_cons (mayPrecede_of_endsAt hs hslash hstep) horder⟩

lemma traversal_yields : traversal.Yields Traversal.WellShaped := by
  intro c t c' h
  obtain ⟨_, _, -, h⟩ := Parser.bind_eq_done.1 h
  obtain ⟨first, _, hfirst, h⟩ := Parser.bind_eq_done.1 h
  obtain ⟨others, _, hothers, h⟩ := Parser.bind_eq_done.1 h
  obtain ⟨_, _, -, h⟩ := Parser.bind_eq_done.1 h
  obtain ⟨rfl, -⟩ := Parser.pure_eq_done.1 h
  have hstep := (Parser.spanned_eq_done.1 (Parser.commit_eq_done.1 hfirst)).1
  obtain ⟨hshape, hends, -⟩ := step_done hstep
  obtain ⟨hshapes, horder⟩ := steps_done others hends hothers
  exact ⟨List.cons_ne_nil _ _, List.forall_mem_cons.2 ⟨hshape, hshapes⟩, horder⟩

end Grammar

namespace Traversal

/-- **Every traversal that is read has its shape.** -/
theorem wellShaped_of_parse {text : String} {t : Traversal} (h : parse text = .ok t) :
    t.WellShaped := by
  rw [parse] at h
  cases hread : Grammar.traversal (.start text) with
  | done t' rest =>
      rw [hread, Reply.toExcept, Except.ok.injEq] at h
      exact h ▸ Grammar.traversal_yields _ _ _ hread
  | _ =>
      rw [hread] at h
      cases h

end Traversal

end Estate
