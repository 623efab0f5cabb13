import Mathlib.Data.List.Chain
import Estate.Proofs.Parse.Reading
import Estate.Proofs.Traversal.Places
import Estate.Proofs.Traversal.Shape

/-!
# Writing traversals

A traversal can be written so that nothing is left to defaults: kinds by name, collections by
plural, directions always, ids and names with a backslash before every character, values in quotes,
and the filters of a step in one bracket.  Whatever has the shape of a traversal is read back from
this text, apart from the places in it.

* `Traversal.text` — the text.
* `Grammar.step_reads` — a step is read back if what follows it belongs to the next one.
* **`Traversal.parse_image`** — every traversal of the right shape is read back, and nothing else
  is ever read.
-/

namespace Estate

open Parse

/-! ## The characters of a traversal -/

/-- `key="value","value"` -/
def FilterSpec.chars (f : FilterSpec) : List Char :=
  f.key.word.toList ++ '=' :: joined ',' (f.values.map doubleQuoted)

/-- One bracket, unless there are no filters. -/
def FilterSpecs.chars (fs : FilterSpecs) : List Char :=
  if fs.isEmpty then [] else '[' :: (joined ';' (fs.map (·.value.chars)) ++ [']'])

/-- An id with filters behind it. -/
def Grammar.idChars (id : String) (filters : FilterSpecs) : List Char :=
  slashed id ++ FilterSpecs.chars filters

/-- `kind;id[…]`, or the id alone. -/
def EntityStep.chars (e : EntityStep) : List Char :=
  match e.kind with
  | some k => k.name.toList ++ ';' :: Grammar.idChars e.id e.filters
  | none => Grammar.idChars e.id e.filters

/-- `/id[…]`, if there is an id. -/
def CollectionStep.idChars (c : CollectionStep) : List Char :=
  match c.id with
  | some id => '/' :: Grammar.idChars id.value c.idFilters
  | none => []

/-- `plural;recursive[…]/id[…]` -/
def CollectionStep.chars (c : CollectionStep) : List Char :=
  c.kind.plural.toList ++ ((if c.recursive then ";recursive".toList else []) ++
    (FilterSpecs.chars c.filters ++ c.idChars))

/-- `entities[…]` or `relationships[…]` -/
def Selector.chars : Selector → List Char
  | entities filters => "entities".toList ++ FilterSpecs.chars filters
  | relationships filters => "relationships".toList ++ FilterSpecs.chars filters

/-- `;clause;direction` -/
def Grammar.clausesChars (clause : Option (List Char)) (d : Direction) : List Char :=
  match clause with
  | some cs => ';' :: (cs ++ ';' :: d.name.toList)
  | none => ';' :: d.name.toList

/-- `/selector[…]`, if there is a selector. -/
def RelationshipStep.selectorChars (r : RelationshipStep) : List Char :=
  match r.selector with
  | some s => '/' :: s.value.chars
  | none => []

/-- `relationships;name;direction[…]/selector[…]` -/
def RelationshipStep.chars (r : RelationshipStep) : List Char :=
  "relationships".toList ++ (Grammar.clausesChars (r.name.map slashed) r.direction ++
    (FilterSpecs.chars r.filters ++ r.selectorChars))

/-- `recursive;over=name;direction[…]` -/
def RecursiveStep.chars (r : RecursiveStep) : List Char :=
  "recursive".toList ++
    (Grammar.clausesChars (some ("over".toList ++ '=' :: slashed r.relation)) r.direction ++
      FilterSpecs.chars r.filters)

def Step.chars : Step → List Char
  | .entity e => e.chars
  | .collection c => c.chars
  | .relationships r => r.chars
  | .recursive r => r.chars
  | .identical => "identical".toList

/-- The word that a step starts with, unless it starts with an id. -/
def Step.leading? : Step → Option String
  | .entity e => e.kind.map Kind.name
  | .collection c => some c.kind.plural
  | .relationships _ => some "relationships"
  | .recursive _ => some "recursive"
  | .identical => some "identical"

/-- Steps with slashes between them, and a slash before them if the traversal is absolute. -/
def Traversal.chars (t : Traversal) : List Char :=
  let steps := joined '/' (t.steps.map (·.value.chars))
  if t.absolute then '/' :: steps else steps

/-- **The text of a traversal**, in which nothing is left to defaults. -/
def Traversal.text (t : Traversal) : String :=
  String.ofList t.chars

/-! ## Where texts end -/

/-- What comes next starts with a character that ends words and ids. -/
def Delimited (rest : List Char) : Prop :=
  ∀ c ∈ rest.head?, c ∈ ['/', ';', '[', ']']

/-- What comes next is another step, or nothing. -/
def StepEnds (rest : List Char) : Prop :=
  ∀ c ∈ rest.head?, c = '/'

section Ends

variable {rest : List Char} {c : Char}

lemma delimited_cons (h : c ∈ ['/', ';', '[', ']']) : Delimited (c :: rest) := by
  rintro _ ⟨⟩
  exact h

lemma Delimited.wordEnds (h : Delimited rest) : WordEnds rest := fun c hc => by
  have hall : ['/', ';', '[', ']'].all (fun c => !Text.isWordChar c) := by decide
  simpa using List.all_eq_true.1 hall c (h c hc)

lemma Delimited.escapeEnds (h : Delimited rest) : EscapeEnds ['/', ';', '[', ']'] rest :=
  fun c hc => by
    have hslash : '\\' ∉ ['/', ';', '[', ']'] := by decide
    exact ⟨h c hc, fun hc' => hslash (hc' ▸ h c hc)⟩

lemma StepEnds.delimited (h : StepEnds rest) : Delimited rest := fun c hc => by
  rw [h c hc]
  decide

lemma StepEnds.not_opens (h : StepEnds rest) : rest.head? ≠ some '[' := fun hc =>
  absurd (h _ hc) (by decide)

lemma Delimited.filters (h : Delimited rest) (fs : FilterSpecs) :
    Delimited (FilterSpecs.chars fs ++ rest) := by
  rw [FilterSpecs.chars]
  split
  · exact h
  · exact delimited_cons (by decide)

/-- No clause of a step follows its filters. -/
lemma StepEnds.no_clause (h : StepEnds rest) (fs : FilterSpecs) :
    (FilterSpecs.chars fs ++ rest).head? ≠ some ';' := by
  rw [FilterSpecs.chars]
  split
  · exact fun hc => absurd (h _ hc) (by decide)
  · exact fun hc => absurd (Option.some.inj hc) (by decide)

end Ends

namespace Grammar

variable {rest : List Char}

/-! ## Filters -/

lemma filterKey_reads {context : FilterContext} {key : FilterKey} (hkey : key ∈ context.keys)
    (hrest : WordEnds rest) : (filterKey context).Reads key.word.toList rest (· = key) := by
  have hword : IsWord key.word := by cases key <;> decide
  refine .bind_last (keyword_reads hword (List.mem_map_of_mem hkey) hrest) ?_
  rintro _ rfl
  simp only [FilterKey.ofWord?_word]
  exact .pure rfl

lemma value_reads (v : String) (rest : List Char) :
    value.Reads (doubleQuoted v) rest (· = v) :=
  .first (quotedText_reads _ _ rest)

lemma filterSpec_reads {context : FilterContext} {f : FilterSpec} (h : f.WellShaped context)
    (hrest : Delimited rest) : (filterSpec context).Reads f.chars rest fun x => x.value = f := by
  have hcomma : rest.head? ≠ some ',' := fun hc => absurd (hrest _ hc) (by decide)
  rw [FilterSpec.chars]
  refine .spanned (P := (· = f)) ?_
  refine .bind (filterKey_reads h.key (wordEnds_cons (c := '=') (by decide))) ?_
  rintro _ rfl
  refine .bind_cons (char_reads '=' _).commit fun _ _ => ?_
  refine (Parser.Reads.sepBy1 h.values hcomma fun v _ after _ => value_reads v after).commit.map ?_
  intro values hvalues
  have hsame : values = f.values := by
    rw [← List.forall₂_eq_eq_eq]
    exact hvalues.flip
  rw [hsame]

lemma bracket_reads {context : FilterContext} {fs : FilterSpecs} (hne : fs ≠ [])
    (h : FilterSpecs.WellShaped context fs) :
    (bracket context).Reads ('[' :: (joined ';' (fs.map (·.value.chars)) ++ [']'])) rest fun fs' =>
      FilterSpecs.untraced fs' = FilterSpecs.untraced fs := by
  refine .char_bind <| .commit <| .bind
    (.sepBy1 (R := fun f f' => f'.value = f.value) hne ?_ ?_) fun specs hspecs => ?_
  · exact fun hc => absurd (Option.some.inj hc) (by decide)
  · rintro f hf after (hafter | rfl)
    · refine filterSpec_reads (h f hf) fun c hc => ?_
      obtain rfl := Option.some.inj (hafter.symm.trans hc)
      decide
    · exact filterSpec_reads (h f hf) (delimited_cons (by decide))
  · refine .char_bind (.pure ?_)
    rw [FilterSpecs.untraced, FilterSpecs.untraced]
    exact (map_eq_map_iff.2 (hspecs.imp fun _ _ hf => by rw [hf])).symm

/-- Filters are read back from one bracket. -/
lemma filters_reads {context : FilterContext} {fs : FilterSpecs}
    (h : FilterSpecs.WellShaped context fs) (hrest : rest.head? ≠ some '[') :
    (filters context).Reads (FilterSpecs.chars fs) rest fun fs' =>
      FilterSpecs.untraced fs' = FilterSpecs.untraced fs := by
  have hend : (bracket context).Misses rest := Parser.Misses.bind (char_misses hrest)
  rw [FilterSpecs.chars]
  split
  · next hempty =>
      obtain rfl := List.isEmpty_iff.1 hempty
      exact (Parser.Reads.many_nil hend).map (by rintro _ rfl; rfl)
  · next hne =>
      refine (Parser.Reads.many_one (bracket_reads (fun hnil => hne (List.isEmpty_iff.2 hnil)) h)
        (List.cons_ne_nil _ _) hend).map ?_
      rintro _ ⟨specs, rfl, hspecs⟩
      rw [List.flatten_singleton, hspecs]

/-! ## Steps to entities -/

lemma id_reads {id : String} (hne : id ≠ "") (hrest : Delimited rest) :
    Grammar.id.Reads (slashed id) rest (· = id) :=
  escapedText_reads hne hrest.escapeEnds

lemma typedEntity_reads {e : EntityStep} {k : Kind} (h : e.WellShaped) (hkind : e.kind = some k)
    (hrest : StepEnds rest) :
    typedEntity.Reads e.chars rest fun s => s.untraced = (Step.entity e).untraced := by
  simp only [EntityStep.chars, hkind]
  have hname : Kind.ofWord? k.name = some k := by cases k <;> decide
  refine .bind (RawPath.kindWord_reads hname (wordEnds_cons (c := ';') (by decide))) ?_
  rintro _ rfl
  refine .char_bind <| .bind (id_reads h.id (hrest.delimited.filters e.filters)).commit ?_
  rintro _ rfl
  refine (filters_reads h.filters hrest.not_opens).map fun fs hfs => ?_
  simp [Step.untraced, EntityStep.untraced, hfs, hkind]

lemma bareEntity_reads {e : EntityStep} (h : e.WellShaped) (hkind : e.kind = none)
    (hrest : StepEnds rest) :
    bareEntity.Reads e.chars rest fun s => s.untraced = (Step.entity e).untraced := by
  simp only [EntityStep.chars, hkind]
  refine .bind (id_reads h.id (hrest.delimited.filters e.filters)) ?_
  rintro _ rfl
  refine (filters_reads h.filters hrest.not_opens).map fun fs hfs => ?_
  simp [Step.untraced, EntityStep.untraced, hfs, hkind]

/-- The id behind a collection is no step of its own, for it starts with a backslash. -/
lemma collectionId_reads {id : String} {fs : FilterSpecs} (hid : id ≠ "")
    (hfs : FilterSpecs.WellShaped .entity fs) (hrest : StepEnds rest) :
    collectionId.Reads ('/' :: idChars id fs) rest fun x =>
      x.1.value = id ∧ FilterSpecs.untraced x.2 = FilterSpecs.untraced fs := by
  have hread : (do
      let id ← Parser.spanned Grammar.id
      let filters ← filters .entity
      pure (id, filters) : Parser (Spanned String × FilterSpecs)).Reads (idChars id fs) rest
        fun x => x.1.value = id ∧ FilterSpecs.untraced x.2 = FilterSpecs.untraced fs :=
    .bind (id_reads hid (hrest.delimited.filters fs)).spanned fun x hx =>
      (filters_reads hfs hrest.not_opens).map fun _ hfs' => ⟨hx, hfs'⟩
  intro offset
  obtain ⟨x, offset', hx, hsame⟩ := hread (offset + '/'.utf8Size)
  have hslash : char '/' ⟨offset, '/' :: idChars id fs ++ rest⟩ =
      .done () ⟨offset + '/'.utf8Size, idChars id fs ++ rest⟩ := char_eq_done.2 ⟨rfl, rfl⟩
  have hstart : startsStep ⟨offset + '/'.utf8Size, idChars id fs ++ rest⟩ = false := by
    rw [startsStep, idChars, List.append_assoc, word?_eq_none (wordEnds_slashed hid)]
  refine ⟨x, offset', ?_, hsame⟩
  rw [collectionId_of_slash hslash, hstart, if_neg (by simp), hx]

/-- Whether a collection is recursive. -/
lemma recursiveFlag_reads (recursive : Bool) (hword : WordEnds rest)
    (hrest : rest.head? ≠ some ';') :
    (Parser.optional do
      char ';'
      (keyword ["recursive"]).commit).Reads
        (if recursive then ";recursive".toList else []) rest fun o => o.isSome = recursive := by
  cases recursive with
  | false =>
      refine (Parser.Reads.absent (Parser.Misses.bind (char_misses hrest))).mono ?_
      rintro _ rfl
      rfl
  | true =>
      have hread : (keyword ["recursive"]).Reads "recursive".toList rest (· = "recursive") :=
        keyword_reads (by decide) (by decide) hword
      refine (Parser.Reads.present (.char_bind hread.commit)).mono ?_
      rintro _ ⟨_, rfl, -⟩
      rfl

lemma stepEnds_idChars (c : CollectionStep) (hrest : StepEnds rest) :
    StepEnds (c.idChars ++ rest) := by
  rw [CollectionStep.idChars]
  cases c.id with
  | none => exact hrest
  | some id => rintro _ ⟨⟩; rfl

/-- The id of a collection is read if there is one, and no other id is taken for it. -/
lemma optionalId_reads {c : CollectionStep} (h : c.WellShaped) (hrest : StepEnds rest)
    (hends : ∀ offset, (Step.collection c).EndsAt ⟨offset, rest⟩) :
    (Parser.optional collectionId).Reads c.idChars rest fun o =>
      (o.map (·.1)).map (fun id => Spanned.nowhere id.value) =
          c.id.map (fun id => .nowhere id.value) ∧
        FilterSpecs.untraced ((o.map (·.2)).getD []) = FilterSpecs.untraced c.idFilters := by
  rw [CollectionStep.idChars]
  cases hid : c.id with
  | none =>
      refine (Parser.Reads.absent fun offset => hends offset hid).mono ?_
      rintro _ rfl
      rw [h.withoutId hid]
      exact ⟨rfl, rfl⟩
  | some id =>
      refine (collectionId_reads (h.id id hid) h.idFilters hrest).present.mono ?_
      rintro _ ⟨⟨found, fs⟩, rfl, hvalue, hfs⟩
      exact ⟨congrArg (fun v => some (Spanned.nowhere v)) hvalue, hfs⟩

lemma collection_reads {c : CollectionStep} (h : c.WellShaped) (hrest : StepEnds rest)
    (hends : ∀ offset, (Step.collection c).EndsAt ⟨offset, rest⟩) :
    collection.Reads c.chars rest fun s => s.untraced = (Step.collection c).untraced := by
  have hword : IsWord c.kind.plural := by cases c.kind <;> decide
  have hafter := stepEnds_idChars c hrest
  have hfilters : WordEnds (FilterSpecs.chars c.filters ++ c.idChars ++ rest) := by
    rw [List.append_assoc]
    exact (hafter.delimited.filters c.filters).wordEnds
  have hclause : (FilterSpecs.chars c.filters ++ c.idChars ++ rest).head? ≠ some ';' := by
    rw [List.append_assoc]
    exact hafter.no_clause c.filters
  rw [CollectionStep.chars]
  refine .bind (keyword_reads hword (mem_collectionWords.2 ⟨_, h.kind, rfl⟩) ?_) ?_
  · cases c.recursive with
    | false => exact hfilters
    | true => exact wordEnds_cons (c := ';') (by decide)
  rintro _ rfl
  simp only [Kind.ofPlural?_plural]
  refine .bind (recursiveFlag_reads _ hfilters hclause) fun flag hflag => ?_
  refine .bind (filters_reads h.filters hafter.not_opens) fun fs hfs => ?_
  refine (optionalId_reads h hrest hends).map fun o ho => ?_
  simp [Step.untraced, CollectionStep.untraced, hflag, hfs, ho.1, ho.2]

/-! ## Steps along relationships -/

lemma wordEnds_clausesChars (clause : Option (List Char)) (d : Direction) {more : List Char} :
    WordEnds (clausesChars clause d ++ more ++ rest) := by
  cases clause <;> exact wordEnds_cons (by decide)

lemma direction_reads (d : Direction) (hrest : WordEnds rest) :
    direction.Reads d.name.toList rest (· = d) := by
  have hword : IsWord d.name := by cases d <;> decide
  have hmem : d.name ∈ directionWords := by cases d <;> decide
  refine .bind_last (keyword_reads hword hmem hrest) ?_
  rintro _ rfl
  simp only [Direction.ofName?_name]
  exact .pure rfl

/-- A direction behind the semicolon of a step is not taken for a name. -/
lemma directionClause_reads {name : Parser String} (d : Direction) (hrest : WordEnds rest) :
    (clauses name true).Reads (clausesChars none d) rest (· = (none, some d)) := by
  refine .bind_cons (char_reads ';' _).present ?_
  rintro _ ⟨_, rfl, -⟩
  simp only [Option.isNone_some, Bool.false_eq_true, if_false, if_true]
  refine .bind_last (P := (· = (none, some d))) (.commit (.first ?_)) ?_
  · exact (direction_reads d hrest).map (by rintro _ rfl; rfl)
  · rintro _ rfl
    exact .pure rfl

/-- A name behind the semicolon of a step is not taken for a direction, if it does not start with
the word for one. -/
lemma namedClause_reads {name : Parser String} {directionFirst : Bool} {n : String}
    {cs : List Char} (d : Direction)
    (hname : name.Reads cs (';' :: (d.name.toList ++ rest)) (· = n))
    (hfirst : directionFirst →
      (keyword directionWords).Misses (cs ++ ';' :: (d.name.toList ++ rest)))
    (hrest : WordEnds rest) :
    (clauses name directionFirst).Reads (clausesChars (some cs) d) rest (· = (some n, some d)) := by
  have hnamed : (do
      let name ← name
      pure (some name, none) : Parser (Option String × Option Direction)).Reads cs
        (';' :: (d.name.toList ++ rest)) (· = (some n, none)) :=
    hname.map (by rintro _ rfl; rfl)
  refine .bind_cons (char_reads ';' _).present ?_
  rintro _ ⟨_, rfl, -⟩
  simp only [Option.isNone_some, Bool.false_eq_true, if_false]
  refine .bind (P := (· = (some n, none))) (.commit ?_) ?_
  · cases directionFirst with
    | false => exact .first hnamed
    | true => exact .second (.bind (.bind (hfirst rfl))) hnamed
  · rintro _ rfl
    refine (Parser.Reads.present (.char_bind (direction_reads d hrest).commit)).map ?_
    rintro _ ⟨_, rfl, rfl⟩
    rfl

lemma selector_reads {s : Selector} (h : FilterSpecs.WellShaped s.context s.filters)
    (hrest : StepEnds rest) :
    selector.Reads s.chars rest fun s' => s'.untraced = s.untraced := by
  cases s with
  | entities fs =>
      refine .bind (keyword_reads (by decide) (by decide) (hrest.delimited.filters fs).wordEnds) ?_
      rintro _ rfl
      exact (filters_reads h hrest.not_opens).map fun fs' hfs => congrArg Selector.entities hfs
  | relationships fs =>
      refine .bind (keyword_reads (by decide) (by decide) (hrest.delimited.filters fs).wordEnds) ?_
      rintro _ rfl
      exact (filters_reads h hrest.not_opens).map fun fs' hfs => congrArg Selector.relationships hfs

lemma stepEnds_selectorChars (r : RelationshipStep) (hrest : StepEnds rest) :
    StepEnds (r.selectorChars ++ rest) := by
  rw [RelationshipStep.selectorChars]
  cases r.selector with
  | none => exact hrest
  | some s => rintro _ ⟨⟩; rfl

/-- A selector is read if there is one, and no other step is taken for it. -/
lemma optionalSelector_reads {r : RelationshipStep} (h : r.WellShaped) (hrest : StepEnds rest)
    (hends : ∀ offset, (Step.relationships r).EndsAt ⟨offset, rest⟩) :
    (Parser.optional do
      char '/'
      (Parser.spanned selector).commit).Reads r.selectorChars rest fun o =>
        (o.map fun s => Spanned.nowhere s.value.untraced) =
          r.selector.map fun s => .nowhere s.value.untraced := by
  rw [RelationshipStep.selectorChars]
  cases hselector : r.selector with
  | none =>
      refine (Parser.Reads.absent (.bind fun offset => hends offset hselector)).mono ?_
      rintro _ rfl
      rfl
  | some s =>
      have hread := (selector_reads (h.selector s hselector) hrest).spanned.commit
      refine (Parser.Reads.present (.char_bind hread)).mono ?_
      rintro _ ⟨s', rfl, hs'⟩
      rw [Option.map_some, hs', Option.map_some]

/-- A step along relationships is read if its clauses are, however they are written. -/
lemma relationships_reads_of {r : RelationshipStep} {clause : Option (List Char)}
    (h : r.WellShaped) (hrest : StepEnds rest)
    (hends : ∀ offset, (Step.relationships r).EndsAt ⟨offset, rest⟩)
    (hclauses : (clauses relationshipName true).Reads (clausesChars clause r.direction)
      (FilterSpecs.chars r.filters ++ r.selectorChars ++ rest) (· = (r.name, some r.direction))) :
    relationships.Reads ("relationships".toList ++ (clausesChars clause r.direction ++
      (FilterSpecs.chars r.filters ++ r.selectorChars))) rest fun s =>
        s.untraced = (Step.relationships r).untraced := by
  have hafter := stepEnds_selectorChars r hrest
  have hkeyword : (keyword relationshipWords).Reads "relationships".toList
      (clausesChars clause r.direction ++ (FilterSpecs.chars r.filters ++ r.selectorChars) ++ rest)
      (· = "relationships") :=
    keyword_reads (by decide) (by decide) (wordEnds_clausesChars _ _)
  refine .bind hkeyword fun _ _ => ?_
  refine .bind hclauses ?_
  rintro _ rfl
  refine .bind (filters_reads h.filters hafter.not_opens) fun fs hfs => ?_
  refine (optionalSelector_reads h hrest hends).map fun o ho => ?_
  simp [Step.untraced, RelationshipStep.untraced, hfs, ho]

/-- No word of a clause goes on behind it. -/
lemma wordEnds_afterClauses (r : RelationshipStep) (hrest : StepEnds rest) :
    WordEnds (FilterSpecs.chars r.filters ++ r.selectorChars ++ rest) := by
  rw [List.append_assoc]
  exact ((stepEnds_selectorChars r hrest).delimited.filters r.filters).wordEnds

lemma relationships_reads {r : RelationshipStep} (h : r.WellShaped) (hrest : StepEnds rest)
    (hends : ∀ offset, (Step.relationships r).EndsAt ⟨offset, rest⟩) :
    relationships.Reads r.chars rest fun s => s.untraced = (Step.relationships r).untraced := by
  have hfilters := wordEnds_afterClauses r hrest
  unfold RelationshipStep.chars
  refine relationships_reads_of h hrest hends ?_
  cases hname : r.name with
  | none => exact directionClause_reads r.direction hfilters
  | some n =>
      refine namedClause_reads r.direction (escapedText_reads (h.name n hname) ?_) ?_ hfilters
      · exact (delimited_cons (c := ';') (by decide)).escapeEnds
      · exact fun _ => keyword_misses_of_wordEnds (wordEnds_slashed (h.name n hname))

lemma recursive_reads {r : RecursiveStep} (h : r.WellShaped) (hrest : StepEnds rest) :
    recursive.Reads r.chars rest fun s => s.untraced = (Step.recursive r).untraced := by
  have hover : relationClause.Reads ("over".toList ++ '=' :: slashed r.relation)
      (';' :: (r.direction.name.toList ++ (FilterSpecs.chars r.filters ++ rest)))
      (· = r.relation) := by
    have hkeyword : ∀ rest, (keyword ["over"]).Reads "over".toList ('=' :: rest) (· = "over") :=
      fun _ => keyword_reads (by decide) (by decide) (wordEnds_cons (by decide))
    refine .bind (hkeyword _) fun _ _ => ?_
    refine .bind_cons (char_reads '=' _).commit fun _ _ => .commit ?_
    exact escapedText_reads h.relation (delimited_cons (c := ';') (by decide)).escapeEnds
  have hkeyword : (keyword ["recursive"]).Reads "recursive".toList
      (clausesChars (some ("over".toList ++ '=' :: slashed r.relation)) r.direction ++
        FilterSpecs.chars r.filters ++ rest) (· = "recursive") :=
    keyword_reads (by decide) (by decide) (wordEnds_clausesChars _ _)
  unfold RecursiveStep.chars
  refine .bind hkeyword fun _ _ => ?_
  refine .bind (namedClause_reads r.direction hover nofun
    (hrest.delimited.filters r.filters).wordEnds) ?_
  rintro _ rfl
  refine (filters_reads h.filters hrest.not_opens).map fun fs hfs => ?_
  simp [Step.untraced, RecursiveStep.untraced, hfs]

/-! ## One step -/

variable {s : Step}

/-- A step starts with its word, which ends there. -/
lemma chars_of_leading {word : String} (h : s.leading? = some word) (hrest : StepEnds rest) :
    IsWord word ∧ ∃ more, s.chars ++ rest = word.toList ++ more ∧ WordEnds more := by
  cases s with
  | entity e =>
      obtain ⟨k, hkind, rfl⟩ := Option.map_eq_some_iff.1 h
      refine ⟨by cases k <;> decide, ';' :: (idChars e.id e.filters ++ rest), ?_,
        wordEnds_cons (by decide)⟩
      show e.chars ++ rest = _
      simp only [EntityStep.chars, hkind, List.append_assoc, List.cons_append]
  | collection c =>
      obtain rfl := Option.some.inj h
      refine ⟨by cases c.kind <;> decide, _, List.append_assoc _ _ _, ?_⟩
      cases c.recursive with
      | true => exact wordEnds_cons (c := ';') (by decide)
      | false =>
          rw [if_neg (by simp), List.nil_append, List.append_assoc]
          exact ((stepEnds_idChars c hrest).delimited.filters c.filters).wordEnds
  | relationships r =>
      obtain rfl := Option.some.inj h
      refine ⟨by decide, clausesChars (r.name.map slashed) r.direction ++
        (FilterSpecs.chars r.filters ++ r.selectorChars) ++ rest, ?_, wordEnds_clausesChars _ _⟩
      show r.chars ++ rest = _
      unfold RelationshipStep.chars
      rw [List.append_assoc]
  | recursive r =>
      obtain rfl := Option.some.inj h
      refine ⟨by decide, clausesChars (some ("over".toList ++ '=' :: slashed r.relation))
        r.direction ++ FilterSpecs.chars r.filters ++ rest, ?_, wordEnds_clausesChars _ _⟩
      show r.chars ++ rest = _
      unfold RecursiveStep.chars
      rw [List.append_assoc]
  | identical =>
      obtain rfl := Option.some.inj h
      exact ⟨by decide, rest, rfl, hrest.delimited.wordEnds⟩

/-- A step without a word is to an untyped entity, and starts with a backslash. -/
lemma chars_of_not_leading (hs : s.WellShaped) (h : s.leading? = none) :
    ∃ cs, s.chars = '\\' :: cs := by
  cases s with
  | entity e =>
      obtain ⟨cs, hcs⟩ := slashed_eq_cons hs.id
      refine ⟨cs ++ FilterSpecs.chars e.filters, ?_⟩
      show e.chars = _
      simp only [EntityStep.chars, Option.map_eq_none_iff.1 h, idChars, hcs, List.cons_append]
  | _ => cases h

/-- No step starts with a slash. -/
lemma head_chars (hs : s.WellShaped) (hrest : StepEnds rest) :
    (s.chars ++ rest).head? ≠ some '/' := by
  cases hleading : s.leading? with
  | some word =>
      obtain ⟨⟨hne, hword⟩, more, htext, -⟩ := chars_of_leading hleading hrest
      rw [htext]
      cases hchars : word.toList with
      | nil => exact absurd (String.toList_eq_nil_iff.1 hchars) hne
      | cons c cs =>
          rw [hchars, List.all_cons, Bool.and_eq_true] at hword
          rintro ⟨⟩
          exact absurd hword.1 (by decide)
  | none =>
      obtain ⟨cs, hcs⟩ := chars_of_not_leading hs hleading
      rw [hcs]
      exact fun h => absurd (Option.some.inj h) (by decide)

/-- A step is not taken for one that starts with other words. -/
lemma misses_of_leading {α : Type} {words : List String} {f : String → Parser α}
    (hs : s.WellShaped) (hrest : StepEnds rest) (h : ∀ word ∈ s.leading?, word ∉ words) :
    (keyword words >>= f).Misses (s.chars ++ rest) := by
  refine .bind ?_
  cases hleading : s.leading? with
  | some word =>
      obtain ⟨hword, more, htext, hmore⟩ := chars_of_leading hleading hrest
      rw [htext]
      exact keyword_misses hword (h word hleading) hmore
  | none =>
      obtain ⟨cs, hcs⟩ := chars_of_not_leading hs hleading
      rw [hcs]
      exact keyword_misses_of_wordEnds (wordEnds_cons (by decide))

/-- **A step is read back**, if what follows it cannot be taken for a part of it. -/
theorem step_reads (hs : s.WellShaped) (hrest : StepEnds rest)
    (hends : ∀ offset, s.EndsAt ⟨offset, rest⟩) :
    step.Reads s.chars rest fun s' => s'.untraced = s.untraced := by
  have hrelationships : (∀ word ∈ s.leading?, word ∉ relationshipWords) →
      relationships.Misses (s.chars ++ rest) := misses_of_leading hs hrest
  have hrecursive : (∀ word ∈ s.leading?, word ∉ ["recursive"]) →
      recursive.Misses (s.chars ++ rest) := misses_of_leading hs hrest
  have hidentical : (∀ word ∈ s.leading?, word ∉ ["identical"]) →
      identical.Misses (s.chars ++ rest) := misses_of_leading hs hrest
  have hcollection : (∀ word ∈ s.leading?, word ∉ collectionWords) →
      collection.Misses (s.chars ++ rest) := misses_of_leading hs hrest
  have htyped : (∀ word ∈ s.leading?, word ∉ RawPath.kindWords) →
      typedEntity.Misses (s.chars ++ rest) := fun h => .bind (misses_of_leading hs hrest h)
  cases s with
  | relationships r => exact .first (relationships_reads hs hrest hends)
  | recursive r =>
      refine .second (hrelationships ?_) <| .first (recursive_reads hs hrest)
      rintro _ ⟨⟩
      decide
  | identical =>
      refine .second (hrelationships (by decide)) <| .second (hrecursive (by decide)) <|
        .first ?_
      exact (keyword_reads (by decide) (by decide) hrest.delimited.wordEnds).map fun _ _ => rfl
  | collection c =>
      have hplural : ∀ {words : List String},
          (∀ k ∈ Kind.all, k.isEntity → k.plural ∉ words) →
            ∀ word ∈ (Step.collection c).leading?, word ∉ words := by
        rintro words hwords _ ⟨⟩
        exact hwords c.kind (Kind.mem_all _) hs.kind
      exact .second (hrelationships (hplural (by decide))) <|
        .second (hrecursive (hplural (by decide))) <| .second (hidentical (hplural (by decide))) <|
          .first (collection_reads hs hrest hends)
  | entity e =>
      have hname : ∀ {words : List String}, (∀ k ∈ Kind.all, k.name ∉ words) →
          ∀ word ∈ (Step.entity e).leading?, word ∉ words := by
        intro words hwords word hword
        obtain ⟨k, -, rfl⟩ := Option.map_eq_some_iff.1 hword
        exact hwords k (Kind.mem_all k)
      refine .second (hrelationships (hname (by decide))) <|
        .second (hrecursive (hname (by decide))) <| .second (hidentical (hname (by decide))) <|
          .second (hcollection (hname (by decide))) ?_
      cases hkind : e.kind with
      | some k => exact .first (typedEntity_reads hs hkind hrest)
      | none =>
          refine .second (htyped fun word hword => ?_) (bareEntity_reads hs hkind hrest)
          rw [Step.leading?, hkind] at hword
          cases hword

/-! ## All steps -/

/-- A step that is not to an untyped entity is recognized by its word. -/
lemma startsStep_chars (hs : s.WellShaped) (htyped : s.isUntyped = false) (hrest : StepEnds rest)
    (offset : Nat) : startsStep ⟨offset, s.chars ++ rest⟩ := by
  cases s with
  | entity e =>
      cases hkind : e.kind with
      | none => simp [Step.isUntyped, hkind] at htyped
      | some k =>
          have hword : IsWord k.name ∧ (Kind.ofWord? k.name).isSome := by cases k <;> decide
          have htext : (Step.entity e).chars ++ rest =
              k.name.toList ++ ';' :: (idChars e.id e.filters ++ rest) := by
            show e.chars ++ rest = _
            simp only [EntityStep.chars, hkind, List.append_assoc, List.cons_append]
          rw [startsStep, htext, word?_append hword.1 (wordEnds_cons (by decide))]
          simp [hword.2]
  | collection c =>
      obtain ⟨hword, more, htext, hmore⟩ := chars_of_leading (s := .collection c) rfl hrest
      have hstart : ∀ k ∈ Kind.all, k.isEntity → isStepWord k.plural := by decide
      rw [startsStep, htext, word?_append hword hmore]
      simp [hstart c.kind (Kind.mem_all _) hs.kind]
  | relationships r =>
      obtain ⟨hword, more, htext, hmore⟩ := chars_of_leading (s := .relationships r) rfl hrest
      rw [startsStep, htext, word?_append hword hmore]
      rfl
  | recursive r =>
      obtain ⟨hword, more, htext, hmore⟩ := chars_of_leading (s := .recursive r) rfl hrest
      rw [startsStep, htext, word?_append hword hmore]
      rfl
  | identical =>
      obtain ⟨hword, more, htext, hmore⟩ := chars_of_leading (s := .identical) rfl hrest
      rw [startsStep, htext, word?_append hword hmore]
      rfl

/-- Nothing is left to take at the end. -/
lemma endsAt_nil (s : Step) (offset : Nat) : s.EndsAt ⟨offset, []⟩ := by
  have hmiss : ∃ e, char '/' ⟨offset, []⟩ = .miss e := char_misses (by decide) offset
  cases s with
  | collection c => exact fun _ => hmiss.imp fun e he => Parser.bind_eq_miss.2 (.inl he)
  | relationships r => exact fun _ => hmiss
  | _ => trivial

/-- **A step that may stand before another one** takes nothing from it. -/
lemma endsAt_of_mayPrecede {t : Step} (h : s.mayPrecede t) (ht : t.WellShaped)
    (hrest : StepEnds rest) (offset : Nat) : s.EndsAt ⟨offset, '/' :: (t.chars ++ rest)⟩ := by
  have hslash : char '/' ⟨offset, '/' :: (t.chars ++ rest)⟩ =
      .done () ⟨offset + '/'.utf8Size, t.chars ++ rest⟩ := char_eq_done.2 ⟨rfl, rfl⟩
  cases s with
  | collection c =>
      intro hid
      have htyped : t.isUntyped = false := by simpa [Step.mayPrecede, hid] using h
      exact ⟨_, by rw [collectionId_of_slash hslash, startsStep_chars ht htyped hrest, if_pos rfl]⟩
  | relationships r =>
      intro hselector
      simp [Step.mayPrecede, hselector] at h
  | _ => trivial

variable {ts : List (Spanned Step)}

/-- The steps behind the first one, each with its slash. -/
def othersChars (ts : List (Spanned Step)) : List Char :=
  ts.flatMap fun t => '/' :: t.value.chars

lemma stepEnds_othersChars (ts : List (Spanned Step)) : StepEnds (othersChars ts) := by
  cases ts with
  | nil => exact nofun
  | cons t ts => rintro _ ⟨⟩; rfl

/-- A step is read back in front of the others. -/
lemma step_reads_before {s : Spanned Step} (hs : s.value.WellShaped)
    (hts : ∀ t ∈ ts, t.value.WellShaped)
    (horder : (s :: ts).IsChain fun s next => s.value.mayPrecede next.value) :
    step.Reads s.value.chars (othersChars ts) fun s' => s'.untraced = s.value.untraced := by
  refine step_reads hs (stepEnds_othersChars ts) fun offset => ?_
  cases ts with
  | nil => exact endsAt_nil s.value offset
  | cons t ts =>
      rw [List.isChain_cons_cons] at horder
      exact endsAt_of_mayPrecede horder.1 (hts t List.mem_cons_self)
        (stepEnds_othersChars ts) offset

/-- **The steps behind the first one are read back.** -/
lemma others_reads (hts : ∀ t ∈ ts, t.value.WellShaped)
    (horder : ts.IsChain fun s next => s.value.mayPrecede next.value) :
    Parser.Reads (Parser.many do
      char '/'
      (Parser.spanned step).commit) (othersChars ts) []
        (List.Forall₂ (fun t t' => t'.value.untraced = t.value.untraced) ts) := by
  refine .many (.bind (char_misses (by decide))) (fun _ _ => List.cons_ne_nil _ _) ?_
  rintro before t after rfl
  rw [List.append_nil]
  rw [List.forall_mem_append, List.forall_mem_cons] at hts
  exact .char_bind
    (step_reads_before hts.2.1 hts.2.2 horder.right_of_append).spanned.commit

lemma finished_reads : finished.Reads [] [] fun _ => True := fun offset =>
  ⟨(), offset, rfl, trivial⟩

/-- No traversal is read if something is left behind its first step that is no other step. -/
lemma traversal_misses {cs : List Char} {P : Step → Prop} (h : step.Reads cs rest P)
    (hhead : (cs ++ rest).head? ≠ some '/') (hrest : rest ≠ []) (hslash : rest.head? ≠ some '/') :
    traversal.Misses (cs ++ rest) := by
  have hfinished : finished.Misses rest := fun offset => by
    refine ⟨.either [.leaf offset (.text "/"), .leaf offset .endOfInput], ?_⟩
    rw [finished, Cursor.atEnd, List.isEmpty_eq_false_iff.2 hrest]
    rfl
  refine .after_nil (.absent (char_misses hhead)) fun _ _ => ?_
  refine .after h.spanned.commit fun _ _ => ?_
  exact .after_nil (.many_nil (.bind (char_misses hslash))) fun _ _ => .bind hfinished

/-- A traversal of one step is read from what the step is read from. -/
lemma traversal_reads_single {cs : List Char} {P : Step → Prop} (h : step.Reads cs [] P)
    (hhead : cs.head? ≠ some '/') :
    traversal.Reads cs [] fun t => ∃ s : Spanned Step, t = ⟨false, [s]⟩ ∧ P s.value := by
  rw [← List.append_nil cs] at hhead
  refine .bind_nil (.absent (char_misses hhead)) ?_
  rintro _ rfl
  refine .bind_last h.spanned.commit fun s hs => ?_
  refine .bind_nil (.many_nil (.bind (char_misses (by decide)))) ?_
  rintro _ rfl
  exact finished_reads.map fun _ _ => ⟨s, rfl, hs⟩

/-- **A traversal is read back** from its text. -/
theorem traversal_reads {t : Traversal} (h : t.WellShaped) :
    traversal.Reads t.chars [] fun t' => t'.untraced = t.untraced := by
  obtain ⟨s, ts, hsteps⟩ := List.exists_cons_of_ne_nil h.nonempty
  have hshapes := h.steps
  have horder := h.order
  rw [hsteps, List.forall_mem_cons] at hshapes
  rw [hsteps] at horder
  have hchars : joined '/' (t.steps.map (·.value.chars)) = s.value.chars ++ othersChars ts := by
    rw [hsteps, List.map_cons, joined, List.flatMap_map, othersChars]
  have hread : ∀ absolute : Option Unit, absolute.isSome = t.absolute → (do
      let first ← (Parser.spanned step).commit
      let others ← Parser.many do
        char '/'
        (Parser.spanned step).commit
      finished
      pure ⟨absolute.isSome, first :: others⟩ : Parser Traversal).Reads
        (s.value.chars ++ othersChars ts) [] fun t' => t'.untraced = t.untraced := by
    intro absolute habsolute
    have hfirst := (step_reads_before hshapes.1 hshapes.2 horder).spanned.commit
    rw [← List.append_nil (othersChars ts)] at hfirst
    refine .bind hfirst fun s' hs' => ?_
    refine .bind_last (others_reads hshapes.2 horder.tail) fun ts' hts' => ?_
    refine finished_reads.map fun _ _ => ?_
    rw [Traversal.untraced, Traversal.untraced, hsteps, habsolute, List.map_cons, List.map_cons,
      hs']
    congr 2
    exact (map_eq_map_iff.2 (hts'.imp fun _ _ hsame => by rw [hsame])).symm
  rw [Traversal.chars, hchars]
  cases habsolute : t.absolute with
  | true =>
      refine .bind_cons (char_reads '/' _).present ?_
      rintro _ ⟨_, rfl, -⟩
      exact hread _ habsolute.symm
  | false =>
      have hhead := head_chars (s := s.value) hshapes.1 (stepEnds_othersChars ts)
      rw [← List.append_nil (othersChars ts), ← List.append_assoc] at hhead
      refine .bind_nil (.absent (char_misses hhead)) ?_
      rintro _ rfl
      exact hread _ habsolute.symm

end Grammar

namespace Traversal

/-- **A traversal can be written down exactly if it has the right shape.**  Its text is read as the
same traversal, apart from places, and whatever is read from any text has the shape. -/
theorem parse_image :
    (∀ t : Traversal, t.WellShaped →
      ∃ t', parse t.text = .ok t' ∧ t'.untraced = t.untraced) ∧
    ∀ text t, parse text = .ok t → t.WellShaped := by
  refine ⟨fun t ht => ?_, fun text t h => wellShaped_of_parse h⟩
  obtain ⟨t', offset, hread, hsame⟩ := Grammar.traversal_reads ht 0
  refine ⟨t', ?_, hsame⟩
  rw [List.append_nil] at hread
  rw [parse, Cursor.start, text, String.toList_ofList, hread]
  rfl

/-- A traversal whose ids and names are words of the grammar. -/
def keywordsAsNames : Traversal where
  absolute := true
  steps := List.map .nowhere [
    .collection ⟨.tenant, false, [], none, []⟩,
    .entity ⟨some .relationship, "identical",
      [.nowhere ⟨.type, ["a\"b\\", "]"]⟩, .nowhere ⟨.definedBy, [""]⟩]⟩,
    .collection ⟨.resource, true, [.nowhere ⟨.id, ["1", "2"]⟩], some (.nowhere "tenants"),
      [.nowhere ⟨.name, ["x"]⟩]⟩,
    .recursive ⟨"out", .both, [.nowhere ⟨.path, ["/t;a"]⟩]⟩,
    .identical,
    .relationships ⟨some "in", .outgoing, [.nowhere ⟨.sourceType, ["r"]⟩],
      some (.nowhere (.entities [.nowhere ⟨.relatedBy, ["owns"]⟩]))⟩,
    .entity ⟨none, "t;/", []⟩,
    .relationships ⟨none, .incoming, [], none⟩]

/-- Nothing in it is taken for a word of the grammar. -/
theorem keywordsAsNames_read :
    keywordsAsNames.WellShaped ∧
      ∃ t', parse keywordsAsNames.text = .ok t' ∧ t'.untraced = keywordsAsNames :=
  have hshape : keywordsAsNames.WellShaped := by decide +kernel
  ⟨hshape, parse_image.1 keywordsAsNames hshape⟩

end Traversal

end Estate
