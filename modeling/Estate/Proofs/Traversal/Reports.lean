import Estate.Proofs.Parse.Failures
import Estate.Proofs.Path.Spelled
import Estate.Traversal.Grammar

/-!
# Where complaints about paths and traversals point

Every rule of both grammars proceeds: what it reads and what it complains about lies ahead of the
place where it started.  So whatever text cannot be read, the one report about it points at a
character of the text, behind the place where reading started, or at the end.

* `RawPath.path_proceeds`, `Grammar.traversal_proceeds` — both grammars proceed.
* **`Traversal.reports_wellPlaced`** — all reports are well placed.
-/

namespace Estate

open Parse Text

namespace RawPath

/-! ## Paths -/

lemma kindWord_proceeds : kindWord.Proceeds :=
  (keyword_proceeds (by decide)).bind fun word => by
    cases Kind.ofWord? word with
    | some kind => exact .pure kind
    | none => exact .expected _

lemma segmentId_proceeds : segmentId.Proceeds := escapedText_proceeds _ _

lemma down_proceeds : down.Proceeds :=
  .bind (.optional (kindWord_proceeds.bind fun _ => (char_proceeds _).bind fun _ => .pure _))
    fun _ => segmentId_proceeds.bind fun _ => .pure _

/-- A climb reads two dots. -/
lemma climb?_leads {c d : Cursor} (h : climb? c = some d) : c.Leads d := by
  obtain ⟨hrest, hoffset, -⟩ := climb?_eq_some_iff.1 h
  exact ⟨['.', '.'], hrest, hoffset⟩

lemma step_proceeds : step.Proceeds := fun c => by
  rw [step]
  cases hclimb : climb? c with
  | some d => exact .done (climb?_leads hclimb)
  | none => exact down_proceeds c

lemma afterSlash_proceeds (absolute : Bool) : (afterSlash absolute).Proceeds := fun c => by
  rw [afterSlash]
  split
  · exact .done .refl
  · exact (Parser.Proceeds.sepToEnd (char_proceeds _) step_proceeds c).map

/-- **A path proceeds.** -/
lemma path_proceeds : path.Proceeds := fun ⟨offset, rest⟩ => by
  by_cases hdot : rest = ['.']
  · rw [path, if_pos hdot]
    exact .done ⟨['.'], hdot, rfl⟩
  by_cases hslash : rest.head? = some '/'
  · obtain ⟨rest, rfl⟩ := List.head?_eq_some_iff.1 hslash
    rw [path_absolute]
    exact (afterSlash_proceeds true _).of_leads (.cons offset '/' rest)
  · rw [path_relative hdot hslash]
    exact afterSlash_proceeds false _

end RawPath

namespace Grammar

/-! ## Filters -/

lemma value_proceeds : value.Proceeds :=
  .orElse (quotedText_proceeds _ _ _) <| .orElse (quotedText_proceeds _ _ _)
    (escapedText_proceeds _ _)

lemma filterKey_proceeds (context : FilterContext) : (filterKey context).Proceeds := by
  have hwords : context.keys.map FilterKey.word ≠ [] := by
    cases context <;> exact List.cons_ne_nil _ _
  refine (keyword_proceeds hwords).bind fun word => ?_
  cases FilterKey.ofWord? word with
  | some key => exact .pure key
  | none => exact .expected _

lemma filterSpec_proceeds (context : FilterContext) : (filterSpec context).Proceeds :=
  .spanned <| (filterKey_proceeds context).bind fun _ => (char_proceeds _).commit.bind fun _ =>
    (Parser.Proceeds.sepBy1 (char_proceeds _) value_proceeds).commit.bind fun _ => .pure _

lemma bracket_proceeds (context : FilterContext) : (bracket context).Proceeds :=
  (char_proceeds _).bind fun _ => .commit <|
    (Parser.Proceeds.sepBy1 (char_proceeds _) (filterSpec_proceeds context)).bind fun _ =>
      (char_proceeds _).bind fun _ => .pure _

lemma filters_proceeds (context : FilterContext) : (filters context).Proceeds :=
  (Parser.Proceeds.many (bracket_proceeds context)).bind fun _ => .pure _

/-! ## Steps -/

lemma id_proceeds : id.Proceeds := escapedText_proceeds _ _

lemma typedEntity_proceeds : typedEntity.Proceeds :=
  RawPath.kindWord_proceeds.bind fun _ => (char_proceeds _).bind fun _ =>
    id_proceeds.commit.bind fun _ => (filters_proceeds _).bind fun _ => .pure _

lemma bareEntity_proceeds : bareEntity.Proceeds :=
  id_proceeds.bind fun _ => (filters_proceeds _).bind fun _ => .pure _

lemma collectionId_proceeds : collectionId.Proceeds := by
  refine (char_proceeds _).bind fun _ => .bind (fun c => ?_) fun _ =>
    id_proceeds.spanned.bind fun _ => (filters_proceeds _).bind fun _ => .pure _
  -- Looking ahead reads nothing, and complains here.
  split
  · exact .here _
  · exact .done .refl

lemma collection_proceeds : collection.Proceeds := by
  refine (keyword_proceeds (by decide)).bind fun word => ?_
  cases Kind.ofPlural? word with
  | none => exact .expected _
  | some kind =>
      have hflag := ((char_proceeds ';').bind fun _ =>
        (keyword_proceeds (List.cons_ne_nil "recursive" [])).commit).optional
      exact hflag.bind fun _ => (filters_proceeds _).bind fun _ =>
        collectionId_proceeds.optional.bind fun _ => .pure _

lemma direction_proceeds : direction.Proceeds :=
  (keyword_proceeds (List.cons_ne_nil _ _)).bind fun word => by
    cases Direction.ofName? word with
    | some d => exact .pure d
    | none => exact .expected _

lemma clauses_proceeds {name : Parser String} (hname : name.Proceeds) (directionFirst : Bool) :
    (clauses name directionFirst).Proceeds := by
  have hnamed : (do
      let name ← name
      pure (some name, none) : Parser (Option String × Option Direction)).Proceeds :=
    hname.bind fun _ => .pure _
  have hdirected : (do
      let d ← direction
      pure (none, some d) : Parser (Option String × Option Direction)).Proceeds :=
    direction_proceeds.bind fun _ => .pure _
  refine (char_proceeds _).optional.bind fun semicolon => ?_
  split
  · exact .pure _
  · refine .bind (.commit ?_) fun first => ?_
    · split
      · exact hdirected.orElse hnamed
      · exact hnamed.orElse hdirected
    · split
      · exact ((char_proceeds _).bind fun _ => direction_proceeds.commit).optional.bind
          fun _ => .pure _
      · exact .pure _

lemma selector_proceeds : selector.Proceeds := by
  refine (keyword_proceeds (List.cons_ne_nil _ _)).bind fun word => ?_
  split
  · exact (filters_proceeds _).bind fun _ => .pure _
  · exact (filters_proceeds _).bind fun _ => .pure _

lemma relationships_proceeds : relationships.Proceeds :=
  (keyword_proceeds (List.cons_ne_nil _ _)).bind fun _ =>
    (clauses_proceeds (escapedText_proceeds _ _) true).bind fun _ =>
      (filters_proceeds _).bind fun _ =>
        ((char_proceeds _).bind fun _ => selector_proceeds.spanned.commit).optional.bind
          fun _ => .pure _

lemma relationClause_proceeds : relationClause.Proceeds :=
  (keyword_proceeds (List.cons_ne_nil _ _)).bind fun _ => (char_proceeds _).commit.bind fun _ =>
    (escapedText_proceeds _ _).commit

lemma recursive_proceeds : recursive.Proceeds :=
  (keyword_proceeds (List.cons_ne_nil _ _)).bind fun _ =>
    (clauses_proceeds relationClause_proceeds false).bind fun _ =>
      (filters_proceeds _).bind fun _ => .pure _

lemma identical_proceeds : identical.Proceeds :=
  (keyword_proceeds (List.cons_ne_nil _ _)).bind fun _ => .pure _

lemma step_proceeds : step.Proceeds :=
  .orElse relationships_proceeds <| .orElse recursive_proceeds <| .orElse identical_proceeds <|
    .orElse collection_proceeds <| .orElse typedEntity_proceeds bareEntity_proceeds

/-! ## Whole traversals -/

/-- What is left at the end of a traversal is complained about. -/
lemma finished_proceeds : finished.Proceeds := fun c => by
  rw [finished]
  split
  · exact .done .refl
  · refine .miss (.either (List.cons_ne_nil _ _) ?_)
    exact List.forall_mem_cons.2 ⟨.leaf .refl _, List.forall_mem_singleton.2 (.leaf .refl _)⟩

/-- **A traversal proceeds.** -/
lemma traversal_proceeds : traversal.Proceeds :=
  (char_proceeds _).optional.bind fun _ => step_proceeds.spanned.commit.bind fun _ =>
    .bind (.many ((char_proceeds _).bind fun _ => step_proceeds.spanned.commit)) fun _ =>
      finished_proceeds.bind fun _ => .pure _

end Grammar

/-! ## Reports -/

/-- **Where reading really starts**: at the end, if the text is shorter, and from the beginning, if
the offset falls inside a character. -/
def effectiveStart (text : String) (k : Nat) : Nat :=
  if byteLength text.toList ≤ k then byteLength text.toList
  else if Boundary text k then k else 0

lemma at_offset (text : String) (k : Nat) : (Cursor.at text k).offset = effectiveStart text k := by
  rw [Cursor.at, effectiveStart]
  split
  · rfl
  · cases hdrop : dropBytes? text.toList k with
    | none => exact (if_neg (show ¬ Boundary text k by rw [Boundary, hdrop]; decide)).symm
    | some rest => exact (if_pos (show Boundary text k by rw [Boundary, hdrop]; rfl)).symm

/-- **All reports are well placed.**  If a traversal or a path cannot be read from a text, there is
one report about it, and it points at a character of the text behind the place where reading
started, or at the end. -/
theorem Traversal.reports_wellPlaced :
    (∀ text k errors, parseAt text k = .error errors →
      ∃ r, errors = ⟨text, [r]⟩ ∧ r.WellPlaced text (effectiveStart text k)) ∧
    (∀ text errors, parse text = .error errors →
      ∃ r, errors = ⟨text, [r]⟩ ∧ r.WellPlaced text 0) ∧
    ∀ text errors, RawPath.parse text = .error errors →
      ∃ r, errors = ⟨text, [r]⟩ ∧ r.WellPlaced text 0 := by
  refine ⟨fun text k errors h => ?_, fun text errors h => ?_, fun text errors h => ?_⟩
  · rw [← at_offset]
    exact Grammar.traversal_proceeds.wellPlaced (Cursor.leads_at text k) h
  · exact Grammar.traversal_proceeds.wellPlaced .refl h
  · exact RawPath.path_proceeds.wellPlaced .refl h

/-- An open quote behind characters of two bytes, read from the inside of one of them; a key that
no filter has; and an id that is missing. -/
theorem openQuote_placed :
    let unclosed : Report := ⟨"unexpected input", 11, "end of input", ["closing quote"]⟩
    let key : Report := ⟨"unexpected input", 5, "sourceTypo",
      ["id", "name", "propertyName", "propertyValue", "sourceType", "targetType", "type"]⟩
    let missing : Report := ⟨"unexpected input", 5, "/", ["id"]⟩
    (Traversal.parseAt "ü/x[id='ß" 1 = .error ⟨"ü/x[id='ß", [unclosed]⟩ ∧
      unclosed.WellPlaced "ü/x[id='ß" (effectiveStart "ü/x[id='ß" 1)) ∧
    (Traversal.parse "x/rl[sourceTypo=r]" = .error ⟨"x/rl[sourceTypo=r]", [key]⟩ ∧
      key.WellPlaced "x/rl[sourceTypo=r]" 0) ∧
    RawPath.parse "/t;a//" = .error ⟨"/t;a//", [missing]⟩ ∧ missing.WellPlaced "/t;a//" 0 := by
  intro unclosed key missing
  obtain ⟨hparseAt, hparse, hpath⟩ := Traversal.reports_wellPlaced
  have hunclosed : Traversal.parseAt "ü/x[id='ß" 1 = .error ⟨"ü/x[id='ß", [unclosed]⟩ := by
    decide +kernel
  have hkey : Traversal.parse "x/rl[sourceTypo=r]" = .error ⟨"x/rl[sourceTypo=r]", [key]⟩ := by
    decide +kernel
  have hmissing : RawPath.parse "/t;a//" = .error ⟨"/t;a//", [missing]⟩ := by decide +kernel
  obtain ⟨_, ⟨⟩, hplaced⟩ := hparseAt _ _ _ hunclosed
  obtain ⟨_, ⟨⟩, hplaced'⟩ := hparse _ _ hkey
  obtain ⟨_, ⟨⟩, hplaced''⟩ := hpath _ _ hmissing
  exact ⟨⟨hunclosed, hplaced⟩, ⟨hkey, hplaced'⟩, hmissing, hplaced''⟩

end Estate
