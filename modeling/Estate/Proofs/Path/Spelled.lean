import Estate.Path.Raw
import Estate.Proofs.Parse.Reading

/-!
# How path texts are spelled

A path text is made of steps with slashes between them, and a slash in front if it is absolute.  A
step is `..`, or an id that may have a word for its kind before it.  In an id a backslash may stand
before any character, and it has to stand before those that mean something in a path.

* `Spells` — the spellings of an id.
* `RawStep.Spelled` — the spellings of a step.
* **`RawPath.parse_eq_ok_iff`** — a text is taken apart into steps exactly if it is spelled like
  them.  The one exception is a dot alone, which has no steps.
-/

namespace Estate

open Parse Text

/-! ## Ids -/

/-- **The spellings of an id**, with or without backslashes where they are not needed. -/
inductive Spells : List Char → List Char → Prop
  | nil : Spells [] []
  | plain {c id cs} (plain : Segment.isSpecial c = false) (rest : Spells id cs) :
      Spells (c :: id) (c :: cs)
  | escaped {c id cs} (rest : Spells id cs) : Spells (c :: id) ('\\' :: c :: cs)

/-- What may follow a segment: nothing, or the slash before the next one. -/
def Chain.Stops (rest : List Char) : Prop :=
  rest = [] ∨ ∃ more, rest = '/' :: more

lemma Chain.Stops.escapeEnds {stops rest : List Char} (hrest : Chain.Stops rest)
    (hslash : '/' ∈ stops) : EscapeEnds stops rest := by
  rcases hrest with rfl | ⟨more, rfl⟩
  · exact escapeEnds_nil
  · rintro _ ⟨⟩
    exact ⟨hslash, by decide⟩

/-- The characters with a meaning in a path are the backslash and those that end an id. -/
lemma isSpecial_iff {c : Char} : Segment.isSpecial c ↔ c = '\\' ∨ c ∈ ['/', ';'] := by
  simp [Segment.isSpecial, or_assoc]

section Ids

variable {id cs rest : List Char}

/-- A spelling is a way to write an id that ends at a slash or a semicolon. -/
lemma Spells.writes (h : Spells id cs) : Writes ['/', ';'] id cs := by
  induction h with
  | nil => exact .nil
  | plain plain _ ih =>
      rw [← Bool.not_eq_true, isSpecial_iff, not_or] at plain
      exact .plain plain ih
  | escaped _ ih => exact .escaped ih

/-- The spelling of an id is read as the id. -/
lemma Spells.read (h : Spells id cs) (hrest : EscapeEnds ['/', ';'] rest) (offset : Nat) :
    unescapeUntil ['/', ';'].contains offset (cs ++ rest) =
      some (id, ⟨offset + byteLength cs, rest⟩) :=
  h.writes.read hrest offset

/-- What is read as an id is a spelling of it. -/
lemma spells_of_read {offset : Nat} {text : List Char} {c : Cursor}
    (h : unescapeUntil ['/', ';'].contains offset text = some (id, c)) :
    ∃ cs, text = cs ++ c.rest ∧ Spells id cs := by
  fun_induction unescapeUntil ['/', ';'].contains offset text generalizing id with
  | case1 offset =>
      cases h
      exact ⟨[], rfl, .nil⟩
  | case2 => cases h
  | case3 offset d rest ih =>
      simp only [Option.map_eq_some_iff] at h
      obtain ⟨⟨id, after⟩, hread, ⟨⟩⟩ := h
      obtain ⟨cs, rfl, hcs⟩ := ih hread
      exact ⟨'\\' :: d :: cs, rfl, .escaped hcs⟩
  | case4 offset d rest =>
      cases h
      exact ⟨[], rfl, .nil⟩
  | case5 offset d rest hlone hescape hstop ih =>
      simp only [Option.map_eq_some_iff] at h
      obtain ⟨⟨id, after⟩, hread, ⟨⟩⟩ := h
      obtain ⟨cs, rfl, hcs⟩ := ih hread
      refine ⟨d :: cs, rfl, .plain ?_ hcs⟩
      rw [← Bool.not_eq_true, isSpecial_iff, not_or]
      refine ⟨?_, mt List.contains_iff_mem.2 hstop⟩
      rintro rfl
      cases hrest : cs ++ after.rest with
      | nil => exact hlone rfl hrest
      | cons e more => exact hescape e more rfl hrest

end Ids

/-! ## Steps -/

/-- **The spellings of a step.**  Before an id there may be the code or the name of its kind. -/
inductive RawStep.Spelled : RawStep → List Char → Prop
  | up : Spelled .up ['.', '.']
  | untyped {id cs} (ne : id ≠ "") (spelled : Spells id.toList cs) (not_up : cs ≠ ['.', '.']) :
      Spelled (.down none id) cs
  | typed {word kind id cs} (names : Kind.ofWord? word = some kind) (ne : id ≠ "")
      (spelled : Spells id.toList cs) : Spelled (.down (some kind) id) (word.toList ++ ';' :: cs)

/-- The words for a kind are its code and its name. -/
lemma Kind.eq_of_ofWord? {word : String} {k : Kind} (h : Kind.ofWord? word = some k) :
    word = k.code ∨ word = k.name := by
  have hspelled : k.code = word ∨ k.name = word := by
    rw [Kind.ofWord?, Option.orElse_eq_orElse, Option.orElse_eq_or, Option.or_eq_some_iff] at h
    rcases h with h | ⟨-, h⟩
    · exact Or.inl (by simpa using List.find?_some h)
    · exact Or.inr (by simpa using List.find?_some h)
  exact hspelled.imp Eq.symm Eq.symm

lemma Kind.isWord_of_ofWord? {word : String} {k : Kind} (h : Kind.ofWord? word = some k) :
    IsWord word := by
  rcases Kind.eq_of_ofWord? h with rfl | rfl <;> cases k <;> decide

/-- A spelling is not empty and does not begin with a slash. -/
lemma RawStep.Spelled.exists_cons {s : RawStep} {cs : List Char} (h : s.Spelled cs) :
    ∃ c cs', cs = c :: cs' ∧ c ≠ '/' := by
  cases h with
  | up => exact ⟨'.', ['.'], rfl, by decide⟩
  | @untyped id cs ne spelled =>
      cases hid : id.toList with
      | nil => exact absurd (String.toList_eq_nil_iff.1 hid) ne
      | cons c rest =>
          rw [hid] at spelled
          cases spelled with
          | plain plain => exact ⟨_, _, rfl, by rintro rfl; cases plain⟩
          | escaped => exact ⟨_, _, rfl, by decide⟩
  | @typed word kind id cs names =>
      rcases Kind.eq_of_ofWord? names with rfl | rfl <;> cases kind <;>
        exact ⟨_, _, rfl, by decide⟩

namespace RawPath

variable {rest : List Char} {word : String} {k : Kind} {c c' : Cursor}

lemma mem_kindWords (h : Kind.ofWord? word = some k) : word ∈ kindWords := by
  simp only [kindWords, List.mem_flatMap, List.mem_cons, List.not_mem_nil, or_false]
  exact ⟨k, Kind.mem_all k, Kind.eq_of_ofWord? h⟩

/-- A word for a kind is read as the kind. -/
lemma kindWord_reads (h : Kind.ofWord? word = some k) (hrest : WordEnds rest) :
    kindWord.Reads word.toList rest (· = k) := by
  refine .bind_last (keyword_reads (Kind.isWord_of_ofWord? h) (mem_kindWords h) hrest) ?_
  rintro _ rfl
  simp only [h]
  exact .pure rfl

/-- What stands before an id with a type. -/
def typeBefore : Parser Kind := do
  let kind ← kindWord
  char ';'
  pure kind

lemma down_eq : down = (do
    let kind ← typeBefore.optional
    let id ← segmentId
    pure (.down kind id)) := rfl

/-- No semicolon stands behind the first word of an id. -/
lemma head?_dropWhile_spelled {id cs : List Char} (h : Spells id cs) (hrest : Chain.Stops rest) :
    ((cs ++ rest).dropWhile isWordChar).head? ≠ some ';' := by
  refine h.writes.head?_dropWhile ?_ (by decide) (by decide) ?_
  · rcases hrest with rfl | ⟨more, rfl⟩
    · exact nofun
    · exact wordEnds_cons (by decide)
  · rcases hrest with rfl | ⟨more, rfl⟩ <;> exact nofun

/-- A word for a kind is read, or there is none. -/
lemma kindWord_spec (c : Cursor) : (∃ e, kindWord c = .miss e) ∨
    ∃ word k d, Kind.ofWord? word = some k ∧ kindWord c = .done k d ∧
      c.rest = word.toList ++ d.rest ∧ d.rest = c.rest.dropWhile isWordChar := by
  cases hkeyword : keyword kindWords c with
  | miss e => exact Or.inl ⟨e, Parser.bind_eq_miss.2 (.inl hkeyword)⟩
  | fatal e =>
      rw [keyword] at hkeyword
      split at hkeyword
      · split at hkeyword <;> cases hkeyword
      · cases hkeyword
  | done word d =>
      rw [kindWord, Parser.bind_done hkeyword]
      cases hnames : Kind.ofWord? word with
      | none => exact Or.inl ⟨_, rfl⟩
      | some k =>
          refine Or.inr ⟨word, k, d, hnames, rfl, ?_⟩
          have hword := (keyword_eq_done.1 hkeyword).1
          rw [word?] at hword
          split at hword
          · cases hword
          · obtain ⟨rfl, rfl⟩ := Prod.mk.inj (Option.some.inj hword)
            rw [String.toList_ofList]
            exact ⟨(List.takeWhile_append_dropWhile ..).symm, rfl⟩

/-- No type stands before an id that has none. -/
lemma typeBefore_misses {id cs : List Char} (h : Spells id cs) (hrest : Chain.Stops rest) :
    typeBefore.Misses (cs ++ rest) := fun offset => by
  rcases kindWord_spec ⟨offset, cs ++ rest⟩ with ⟨e, he⟩ | ⟨_, k, d, -, hkind, -, hafter⟩
  · exact ⟨e, Parser.bind_eq_miss.2 (.inl he)⟩
  · have hhead : d.rest.head? ≠ some ';' := hafter ▸ head?_dropWhile_spelled h hrest
    obtain ⟨e, he⟩ := char_misses hhead d.offset
    exact ⟨e, Parser.bind_eq_miss.2 (.inr ⟨k, d, hkind, Parser.bind_eq_miss.2 (.inl he)⟩)⟩

/-- What is read as a type is a word for a kind and a semicolon. -/
lemma typeBefore_done (h : typeBefore c = .done k c') :
    ∃ word, Kind.ofWord? word = some k ∧ c.rest = word.toList ++ ';' :: c'.rest := by
  obtain ⟨k', d, hkind, h⟩ := Parser.bind_eq_done.1 h
  obtain ⟨_, e, hsemicolon, h⟩ := Parser.bind_eq_done.1 h
  obtain ⟨rfl, rfl⟩ := Parser.pure_eq_done.1 h
  rcases kindWord_spec c with ⟨e, he⟩ | ⟨word, k, d', hnames, hkind', hword, -⟩
  · cases he.symm.trans hkind
  · obtain ⟨rfl, rfl⟩ := Reply.done.inj (hkind'.symm.trans hkind)
    exact ⟨word, hnames, by rw [hword, (char_eq_done.1 hsemicolon).1]⟩

lemma segmentId_reads {id : String} {cs : List Char} (hne : id ≠ "") (h : Spells id.toList cs)
    (hrest : Chain.Stops rest) : segmentId.Reads cs rest (· = id) :=
  h.writes.text_reads hne (hrest.escapeEnds (by decide))

lemma segmentId_done {id : String} (h : segmentId c = .done id c') :
    id ≠ "" ∧ ∃ cs, c.rest = cs ++ c'.rest ∧ Spells id.toList cs := by
  refine ⟨escapedText_yields _ _ _ _ _ h, ?_⟩
  obtain ⟨d, ds, hread, rfl⟩ := escapedText_eq_done h
  rw [String.toList_ofList]
  exact spells_of_read hread

/-- A climb is two dots that end there. -/
lemma climb?_eq_some_iff : climb? c = some c' ↔
    c.rest = '.' :: '.' :: c'.rest ∧ c'.offset = c.offset + 2 ∧ Chain.Stops c'.rest := by
  obtain ⟨offset, text⟩ := c
  obtain ⟨offset', rest⟩ := c'
  constructor
  · intro h
    rw [climb?] at h
    split at h
    · next htext =>
        cases h
        exact ⟨htext, rfl, .inl rfl⟩
    · next more htext =>
        cases h
        exact ⟨htext, rfl, .inr ⟨more, rfl⟩⟩
    · cases h
  · rintro ⟨htext, hoffset, hstops⟩
    dsimp only at htext hoffset hstops
    subst htext hoffset
    rcases hstops with rfl | ⟨more, rfl⟩ <;> rfl

/-- **A step is read from its spelling.** -/
lemma step_reads {s : RawStep} {cs : List Char} (h : s.Spelled cs) (hrest : Chain.Stops rest) :
    step.Reads cs rest (· = s) := fun offset => by
  cases h with
  | up => rcases hrest with rfl | ⟨more, rfl⟩ <;> exact ⟨_, _, rfl, rfl⟩
  | @untyped id cs ne spelled not_up =>
      have hclimb : climb? ⟨offset, cs ++ rest⟩ = none := by
        by_contra hsome
        obtain ⟨d, hd⟩ := Option.ne_none_iff_exists'.1 hsome
        obtain ⟨htext, -, hstops⟩ := climb?_eq_some_iff.1 hd
        -- Two dots are an id as well, which is read up to the same place.
        have hdots : Spells ['.', '.'] ['.', '.'] := .plain rfl (.plain rfl .nil)
        have hread := spelled.read (hrest.escapeEnds (by decide)) 0
        rw [show cs ++ rest = ['.', '.'] ++ d.rest from htext,
          hdots.read (hstops.escapeEnds (by decide)) 0] at hread
        obtain ⟨-, hcursor⟩ := Prod.mk.inj (Option.some.inj hread)
        rw [(Cursor.mk.inj hcursor).2] at htext
        exact not_up (List.append_cancel_right htext)
      have hdown : down.Reads cs rest (· = .down none id) := by
        rw [down_eq]
        refine .bind_nil (.absent (typeBefore_misses spelled hrest)) ?_
        rintro _ rfl
        exact (segmentId_reads ne spelled hrest).map fun _ h => by rw [h]
      simpa only [step, hclimb] using hdown offset
  | @typed word kind id cs names ne spelled =>
      have hclimb : climb? ⟨offset, word.toList ++ ';' :: cs ++ rest⟩ = none := by
        rcases Kind.eq_of_ofWord? names with rfl | rfl <;> cases kind <;> rfl
      have htype : typeBefore.Reads (word.toList ++ [';']) (cs ++ rest) (· = kind) := by
        refine .bind (kindWord_reads names (wordEnds_cons (by decide))) ?_
        rintro _ rfl
        exact .char_bind (.pure rfl)
      have hdown : down.Reads (word.toList ++ [';'] ++ cs) rest (· = .down (some kind) id) := by
        rw [down_eq]
        refine .bind htype.present ?_
        rintro _ ⟨_, rfl, rfl⟩
        exact (segmentId_reads ne spelled hrest).map fun _ h => by rw [h]
      rw [List.append_assoc, List.singleton_append] at hdown
      simpa only [step, hclimb] using hdown offset

/-- What is read as a step is a spelling of it. -/
lemma step_done {s : RawStep} (h : step c = .done s c') (hstops : Chain.Stops c'.rest) :
    ∃ cs, c.rest = cs ++ c'.rest ∧ s.Spelled cs := by
  rw [step] at h
  cases hclimb : climb? c with
  | some d =>
      rw [hclimb] at h
      cases h
      exact ⟨['.', '.'], (climb?_eq_some_iff.1 hclimb).1, .up⟩
  | none =>
      rw [hclimb, down_eq] at h
      obtain ⟨label, d, hlabel, h⟩ := Parser.bind_eq_done.1 h
      obtain ⟨id, e, hid, h⟩ := Parser.bind_eq_done.1 h
      obtain ⟨rfl, rfl⟩ := Parser.pure_eq_done.1 h
      obtain ⟨hne, cs, hcs, hspells⟩ := segmentId_done hid
      rcases Parser.optional_eq_done.1 hlabel with ⟨k, rfl, htype⟩ | ⟨rfl, rfl, -⟩
      · obtain ⟨word, hnames, hword⟩ := typeBefore_done htype
        refine ⟨word.toList ++ ';' :: cs, ?_, .typed hnames hne hspells⟩
        rw [hword, hcs, List.append_assoc, List.cons_append]
      · refine ⟨cs, hcs, .untyped hne hspells ?_⟩
        rintro rfl
        have hsome : climb? d = some ⟨d.offset + 2, e.rest⟩ :=
          climb?_eq_some_iff.2 ⟨hcs, rfl, hstops⟩
        cases hclimb.symm.trans hsome

/-! ## Texts -/

/-- The characters of a path text with these steps. -/
def chars (absolute : Bool) (chunks : List (List Char)) : List Char :=
  if absolute then '/' :: joined '/' chunks else joined '/' chunks

/-- **Steps are read from their spellings.** -/
lemma sepToEnd_reads {steps : List RawStep} {chunks : List (List Char)}
    (h : List.Forall₂ RawStep.Spelled steps chunks) (hne : chunks ≠ []) : ∀ offset,
    ∃ offset', Parser.sepToEnd (char '/') step ⟨offset, joined '/' chunks⟩ =
      .done steps ⟨offset', []⟩ := by
  induction h with
  | nil => exact absurd rfl hne
  | @cons s cs steps chunks hs hsteps ih =>
      intro offset
      rw [joined]
      cases hsteps with
      | nil =>
          obtain ⟨_, offset', hread, rfl⟩ := step_reads hs (.inl rfl) offset
          exact ⟨offset', by rw [List.flatMap_nil, Parser.sepToEnd, hread]; rfl⟩
      | @cons s' cs' steps chunks hs' hsteps =>
          have hmore : (cs' :: chunks).flatMap ('/' :: ·) = '/' :: joined '/' (cs' :: chunks) := rfl
          rw [hmore]
          obtain ⟨_, d, hread, rfl⟩ := step_reads hs (.inr ⟨joined '/' (cs' :: chunks), rfl⟩) offset
          obtain ⟨offset', hothers⟩ := ih (List.cons_ne_nil _ _) (d + '/'.utf8Size)
          have hslash : char '/' ⟨d, '/' :: joined '/' (cs' :: chunks)⟩ =
              .done () ⟨d + '/'.utf8Size, joined '/' (cs' :: chunks)⟩ := char_eq_done.2 ⟨rfl, rfl⟩
          have hless : (joined '/' (cs' :: chunks)).length <
              (cs ++ '/' :: joined '/' (cs' :: chunks)).length := by
            rw [List.length_append, List.length_cons]
            omega
          refine ⟨offset', ?_⟩
          rw [Parser.sepToEnd, hread]
          simp only [Cursor.atEnd, List.isEmpty_cons, Bool.false_eq_true, if_false, hslash,
            if_pos hless, hothers]
          rfl

/-- What is read as steps up to the end of a text are spellings of them. -/
lemma sepToEnd_done (c : Cursor) : ∀ {steps c'},
    Parser.sepToEnd (char '/') step c = .done steps c' →
    ∃ chunks, chunks ≠ [] ∧ List.Forall₂ RawStep.Spelled steps chunks ∧
      c.rest = joined '/' chunks := by
  fun_induction Parser.sepToEnd (char '/') step c with
  | case1 c s next hread hend =>
      rintro _ _ ⟨⟩
      have hrest : next.rest = [] := List.isEmpty_iff.1 hend
      obtain ⟨cs, hcs, hs⟩ := step_done hread (.inl hrest)
      exact ⟨[cs], List.cons_ne_nil _ _, .cons hs .nil, by rw [hcs, hrest]; rfl⟩
  | case2 c s next hread hend u following hslash hless ih =>
      intro steps c' h
      cases hothers : Parser.sepToEnd (char '/') step following with
      | done others d =>
          rw [hothers] at h
          cases h
          have hrest := (char_eq_done.1 hslash).1
          obtain ⟨cs, hcs, hs⟩ := step_done hread (.inr ⟨_, hrest⟩)
          obtain ⟨chunks, hne, hchunks, hfollowing⟩ := ih hothers
          refine ⟨cs :: chunks, List.cons_ne_nil _ _, .cons hs hchunks, ?_⟩
          obtain ⟨cs', chunks, rfl⟩ := List.exists_cons_of_ne_nil hne
          rw [hcs, hrest, hfollowing]
          rfl
      | _ =>
          rw [hothers] at h
          cases h
  | _ =>
      intro _ _ h
      cases h

/-- A path text behind the slash that makes it absolute, if there is one. -/
def afterSlash (absolute : Bool) : Parser RawPath := fun c =>
  if c.atEnd then .done ⟨absolute, []⟩ c
  else (Parser.sepToEnd (char '/') step c).map (⟨absolute, ·⟩)

lemma path_absolute (offset : Nat) (more : List Char) :
    path ⟨offset, '/' :: more⟩ = afterSlash true ⟨offset + 1, more⟩ := by
  rw [path, if_neg (by simp)]
  rfl

lemma path_relative {offset : Nat} {text : List Char} (hdot : text ≠ ['.'])
    (hslash : text.head? ≠ some '/') : path ⟨offset, text⟩ = afterSlash false ⟨offset, text⟩ := by
  simp only [path, if_neg hdot]
  split
  · exact absurd rfl hslash
  · rfl

lemma afterSlash_reads {steps : List RawStep} {chunks : List (List Char)}
    (h : List.Forall₂ RawStep.Spelled steps chunks) (absolute : Bool) (offset : Nat) :
    ∃ d, afterSlash absolute ⟨offset, joined '/' chunks⟩ = .done ⟨absolute, steps⟩ d := by
  cases h with
  | nil => exact ⟨_, rfl⟩
  | @cons s cs steps chunks hs hsteps =>
      obtain ⟨c, cs, rfl, -⟩ := hs.exists_cons
      obtain ⟨offset', hread⟩ := sepToEnd_reads (.cons hs hsteps) (List.cons_ne_nil _ _) offset
      refine ⟨⟨offset', []⟩, ?_⟩
      rw [afterSlash, hread]
      rfl

lemma afterSlash_done {absolute : Bool} {raw : RawPath} (h : afterSlash absolute c = .done raw c') :
    raw.absolute = absolute ∧ ∃ chunks, List.Forall₂ RawStep.Spelled raw.steps chunks ∧
      c.rest = joined '/' chunks := by
  rw [afterSlash] at h
  split at h
  · next hend =>
      cases h
      exact ⟨rfl, [], .nil, List.isEmpty_iff.1 hend⟩
  · cases hread : Parser.sepToEnd (char '/') step c with
    | done steps d =>
        rw [hread] at h
        cases h
        obtain ⟨chunks, -, hchunks, hrest⟩ := sepToEnd_done c hread
        exact ⟨rfl, chunks, hchunks, hrest⟩
    | _ =>
        rw [hread] at h
        cases h

/-- No step begins with a slash. -/
lemma head?_joined_ne {steps : List RawStep} {chunks : List (List Char)}
    (h : List.Forall₂ RawStep.Spelled steps chunks) : (joined '/' chunks).head? ≠ some '/' := by
  cases h with
  | nil => exact nofun
  | cons hs =>
      obtain ⟨c, cs, rfl, hc⟩ := hs.exists_cons
      exact fun hhead => hc (Option.some.inj hhead)

/-- **A text is taken apart into the steps that it spells.** -/
theorem parse_spelled {text : String} {absolute : Bool} {steps : List RawStep}
    {chunks : List (List Char)} (h : List.Forall₂ RawStep.Spelled steps chunks)
    (htext : text.toList = chars absolute chunks) (hdot : text ≠ ".") :
    parse text = .ok ⟨absolute, steps⟩ := by
  have hdot' : text.toList ≠ ['.'] := fun h => hdot (String.toList_inj.1 h)
  have hpath : ∃ d, path (.start text) = .done ⟨absolute, steps⟩ d := by
    rw [Cursor.start]
    cases absolute with
    | true =>
        rw [htext, chars, if_pos rfl, path_absolute]
        exact afterSlash_reads h true _
    | false =>
        have hslash : text.toList.head? ≠ some '/' := by
          rw [htext, chars, if_neg Bool.false_ne_true]
          exact head?_joined_ne h
        rw [path_relative hdot' hslash, htext, chars, if_neg Bool.false_ne_true]
        exact afterSlash_reads h false 0
  obtain ⟨d, hd⟩ := hpath
  rw [parse, hd]
  rfl

/-- **How a text is taken apart**: into the steps that it spells, unless it is a dot. -/
theorem parse_eq_ok_iff {text : String} {raw : RawPath} : parse text = .ok raw ↔
    text = "." ∧ raw = ⟨false, []⟩ ∨ text ≠ "." ∧ ∃ chunks,
      List.Forall₂ RawStep.Spelled raw.steps chunks ∧ text.toList = chars raw.absolute chunks := by
  by_cases hdot : text = "."
  · have hparse : parse "." = .ok ⟨false, []⟩ := rfl
    rw [hdot, hparse]
    simp [eq_comm]
  constructor
  · intro h
    refine Or.inr ⟨hdot, ?_⟩
    have hdot' : text.toList ≠ ['.'] := fun h => hdot (String.toList_inj.1 h)
    rw [parse] at h
    cases hpath : path (.start text) with
    | done raw' d =>
        rw [hpath] at h
        cases h
        rw [Cursor.start] at hpath
        by_cases hslash : text.toList.head? = some '/'
        · obtain ⟨more, hmore⟩ := List.head?_eq_some_iff.1 hslash
          rw [hmore, path_absolute] at hpath
          obtain ⟨habsolute, chunks, hchunks, hrest⟩ := afterSlash_done hpath
          exact ⟨chunks, hchunks, by rw [habsolute, hmore, chars, ← hrest]; rfl⟩
        · rw [path_relative hdot' hslash] at hpath
          obtain ⟨habsolute, chunks, hchunks, hrest⟩ := afterSlash_done hpath
          exact ⟨chunks, hchunks, by rw [habsolute, chars, ← hrest]; rfl⟩
    | _ =>
        rw [hpath] at h
        cases h
  · rintro (⟨h, -⟩ | ⟨-, chunks, hchunks, htext⟩)
    · exact absurd h hdot
    · exact parse_spelled hchunks htext hdot

/-- A text is absolute if it begins with a slash. -/
lemma absolute_iff {text : String} {raw : RawPath} (h : parse text = .ok raw) :
    raw.absolute ↔ text.toList.head? = some '/' := by
  rcases parse_eq_ok_iff.1 h with ⟨rfl, rfl⟩ | ⟨-, chunks, hchunks, htext⟩
  · exact ⟨nofun, fun h => absurd h (by decide)⟩
  · rw [htext, chars]
    split
    · next habsolute => exact ⟨fun _ => rfl, fun _ => habsolute⟩
    · next habsolute =>
        exact ⟨fun h => absurd h habsolute, fun h => absurd h (head?_joined_ne hchunks)⟩

end RawPath

end Estate
