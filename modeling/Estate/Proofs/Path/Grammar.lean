import Estate.Proofs.Path.Spelled

/-!
# The grammar of path texts

Which texts are path texts can be said without what they are read as.  The text of an id is not
empty and is made of characters that mean nothing in a path and of pairs of a backslash and any
character.  The text of a step is `..`, or the text of an id that may have the code or the name of a
kind and a semicolon before it.  A path text is a dot, a slash or nothing, or it is made of the
texts of steps with one slash between two of them and perhaps one before them all.

* `IdText`, `StepText` — the texts of ids and of steps, and what they are read as.
* `spells_iff`, `RawStep.spelled_iff` — they are what the parser goes by.
* **`RawPath.parse_exact`** — the path texts are all that is read, and they are read as their steps.
-/

namespace Estate

open Parse

/-- Characters that mean nothing in a path, and pairs of a backslash and any character. -/
inductive EscapedChars : List Char → Prop
  | nil : EscapedChars []
  | plain {c cs} (plain : c ∉ ['/', ';', '\\']) (rest : EscapedChars cs) : EscapedChars (c :: cs)
  | pair {c cs} (rest : EscapedChars cs) : EscapedChars ('\\' :: c :: cs)

/-- **The texts of ids.** -/
def IdText (cs : List Char) : Prop :=
  cs ≠ [] ∧ EscapedChars cs

/-- The id that a text is read as: every pair leaves its second character. -/
def idOf (cs : List Char) : String :=
  String.ofList (Segment.unescapeChars cs)

/-- **The texts of steps** and the steps that they are read as. -/
inductive StepText : List Char → RawStep → Prop
  | up : StepText ['.', '.'] .up
  | untyped {cs} (id : IdText cs) (not_up : cs ≠ ['.', '.']) : StepText cs (.down none (idOf cs))
  | typed {word kind cs} (type : word = kind.code ∨ word = kind.name) (id : IdText cs) :
      StepText (word.toList ++ ';' :: cs) (.down (some kind) (idOf cs))

/-! ## Ids -/

lemma unescapeChars_cons {c : Char} (hne : c ≠ '\\') (cs : List Char) :
    Segment.unescapeChars (c :: cs) = c :: Segment.unescapeChars cs :=
  Segment.unescapeChars.eq_2 c cs fun _ _ hc _ => hne hc

/-- A character means nothing in a path if it is none of three. -/
lemma isSpecial_eq_false_iff {c : Char} :
    Segment.isSpecial c = false ↔ c ∉ ['/', ';', '\\'] := by
  rw [← Bool.not_eq_true, isSpecial_iff]
  simp only [List.mem_cons, List.not_mem_nil, or_false]
  tauto

/-- **The spellings of an id** are the texts from which it is recovered. -/
lemma spells_iff {id cs : List Char} :
    Spells id cs ↔ EscapedChars cs ∧ Segment.unescapeChars cs = id := by
  constructor
  · intro h
    induction h with
    | nil => exact ⟨.nil, rfl⟩
    | @plain c id cs plain _ ih =>
        have hc := isSpecial_eq_false_iff.1 plain
        refine ⟨.plain hc ih.1, ?_⟩
        rw [unescapeChars_cons (by rintro rfl; exact hc (by decide)), ih.2]
    | @escaped c id cs _ ih => exact ⟨.pair ih.1, congrArg (c :: ·) ih.2⟩
  · rintro ⟨h, rfl⟩
    induction h with
    | nil => exact .nil
    | @plain c cs plain _ ih =>
        rw [unescapeChars_cons (by rintro rfl; exact plain (by decide))]
        exact .plain (isSpecial_eq_false_iff.2 plain) ih
    | pair _ ih => exact .escaped ih

/-- The text of an id spells it, and no id is empty. -/
lemma IdText.spells {cs : List Char} (h : IdText cs) :
    idOf cs ≠ "" ∧ Spells (idOf cs).toList cs := by
  have hspells : Spells (idOf cs).toList cs := by
    rw [idOf, String.toList_ofList]
    exact spells_iff.2 ⟨h.2, rfl⟩
  refine ⟨fun hempty => ?_, hspells⟩
  rw [hempty] at hspells
  cases hspells
  exact h.1 rfl

lemma idText_of_spells {id : String} {cs : List Char} (hne : id ≠ "") (h : Spells id.toList cs) :
    IdText cs ∧ idOf cs = id := by
  obtain ⟨hescaped, hid⟩ := spells_iff.1 h
  refine ⟨⟨?_, hescaped⟩, by rw [idOf, hid, String.ofList_toList]⟩
  rintro rfl
  exact hne (String.toList_eq_nil_iff.1 hid.symm)

/-! ## Steps -/

/-- The words for a kind are its code and its name, and no word is one for two kinds. -/
lemma Kind.ofWord?_eq_some_iff {word : String} {k : Kind} :
    Kind.ofWord? word = some k ↔ word = k.code ∨ word = k.name := by
  refine ⟨Kind.eq_of_ofWord?, ?_⟩
  rintro (rfl | rfl) <;> cases k <;> decide

/-- **The spellings of a step** are the texts that are read as it. -/
lemma RawStep.spelled_iff {s : RawStep} {cs : List Char} : s.Spelled cs ↔ StepText cs s := by
  constructor
  · intro h
    cases h with
    | up => exact .up
    | untyped ne spelled not_up =>
        obtain ⟨hid, rfl⟩ := idText_of_spells ne spelled
        exact .untyped hid not_up
    | typed names ne spelled =>
        obtain ⟨hid, rfl⟩ := idText_of_spells ne spelled
        exact .typed (Kind.ofWord?_eq_some_iff.1 names) hid
  · intro h
    cases h with
    | up => exact .up
    | untyped id not_up => exact .untyped id.spells.1 id.spells.2 not_up
    | typed type id => exact .typed (Kind.ofWord?_eq_some_iff.2 type) id.spells.1 id.spells.2

/-- Chunks are the texts of some steps if each of them is the text of one. -/
lemma exists_steps_iff {chunks : List (List Char)} :
    (∃ steps, List.Forall₂ StepText chunks steps) ↔ ∀ cs ∈ chunks, ∃ s, StepText cs s := by
  induction chunks with
  | nil => exact ⟨fun _ => nofun, fun _ => ⟨[], .nil⟩⟩
  | cons cs chunks ih =>
      rw [List.forall_mem_cons, ← ih]
      constructor
      · rintro ⟨_, hs⟩
        cases hs with
        | cons hs hsteps => exact ⟨⟨_, hs⟩, _, hsteps⟩
      · rintro ⟨⟨s, hs⟩, steps, hsteps⟩
        exact ⟨s :: steps, .cons hs hsteps⟩

/-! ## Texts -/

namespace RawPath

/-- The texts that have no steps. -/
def stepless : List String :=
  ["", ".", "/"]

lemma parse_stepless {text : String} (h : text ∈ stepless) :
    ∃ absolute, parse text = .ok ⟨absolute, []⟩ := by
  simp only [stepless, List.mem_cons, List.not_mem_nil, or_false] at h
  rcases h with rfl | rfl | rfl
  · exact ⟨false, rfl⟩
  · exact ⟨false, rfl⟩
  · exact ⟨true, rfl⟩

lemma mem_stepless {text : String} {absolute : Bool} (h : text.toList = chars absolute []) :
    text ∈ stepless := by
  cases absolute with
  | false =>
      rw [show text = "" from String.toList_inj.1 h]
      exact List.mem_cons_self
  | true =>
      rw [show text = "/" from String.toList_inj.1 h]
      decide

/-- **What is read has the steps that the text is made of.** -/
lemma exists_chunks_of_parse {text : String} {raw : RawPath} (h : parse text = .ok raw)
    (hsteps : text ∉ stepless) : ∃ chunks, chunks ≠ [] ∧
      List.Forall₂ StepText chunks raw.steps ∧ text.toList = chars raw.absolute chunks := by
  rcases parse_eq_ok_iff.1 h with ⟨rfl, -⟩ | ⟨-, chunks, hchunks, htext⟩
  · exact absurd (by decide) hsteps
  · refine ⟨chunks, ?_, (hchunks.imp fun _ _ => RawStep.spelled_iff.1).flip, htext⟩
    rintro rfl
    exact hsteps (mem_stepless htext)

/-- **What is made of the texts of steps is read.** -/
lemma exists_parse_of_chunks {text : String} {absolute : Bool} {chunks : List (List Char)}
    (h : ∀ cs ∈ chunks, ∃ s, StepText cs s) (htext : text.toList = chars absolute chunks) :
    ∃ raw, parse text = .ok raw := by
  obtain ⟨steps, hsteps⟩ := exists_steps_iff.2 h
  by_cases hdot : text = "."
  · exact ⟨_, parse_eq_ok_iff.2 (.inl ⟨hdot, rfl⟩)⟩
  · exact ⟨_, parse_spelled (hsteps.flip.imp fun _ _ => RawStep.spelled_iff.2) htext hdot⟩

/-- **A text is read exactly if it is a path text.**  The texts without steps are nothing, a dot and
a slash; every other one is made of the texts of its steps, with a slash between two of them.  What
is read is absolute if the text begins with a slash, and has the steps in their order. -/
theorem parse_exact (text : String) :
    ((∃ raw, parse text = .ok raw) ↔ text ∈ stepless ∨ ∃ absolute chunks, chunks ≠ [] ∧
        (∀ cs ∈ chunks, ∃ s, StepText cs s) ∧ text.toList = chars absolute chunks) ∧
      ∀ raw, parse text = .ok raw →
        (raw.absolute ↔ text.toList.head? = some '/') ∧
          (text ∈ stepless → raw.steps = []) ∧
          (text ∉ stepless → ∃ chunks, chunks ≠ [] ∧ List.Forall₂ StepText chunks raw.steps ∧
            text.toList = chars raw.absolute chunks) := by
  refine ⟨⟨?_, ?_⟩, fun raw h => ⟨absolute_iff h, fun hnone => ?_, exists_chunks_of_parse h⟩⟩
  · rintro ⟨raw, h⟩
    by_cases hnone : text ∈ stepless
    · exact Or.inl hnone
    · obtain ⟨chunks, hne, hchunks, htext⟩ := exists_chunks_of_parse h hnone
      exact Or.inr ⟨raw.absolute, chunks, hne, exists_steps_iff.1 ⟨_, hchunks⟩, htext⟩
  · rintro (hnone | ⟨absolute, chunks, -, hchunks, htext⟩)
    · obtain ⟨absolute, h⟩ := parse_stepless hnone
      exact ⟨_, h⟩
    · exact exists_parse_of_chunks hchunks htext
  · obtain ⟨absolute, hread⟩ := parse_stepless hnone
    obtain rfl := Except.ok.inj (hread.symm.trans h)
    rfl

/-- Two dots climb only alone between slashes, and a word is a kind only before a semicolon; what
stands behind a backslash means nothing. -/
example : parse "../..a/./r;\\;\\/b/resource" = .ok ⟨false, [.up, .down none "..a",
    .down none ".", .down (some .resource) ";/b", .down none "resource"]⟩ := by
  decide +kernel

end RawPath

end Estate
