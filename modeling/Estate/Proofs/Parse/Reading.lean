import Mathlib.Data.List.Forall2
import Estate.Proofs.Parse.Answers

/-!
# What is read from a text

If one knows what a text consists of, one can say what a parser reads from it, wherever in a larger
text it stands.  There is one lemma for each way to compose parsers, so that the readings of the
parts of a text make up the reading of the whole.

* `Parser.Reads` — a parser reads the head of a text and leaves the rest.
* `Parser.Misses` — a parser misses at the head of a text.
* `Parser.Reads.many_append` — a repetition reads some texts and goes on behind them.
* `joined` — texts with separators between them, which `Parser.Reads.sepBy1` takes apart.
* `Writes` — the ways to write a text that ends at stops.
* `keyword_reads`, `Writes.text_reads`, `quotedText_reads` — the tokens.
-/

namespace Estate.Parse

open Text

namespace Parser

variable {α β γ : Type} {p q : Parser α} {f : α → Parser β} {a : α} {cs ds rest : List Char}
  {P P' : α → Prop} {Q : β → Prop}

/-- **A parser reads the head of a text** and leaves the rest, wherever the text stands.  The place
may get into the value, about which there is only a property. -/
def Reads (p : Parser α) (cs rest : List Char) (P : α → Prop) : Prop :=
  ∀ offset, ∃ a offset', p ⟨offset, cs ++ rest⟩ = .done a ⟨offset', rest⟩ ∧ P a

/-- A parser misses at the head of a text, wherever the text stands. -/
def Misses (p : Parser α) (text : List Char) : Prop :=
  ∀ offset, ∃ e, p ⟨offset, text⟩ = .miss e

namespace Misses

lemma bind (h : p.Misses cs) : (p >>= f).Misses cs := fun offset => by
  obtain ⟨e, he⟩ := h offset
  exact ⟨e, bind_eq_miss.2 (.inl he)⟩

/-- What is missed behind the first part is missed. -/
lemma after (hp : p.Reads cs rest P) (hf : ∀ a, P a → (f a).Misses rest) :
    (p >>= f).Misses (cs ++ rest) := fun offset => by
  obtain ⟨a, offset', hread, ha⟩ := hp offset
  obtain ⟨e, he⟩ := hf a ha offset'
  exact ⟨e, bind_eq_miss.2 (.inr ⟨a, _, hread, he⟩)⟩

lemma after_nil (hp : p.Reads [] rest P) (hf : ∀ a, P a → (f a).Misses rest) :
    (p >>= f).Misses rest :=
  after hp hf

end Misses

namespace Reads

lemma mono (h : p.Reads cs rest P) (hP : ∀ a, P a → P' a) : p.Reads cs rest P' := fun offset => by
  obtain ⟨a, offset', hread, ha⟩ := h offset
  exact ⟨a, offset', hread, hP a ha⟩

lemma pure (h : P a) : (Pure.pure a : Parser α).Reads [] rest P := fun offset =>
  ⟨a, offset, rfl, h⟩

/-- What is read after the first part is read from the second. -/
lemma bind (hp : p.Reads cs (ds ++ rest) P) (hf : ∀ a, P a → (f a).Reads ds rest Q) :
    (p >>= f).Reads (cs ++ ds) rest Q := fun offset => by
  obtain ⟨a, d, hread, ha⟩ := hp offset
  obtain ⟨b, d', hread', hb⟩ := hf a ha d
  refine ⟨b, d', ?_, hb⟩
  rw [List.append_assoc, bind_done hread, hread']

lemma bind_cons {c : Char} (hp : p.Reads [c] (ds ++ rest) P)
    (hf : ∀ a, P a → (f a).Reads ds rest Q) :
    (p >>= f).Reads (c :: ds) rest Q :=
  bind hp hf

lemma bind_nil (hp : p.Reads [] (ds ++ rest) P) (hf : ∀ a, P a → (f a).Reads ds rest Q) :
    (p >>= f).Reads ds rest Q :=
  bind hp hf

/-- All of a text is read from the first part. -/
lemma bind_last (hp : p.Reads cs rest P) (hf : ∀ a, P a → (f a).Reads [] rest Q) :
    (p >>= f).Reads cs rest Q := by
  have h : (p >>= f).Reads (cs ++ []) rest Q := bind hp hf
  rwa [List.append_nil] at h

/-- A value is made of what is read. -/
lemma map {g : α → β} (hp : p.Reads cs rest P) (hg : ∀ a, P a → Q (g a)) :
    (p >>= fun a => Pure.pure (g a)).Reads cs rest Q :=
  bind_last hp fun a ha => pure (hg a ha)

lemma commit (h : p.Reads cs rest P) : p.commit.Reads cs rest P := fun offset => by
  obtain ⟨a, offset', hread, ha⟩ := h offset
  exact ⟨a, offset', commit_eq_done.2 hread, ha⟩

lemma first (h : p.Reads cs rest P) : (p <|> q).Reads cs rest P := fun offset => by
  obtain ⟨a, offset', hread, ha⟩ := h offset
  exact ⟨a, offset', orElse_eq_done.2 (.inl hread), ha⟩

lemma second (hp : p.Misses (cs ++ rest)) (hq : q.Reads cs rest P) :
    (p <|> q).Reads cs rest P := fun offset => by
  obtain ⟨a, offset', hread, ha⟩ := hq offset
  exact ⟨a, offset', orElse_eq_done.2 (.inr ⟨hp offset, hread⟩), ha⟩

lemma present (h : p.Reads cs rest P) : p.optional.Reads cs rest fun o => ∃ a, o = some a ∧ P a :=
  fun offset => by
    obtain ⟨a, offset', hread, ha⟩ := h offset
    exact ⟨some a, offset', optional_eq_done.2 (.inl ⟨a, rfl, hread⟩), a, rfl, ha⟩

lemma absent (h : p.Misses rest) : p.optional.Reads [] rest (· = none) := fun offset =>
  ⟨none, offset, optional_eq_done.2 (.inr ⟨rfl, rfl, h offset⟩), rfl⟩

lemma spanned (h : p.Reads cs rest P) : p.spanned.Reads cs rest fun x => P x.value :=
  fun offset => by
    obtain ⟨a, offset', hread, ha⟩ := h offset
    exact ⟨⟨⟨offset, offset'⟩, a⟩, offset', spanned_eq_done.2 ⟨hread, rfl⟩, ha⟩

lemma many_nil (h : p.Misses rest) : Reads (Parser.many p) [] rest (· = []) := fun offset => by
  obtain ⟨e, he⟩ := h offset
  refine ⟨[], offset, ?_, rfl⟩
  rw [List.nil_append, Parser.many, he]

/-- **A repetition reads one text after the other** and goes on behind them.  What a text is read as
may depend on what follows it. -/
lemma many_append {w : γ → List Char} {R : γ → α → Prop} :
    ∀ {xs : List γ}, (∀ x ∈ xs, w x ≠ []) →
      (∀ before x after, xs = before ++ x :: after →
        p.Reads (w x) (after.flatMap w ++ rest) (R x)) →
      ∀ offset, ∃ as offset', List.Forall₂ R xs as ∧
        Parser.many p ⟨offset, xs.flatMap w ++ rest⟩ =
          (Parser.many p ⟨offset', rest⟩).map (as ++ ·)
  | [], _, _, offset => ⟨[], offset, .nil, by
      rw [List.flatMap_nil, List.nil_append]
      cases Parser.many p ⟨offset, rest⟩ <;> rfl⟩
  | x :: xs, hne, hread, offset => by
      obtain ⟨a, d, hfirst, ha⟩ := hread [] x xs rfl offset
      obtain ⟨as, offset', has, hothers⟩ := many_append
        (fun y hy => hne y (List.mem_cons_of_mem x hy))
        (fun before y after h => hread (x :: before) y after (by rw [h]; rfl)) d
      -- A round that leaves as much as there was would be a miss.
      have hless : (xs.flatMap w ++ rest).length < (w x ++ (xs.flatMap w ++ rest)).length := by
        have hpos := List.length_pos_iff.2 (hne x List.mem_cons_self)
        simp only [List.length_append]
        omega
      refine ⟨a :: as, offset', .cons ha has, ?_⟩
      rw [List.flatMap_cons, List.append_assoc, Parser.many, hfirst]
      simp only [if_pos hless, hothers]
      cases Parser.many p ⟨offset', rest⟩ <;> rfl

/-- A repetition reads one text after the other and ends where the parser misses. -/
lemma many {w : γ → List Char} {R : γ → α → Prop} {xs : List γ} (hend : p.Misses rest)
    (hne : ∀ x ∈ xs, w x ≠ [])
    (hread : ∀ before x after, xs = before ++ x :: after →
      p.Reads (w x) (after.flatMap w ++ rest) (R x)) :
    Reads (Parser.many p) (xs.flatMap w) rest (List.Forall₂ R xs) := fun offset => by
  obtain ⟨as, offset', has, hmany⟩ := many_append hne hread offset
  obtain ⟨_, d, hnone, rfl⟩ := many_nil hend offset'
  rw [List.nil_append] at hnone
  exact ⟨as, d, by rw [hmany, hnone, Reply.map, List.append_nil], has⟩

lemma many_one (hp : p.Reads cs rest P) (hne : cs ≠ []) (hend : p.Misses rest) :
    Reads (Parser.many p) cs rest fun as => ∃ a, as = [a] ∧ P a := by
  have hmany : Reads (Parser.many p) ([cs].flatMap id) rest (List.Forall₂ (fun _ => P) [cs]) := by
    refine many hend (List.forall_mem_singleton.2 hne) fun before x after h => ?_
    cases before with
    | nil =>
        cases h
        exact hp
    | cons b before => simp at h
  rw [List.flatMap_singleton] at hmany
  refine hmany.mono ?_
  rintro _ (_ | ⟨ha, ⟨⟩⟩)
  exact ⟨_, rfl, ha⟩

end Reads

end Parser

/-! ## Characters -/

section Characters

variable {α : Type} {cs rest : List Char} {c : Char}

lemma char_reads (c : Char) (rest : List Char) : (char c).Reads [c] rest fun _ => True :=
  fun _ => ⟨(), _, char_eq_done.2 ⟨rfl, rfl⟩, trivial⟩

/-- A character and what is read behind it. -/
lemma Parser.Reads.char_bind {f : Unit → Parser α} {P : α → Prop} (h : (f ()).Reads cs rest P) :
    (char c >>= f).Reads (c :: cs) rest P :=
  (char_reads c _).bind fun _ _ => h

lemma char_misses (h : rest.head? ≠ some c) : (char c).Misses rest := fun offset => by
  cases rest with
  | nil => exact ⟨_, rfl⟩
  | cons d rest =>
      have hne : d ≠ c := fun hd => h (congrArg some hd)
      exact ⟨.leaf offset (.char c), by rw [char]; simp only [if_neg hne]⟩

/-- Texts with a separator between them. -/
def joined (separator : Char) : List (List Char) → List Char
  | [] => []
  | cs :: css => cs ++ css.flatMap (separator :: ·)

/-- **Separated texts are read one after the other**, if each of them is read before a separator and
before what follows them all. -/
lemma Parser.Reads.sepBy1 {γ : Type} {p : Parser α} {w : γ → List Char} {R : γ → α → Prop}
    {xs : List γ} (hne : xs ≠ []) (hend : rest.head? ≠ some c)
    (hread : ∀ x ∈ xs, ∀ after, after.head? = some c ∨ after = rest →
      p.Reads (w x) after (R x)) :
    (Parser.sepBy1 (char c) p).Reads (joined c (xs.map w)) rest (List.Forall₂ R xs) := by
  obtain ⟨x, xs, rfl⟩ := List.exists_cons_of_ne_nil hne
  have hafter : ∀ ys : List γ, (ys.flatMap (fun y => c :: w y) ++ rest).head? = some c ∨
      ys.flatMap (fun y => c :: w y) ++ rest = rest := by
    rintro (_ | ⟨y, ys⟩)
    · exact Or.inr rfl
    · exact Or.inl rfl
  have hothers : Parser.Reads (Parser.many do
      let _ ← char c
      p) (xs.flatMap fun y => c :: w y) rest (List.Forall₂ R xs) :=
    .many (Misses.bind (char_misses hend)) (fun _ _ => List.cons_ne_nil _ _)
      fun before y after h => .char_bind (hread y (by simp [h]) _ (hafter after))
  rw [List.map_cons, joined, List.flatMap_map]
  exact (hread x List.mem_cons_self _ (hafter xs)).bind fun a ha =>
    hothers.map fun as has => .cons ha has

end Characters

/-! ## Words -/

section Words

variable {rest : List Char} {words : List String} {word : String}

/-- A text is a word. -/
def IsWord (word : String) : Prop :=
  word ≠ "" ∧ word.toList.all isWordChar

instance (word : String) : Decidable (IsWord word) :=
  inferInstanceAs (Decidable (_ ∧ _))

/-- No word goes on here. -/
def WordEnds (rest : List Char) : Prop :=
  ∀ c ∈ rest.head?, isWordChar c = false

lemma wordEnds_cons {c : Char} (h : isWordChar c = false) : WordEnds (c :: rest) := by
  rintro _ ⟨⟩
  exact h

lemma takeWhile_word (hword : word.toList.all isWordChar) (hrest : WordEnds rest) :
    (word.toList ++ rest).takeWhile isWordChar = word.toList ∧
      (word.toList ++ rest).dropWhile isWordChar = rest := by
  rw [List.all_eq_true] at hword
  rw [List.takeWhile_append_of_pos hword, List.dropWhile_append_of_pos hword]
  cases rest with
  | nil => simp
  | cons c rest =>
      have hstop := hrest c rfl
      rw [List.takeWhile_cons_of_neg (by simp [hstop]),
        List.dropWhile_cons_of_neg (by simp [hstop])]
      exact ⟨List.append_nil _, rfl⟩

/-- A word is found as a whole. -/
lemma word?_append (hword : IsWord word) (hrest : WordEnds rest) (offset : Nat) :
    word? ⟨offset, word.toList ++ rest⟩ =
      some (word, ⟨offset + byteLength word.toList, rest⟩) := by
  have hne : word.toList.isEmpty = false := by
    rw [List.isEmpty_eq_false_iff]
    exact fun h => hword.1 (String.toList_eq_nil_iff.1 h)
  simp only [word?, (takeWhile_word hword.2 hrest).1, (takeWhile_word hword.2 hrest).2, hne,
    Bool.false_eq_true, if_false, String.ofList_toList]

lemma word?_eq_none (hrest : WordEnds rest) (offset : Nat) : word? ⟨offset, rest⟩ = none := by
  cases rest with
  | nil => rfl
  | cons c rest =>
      simp only [word?, List.takeWhile_cons_of_neg (show ¬ isWordChar c from by simp [hrest c rfl]),
        List.isEmpty_nil, if_true]

lemma keyword_reads (hword : IsWord word) (hmem : word ∈ words) (hrest : WordEnds rest) :
    (keyword words).Reads word.toList rest (· = word) := fun offset =>
  ⟨word, _, keyword_eq_done.2 ⟨word?_append hword hrest offset, hmem⟩, rfl⟩

lemma keyword_misses (hword : IsWord word) (hmem : word ∉ words) (hrest : WordEnds rest) :
    (keyword words).Misses (word.toList ++ rest) := fun offset =>
  ⟨wantsAny offset words, by
    rw [keyword, word?_append hword hrest]
    simp only [List.contains_iff_mem, if_neg hmem]⟩

lemma keyword_misses_of_wordEnds (hrest : WordEnds rest) : (keyword words).Misses rest :=
  fun offset => ⟨_, by rw [keyword, word?_eq_none hrest]⟩

end Words

/-! ## Escapes -/

section Escapes

variable {rest : List Char} {stops : List Char} {text : String}

/-- An escaped text ends here. -/
def EscapeEnds (stops : List Char) (rest : List Char) : Prop :=
  ∀ c ∈ rest.head?, c ∈ stops ∧ c ≠ '\\'

lemma escapeEnds_nil : EscapeEnds stops [] := nofun

lemma unescapeUntil_of_escapeEnds (hrest : EscapeEnds stops rest) (offset : Nat) :
    unescapeUntil stops.contains offset rest = some ([], ⟨offset, rest⟩) := by
  cases rest with
  | nil => rfl
  | cons c rest =>
      obtain ⟨hmem, hne⟩ := hrest c rfl
      rw [unescapeUntil]
      · rw [if_pos (List.contains_iff_mem.2 hmem)]
      · rintro rfl
        exact absurd rfl hne
      · rintro _ _ rfl
        exact absurd rfl hne

lemma unescapeUntil_cons {stops : Char → Bool} {c : Char} (hne : c ≠ '\\')
    (hstop : stops c = false) (offset : Nat) (rest : List Char) :
    unescapeUntil stops offset (c :: rest) =
      (unescapeUntil stops (offset + c.utf8Size) rest).map fun (cs, after) => (c :: cs, after) := by
  conv_lhs => unfold unescapeUntil
  split <;> simp_all

/-- **The ways to write a text** that ends at stops: a backslash may stand before any character, and
it has to stand before a backslash and before a stop. -/
inductive Writes (stops : List Char) : List Char → List Char → Prop
  | nil : Writes stops [] []
  | plain {c text cs} (plain : c ≠ '\\' ∧ c ∉ stops) (more : Writes stops text cs) :
      Writes stops (c :: text) (c :: cs)
  | escaped {c text cs} (more : Writes stops text cs) : Writes stops (c :: text) ('\\' :: c :: cs)

/-- However a text is written, it is read up to what follows it. -/
lemma Writes.read {text cs : List Char} (h : Writes stops text cs) (hrest : EscapeEnds stops rest)
    (offset : Nat) : unescapeUntil stops.contains offset (cs ++ rest) =
      some (text, ⟨offset + byteLength cs, rest⟩) := by
  induction h generalizing offset with
  | nil => exact unescapeUntil_of_escapeEnds hrest offset
  | @plain c text cs plain _ ih =>
      rw [List.cons_append, unescapeUntil_cons plain.1 (by simpa using plain.2), ih, byteLength,
        Nat.add_assoc]
      rfl
  | @escaped c text cs _ ih =>
      rw [List.cons_append, List.cons_append, unescapeUntil, ih, byteLength, byteLength,
        Nat.add_assoc, Nat.add_assoc]
      rfl

/-- **What is written is read as it was**, whatever its characters are. -/
lemma Writes.text_reads {cs : List Char} {wanted : String} (h : Writes stops text.toList cs)
    (hne : text ≠ "") (hrest : EscapeEnds stops rest) :
    (escapedText stops wanted).Reads cs rest (· = text) := fun offset => by
  refine ⟨text, offset + byteLength cs, ?_, rfl⟩
  rw [escapedText, h.read hrest]
  cases htext : text.toList with
  | nil => exact absurd (String.toList_eq_nil_iff.1 htext) hne
  | cons c cs => simp only [← htext, String.ofList_toList]

/-- No stop stands behind the first word of what is written, unless it follows the whole. -/
lemma Writes.head?_dropWhile {text cs : List Char} {c : Char} (h : Writes stops text cs)
    (hrest : WordEnds rest) (hstop : c ∈ stops) (hslash : c ≠ '\\') (hnext : rest.head? ≠ some c) :
    ((cs ++ rest).dropWhile isWordChar).head? ≠ some c := by
  induction h with
  | nil =>
      cases rest with
      | nil => exact nofun
      | cons d rest =>
          rw [List.nil_append, List.dropWhile_cons_of_neg (by simp [hrest d rfl])]
          exact hnext
  | @plain d text cs plain _ ih =>
      rw [List.cons_append, List.dropWhile_cons]
      split
      · exact ih
      · rintro ⟨⟩
        exact plain.2 hstop
  | @escaped d text cs =>
      rw [List.cons_append, List.dropWhile_cons_of_neg (by decide)]
      rintro ⟨⟩
      exact hslash rfl

/-- A text with a backslash before each of its characters. -/
def slashed (text : String) : List Char :=
  text.toList.flatMap fun c => ['\\', c]

lemma slashed_eq_cons (hne : text ≠ "") : ∃ cs, slashed text = '\\' :: cs := by
  cases htext : text.toList with
  | nil => exact absurd (String.toList_eq_nil_iff.1 htext) hne
  | cons c cs => exact ⟨_, by rw [slashed, htext, List.flatMap_cons]; rfl⟩

lemma wordEnds_slashed (hne : text ≠ "") : WordEnds (slashed text ++ rest) := by
  obtain ⟨cs, hcs⟩ := slashed_eq_cons hne
  rw [hcs]
  exact wordEnds_cons (by decide)

lemma writes_slashed (text : String) : Writes stops text.toList (slashed text) := by
  rw [slashed]
  induction text.toList with
  | nil => exact .nil
  | cons c cs ih => exact .escaped ih

/-- What is written with backslashes is read as it was. -/
lemma escapedText_reads {wanted : String} (hne : text ≠ "") (hrest : EscapeEnds stops rest) :
    (escapedText stops wanted).Reads (slashed text) rest (· = text) :=
  (writes_slashed text).text_reads hne hrest

/-- A text in double quotes. -/
def doubleQuoted (text : String) : List Char :=
  '"' :: (text.toList.flatMap (fun c => if c = '"' ∨ c = '\\' then ['\\', c] else [c]) ++ ['"'])

/-- A text in quotes of some kind: these and backslashes are escaped. -/
def inQuotes (quote : Char) (text : String) : List Char :=
  quote :: (text.toList.flatMap (fun c => if c = quote ∨ c = '\\' then ['\\', c] else [c]) ++
    [quote])

lemma unescapeQuoted_quoted {quote : Char} (hquote : quote ≠ '\\') (cs rest : List Char)
    (offset : Nat) :
    ∃ offset', unescapeQuoted quote offset
        (cs.flatMap (fun c => if c = quote ∨ c = '\\' then ['\\', c] else [c]) ++ quote :: rest) =
      some (cs, ⟨offset', rest⟩) := by
  induction cs generalizing offset with
  | nil =>
      refine ⟨offset + quote.utf8Size, ?_⟩
      rw [List.flatMap_nil, List.nil_append, unescapeQuoted, if_pos rfl]
      · exact fun h => absurd h hquote
      · exact fun _ _ h => absurd h hquote
  | cons c cs ih =>
      rw [List.flatMap_cons]
      split
      · obtain ⟨offset', hread⟩ := ih (offset + 1 + c.utf8Size)
        exact ⟨offset', by
          simp only [List.cons_append, List.nil_append, unescapeQuoted, hread, Option.map_some]⟩
      · next hplain =>
          rw [not_or] at hplain
          obtain ⟨offset', hread⟩ := ih (offset + c.utf8Size)
          refine ⟨offset', ?_⟩
          rw [List.cons_append, List.nil_append, List.cons_append, unescapeQuoted]
          · rw [if_neg hplain.1, hread, Option.map_some]
          · exact fun h => absurd h hplain.2
          · exact fun _ _ h => absurd h hplain.2

/-- **What is written in quotes is read as it was**, whatever its characters are. -/
lemma quotedText_reads_inQuotes {quote : Char} (hquote : quote ≠ '\\') (opening closing : String)
    (rest : List Char) :
    (quotedText quote opening closing).Reads (inQuotes quote text) rest (· = text) :=
  fun offset => by
    obtain ⟨offset', hread⟩ :=
      unescapeQuoted_quoted hquote text.toList rest (offset + quote.utf8Size)
    refine ⟨text, offset', ?_, rfl⟩
    simp only [quotedText, inQuotes, List.cons_append, List.append_assoc, List.nil_append,
      if_true, hread, String.ofList_toList]

lemma quotedText_reads (opening closing : String) (rest : List Char) :
    (quotedText '"' opening closing).Reads (doubleQuoted text) rest (· = text) :=
  quotedText_reads_inQuotes (by decide) opening closing rest

end Escapes

end Estate.Parse
