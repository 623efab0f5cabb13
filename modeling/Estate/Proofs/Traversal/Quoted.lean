import Estate.Proofs.Parse.Places
import Estate.Proofs.Parse.Ranges
import Estate.Proofs.Parse.Reading
import Estate.Traversal.Grammar

/-!
# Texts in quotes

A text in quotes ends at the first quote that no backslash takes.  Whether there is one, and what
the text before it stands for, is said here without regard to how it is found.  There are two
readers: one takes the text apart and keeps its place, the other one counts bytes and cuts.

* `Unescapes` — what a text with backslashes stands for, character by character.
* `Closes` — an unescaped quote stands behind a body.
* `DecodesQuoted` — what a reader of quoted texts may answer at a place.
* `Reply.Agree` — answers that differ only in what they say was wanted.
* **`Grammar.quoted_exact`** — the reader answers just so for quotes of every kind, what is written
  in quotes comes back, and the reader that counts bytes answers the same.
-/

namespace Estate.Parse

open Text

/-- **What a text with backslashes stands for**: a backslash takes the character that follows it,
whatever it is, and any other character stands for itself. -/
inductive Unescapes : List Char → List Char → Prop
  | nil : Unescapes [] []
  | plain {c body text} (plain : c ≠ '\\') (more : Unescapes body text) :
      Unescapes (c :: body) (c :: text)
  | escaped {c body text} (more : Unescapes body text) : Unescapes ('\\' :: c :: body) (c :: text)

/-- **An unescaped quote stands behind a body** that stands for some text, and something follows it.
A backslash that is not taken itself takes the next character, so it never is such a quote. -/
structure Closes (quote : Char) (cs body text rest : List Char) : Prop where
  split : cs = body ++ quote :: rest
  unescapes : Unescapes body text
  no_backslash : quote ≠ '\\'

/-- **A text in quotes is decoded exactly.**  It is read if there is a quote that is closed, up to
the first quote that closes it.  An open quote that nothing closes is fatal, and no quote is a
miss. -/
structure DecodesQuoted (quote : Char) (c : Cursor) (reply : Reply String) : Prop where
  read_iff : (∃ text c', reply = .done text c') ↔
    ∃ cs body text rest, c.rest = quote :: cs ∧ Closes quote cs body text rest
  read : ∀ text c', reply = .done text c' → ∃ cs body,
    c.rest = quote :: cs ∧ Closes quote cs body text.toList c'.rest ∧
      (∀ body' text' rest', Closes quote cs body' text' rest' → body.length ≤ body'.length) ∧
      c'.offset = c.offset + byteLength (quote :: body ++ [quote])
  open_fatal : ∀ cs, c.rest = quote :: cs →
    (¬ ∃ body text rest, Closes quote cs body text rest) →
      reply = .fatal (.leaf c.finish (.text "closing quote"))
  no_quote : (¬ ∃ cs, c.rest = quote :: cs) → reply = .miss (.leaf c.offset (.text "quote"))

/-- **Answers that agree**: they read the same, or fail at the same place and equally badly. -/
inductive Reply.Agree {α : Type} : Reply α → Reply α → Prop
  | done {a c} : Agree (.done a c) (.done a c)
  | miss {e f} (place : e.furthest = f.furthest) : Agree (.miss e) (.miss f)
  | fatal {e f} (place : e.furthest = f.furthest) : Agree (.fatal e) (.fatal f)

/-! ## Quotes that close -/

section Closing

variable {quote c : Char} {cs body text rest : List Char}

lemma not_closes_nil : ¬ Closes quote [] body text rest := fun h =>
  List.append_ne_nil_of_right_ne_nil body (List.cons_ne_nil quote rest) h.split.symm

/-- Nothing closes behind a lone backslash. -/
lemma not_closes_backslash : ¬ Closes quote ['\\'] body text rest := by
  rintro ⟨split, unescapes, no_backslash⟩
  cases unescapes with
  | nil => exact no_backslash (List.cons.inj split).1.symm
  | plain plain => exact plain (List.cons.inj split).1.symm
  | escaped => exact List.cons_ne_nil _ _ (List.cons.inj split).2.symm

lemma closes_quote (hquote : quote ≠ '\\') : Closes quote (quote :: rest) [] [] rest :=
  ⟨rfl, .nil, hquote⟩

/-- A backslash and the next character belong to the body. -/
lemma closes_escaped_iff : Closes quote ('\\' :: c :: cs) body text rest ↔
    ∃ body' text', body = '\\' :: c :: body' ∧ text = c :: text' ∧
      Closes quote cs body' text' rest := by
  constructor
  · rintro ⟨split, unescapes, no_backslash⟩
    cases unescapes with
    | nil => exact absurd (List.cons.inj split).1.symm no_backslash
    | plain plain => exact absurd (List.cons.inj split).1.symm plain
    | escaped more =>
        obtain ⟨rfl, rfl⟩ := List.cons.inj (List.cons.inj split).2
        exact ⟨_, _, rfl, rfl, rfl, more, no_backslash⟩
  · rintro ⟨body', text', rfl, rfl, rfl, more, no_backslash⟩
    exact ⟨rfl, .escaped more, no_backslash⟩

/-- So does any other character but the quote. -/
lemma closes_plain_iff (hplain : c ≠ '\\') (hquote : c ≠ quote) :
    Closes quote (c :: cs) body text rest ↔
      ∃ body' text', body = c :: body' ∧ text = c :: text' ∧ Closes quote cs body' text' rest := by
  constructor
  · rintro ⟨split, unescapes, no_backslash⟩
    cases unescapes with
    | nil => exact absurd (List.cons.inj split).1 hquote
    | plain _ more =>
        obtain ⟨rfl, rfl⟩ := List.cons.inj split
        exact ⟨_, _, rfl, rfl, rfl, more, no_backslash⟩
    | escaped => exact absurd (List.cons.inj split).1 hplain
  · rintro ⟨body', text', rfl, rfl, rfl, more, no_backslash⟩
    exact ⟨rfl, .plain hplain more, no_backslash⟩

/-- A character that starts no escape is no backslash. -/
lemma ne_backslash (hlone : c = '\\' → cs = [] → False)
    (hescape : ∀ d ds, c = '\\' → cs = d :: ds → False) : c ≠ '\\' := fun hc =>
  match cs with
  | [] => hlone hc rfl
  | d :: ds => hescape d ds hc rfl

/-! ## The reader that keeps its place -/

/-- **What is found is closed**, and nothing closes before. -/
lemma exists_closes {offset : Nat} {c' : Cursor}
    (h : unescapeQuoted quote offset cs = some (text, c')) :
    ∃ body, Closes quote cs body text c'.rest ∧
      ∀ body' text' rest', Closes quote cs body' text' rest' → body.length ≤ body'.length := by
  -- By the recursion of the reader: what it has passed is the head of any body that is closed.
  fun_induction unescapeQuoted quote offset cs generalizing text with
  | case1 => cases h
  | case2 => cases h
  | case3 offset c rest ih =>
      obtain ⟨⟨ds, after⟩, hread, heq⟩ := Option.map_eq_some_iff.1 h
      cases heq
      obtain ⟨body, hcloses, hfirst⟩ := ih hread
      refine ⟨'\\' :: c :: body, closes_escaped_iff.2 ⟨body, ds, rfl, rfl, hcloses⟩, ?_⟩
      intro body' text' rest' h'
      obtain ⟨b, t, rfl, -, h'⟩ := closes_escaped_iff.1 h'
      exact Nat.succ_le_succ (Nat.succ_le_succ (hfirst b t rest' h'))
  | case4 offset rest hlone hescape =>
      cases h
      exact ⟨[], closes_quote (ne_backslash hlone hescape), fun _ _ _ _ => Nat.zero_le _⟩
  | case5 offset c rest hlone hescape hquote ih =>
      obtain ⟨⟨ds, after⟩, hread, heq⟩ := Option.map_eq_some_iff.1 h
      cases heq
      have hplain := ne_backslash hlone hescape
      obtain ⟨body, hcloses, hfirst⟩ := ih hread
      refine ⟨c :: body, (closes_plain_iff hplain hquote).2 ⟨body, ds, rfl, rfl, hcloses⟩, ?_⟩
      intro body' text' rest' h'
      obtain ⟨b, t, rfl, -, h'⟩ := (closes_plain_iff hplain hquote).1 h'
      exact Nat.succ_le_succ (hfirst b t rest' h')

/-- **Where nothing is found, nothing closes.** -/
lemma not_closes {offset : Nat} (h : unescapeQuoted quote offset cs = none) :
    ¬ Closes quote cs body text rest := by
  fun_induction unescapeQuoted quote offset cs generalizing body text with
  | case1 => exact not_closes_nil
  | case2 => exact not_closes_backslash
  | case3 offset c cs ih =>
      intro hcloses
      obtain ⟨b, t, -, -, hcloses⟩ := closes_escaped_iff.1 hcloses
      exact ih (Option.map_eq_none_iff.1 h) hcloses
  | case4 => cases h
  | case5 offset c cs hlone hescape hquote ih =>
      intro hcloses
      obtain ⟨b, t, -, -, hcloses⟩ :=
        (closes_plain_iff (ne_backslash hlone hescape) hquote).1 hcloses
      exact ih (Option.map_eq_none_iff.1 h) hcloses

end Closing

lemma decodesQuoted (quote : Char) (c : Cursor) :
    DecodesQuoted quote c (Grammar.quoted quote c) := by
  rcases quotedText_cases quote "quote" "closing quote" c with
    ⟨cs, text, c', hcs, hread, hreply⟩ | ⟨cs, hcs, hread, hreply⟩ | ⟨hnone, hreply⟩
  · obtain ⟨body, hcloses, hfirst⟩ := exists_closes hread
    -- What has been read are the characters before those that are left.
    obtain ⟨read, hread, hoffset⟩ := (quotedText_walks quote _ _).leads hreply
    have hwhole : read = quote :: body ++ [quote] := by
      refine List.append_cancel_right (hread.symm.trans ?_)
      rw [hcs, hcloses.split, List.append_assoc]
      rfl
    refine ⟨iff_of_true ⟨_, _, hreply⟩ ⟨cs, body, text, _, hcs, hcloses⟩, ?_,
      fun cs' hcs' hnone => ?_, fun hnone => absurd ⟨cs, hcs⟩ hnone⟩
    · intro text' c'' h
      cases hreply.symm.trans h
      refine ⟨cs, body, hcs, ?_, hfirst, hwhole ▸ hoffset⟩
      rwa [String.toList_ofList]
    · obtain rfl := (List.cons.inj (hcs.symm.trans hcs')).2
      exact absurd ⟨body, text, _, hcloses⟩ hnone
  · refine ⟨iff_of_false ?_ ?_, fun text c' h => ?_, fun _ _ _ => hreply,
      fun hnone => absurd ⟨cs, hcs⟩ hnone⟩
    · rintro ⟨text, c', h⟩
      cases hreply.symm.trans h
    · rintro ⟨cs', body, text, rest, hcs', hcloses⟩
      obtain rfl := (List.cons.inj (hcs.symm.trans hcs')).2
      exact not_closes hread hcloses
    · cases hreply.symm.trans h
  · refine ⟨iff_of_false ?_ ?_, fun text c' h => ?_, fun cs hcs => absurd ⟨cs, hcs⟩ hnone,
      fun _ => hreply⟩
    · rintro ⟨text, c', h⟩
      cases hreply.symm.trans h
    · rintro ⟨cs, _, _, _, hcs, -⟩
      exact hnone ⟨cs, hcs⟩
    · cases hreply.symm.trans h

/-- **What is written in quotes comes back**, and what follows it is left. -/
lemma quoted_inQuotes {quote : Char} (hquote : quote ≠ '\\') (text : String) (offset : Nat)
    (rest : List Char) : Grammar.quoted quote ⟨offset, inQuotes quote text ++ rest⟩ =
      .done text ⟨offset + byteLength (inQuotes quote text), rest⟩ := by
  have hreads : (Grammar.quoted quote).Reads (inQuotes quote text) rest (· = text) :=
    quotedText_reads_inQuotes hquote "quote" "closing quote" rest
  obtain ⟨_, offset', hread, rfl⟩ := hreads offset
  obtain ⟨read, hsplit, hoffset⟩ := (quotedText_walks quote _ _).leads hread
  obtain rfl := List.append_cancel_right hsplit
  rw [hread]
  exact congrArg (fun n => Reply.done _ ⟨n, rest⟩) hoffset

/-! ## The reader that counts bytes -/

/-- What has been found, behind what was kept before, and where it ends. -/
def keptBehind (kept : String) (found : List Char × Cursor) : String × Nat :=
  (kept ++ String.ofList found.1, found.2.offset)

lemma keptBehind_cons (kept : String) (c : Char) (found : Option (List Char × Cursor)) :
    found.map (keptBehind (kept.push c)) =
      (found.map fun (text, after) => (c :: text, after)).map (keptBehind kept) := by
  rcases found with _ | ⟨text, after⟩
  · rfl
  · refine congrArg (fun s => some (s, after.offset)) (String.toList_inj.1 ?_)
    simp

/-- **Counting bytes finds the same**, behind what has been kept so far. -/
lemma scanString_eq (kept : String) (n : Nat) (cs : List Char) :
    scanString kept n cs = (unescapeQuoted '"' n cs).map (keptBehind kept) := by
  fun_induction scanString kept n cs with
  | case1 => rfl
  | case2 => rfl
  | case3 kept n c rest ih => rw [ih, unescapeQuoted, keptBehind_cons]
  | case4 kept n rest =>
      rw [unescapeQuoted, if_pos rfl]
      · exact congrArg (fun s => some (s, n + 1)) String.append_empty.symm
      · exact fun h => absurd h (by decide)
      · exact fun _ _ h => absurd h (by decide)
  | case5 kept n c rest hlone hescape hquote ih =>
      rw [ih, unescapeQuoted, if_neg hquote, keptBehind_cons]
      · exact hlone
      · exact hescape

/-- **The bytes that are counted end where the other reader goes on.** -/
lemma stringLiteral_agree (c : Cursor) : (stringLiteral c).Agree (Grammar.quoted '"' c) := by
  have hplace (offset : Nat) (s t : String) :
      (Failure.leaf offset (.text s)).furthest = (Failure.leaf offset (.text t)).furthest := rfl
  -- The other reader counts from the start of the whole text.
  have hmoved (cs : List Char) : unescapeQuoted '"' (c.offset + 1) cs =
      (unescapeQuoted '"' 1 cs).map (foundMoved c.offset) := by
    rw [Nat.add_comm]
    exact unescapeQuoted_moved '"' c.offset 1 cs
  rcases quotedText_cases '"' "quote" "closing quote" c with
    ⟨cs, _, _, hcs, hread, hreply⟩ | ⟨cs, hcs, hread, hreply⟩ | ⟨hnone, hreply⟩
  · obtain ⟨⟨text, after⟩, hfound, heq⟩ := Option.map_eq_some_iff.1 ((hmoved cs).symm.trans hread)
    cases heq
    obtain ⟨front, hfront, hoffset⟩ := unescapeQuoted_leads hfound
    have hcut : dropBytes? ('"' :: cs) after.offset = some after.rest :=
      dropBytes?_eq_some_iff.2 ⟨'"' :: front, congrArg ('"' :: ·) hfront, hoffset.symm⟩
    have hliteral : stringLiteral c =
        .done (String.ofList text) ⟨c.offset + after.offset, after.rest⟩ := by
      simp only [stringLiteral, hcs, scanString_eq, hfound, Option.map_some, keptBehind, hcut,
        String.empty_append]
    rw [Grammar.quoted, hreply, hliteral, Nat.add_comm]
    exact .done
  · have hfound : unescapeQuoted '"' 1 cs = none :=
      Option.map_eq_none_iff.1 ((hmoved cs).symm.trans hread)
    have hliteral : stringLiteral c = .fatal (.leaf c.finish (.text "\"")) := by
      simp only [stringLiteral, hcs, scanString_eq, hfound, Option.map_none]
    rw [Grammar.quoted, hreply, hliteral]
    exact .fatal (hplace _ _ _)
  · have hliteral : stringLiteral c = .miss (.leaf c.offset (.text "\"")) := by
      rw [stringLiteral]
      split
      · next cs hcs => exact absurd ⟨cs, hcs⟩ hnone
      · rfl
    rw [Grammar.quoted, hreply, hliteral]
    exact .miss (hplace _ _ _)

end Estate.Parse

namespace Estate.Grammar

open Parse Text

/-- **Texts in quotes are decoded exactly**, at every place and for quotes of every kind.  One is
read if the quote stands there and an unescaped one stands behind it; up to the first of these the
text is read without its escapes, and what follows that quote is left.  A text that is written with
its quotes and backslashes escaped is read as it was.  The reader that counts bytes reads the same
and fails where this one does, and one of them does so for good exactly if the other one does. -/
theorem quoted_exact :
    (∀ quote c, DecodesQuoted quote c (quoted quote c)) ∧
      (∀ quote, quote ≠ '\\' → ∀ text offset rest,
        quoted quote ⟨offset, inQuotes quote text ++ rest⟩ =
          .done text ⟨offset + byteLength (inQuotes quote text), rest⟩) ∧
      ∀ c, (stringLiteral c).Agree (quoted '"' c) :=
  ⟨decodesQuoted, fun _ hquote => quoted_inQuotes hquote, stringLiteral_agree⟩

/-- A quote of three bytes, in a text that has a backslash and this quote in it; and a double quote
that is taken by a backslash, so that nothing closes. -/
theorem curlyQuotes_decoded :
    let written := ['”', 'a', '\\', '\\', '\\', '”', '”']
    let unclosed : Cursor := ⟨2, ['"', 'a', '\\', '"']⟩
    '”' ≠ '\\' ∧ inQuotes '”' "a\\”" = written ∧
      quoted '”' ⟨2, written ++ [';']⟩ = .done "a\\”" ⟨15, [';']⟩ ∧
      DecodesQuoted '"' unclosed (quoted '"' unclosed) ∧
      quoted '"' unclosed = .fatal (.leaf 6 (.text "closing quote")) ∧
      (stringLiteral unclosed).Agree (quoted '"' unclosed) := by
  intro written unclosed
  have hquote : '”' ≠ '\\' := by decide
  obtain ⟨hdecodes, hwritten, hagree⟩ := quoted_exact
  exact ⟨hquote, by decide, hwritten '”' hquote "a\\”" 2 [';'], hdecodes '"' unclosed, rfl,
    hagree unclosed⟩

end Estate.Grammar
