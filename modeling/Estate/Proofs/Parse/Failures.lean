import Mathlib.Data.List.TakeWhile
import Mathlib.Order.MinMax
import Estate.Proofs.Parse.Ranges
import Estate.Proofs.Text.Utf8

/-!
# Where reading fails

A reader that gives up complains about a place of the text, the furthest one that any of its
branches came to.  No branch looks back, and none stops inside a character: whatever a parser
answers, done or not, is about places that reading has led to.  There is one lemma for every way to
compose parsers, so that it is checked rule by rule.

* `Failure.LiesAhead` — a failure complains about places that reading leads to, and of some.
* `Parser.Proceeds` — all that a parser answers is about such places.
* `Report.WellPlaced` — a report points at a character of the text, or at its end.
* **`Parser.Proceeds.wellPlaced`** — the report of a parser that proceeds is well placed.
-/

namespace Estate.Parse

open Estate.Text

variable {α β : Type} {c d : Cursor}

/-- Reading may lead to the end. -/
lemma Cursor.Leads.finish (c : Cursor) : c.Leads ⟨c.finish, []⟩ :=
  ⟨c.rest, (List.append_nil _).symm, rfl⟩

/-! ## Failures -/

namespace Failure

/-- **A failure lies ahead of a place**: it says of some place what was expected there, and every
such place is one that reading leads to. -/
structure LiesAhead (c : Cursor) (e : Failure) : Prop where
  somewhere : e.leaves ≠ []
  places : ∀ l ∈ e.leaves, ∃ d, c.Leads d ∧ l.offset = d.offset

lemma mem_leavesInAll_iff {context : Option String} {l : Leaf} {fs : List Failure} :
    l ∈ leavesInAll context fs ↔ ∃ f ∈ fs, l ∈ f.leavesIn context := by
  induction fs with
  | nil => exact ⟨nofun, fun ⟨_, hf, _⟩ => nomatch hf⟩
  | cons f fs ih => rw [leavesInAll, List.mem_append, ih, List.exists_mem_cons_iff]

lemma foldl_max_offset (ls : List Leaf) (k : Nat) :
    ls.foldl (fun offset l => max offset l.offset) k = k ∨
      ∃ l ∈ ls, ls.foldl (fun offset l => max offset l.offset) k = l.offset := by
  induction ls generalizing k with
  | nil => exact Or.inl rfl
  | cons l ls ih =>
      rcases ih (max k l.offset) with hmax | ⟨l', hl', hmax⟩
      · rcases max_choice k l.offset with hk | hl
        · exact Or.inl (hmax.trans hk)
        · exact Or.inr ⟨l, List.mem_cons_self, hmax.trans hl⟩
      · exact Or.inr ⟨l', List.mem_cons_of_mem l hl', hmax⟩

lemma foldl_max_offset_le_iff {ls : List Leaf} {k n : Nat} :
    ls.foldl (fun offset l => max offset l.offset) k ≤ n ↔ k ≤ n ∧ ∀ l ∈ ls, l.offset ≤ n := by
  induction ls generalizing k with
  | nil => exact ⟨fun h => ⟨h, nofun⟩, And.left⟩
  | cons l ls ih => rw [List.foldl_cons, ih, max_le_iff, List.forall_mem_cons, and_assoc]

/-- The furthest place is the first one behind which nothing failed. -/
lemma furthest_le_iff {e : Failure} {n : Nat} : e.furthest ≤ n ↔ ∀ l ∈ e.leaves, l.offset ≤ n := by
  rw [furthest, foldl_max_offset_le_iff]
  exact and_iff_right (Nat.zero_le n)

/-- Something failed at the furthest place, if anything failed at all. -/
lemma exists_furthest {e : Failure} (h : e.leaves ≠ []) :
    ∃ l ∈ e.leaves, e.furthest = l.offset := by
  rw [furthest]
  obtain ⟨l, ls, hleaves⟩ := List.exists_cons_of_ne_nil h
  rw [hleaves, List.foldl_cons, Nat.zero_max]
  rcases foldl_max_offset ls l.offset with hmax | ⟨l', hl', hmax⟩
  · exact ⟨l, List.mem_cons_self, hmax⟩
  · exact ⟨l', List.mem_cons_of_mem l hl', hmax⟩

namespace LiesAhead

variable {e : Failure}

lemma leaf (h : c.Leads d) (wanted : Expectation) : (Failure.leaf d.offset wanted).LiesAhead c :=
  ⟨List.cons_ne_nil _ _, List.forall_mem_singleton.2 ⟨d, h, rfl⟩⟩

lemma either {fs : List Failure} (hne : fs ≠ []) (h : ∀ f ∈ fs, f.LiesAhead c) :
    (Failure.either fs).LiesAhead c := by
  refine ⟨?_, fun l hl => ?_⟩
  · obtain ⟨f, fs, rfl⟩ := List.exists_cons_of_ne_nil hne
    rw [leaves, leavesIn, leavesInAll]
    exact fun hnone => (h f List.mem_cons_self).somewhere (List.append_eq_nil_iff.1 hnone).1
  · obtain ⟨f, hf, hl⟩ := mem_leavesInAll_iff.1 hl
    exact (h f hf).places l hl

lemma of_leads (h : c.Leads d) (he : e.LiesAhead d) : e.LiesAhead c := by
  refine ⟨he.somewhere, fun l hl => ?_⟩
  obtain ⟨d', hd', hoffset⟩ := he.places l hl
  exact ⟨d', h.trans hd', hoffset⟩

/-- **The furthest failure** is at one of the places. -/
lemma furthest (h : e.LiesAhead c) : ∃ d, c.Leads d ∧ e.furthest = d.offset := by
  obtain ⟨l, hl, hfurthest⟩ := exists_furthest h.somewhere
  rw [hfurthest]
  exact h.places l hl

end LiesAhead

end Failure

/-! ## Answers -/

/-- **An answer lies ahead of a place**: what is left, and what is complained about. -/
inductive Reply.LiesAhead (c : Cursor) : Reply α → Prop
  | done {a : α} {d : Cursor} (leads : c.Leads d) : LiesAhead c (.done a d)
  | miss {e : Failure} (ahead : e.LiesAhead c) : LiesAhead c (.miss e)
  | fatal {e : Failure} (ahead : e.LiesAhead c) : LiesAhead c (.fatal e)

namespace Reply.LiesAhead

variable {reply : Reply α}

lemma of_leads (h : c.Leads d) (hreply : reply.LiesAhead d) : reply.LiesAhead c := by
  cases hreply with
  | done leads => exact .done (h.trans leads)
  | miss ahead => exact .miss (ahead.of_leads h)
  | fatal ahead => exact .fatal (ahead.of_leads h)

lemma map {f : α → β} (h : reply.LiesAhead c) : (reply.map f).LiesAhead c := by
  cases h with
  | done leads => exact .done leads
  | miss ahead => exact .miss ahead
  | fatal ahead => exact .fatal ahead

/-- A miss here. -/
lemma here (wanted : Expectation) :
    (.miss (.leaf c.offset wanted) : Reply α).LiesAhead c :=
  .miss (.leaf .refl wanted)

end Reply.LiesAhead

namespace Parser

variable {p q : Parser α}

/-- **A parser proceeds**: all that it answers lies ahead. -/
def Proceeds (p : Parser α) : Prop :=
  ∀ c, (p c).LiesAhead c

namespace Proceeds

section Answers

variable {a : α} {e : Failure}

lemma leads (hp : p.Proceeds) (h : p c = .done a d) : c.Leads d := by
  have hreply := hp c
  rw [h] at hreply
  cases hreply with
  | done leads => exact leads

lemma of_miss (hp : p.Proceeds) (h : p c = .miss e) : e.LiesAhead c := by
  have hreply := hp c
  rw [h] at hreply
  cases hreply with
  | miss ahead => exact ahead

lemma of_fatal (hp : p.Proceeds) (h : p c = .fatal e) : e.LiesAhead c := by
  have hreply := hp c
  rw [h] at hreply
  cases hreply with
  | fatal ahead => exact ahead

end Answers

lemma pure (a : α) : (Pure.pure a : Parser α).Proceeds := fun _ => .done .refl

lemma expected (wanted : String) : (Parser.expected wanted : Parser α).Proceeds := fun _ =>
  .here _

lemma bind {f : α → Parser β} (hp : p.Proceeds) (hf : ∀ a, (f a).Proceeds) :
    (p >>= f).Proceeds := fun c => by
  have hreply := hp c
  simp only [Bind.bind]
  generalize p c = reply at hreply ⊢
  cases hreply with
  | @done a d leads => exact (hf a d).of_leads leads
  | miss ahead => exact .miss ahead
  | fatal ahead => exact .fatal ahead

lemma orElse (hp : p.Proceeds) (hq : q.Proceeds) : (p <|> q).Proceeds := fun c => by
  have hfirst := hp c
  have hsecond := hq c
  show (p.orElse q c).LiesAhead c
  rw [Parser.orElse]
  generalize p c = reply at hfirst ⊢
  cases hfirst with
  | done leads => exact .done leads
  | fatal ahead => exact .fatal ahead
  | miss first =>
      generalize q c = reply at hsecond ⊢
      cases hsecond with
      | done leads => exact .done leads
      | fatal ahead => exact .fatal ahead
      | miss second =>
          refine .miss (.either (List.cons_ne_nil _ _) ?_)
          exact List.forall_mem_cons.2 ⟨first, List.forall_mem_singleton.2 second⟩

lemma commit (hp : p.Proceeds) : p.commit.Proceeds := fun c => by
  have hreply := hp c
  rw [Parser.commit]
  generalize p c = reply at hreply ⊢
  cases hreply with
  | done leads => exact .done leads
  | miss ahead => exact .fatal ahead
  | fatal ahead => exact .fatal ahead

lemma optional (hp : p.Proceeds) : p.optional.Proceeds := fun c => by
  have hreply := hp c
  rw [Parser.optional]
  generalize p c = reply at hreply ⊢
  cases hreply with
  | done leads => exact .done leads
  | miss ahead => exact .done .refl
  | fatal ahead => exact .fatal ahead

lemma spanned (hp : p.Proceeds) : p.spanned.Proceeds := fun c => by
  have hreply := hp c
  rw [Parser.spanned]
  generalize p c = reply at hreply ⊢
  cases hreply with
  | done leads => exact .done leads
  | miss ahead => exact .miss ahead
  | fatal ahead => exact .fatal ahead

lemma many (hp : p.Proceeds) : Proceeds (Parser.many p) := fun c => by
  fun_induction Parser.many p c with
  | case1 c a d hread hless ih => exact (ih.of_leads (hp.leads hread)).map
  | case2 => exact .here _
  | case3 => exact .done .refl
  | case4 c e hread => exact .fatal (hp.of_fatal hread)

lemma sepBy1 {separator : Parser β} (hs : separator.Proceeds) (hp : p.Proceeds) :
    (Parser.sepBy1 separator p).Proceeds :=
  hp.bind fun _ => (many (hs.bind fun _ => hp)).bind fun _ => pure _

lemma sepToEnd {separator : Parser β} (hs : separator.Proceeds) (hp : p.Proceeds) :
    Proceeds (Parser.sepToEnd separator p) := fun c => by
  fun_induction Parser.sepToEnd separator p c with
  | case1 c a next hread => exact .done (hp.leads hread)
  | case2 c a next hread hend _ following hseparator hless ih =>
      exact ((ih.of_leads (hs.leads hseparator)).of_leads (hp.leads hread)).map
  | case3 => exact .here _
  | case4 c a next hread hend e hseparator =>
      exact .miss ((hs.of_miss hseparator).of_leads (hp.leads hread))
  | case5 c a next hread hend e hseparator =>
      exact .fatal ((hs.of_fatal hseparator).of_leads (hp.leads hread))
  | case6 c e hread => exact .miss (hp.of_miss hread)
  | case7 c e hread => exact .fatal (hp.of_fatal hread)

end Proceeds

end Parser

/-! ## Tokens -/

lemma char_proceeds (wanted : Char) : (char wanted).Proceeds := fun ⟨offset, rest⟩ => by
  rw [char]
  cases rest with
  | nil => exact .here _
  | cons x rest =>
      dsimp only
      split
      · exact .done (.cons offset x rest)
      · exact .here _

lemma wantsAny_liesAhead {words : List String} (hwords : words ≠ []) :
    (wantsAny c.offset words).LiesAhead c := by
  match words, hwords with
  | [wanted], _ => exact .leaf .refl _
  | wanted :: wanted' :: words, _ =>
      refine .either (List.cons_ne_nil _ _) fun f hf => ?_
      obtain ⟨word, -, rfl⟩ := List.mem_map.1 hf
      exact .leaf .refl _

lemma keyword_proceeds {words : List String} (hwords : words ≠ []) :
    (keyword words).Proceeds := fun c => by
  rw [keyword]
  cases hword : word? c with
  | none => exact .miss (wantsAny_liesAhead hwords)
  | some found =>
      dsimp only
      split
      · exact .done (word?_leads hword)
      · exact .miss (wantsAny_liesAhead hwords)

lemma escapedText_proceeds (stops : List Char) (wanted : String) :
    (escapedText stops wanted).Proceeds := fun c => by
  rw [escapedText]
  rcases hread : unescapeUntil stops.contains c.offset c.rest with _ | ⟨_ | ⟨x, xs⟩, after⟩
  · exact .fatal (.leaf (.finish c) _)
  · exact .here _
  · exact .done (unescapeUntil_leads hread)

lemma quotedText_proceeds (quote : Char) (opening closing : String) :
    (quotedText quote opening closing).Proceeds := fun ⟨offset, rest⟩ => by
  rcases quotedText_cases quote opening closing ⟨offset, rest⟩ with
    ⟨cs, _, _, rfl, hread, hreply⟩ | ⟨_, -, -, hreply⟩ | ⟨-, hreply⟩
  · rw [hreply]
    exact .done ((Cursor.Leads.cons offset quote cs).trans (unescapeQuoted_leads hread))
  · rw [hreply]
    exact .fatal (.leaf (.finish _) _)
  · rw [hreply]
    exact .here _

/-! ## Reports -/

/-- One character, or some that are neither delimiters nor blank. -/
def IsToken (cs : List Char) : Prop :=
  (∃ c, cs = [c]) ∨ cs ≠ [] ∧ ∀ c ∈ cs, ¬ isDelimiter c ∧ ¬ isBlank c

/-- **A report is well placed** in a text that was read from some place on.  It points at a
character behind that place, or at the end, and says which of the two; it shows a token that stands
there; and it lists what was expected in the order of the bytes. -/
structure Report.WellPlaced (text : String) (start : Nat) (r : Report) : Prop where
  boundary : Boundary text r.offset
  behind : start ≤ r.offset
  inside : r.offset ≤ byteLength text.toList
  atEnd : r.token = "end of input" ↔ r.offset = byteLength text.toList
  token : r.offset ≠ byteLength text.toList → ∃ cs rest,
    dropBytes? text.toList r.offset = some (cs ++ rest) ∧ r.token = String.ofList cs ∧ IsToken cs
  expected : r.expected.Pairwise fun s t => utf8 s < utf8 t

/-- The token at the head of a text. -/
lemma headToken_spec {cs : List Char} (hne : cs ≠ []) :
    (∃ rest, cs = headToken cs ++ rest) ∧ IsToken (headToken cs) := by
  obtain ⟨c, cs, rfl⟩ := List.exists_cons_of_ne_nil hne
  rw [headToken]
  split_ifs with hc
  · exact ⟨⟨cs, rfl⟩, Or.inl ⟨c, rfl⟩⟩
  · refine ⟨⟨_, congrArg _ List.takeWhile_append_dropWhile.symm⟩, Or.inr ⟨List.cons_ne_nil _ _, ?_⟩⟩
    rw [Bool.or_eq_true, not_or] at hc
    refine List.forall_mem_cons.2 ⟨hc, fun d hd => ?_⟩
    simpa using List.mem_takeWhile_imp hd

/-- No token reads like the end of a text. -/
lemma IsToken.ne_end {cs : List Char} (h : IsToken cs) : String.ofList cs ≠ "end of input" := by
  intro heq
  have hcs : cs = "end of input".toList := by rw [← heq, String.toList_ofList]
  rcases h with ⟨c, rfl⟩ | ⟨-, hplain⟩
  · cases hcs
  · exact (hplain ' ' (hcs ▸ by decide)).2 (by decide)

section Placed

variable {text : String}

/-- Only at the end all bytes have been read. -/
lemma Cursor.Leads.rest_eq_nil (h : (Cursor.start text).Leads d)
    (hend : d.offset = byteLength text.toList) : d.rest = [] := by
  obtain ⟨cs, htext, hoffset⟩ := h
  rw [show (Cursor.start text).rest = text.toList from rfl] at htext
  rw [htext, byteLength_append, hoffset] at hend
  cases hrest : d.rest with
  | nil => rfl
  | cons x rest =>
      have hpos := x.utf8Size_pos
      rw [hrest, byteLength, show (Cursor.start text).offset = 0 from rfl] at hend
      omega

/-- The token at a place of a text. -/
lemma tokenAt_of_leads (h : (Cursor.start text).Leads d) :
    d.rest = [] ∧ tokenAt text d.offset = "end of input" ∨
      d.rest ≠ [] ∧ tokenAt text d.offset = String.ofList (headToken d.rest) := by
  rw [tokenAt, Cursor.Leads.start_iff.1 h]
  cases d.rest with
  | nil => exact Or.inl ⟨rfl, rfl⟩
  | cons x rest => exact Or.inr ⟨List.cons_ne_nil x rest, rfl⟩

/-- What was expected is listed in the order of the bytes. -/
lemma Failure.expected_sorted (e : Failure) : e.expected.Pairwise fun s t => utf8 s < utf8 t := by
  have hsorted : e.expected.Pairwise fun s t => compare s t = .lt :=
    Std.ExtTreeSet.ordered_toList
  exact hsorted.imp fun hlt => utf8_lt (compareOfLessAndEq_eq_lt.1 hlt)

/-- **The report of a failure** ahead of a place is well placed. -/
lemma Failure.LiesAhead.wellPlaced {e : Failure} (h : e.LiesAhead c)
    (hc : (Cursor.start text).Leads c) : (e.report text).WellPlaced text c.offset := by
  obtain ⟨d, hd, hfurthest⟩ := h.furthest
  have hplace := hc.trans hd
  have hlast := (hplace.trans (.finish d)).offset_eq rfl
  rw [Failure.report, hfurthest]
  refine ⟨hplace.boundary, hd.offset_le, hlast ▸ (Cursor.Leads.finish d).offset_le, ?_, ?_,
    e.expected_sorted⟩
  · rcases tokenAt_of_leads hplace with ⟨hrest, htoken⟩ | ⟨hrest, htoken⟩
    · exact iff_of_true htoken (hplace.offset_eq hrest)
    · refine iff_of_false (fun hend => ?_) fun hend => hrest (hplace.rest_eq_nil hend)
      exact (headToken_spec hrest).2.ne_end (htoken.symm.trans hend)
  · intro hend
    rcases tokenAt_of_leads hplace with ⟨hrest, -⟩ | ⟨hrest, htoken⟩
    · exact absurd (hplace.offset_eq hrest) hend
    · obtain ⟨⟨rest, hhead⟩, hshape⟩ := headToken_spec hrest
      exact ⟨headToken d.rest, rest, hhead ▸ Cursor.Leads.start_iff.1 hplace, htoken, hshape⟩

/-- **The report of a parser that proceeds** is well placed. -/
theorem Parser.Proceeds.wellPlaced {p : Parser α} {errors : Errors} (hp : p.Proceeds)
    (hc : (Cursor.start text).Leads c) (h : (p c).toExcept text = .error errors) :
    ∃ r, errors = ⟨text, [r]⟩ ∧ r.WellPlaced text c.offset := by
  cases hreply : p c with
  | done a d =>
      rw [hreply] at h
      cases h
  | miss e =>
      rw [hreply] at h
      cases h
      exact ⟨e.report text, rfl, (hp.of_miss hreply).wellPlaced hc⟩
  | fatal e =>
      rw [hreply] at h
      cases h
      exact ⟨e.report text, rfl, (hp.of_fatal hreply).wellPlaced hc⟩

end Placed

end Estate.Parse
