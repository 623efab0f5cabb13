import Estate.Proofs.Parse.Answers

/-!
# Where values are read from

A parser that is done has read what stands between two places of the text, and what it noted ranges
of stands there, one thing behind another.  Which ranges a value has noted is given by a function on
values.  There is one lemma for every way to compose parsers, so that the ranges of a grammar are
checked rule by rule.

* `Cursor.Leads` — one place is behind another one in a text.
* `Place`, `Laid` — ranges with the ranges inside of them, and what it means to lie in a text.
* `Parser.LaysBehind`, `Parser.Lays`, `Parser.Walks` — the ranges of what a parser reads.
* `Span.Divided` — ranges inside another one, on character boundaries, in the order of the text and
  without overlap; **`Laid.divided`** — what is laid divides the range that it is laid in.
-/

namespace Estate.Parse

open Estate.Text

/-! ## Boundaries -/

/-- A number of bytes after which a character of a text begins, or the text ends. -/
def Boundary (text : String) (n : Nat) : Prop :=
  (dropBytes? text.toList n).isSome

instance (text : String) (n : Nat) : Decidable (Boundary text n) :=
  inferInstanceAs (Decidable ((dropBytes? text.toList n).isSome = true))

/-- The character that begins after a number of bytes. -/
def charAt? (text : String) (n : Nat) : Option Char :=
  (dropBytes? text.toList n).bind List.head?

/-- **What is left after some bytes** is what is left after the characters that take them up. -/
lemma dropBytes?_eq_some_iff {cs rest : List Char} {n : Nat} :
    dropBytes? cs n = some rest ↔ ∃ front, cs = front ++ rest ∧ byteLength front = n := by
  constructor
  · intro h
    fun_induction dropBytes? cs n with
    | case1 cs => exact ⟨[], Option.some.inj h, rfl⟩
    | case2 n => cases h
    | case3 c cs n hle ih =>
        obtain ⟨front, rfl, hlength⟩ := ih h
        refine ⟨c :: front, rfl, ?_⟩
        rw [byteLength, hlength]
        omega
    | case4 c cs n hlt => cases h
  · rintro ⟨front, rfl, rfl⟩
    exact dropBytes?_append front rest

/-! ## Places of a text -/

namespace Cursor

variable {c d e : Cursor} {text : String} {k : Nat}

/-- **One place leads to another**: what lies between them has been read. -/
def Leads (c d : Cursor) : Prop :=
  ∃ cs, c.rest = cs ++ d.rest ∧ d.offset = c.offset + byteLength cs

namespace Leads

lemma refl : c.Leads c := ⟨[], rfl, rfl⟩

lemma trans (h : c.Leads d) (h' : d.Leads e) : c.Leads e := by
  obtain ⟨cs, hcs, hoffset⟩ := h
  obtain ⟨ds, hds, hoffset'⟩ := h'
  refine ⟨cs ++ ds, by rw [hcs, hds, List.append_assoc], ?_⟩
  rw [hoffset', hoffset, byteLength_append, Nat.add_assoc]

lemma offset_le (h : c.Leads d) : c.offset ≤ d.offset := by
  obtain ⟨cs, -, hoffset⟩ := h
  omega

/-- What is left is an end of what there was. -/
lemma suffix (h : c.Leads d) : d.rest <:+ c.rest := by
  obtain ⟨cs, hrest, -⟩ := h
  exact ⟨cs, hrest.symm⟩

/-- Behind one character. -/
lemma cons (offset : Nat) (x : Char) (cs : List Char) :
    Leads ⟨offset, x :: cs⟩ ⟨offset + x.utf8Size, cs⟩ := ⟨[x], rfl, rfl⟩

/-- **A place that the start of a text leads to** is told by its offset. -/
lemma start_iff : (start text).Leads d ↔ dropBytes? text.toList d.offset = some d.rest := by
  rw [dropBytes?_eq_some_iff]
  simp only [Leads, start, Nat.zero_add, eq_comm]

lemma boundary (h : (start text).Leads d) : Boundary text d.offset := by
  rw [Boundary, start_iff.1 h]
  rfl

lemma charAt? (h : (start text).Leads d) : charAt? text d.offset = d.rest.head? := by
  rw [Parse.charAt?, start_iff.1 h]
  rfl

/-- Where nothing is left, all bytes have been read. -/
lemma offset_eq (h : (start text).Leads d) (hend : d.rest = []) :
    d.offset = byteLength text.toList := by
  obtain ⟨cs, htext, hoffset⟩ := h
  rw [hend, List.append_nil] at htext
  rw [hoffset, ← htext]
  exact Nat.zero_add _

end Leads

/-- Reading always starts at a place of the text. -/
lemma leads_at (text : String) (k : Nat) : (start text).Leads («at» text k) := by
  rw [«at»]
  split
  · exact ⟨text.toList, (List.append_nil _).symm, (Nat.zero_add _).symm⟩
  · split
    · next hrest => exact Leads.start_iff.2 hrest
    · exact .refl

/-- A boundary of a text is a place in it. -/
lemma at_spec (h : Boundary text k) :
    («at» text k).offset = k ∧ (start text).Leads («at» text k) := by
  obtain ⟨rest, hrest⟩ := Option.isSome_iff_exists.1 h
  have hat : «at» text k = ⟨k, rest⟩ := by
    rw [«at»]
    split
    · next hend =>
        obtain ⟨front, htext, rfl⟩ := dropBytes?_eq_some_iff.1 hrest
        rw [htext, byteLength_append] at hend ⊢
        cases rest with
        | nil => rfl
        | cons x cs =>
            have hpos := x.utf8Size_pos
            rw [byteLength] at hend
            omega
    · rw [hrest]
  rw [hat]
  exact ⟨rfl, Leads.start_iff.2 hrest⟩

end Cursor

/-! ## What is laid in a text -/

/-- A range that was noted, with those that were noted inside of it. -/
inductive Place
  | mk (span : Span) (inner : List Place)

/-- The range of a place. -/
def Place.span : Place → Span
  | mk span _ => span

/-- The place of a value, and the places inside. -/
def Spanned.place {α : Type} (f : α → List Place) (x : Spanned α) : Place :=
  ⟨x.span, f x.value⟩

/-- **Places lie between two cursors**, one behind another, and inside of each of them its own. -/
inductive Laid : Cursor → List Place → Cursor → Prop
  | done {c c'} (rest : c.Leads c') : Laid c [] c'
  | place {c d d' c' inner places} (before : c.Leads d) (inside : Laid d inner d')
      (behind : Laid d' places c') : Laid c (⟨⟨d.offset, d'.offset⟩, inner⟩ :: places) c'

namespace Laid

variable {c d c' : Cursor} {places more : List Place}

lemma leads (h : Laid c places c') : c.Leads c' := by
  induction h with
  | done rest => exact rest
  | place before _ _ inside behind => exact (before.trans inside).trans behind

/-- What is laid behind a place is laid behind all that leads to it. -/
lemma of_leads (h : c.Leads d) (hplaces : Laid d places c') : Laid c places c' := by
  cases hplaces with
  | done rest => exact .done (h.trans rest)
  | place before inside behind => exact .place (h.trans before) inside behind

lemma append (h : Laid c places d) (hmore : Laid d more c') : Laid c (places ++ more) c' := by
  induction h with
  | done rest => exact of_leads rest hmore
  | place before inside _ _ behind => exact .place before inside (behind hmore)

end Laid

/-! ## Ranges of a text -/

/-- **A range of a text**, between two boundaries. -/
structure Span.Cuts (text : String) (s : Span) : Prop where
  ordered : s.start ≤ s.stop
  start : Boundary text s.start
  stop : Boundary text s.stop

/-- **A range of a text holds some characters**, and the rest of the text follows them. -/
structure Span.Holds (text : String) (s : Span) (cs rest : List Char) : Prop where
  front : dropBytes? text.toList s.start = some (cs ++ rest)
  stop : s.stop = s.start + byteLength cs

/-- What was read between two places is held by the range between them. -/
lemma Cursor.Leads.holds {c c' : Cursor} {text : String} (hc : (Cursor.start text).Leads c)
    (h : c.Leads c') :
    ∃ cs, c.rest = cs ++ c'.rest ∧ Span.Holds text ⟨c.offset, c'.offset⟩ cs c'.rest := by
  obtain ⟨cs, hrest, hoffset⟩ := h
  exact ⟨cs, hrest, by rw [← hrest]; exact Cursor.Leads.start_iff.1 hc, hoffset⟩

/-- **Ranges divide another one**: they are ranges of the text inside of it, in the order of the
text and without overlap. -/
structure Span.Divided (text : String) (s : Span) (parts : List Span) : Prop where
  whole : s.Cuts text
  cuts : ∀ r ∈ parts, r.Cuts text
  inside : ∀ r ∈ parts, s.start ≤ r.start ∧ r.stop ≤ s.stop
  apart : parts.Pairwise fun r r' => r.stop ≤ r'.start

/-- A place is divided by those inside of it, and each of these is divided again. -/
inductive Place.Divided (text : String) : Place → Prop
  | mk {span inner} (parts : span.Divided text (inner.map Place.span))
      (deep : ∀ p ∈ inner, p.Divided text) : Divided text ⟨span, inner⟩

namespace Laid

variable {c c' : Cursor} {places : List Place} {text : String}

/-- **What is laid in a text divides it**, and so does all that is laid inside. -/
lemma divided (h : Laid c places c') (hc : (Cursor.start text).Leads c) :
    Span.Divided text ⟨c.offset, c'.offset⟩ (places.map Place.span) ∧
      ∀ p ∈ places, p.Divided text := by
  induction h with
  | done rest =>
      refine ⟨⟨⟨rest.offset_le, hc.boundary, (hc.trans rest).boundary⟩, ?_, ?_, .nil⟩, ?_⟩ <;>
        exact nofun
  | @place c d d' c' inner places before inside behind ihInside ihBehind =>
      -- What is inside lies before all that is behind, so that only neighbours need comparing.
      have hd := hc.trans before
      obtain ⟨hinner, hinnerDeep⟩ := ihInside hd
      obtain ⟨hplaces, hdeep⟩ := ihBehind (hd.trans inside.leads)
      have hfirst : c.offset ≤ d'.offset := (before.trans inside.leads).offset_le
      have hordered := Nat.le_trans hfirst hplaces.whole.ordered
      refine ⟨⟨⟨hordered, hc.boundary, hplaces.whole.stop⟩, ?_, ?_, ?_⟩, ?_⟩
      · exact List.forall_mem_cons.2 ⟨hinner.whole, hplaces.cuts⟩
      · refine List.forall_mem_cons.2 ⟨⟨before.offset_le, hplaces.whole.ordered⟩, fun r hr => ?_⟩
        exact (hplaces.inside r hr).imp_left (Nat.le_trans hfirst)
      · exact .cons (fun r hr => (hplaces.inside r hr).1) hplaces.apart
      · exact List.forall_mem_cons.2 ⟨.mk hinner hinnerDeep, hdeep⟩

end Laid

/-! ## What parsers lay -/

/-- Only a parser that is done gives a value. -/
lemma Reply.eq_done_of_toExcept {α : Type} {reply : Reply α} {source : String} {a : α}
    (h : reply.toExcept source = .ok a) : ∃ c, reply = .done a c := by
  cases reply with
  | done b c => exact ⟨c, congrArg (Reply.done · c) (Except.ok.inj h)⟩
  | _ => cases h

namespace Parser

variable {α β : Type} {p q : Parser α} {f : α → List Place} {before : List Place} {c c' : Cursor}
  {a : α}

/-- **A parser lays places behind others**: of those that its value has, these were laid before, and
all others lie in what the parser reads. -/
def LaysBehind (before : List Place) (p : Parser α) (f : α → List Place) : Prop :=
  ∀ c a c', p c = .done a c' → ∃ places, f a = before ++ places ∧ Laid c places c'

/-- **A parser lays the places of its values** in what it reads. -/
def Lays (p : Parser α) (f : α → List Place) : Prop :=
  LaysBehind [] p f

/-- A parser reads on, and no places are asked of it. -/
def Walks (p : Parser α) : Prop :=
  p.Lays fun _ => []

lemma Lays.laid (hp : p.Lays f) (h : p c = .done a c') : Laid c (f a) c' := by
  obtain ⟨places, hplaces, hlaid⟩ := hp c a c' h
  rw [hplaces]
  exact hlaid

lemma Lays.of_laid (h : ∀ c a c', p c = .done a c' → Laid c (f a) c') : p.Lays f :=
  fun c a c' hc => ⟨f a, rfl, h c a c' hc⟩

lemma Lays.walks (hp : p.Lays f) : p.Walks :=
  .of_laid fun _ _ _ hc => .done (hp.laid hc).leads

lemma Walks.leads (hp : p.Walks) (h : p c = .done a c') : c.Leads c' :=
  (hp.laid h).leads

lemma Walks.of_leads (h : ∀ c a c', p c = .done a c' → c.Leads c') : p.Walks :=
  .of_laid fun c a c' hc => .done (h c a c' hc)

namespace LaysBehind

lemma pure (h : f a = before) : LaysBehind before (Pure.pure a) f := fun c b c' hc => by
  obtain ⟨rfl, rfl⟩ := pure_eq_done.1 hc
  exact ⟨[], h.trans (List.append_nil _).symm, .done .refl⟩

lemma expected (wanted : String) : LaysBehind before (expected wanted) f := nofun

lemma bind {q : α → Parser β} {g : β → List Place} (hp : p.Lays f)
    (hq : ∀ a, LaysBehind (before ++ f a) (q a) g) : LaysBehind before (p >>= q) g := by
  intro c b c' hc
  obtain ⟨a, d, ha, hb⟩ := bind_eq_done.1 hc
  obtain ⟨places, hplaces, hlaid⟩ := hq a d b c' hb
  exact ⟨f a ++ places, hplaces.trans (List.append_assoc _ _ _), (hp.laid ha).append hlaid⟩

/-- Behind a parser of which no places are asked. -/
lemma walk {q : α → Parser β} {g : β → List Place} (hp : p.Walks)
    (hq : ∀ a, LaysBehind before (q a) g) : LaysBehind before (p >>= q) g :=
  bind hp fun a => (List.append_nil before).symm ▸ hq a

lemma orElse (hp : LaysBehind before p f) (hq : LaysBehind before q f) :
    LaysBehind before (p <|> q) f := fun _ _ _ hc =>
  (orElse_eq_done.1 hc).elim (hp _ _ _) fun h => hq _ _ _ h.2

lemma commit (hp : LaysBehind before p f) : LaysBehind before p.commit f := fun _ _ _ hc =>
  hp _ _ _ (commit_eq_done.1 hc)

end LaysBehind

namespace Lays

lemma optional (hp : p.Lays f) : p.optional.Lays fun o => o.elim [] f := .of_laid <| by
  intro c o c' hc
  rcases optional_eq_done.1 hc with ⟨a, rfl, ha⟩ | ⟨rfl, rfl, -⟩
  · exact hp.laid ha
  · exact .done .refl

/-- **What notes its range** lays it around all that is laid inside. -/
lemma spanned (hp : p.Lays f) : p.spanned.Lays fun x => [x.place f] := .of_laid <| by
  intro c x c' hc
  obtain ⟨hx, hspan⟩ := spanned_eq_done.1 hc
  rw [show x.place f = ⟨x.span, f x.value⟩ from rfl, hspan]
  exact .place .refl (hp.laid hx) (.done .refl)

lemma many (hp : p.Lays f) : Lays (Parser.many p) fun as => as.flatMap f := .of_laid <| by
  intro c as c' hc
  induction as generalizing c with
  | nil =>
      rcases many_eq_done hc with ⟨-, rfl, -⟩ | ⟨_, _, _, h, -, -⟩
      · exact .done .refl
      · cases h
  | cons a as ih =>
      rcases many_eq_done hc with ⟨h, -, -⟩ | ⟨_, _, d, h, ha, has⟩
      · cases h
      · cases h
        exact (hp.laid ha).append (ih _ has)

lemma sepBy1 {separator : Parser β} (hs : separator.Walks) (hp : p.Lays f) :
    (Parser.sepBy1 separator p).Lays fun as => as.flatMap f :=
  .bind hp fun _ => .bind (many (.walk hs fun _ => hp)) fun _ => .pure rfl

end Lays

end Parser

/-! ## Tokens -/

section Tokens

variable {c c' : Cursor}

lemma char_leads {wanted : Char} {u : Unit} (h : char wanted c = .done u c') : c.Leads c' :=
  ⟨[wanted], char_eq_done.1 h⟩

lemma char_walks (wanted : Char) : (char wanted).Walks := .of_leads fun _ _ _ => char_leads

/-- What follows a character is shorter. -/
lemma char_bind_shorter {α : Type} {wanted : Char} {f : Unit → Parser α} (hf : ∀ u, (f u).Walks)
    (c : Cursor) (a : α) (c' : Cursor) (h : (char wanted >>= f) c = .done a c') :
    c'.rest.length < c.rest.length := by
  obtain ⟨u, d, hchar, hrest⟩ := Parser.bind_eq_done.1 h
  rw [(char_eq_done.1 hchar).1, List.length_cons, Nat.lt_succ_iff]
  exact ((hf u).leads hrest).suffix.length_le

/-- A character that is not read does not stand there. -/
lemma head?_ne_of_char_miss {wanted : Char} {e : Failure} (h : char wanted c = .miss e) :
    c.rest.head? ≠ some wanted := fun hhead => by
  obtain ⟨cs, hcs⟩ := List.head?_eq_some_iff.1 hhead
  cases h.symm.trans (char_eq_done.2 ⟨hcs, rfl⟩ : char wanted c = .done () ⟨_, cs⟩)

lemma word?_leads {word : String} (h : word? c = some (word, c')) : c.Leads c' := by
  rw [word?] at h
  split at h
  · cases h
  · obtain ⟨-, rfl⟩ := Prod.mk.inj (Option.some.inj h)
    exact ⟨c.rest.takeWhile isWordChar, List.takeWhile_append_dropWhile.symm, rfl⟩

lemma keyword_walks (words : List String) : (keyword words).Walks := .of_leads fun _ _ _ hc =>
  word?_leads (keyword_eq_done.1 hc).1

/-- Behind a backslash and the character that it takes. -/
lemma leads_escaped (offset : Nat) (x : Char) (cs : List Char) :
    Cursor.Leads ⟨offset, '\\' :: x :: cs⟩ ⟨offset + 1 + x.utf8Size, cs⟩ :=
  (Cursor.Leads.cons offset '\\' _).trans (.cons _ x cs)

lemma unescapeUntil_leads {stops : Char → Bool} {offset : Nat} {cs ds : List Char}
    (h : unescapeUntil stops offset cs = some (ds, c')) : Cursor.Leads ⟨offset, cs⟩ c' := by
  fun_induction unescapeUntil stops offset cs generalizing ds with
  | case1 offset =>
      cases h
      exact .refl
  | case2 => cases h
  | case3 offset x rest ih =>
      obtain ⟨_, hread, heq⟩ := Option.map_eq_some_iff.1 h
      cases heq
      exact (leads_escaped offset x rest).trans (ih hread)
  | case4 offset x rest _ _ hstop =>
      cases h
      exact .refl
  | case5 offset x rest _ _ _ ih =>
      obtain ⟨_, hread, heq⟩ := Option.map_eq_some_iff.1 h
      cases heq
      exact (Cursor.Leads.cons offset x rest).trans (ih hread)

lemma unescapeQuoted_leads {quote : Char} {offset : Nat} {cs ds : List Char}
    (h : unescapeQuoted quote offset cs = some (ds, c')) : Cursor.Leads ⟨offset, cs⟩ c' := by
  fun_induction unescapeQuoted quote offset cs generalizing ds with
  | case1 => cases h
  | case2 => cases h
  | case3 offset x rest ih =>
      obtain ⟨_, hread, heq⟩ := Option.map_eq_some_iff.1 h
      cases heq
      exact (leads_escaped offset x rest).trans (ih hread)
  | case4 offset rest =>
      cases h
      exact .cons offset quote rest
  | case5 offset x rest _ _ _ ih =>
      obtain ⟨_, hread, heq⟩ := Option.map_eq_some_iff.1 h
      cases heq
      exact (Cursor.Leads.cons offset x rest).trans (ih hread)

lemma escapedText_walks (stops : List Char) (wanted : String) :
    (escapedText stops wanted).Walks := .of_leads fun _ _ _ hc => by
  obtain ⟨_, _, hread, -⟩ := escapedText_eq_done hc
  exact unescapeUntil_leads hread

lemma quotedText_walks (quote : Char) (opening closing : String) :
    (quotedText quote opening closing).Walks := .of_leads fun ⟨offset, rest⟩ text c' hc => by
  rcases quotedText_cases quote opening closing ⟨offset, rest⟩ with
    ⟨cs, _, _, rfl, hread, hreply⟩ | ⟨_, -, -, hreply⟩ | ⟨-, hreply⟩
  · cases hreply.symm.trans hc
    exact (Cursor.Leads.cons offset quote cs).trans (unescapeQuoted_leads hread)
  · cases hreply.symm.trans hc
  · cases hreply.symm.trans hc

end Tokens

end Estate.Parse
