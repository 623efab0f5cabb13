import Mathlib.Tactic.Common
import Estate.Parse.Token

/-!
# What parsers answer

An answer of a composed parser comes from answers of its parts.  Two properties of parsers follow
from those of their parts, and each has one lemma for every way to compose them.

* `Parser.Yields` — every value that is read has a property.
* `Parser.Sure` — the parser never misses, so that no alternative is tried after it.
-/

namespace Estate.Parse

namespace Parser

variable {α β : Type} {p q : Parser α} {f : α → Parser β} {c c' : Cursor} {a : α} {b : β}

/-! ## Answers of composed parsers -/

lemma bind_done (h : p c = .done a c') : (p >>= f) c = f a c' := by
  simp only [bind, h]

lemma bind_eq_done :
    (p >>= f) c = .done b c' ↔ ∃ a d, p c = .done a d ∧ f a d = .done b c' := by
  simp only [bind]
  cases p c <;> simp

lemma bind_eq_miss {e : Failure} :
    (p >>= f) c = .miss e ↔ p c = .miss e ∨ ∃ a d, p c = .done a d ∧ f a d = .miss e := by
  simp only [bind]
  cases p c <;> simp

lemma pure_eq_done {b : α} : (pure a : Parser α) c = .done b c' ↔ a = b ∧ c = c' := by
  simp only [pure, Reply.done.injEq]

lemma orElse_eq_done : (p <|> q) c = .done a c' ↔
    p c = .done a c' ∨ (∃ e, p c = .miss e) ∧ q c = .done a c' := by
  show p.orElse q c = _ ↔ _
  rw [orElse]
  cases p c with
  | miss first => cases q c <;> simp
  | _ => simp

/-- Nothing else is tried where a parser does not miss. -/
lemma orElse_of_not_miss (h : ∀ e, p c ≠ .miss e) : (p <|> q) c = p c := by
  show p.orElse q c = _
  rw [orElse]
  cases hp : p c with
  | miss e => exact absurd hp (h e)
  | _ => rfl

lemma orElse_of_miss {reply : Reply α} (hp : ∃ e, p c = .miss e) (hreply : ∀ e, reply ≠ .miss e)
    (hq : q c = reply) : (p <|> q) c = reply := by
  obtain ⟨first, hp⟩ := hp
  show p.orElse q c = _
  rw [orElse, hp, hq]
  cases reply with
  | miss e => exact absurd rfl (hreply e)
  | _ => rfl

lemma commit_eq_done : p.commit c = .done a c' ↔ p c = .done a c' := by
  rw [commit]
  cases p c <;> simp

lemma optional_eq_done {o : Option α} : p.optional c = .done o c' ↔
    (∃ a, o = some a ∧ p c = .done a c') ∨ o = none ∧ c' = c ∧ ∃ e, p c = .miss e := by
  rw [optional]
  cases p c with
  | done a d => simp [eq_comm]
  | miss e => simp [eq_comm]
  | fatal e => simp

lemma spanned_eq_done {x : Spanned α} : p.spanned c = .done x c' ↔
    p c = .done x.value c' ∧ x.span = ⟨c.offset, c'.offset⟩ := by
  rw [spanned]
  cases p c with
  | done a d =>
      simp only [Reply.done.injEq]
      constructor
      · rintro ⟨rfl, rfl⟩
        exact ⟨⟨rfl, rfl⟩, rfl⟩
      · rintro ⟨⟨rfl, rfl⟩, hspan⟩
        cases x
        simp_all
  | _ => simp

/-- A repetition stops where the parser misses; before that it is done and leaves less. -/
lemma many_eq_done {as : List α} (h : many p c = .done as c') :
    (as = [] ∧ c' = c ∧ ∃ e, p c = .miss e) ∨
      ∃ a bs d, as = a :: bs ∧ p c = .done a d ∧ many p d = .done bs c' := by
  rw [many] at h
  cases hp : p c with
  | done a d =>
      rw [hp] at h
      dsimp only at h
      split at h
      · cases hmany : many p d with
        | done bs d' =>
            rw [hmany, Reply.map, Reply.done.injEq] at h
            exact Or.inr ⟨a, bs, d, h.1.symm, rfl, h.2 ▸ hmany⟩
        | _ =>
            rw [hmany] at h
            cases h
      · cases h
  | miss e =>
      rw [hp] at h
      cases h
      exact Or.inl ⟨rfl, rfl, e, rfl⟩
  | fatal e =>
      rw [hp] at h
      cases h

/-! ## What is read -/

/-- Every value that is read has a property. -/
def Yields (p : Parser α) (P : α → Prop) : Prop :=
  ∀ c a c', p c = .done a c' → P a

namespace Yields

variable {P : α → Prop} {Q : β → Prop}

lemma trivial : p.Yields fun _ => True := fun _ _ _ _ => True.intro

lemma pure (h : P a) : (Pure.pure a : Parser α).Yields P := fun _ _ _ hc =>
  (pure_eq_done.1 hc).1 ▸ h

lemma bind (hp : p.Yields P) (hf : ∀ a, P a → (f a).Yields Q) : (p >>= f).Yields Q := by
  intro c b c' hc
  obtain ⟨a, d, ha, hb⟩ := bind_eq_done.1 hc
  exact hf a (hp _ _ _ ha) _ _ _ hb

lemma orElse (hp : p.Yields P) (hq : q.Yields P) : (p <|> q).Yields P := fun _ _ _ hc =>
  (orElse_eq_done.1 hc).elim (hp _ _ _) fun h => hq _ _ _ h.2

lemma commit (hp : p.Yields P) : p.commit.Yields P := fun _ _ _ hc =>
  hp _ _ _ (commit_eq_done.1 hc)

lemma spanned (hp : p.Yields P) : p.spanned.Yields fun x => P x.value := fun _ _ _ hc =>
  hp _ _ _ (spanned_eq_done.1 hc).1

lemma many (hp : p.Yields P) : Yields (Parser.many p) fun as => ∀ a ∈ as, P a := by
  intro c as c' hc
  induction as generalizing c with
  | nil => exact nofun
  | cons a as ih =>
      rcases many_eq_done hc with ⟨h, -, -⟩ | ⟨_, _, d, h, ha, has⟩
      · cases h
      · cases h
        exact List.forall_mem_cons.2 ⟨hp _ _ _ ha, ih _ has⟩

/-- There is at least one value between separators. -/
lemma sepBy1 {separator : Parser β} (hp : p.Yields P) :
    (Parser.sepBy1 separator p).Yields fun as => as ≠ [] ∧ ∀ a ∈ as, P a :=
  hp.bind fun _ ha => (many (trivial.bind fun _ _ => hp)).bind fun _ has =>
    pure ⟨List.cons_ne_nil _ _, List.forall_mem_cons.2 ⟨ha, has⟩⟩

lemma sepToEnd {separator : Parser β} (hp : p.Yields P) :
    Yields (Parser.sepToEnd separator p) fun as => ∀ a ∈ as, P a := by
  intro c
  fun_induction Parser.sepToEnd separator p c with
  | case1 c a next hread hend =>
      rintro as c' ⟨⟩
      exact List.forall_mem_singleton.2 (hp _ _ _ hread)
  | case2 c a next hread hend _ following hseparator hless ih =>
      intro as c' hc
      cases hrest : Parser.sepToEnd separator p following with
      | done bs d =>
          rw [hrest] at hc
          cases hc
          exact List.forall_mem_cons.2 ⟨hp _ _ _ hread, ih _ _ hrest⟩
      | _ =>
          rw [hrest] at hc
          cases hc
  | _ => exact nofun

end Yields

/-! ## Whether another alternative is tried -/

/-- A parser never misses. -/
def Sure (p : Parser α) : Prop :=
  ∀ c e, p c ≠ .miss e

namespace Sure

lemma pure : (Pure.pure a : Parser α).Sure := nofun

lemma bind (hp : p.Sure) (hf : ∀ a, (f a).Sure) : (p >>= f).Sure := fun _ _ hc =>
  (bind_eq_miss.1 hc).elim (hp _ _) fun ⟨a, _, _, h⟩ => hf a _ _ h

lemma commit : p.commit.Sure := by
  intro c e
  rw [Parser.commit]
  cases p c <;> simp

lemma optional : p.optional.Sure := by
  intro c e
  rw [Parser.optional]
  cases p c <;> simp

/-- A repetition misses only if a round leaves as much as there was. -/
lemma many (hp : ∀ c a c', p c = .done a c' → c'.rest.length < c.rest.length) :
    Sure (Parser.many p) := by
  intro c
  fun_induction Parser.many p c with
  | case1 c a d hd hless ih =>
      intro e h
      cases hmany : Parser.many p d with
      | miss e' => exact ih e' hmany
      | _ =>
          rw [hmany] at h
          cases h
  | case2 c a d hd hless => exact absurd (hp _ _ _ hd) hless
  | case3 => exact nofun
  | case4 => exact nofun

end Sure

end Parser

/-! ## Tokens -/

section Tokens

variable {c c' : Cursor}

lemma char_eq_done {wanted : Char} {u : Unit} :
    char wanted c = .done u c' ↔ c.rest = wanted :: c'.rest ∧
      c'.offset = c.offset + wanted.utf8Size := by
  obtain ⟨offset, rest⟩ := c
  obtain ⟨offset', rest'⟩ := c'
  rw [char]
  cases rest with
  | nil => simp
  | cons d rest =>
      dsimp only
      split
      · next h =>
          subst h
          simp [eq_comm, and_comm]
      · next h => simp [h]

lemma keyword_eq_done {words : List String} {word : String} :
    keyword words c = .done word c' ↔ word? c = some (word, c') ∧ word ∈ words := by
  rw [keyword]
  cases hword : word? c with
  | none => simp
  | some found =>
      obtain ⟨found, after⟩ := found
      simp only
      split
      · next hmem =>
          rw [List.contains_iff_mem] at hmem
          simp only [Reply.done.injEq, Option.some.injEq, Prod.mk.injEq]
          constructor
          · rintro ⟨rfl, rfl⟩
            exact ⟨⟨rfl, rfl⟩, hmem⟩
          · exact fun h => h.1
      · next hmem =>
          rw [List.contains_iff_mem] at hmem
          simp only [reduceCtorEq, Option.some.injEq, Prod.mk.injEq, false_iff, not_and]
          rintro ⟨rfl, -⟩
          exact hmem

lemma keyword_yields (words : List String) : (keyword words).Yields (· ∈ words) :=
  fun _ _ _ h =>
  (keyword_eq_done.1 h).2

/-- Behind a keyword that stands there, a sure parser cannot miss. -/
lemma not_mem_of_keyword_miss {α : Type} {words : List String} {f : String → Parser α}
    {word : String} {e : Failure} (hword : word? c = some (word, c'))
    (hmiss : (keyword words >>= f) c = .miss e) (hf : (f word).Sure) :
    word ∉ words := fun hmem => by
  rw [Parser.bind_done (keyword_eq_done.2 ⟨hword, hmem⟩)] at hmiss
  exact hf _ _ hmiss

/-- Another word than those that are wanted. -/
lemma keyword_bind_miss {α : Type} {words : List String} {f : String → Parser α} {word : String}
    (hword : word? c = some (word, c')) (h : word ∉ words) :
    ∃ e, (keyword words >>= f) c = .miss e := by
  refine ⟨wantsAny c.offset words, Parser.bind_eq_miss.2 (.inl ?_)⟩
  rw [keyword, hword]
  simp only [List.contains_iff_mem, if_neg h]

lemma escapedText_eq_done {stops : List Char} {wanted text : String}
    (h : escapedText stops wanted c = .done text c') :
    ∃ d ds, unescapeUntil stops.contains c.offset c.rest = some (d :: ds, c') ∧
      text = String.ofList (d :: ds) := by
  rw [escapedText] at h
  split at h
  · cases h
  · cases h
  · next cs after hne hread =>
      cases h
      cases cs with
      | nil => exact (hne rfl).elim
      | cons d ds => exact ⟨d, ds, hread, rfl⟩

lemma unescapeUntil_stops {stops : Char → Bool} {offset : Nat} {cs ds : List Char}
    (h : unescapeUntil stops offset cs = some (ds, c')) : ∀ x ∈ c'.rest.head?, stops x := by
  fun_induction unescapeUntil stops offset cs generalizing ds with
  | case1 offset =>
      cases h
      exact nofun
  | case2 => cases h
  | case3 offset x rest ih =>
      obtain ⟨_, hread, heq⟩ := Option.map_eq_some_iff.1 h
      cases heq
      exact ih hread
  | case4 offset x rest _ _ hstop =>
      cases h
      rintro _ ⟨⟩
      exact hstop
  | case5 offset x rest _ _ _ ih =>
      obtain ⟨_, hread, heq⟩ := Option.map_eq_some_iff.1 h
      cases heq
      exact ih hread

/-- An escaped text is followed by one of its stops, or by nothing. -/
lemma escapedText_stops {stops : List Char} {wanted text : String}
    (h : escapedText stops wanted c = .done text c') : ∀ x ∈ c'.rest.head?, x ∈ stops :=
  fun x hx => by
    obtain ⟨_, _, hread, -⟩ := escapedText_eq_done h
    exact List.contains_iff_mem.1 (unescapeUntil_stops hread x hx)

/-- An escaped text is never empty. -/
lemma escapedText_yields (stops : List Char) (wanted : String) :
    (escapedText stops wanted).Yields (· ≠ "") := fun _ _ _ h hempty => by
  obtain ⟨d, ds, -, rfl⟩ := escapedText_eq_done h
  cases String.ofList_eq_empty_iff.1 hempty

/-- **What is answered for a quoted text**: where a quote stands that is closed, where one stands
that is not, and anywhere else. -/
lemma quotedText_cases (quote : Char) (opening closing : String) (c : Cursor) :
    (∃ cs text c', c.rest = quote :: cs ∧
        unescapeQuoted quote (c.offset + quote.utf8Size) cs = some (text, c') ∧
        quotedText quote opening closing c = .done (String.ofList text) c') ∨
      (∃ cs, c.rest = quote :: cs ∧ unescapeQuoted quote (c.offset + quote.utf8Size) cs = none ∧
        quotedText quote opening closing c = .fatal (.leaf c.finish (.text closing))) ∨
      (¬ ∃ cs, c.rest = quote :: cs) ∧
        quotedText quote opening closing c = .miss (.leaf c.offset (.text opening)) := by
  rw [quotedText]
  rcases c.rest with _ | ⟨d, cs⟩
  · refine Or.inr (Or.inr ⟨?_, rfl⟩)
    rintro ⟨cs, h⟩
    cases h
  by_cases hd : d = quote
  · subst hd
    dsimp only
    rw [if_pos rfl]
    rcases hread : unescapeQuoted d (c.offset + d.utf8Size) cs with _ | ⟨text, after⟩
    · exact Or.inr (Or.inl ⟨cs, rfl, hread, rfl⟩)
    · exact Or.inl ⟨cs, text, after, rfl, hread, rfl⟩
  · refine Or.inr (Or.inr ⟨?_, if_neg hd⟩)
    rintro ⟨cs', h⟩
    exact hd (List.cons.inj h).1

end Tokens

end Estate.Parse
