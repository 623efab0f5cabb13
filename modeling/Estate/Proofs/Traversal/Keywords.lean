import Estate.Proofs.Traversal.Written

/-!
# Words that start steps are not ids

Some words always start a step.  The grammar tries their steps before ids and commits once such a
word has been read, and it looks ahead for them behind a collection, where an id may follow.  So no
text that begins with one of these words is read as an id, neither that of a step without a type nor
that of a collection.

* `StartsPlainly` — a text begins with no such word, and with no type either.
* `Grammar.steps_read` — each step of a traversal was read by the parser for one step.
* `Grammar.collection_id` — the id of a collection was read behind a look ahead.
* **`Traversal.keywords_start_steps`** — a step that begins with such a word was read by the parser
  of that word, and no id begins with one.
-/

namespace Estate

open Parse Text

/-! ## What texts begin with -/

/-- The word that a text begins with. -/
def firstWord (cs : List Char) : String :=
  String.ofList (cs.takeWhile isWordChar)

/-- A text begins with the code or the name of a kind and a semicolon. -/
def BeginsTyped (cs : List Char) : Prop :=
  (Kind.ofWord? (firstWord cs)).isSome ∧ (cs.dropWhile isWordChar).head? = some ';'

/-- **A text begins with no word that starts a step**, and with no type, whether what follows the
text is looked at or not. -/
structure StartsPlainly (cs rest : List Char) : Prop where
  word : ¬ Grammar.isStepWord (firstWord cs)
  typed : ¬ BeginsTyped cs
  typedBehind : ¬ BeginsTyped (cs ++ rest)

section Words

variable {cs rest : List Char} {c : Cursor}

lemma firstWord_append (h : WordEnds rest) : firstWord (cs ++ rest) = firstWord cs := by
  refine congrArg String.ofList ?_
  induction cs with
  | nil =>
      cases rest with
      | nil => rfl
      | cons x rest => exact List.takeWhile_cons_of_neg (by simp [h x rfl])
  | cons x cs ih => rw [List.cons_append, List.takeWhile_cons, List.takeWhile_cons, ih]

lemma all_firstWord (cs : List Char) : (firstWord cs).toList.all isWordChar := by
  rw [firstWord, String.toList_ofList]
  exact List.all_takeWhile

/-- A text is the word that it begins with and what follows it, which is not in the word. -/
lemma firstWord_split (cs : List Char) :
    (firstWord cs).toList ++ cs.dropWhile isWordChar = cs ∧ WordEnds (cs.dropWhile isWordChar) := by
  refine ⟨?_, fun c hc => ?_⟩
  · rw [firstWord, String.toList_ofList, List.takeWhile_append_dropWhile]
  · have hstop := List.head?_dropWhile_not isWordChar cs
    rwa [Option.mem_def.1 hc] at hstop

/-- What a text begins with does not depend on what follows it. -/
lemma BeginsTyped.append (h : BeginsTyped cs) (rest : List Char) : BeginsTyped (cs ++ rest) := by
  obtain ⟨hkind, hhead⟩ := h
  obtain ⟨more, hmore⟩ := List.head?_eq_some_iff.1 hhead
  have hcs : cs ++ rest = (firstWord cs).toList ++ ';' :: (more ++ rest) := by
    rw [← List.cons_append, ← hmore, ← List.append_assoc, (firstWord_split cs).1]
  have hends : WordEnds (';' :: (more ++ rest)) := wordEnds_cons (by decide)
  obtain ⟨htake, hdrop⟩ := takeWhile_word (all_firstWord cs) hends
  rw [BeginsTyped, firstWord, hcs, htake, hdrop, String.ofList_toList]
  exact ⟨hkind, rfl⟩

lemma word?_of_firstWord (hne : firstWord c.rest ≠ "") :
    word? c = some (firstWord c.rest,
      ⟨c.offset + byteLength (c.rest.takeWhile isWordChar), c.rest.dropWhile isWordChar⟩) := by
  have hfound : (c.rest.takeWhile isWordChar).isEmpty = false := by
    rw [List.isEmpty_eq_false_iff]
    exact fun h => hne (congrArg String.ofList h)
  rw [word?]
  simp only [hfound, Bool.false_eq_true, if_false]
  rfl

lemma firstWord_of_wordEnds (h : WordEnds rest) : firstWord rest = "" := by
  rw [← List.nil_append rest, firstWord_append h]
  rfl

/-- A text is not taken for one that starts with other words. -/
lemma keyword_misses_of_firstWord {words : List String} (h : firstWord cs ∉ words) :
    (keyword words).Misses cs := fun offset => by
  by_cases hne : firstWord cs = ""
  · have hends : WordEnds cs := by
      rintro c hc
      obtain ⟨more, rfl⟩ := List.head?_eq_some_iff.1 hc
      by_contra hword
      rw [firstWord, List.takeWhile_cons_of_pos (Bool.not_eq_false _ ▸ hword)] at hne
      cases String.ofList_eq_empty_iff.1 hne
    exact keyword_misses_of_wordEnds hends offset
  · refine ⟨wantsAny offset words, ?_⟩
    rw [keyword, word?_of_firstWord (c := ⟨offset, cs⟩) hne]
    simp only [List.contains_iff_mem, if_neg h]

namespace Grammar

/-- **Where no step of its own starts**, there is no word of a step and no type. -/
lemma plain_of_startsStep (h : startsStep c = false) :
    ¬ isStepWord (firstWord c.rest) ∧ ¬ BeginsTyped c.rest := by
  by_cases hne : firstWord c.rest = ""
  · rw [BeginsTyped, hne]
    exact ⟨by decide, fun h => absurd h.1 (by decide)⟩
  · rw [startsStep, word?_of_firstWord hne, Bool.or_eq_false_iff] at h
    refine ⟨Bool.not_eq_true _ ▸ h.1, ?_⟩
    rintro ⟨hkind, hhead⟩
    rw [hhead, hkind] at h
    cases h.2

/-- What stands before a place where words end begins plainly if no step of its own starts. -/
lemma startsPlainly_of_startsStep (h : startsStep c = false) (hcs : c.rest = cs ++ rest)
    (hrest : WordEnds rest) : StartsPlainly cs rest := by
  obtain ⟨hword, htyped⟩ := plain_of_startsStep h
  rw [hcs] at hword htyped
  exact ⟨firstWord_append hrest ▸ hword, fun h => htyped (h.append rest), htyped⟩

end Grammar

end Words

/-! ## Where steps and ids are read -/

/-- The id that a step takes an entity of a collection by. -/
def Step.collected : Step → Option (Spanned String)
  | .collection c => c.id
  | _ => none

namespace Grammar

variable {c c' : Cursor}

/-- A step was read by the parser for one step, up to a place where steps end. -/
structure ReadAt (s : Spanned Step) (d d' : Cursor) : Prop where
  read : step d = .done s.value d'
  span : s.span = ⟨d.offset, d'.offset⟩
  ends : StepEnds d'.rest

lemma others_read {others : List (Spanned Step)}
    (h : Parser.many (do char '/'; (Parser.spanned step).commit) c = .done others c')
    (hend : c'.rest = []) :
    StepEnds c.rest ∧ ∀ s ∈ others, ∃ d d', c.Leads d ∧ ReadAt s d d' := by
  induction others generalizing c with
  | nil =>
      rcases Parser.many_eq_done h with ⟨-, rfl, -⟩ | ⟨_, _, _, hcons, -, -⟩
      · exact ⟨by rw [hend]; exact nofun, nofun⟩
      · cases hcons
  | cons s others ih =>
      rcases Parser.many_eq_done h with ⟨hcons, -, -⟩ | ⟨_, _, d', hcons, hs, hothers⟩
      · cases hcons
      · cases hcons
        obtain ⟨u, d, hchar, hstep⟩ := Parser.bind_eq_done.1 hs
        obtain ⟨hread, hspan⟩ := Parser.spanned_eq_done.1 (Parser.commit_eq_done.1 hstep)
        obtain ⟨hends, hbehind⟩ := ih hothers
        have hd := char_leads hchar
        refine ⟨?_, List.forall_mem_cons.2 ⟨⟨d, d', hd, hread, hspan, hends⟩, fun s hs => ?_⟩⟩
        · rw [(char_eq_done.1 hchar).1]
          rintro _ ⟨⟩
          rfl
        · obtain ⟨e, e', he, hreadAt⟩ := hbehind s hs
          exact ⟨e, e', (hd.trans (step_lays.laid hread).leads).trans he, hreadAt⟩

/-- **Each step of a traversal** was read by the parser for one step. -/
lemma steps_read {t : Traversal} (h : traversal c = .done t c') :
    ∀ s ∈ t.steps, ∃ d d', c.Leads d ∧ ReadAt s d d' := by
  obtain ⟨_, c₁, habsolute, h⟩ := Parser.bind_eq_done.1 h
  obtain ⟨first, c₂, hfirst, h⟩ := Parser.bind_eq_done.1 h
  obtain ⟨others, c₃, hothers, h⟩ := Parser.bind_eq_done.1 h
  obtain ⟨_, _, hfinished, h⟩ := Parser.bind_eq_done.1 h
  obtain ⟨rfl, -⟩ := Parser.pure_eq_done.1 h
  obtain ⟨hends, hbehind⟩ := others_read hothers (finished_done hfinished).2
  obtain ⟨hread, hspan⟩ := Parser.spanned_eq_done.1 (Parser.commit_eq_done.1 hfirst)
  have hc₁ := (absolute_done habsolute).1
  refine List.forall_mem_cons.2 ⟨⟨c₁, c₂, hc₁, hread, hspan, hends⟩, fun s hs => ?_⟩
  obtain ⟨d, d', hd, hreadAt⟩ := hbehind s hs
  exact ⟨d, d', (hc₁.trans (step_lays.laid hread).leads).trans hd, hreadAt⟩

/-- An id was read at a place where no step of its own starts. -/
structure IdReadAt (x : Spanned String) (d d' : Cursor) : Prop where
  read : id d = .done x.value d'
  span : x.span = ⟨d.offset, d'.offset⟩
  plain : startsStep d = false

lemma collectionId_done {x : Spanned String × FilterSpecs} (h : collectionId c = .done x c') :
    ∃ d d', c.Leads d ∧ IdReadAt x.1 d d' := by
  obtain ⟨_, d, hslash, -⟩ := Parser.bind_eq_done.1 h
  rw [collectionId_of_slash hslash] at h
  split_ifs at h with hstart
  obtain ⟨x, d', hid, h⟩ := Parser.bind_eq_done.1 h
  obtain ⟨_, _, -, h⟩ := Parser.bind_eq_done.1 h
  obtain ⟨rfl, -⟩ := Parser.pure_eq_done.1 h
  obtain ⟨hread, hspan⟩ := Parser.spanned_eq_done.1 hid
  exact ⟨d, d', char_leads hslash, hread, hspan, Bool.not_eq_true _ ▸ hstart⟩

/-- **The id of a collection** was read behind a look ahead. -/
lemma collection_id {s : Step} {x : Spanned String} (h : collection c = .done s c')
    (hx : s.collected = some x) : ∃ d d', c.Leads d ∧ IdReadAt x d d' := by
  obtain ⟨word, c₁, hword, h⟩ := Parser.bind_eq_done.1 h
  cases hkind : Kind.ofPlural? word with
  | none =>
      rw [hkind] at h
      cases h
  | some kind =>
      simp only [hkind] at h
      obtain ⟨_, c₂, hrecursive, h⟩ := Parser.bind_eq_done.1 h
      obtain ⟨_, c₃, hfilters, h⟩ := Parser.bind_eq_done.1 h
      obtain ⟨found, _, hfound, h⟩ := Parser.bind_eq_done.1 h
      obtain ⟨rfl, -⟩ := Parser.pure_eq_done.1 h
      rcases Parser.optional_eq_done.1 hfound with ⟨y, rfl, hy⟩ | ⟨rfl, -, -⟩
      · cases hx
        obtain ⟨d, d', hd, hid⟩ := collectionId_done hy
        have hc₁ := (keyword_walks _).leads hword
        have hc₂ : c₁.Leads c₂ := by
          refine Parser.Walks.leads ?_ hrecursive
          exact (Parser.Lays.optional (.walk (char_walks _) fun _ =>
            (keyword_walks _).commit)).walks
        have hc₃ := ((filters_lays _).laid hfilters).leads
        exact ⟨d, d', ((hc₁.trans hc₂).trans hc₃).trans hd, hid⟩
      · cases hx

/-- Only the parser of collections reads a step that takes an entity of one. -/
lemma collection_of_step {s : Step} {x : Spanned String} (h : step c = .done s c')
    (hx : s.collected = some x) : collection c = .done s c' := by
  have hnone {p : Parser Step} (hp : p.Yields (·.collected = none)) : p c ≠ .done s c' :=
    fun hread => by cases hx.symm.trans (hp _ _ _ hread)
  rcases Parser.orElse_eq_done.1 h with h | ⟨-, h⟩
  · refine absurd h (hnone ?_)
    exact .bind .trivial fun _ _ => .bind .trivial fun ⟨_, _⟩ _ => .bind .trivial fun _ _ =>
      .bind .trivial fun _ _ => .pure rfl
  rcases Parser.orElse_eq_done.1 h with h | ⟨-, h⟩
  · refine absurd h (hnone ?_)
    exact .bind .trivial fun _ _ => .bind .trivial fun ⟨_, _⟩ _ => .bind .trivial fun _ _ =>
      .pure rfl
  rcases Parser.orElse_eq_done.1 h with h | ⟨-, h⟩
  · exact absurd h (hnone (.bind .trivial fun _ _ => .pure rfl))
  rcases Parser.orElse_eq_done.1 h with h | ⟨-, h⟩
  · exact h
  rcases Parser.orElse_eq_done.1 h with h | ⟨-, h⟩
  · refine absurd h (hnone ?_)
    exact .bind .trivial fun _ _ => .bind .trivial fun _ _ => .bind .trivial fun _ _ =>
      .bind .trivial fun _ _ => .pure rfl
  · exact absurd h (hnone (.bind .trivial fun _ _ => .bind .trivial fun _ _ => .pure rfl))

end Grammar

/-! ## All steps of a text -/

/-- **A step takes no word that starts a step for an id.**  If its text begins with such a word,
then it was read by the parser of that word; the text of a step without a type begins plainly; and
so does the text of an id that an entity of a collection is taken by. -/
structure Step.KeepsWords (text : String) (s : Spanned Step) (cs rest : List Char) : Prop where
  held : s.span.Holds text cs rest
  own : Grammar.isStepWord (firstWord cs) →
    Grammar.keywordStep (firstWord cs) ⟨s.span.start, cs ++ rest⟩ =
      .done s.value ⟨s.span.stop, rest⟩
  untyped : s.value.isUntyped → StartsPlainly cs rest
  collected : ∀ x, s.value.collected = some x →
    ∃ ds more, x.span.Holds text ds more ∧ StartsPlainly ds more

namespace Grammar

variable {c c' d d' : Cursor} {text : String}

lemma IdReadAt.startsPlainly {x : Spanned String} (h : IdReadAt x d d')
    (hd : (Cursor.start text).Leads d) :
    ∃ ds more, x.span.Holds text ds more ∧ StartsPlainly ds more := by
  obtain ⟨ds, hrest, hholds⟩ := hd.holds ((escapedText_walks _ _).leads h.read)
  have hends : Delimited d'.rest := escapedText_stops h.read
  exact ⟨ds, d'.rest, h.span ▸ hholds, startsPlainly_of_startsStep h.plain hrest hends.wordEnds⟩

lemma ReadAt.keepsWords {s : Spanned Step} (h : ReadAt s d d')
    (hd : (Cursor.start text).Leads d) : ∃ cs rest, Step.KeepsWords text s cs rest := by
  obtain ⟨cs, hrest, hholds⟩ := hd.holds (step_lays.laid h.read).leads
  have hends := h.ends.delimited.wordEnds
  refine ⟨cs, d'.rest, h.span ▸ hholds, fun hword => ?_, fun huntyped => ?_, fun x hx => ?_⟩
  · have hne : firstWord cs ≠ "" := fun hempty => by
      rw [hempty] at hword
      exact absurd hword (by decide)
    rw [← firstWord_append hends, ← hrest] at hne hword ⊢
    rw [h.span, ← h.read]
    exact (step_eq_keywordStep (word?_of_firstWord hne) hword).symm
  · exact startsPlainly_of_startsStep ((step_done h.read).2.2 huntyped).1 hrest hends
  · obtain ⟨e, e', he, hid⟩ := collection_id (collection_of_step h.read hx) hx
    exact hid.startsPlainly (hd.trans he)

end Grammar

/-- **Words that start steps are never read as ids.**  Each step of a traversal keeps them; and
where such a word stands, a step is what the parser of the word reads, or there is no way back. -/
theorem Traversal.keywords_start_steps :
    (∀ text k t, parseAt text k = .ok t →
      ∀ s ∈ t.steps, ∃ cs rest, Step.KeepsWords text s cs rest) ∧
    (∀ text t, parse text = .ok t → ∀ s ∈ t.steps, ∃ cs rest, Step.KeepsWords text s cs rest) ∧
    ∀ c word after, word? c = some (word, after) → Grammar.isStepWord word →
      Grammar.step c = Grammar.keywordStep word c ∧ ∀ e, Grammar.step c ≠ .miss e := by
  refine ⟨fun text k t h s hs => ?_, fun text t h s hs => ?_, fun c word after hword hstep => ?_⟩
  · obtain ⟨_, hread⟩ := Reply.eq_done_of_toExcept h
    obtain ⟨d, d', hd, hreadAt⟩ := Grammar.steps_read hread s hs
    exact hreadAt.keepsWords ((Cursor.leads_at text k).trans hd)
  · obtain ⟨_, hread⟩ := Reply.eq_done_of_toExcept h
    obtain ⟨d, d', hd, hreadAt⟩ := Grammar.steps_read hread s hs
    exact hreadAt.keepsWords hd
  · have hown := Grammar.step_eq_keywordStep hword hstep
    exact ⟨hown, fun e he => Grammar.keywordStep_not_miss hword hstep e (hown ▸ he)⟩

/-- Longer words and escaped ones are ids, behind a collection and as steps; a word that goes on
wrongly is no id. -/
theorem escapedWord_kept :
    let text := "größe: tenants/rlx/rl/entities/\\identical"
    let tenants : CollectionStep := ⟨.tenant, false, [], some ⟨⟨17, 20⟩, "rlx"⟩, []⟩
    let links : RelationshipStep := ⟨none, .outgoing, [], some ⟨⟨24, 32⟩, .entities []⟩⟩
    let t : Traversal := ⟨false, [⟨⟨9, 20⟩, .collection tenants⟩, ⟨⟨21, 32⟩, .relationships links⟩,
      ⟨⟨33, 43⟩, .entity ⟨none, "identical", []⟩⟩]⟩
    (Traversal.parseAt text 9 = .ok t ∧
      ∀ s ∈ t.steps, ∃ cs rest, Step.KeepsWords text s cs rest) ∧
    (Traversal.parse "identical" = .ok ⟨false, [⟨⟨0, 9⟩, .identical⟩]⟩ ∧
      ∃ cs rest, Step.KeepsWords "identical" ⟨⟨0, 9⟩, .identical⟩ cs rest) ∧
    Grammar.step (.start "recursive;over") = Grammar.recursive (.start "recursive;over") := by
  intro text tenants links t
  obtain ⟨hparseAt, hparse, hstep⟩ := Traversal.keywords_start_steps
  have hread : Traversal.parseAt text 9 = .ok t := by decide +kernel
  have hread' : Traversal.parse "identical" = .ok ⟨false, [⟨⟨0, 9⟩, .identical⟩]⟩ := by
    decide +kernel
  have hword : word? (.start "recursive;over") = some ("recursive", ⟨9, ";over".toList⟩) := by
    decide +kernel
  exact ⟨⟨hread, hparseAt text 9 t hread⟩, ⟨hread', hparse _ _ hread' _ List.mem_cons_self⟩,
    (hstep _ _ _ hword (by decide)).1⟩

end Estate
