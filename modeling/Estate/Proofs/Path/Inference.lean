import Mathlib.Data.List.Forall2
import Estate.Path.Inference
import Estate.Proofs.Parse.Answers
import Estate.Proofs.Path.Legal

/-!
# Which types a text can mean

A typing of the segments of a text is *legal* if it keeps every type that is written, every kind may
stand below the one before it, and the last one is of the kind that is expected.  The types of a
text are *settled* if, from left to right, each of them is the only one that can follow those before
it in a legal typing; an environment is preferred to a feed.

* `mem_backward` — the candidates of the backward pass are the kinds legal endings start with.
* `choose_inferred` — choosing from left to right never strands a legal typing, so that one that is
  settled is found if there is one.
* **`CanonicalPath.resolve_exact`** — a text with missing types is read as its settled legal typing;
  if it has no legal typing this is what is reported, and otherwise that the text is ambiguous.
* `Settled.narrow` — what is settled stays so if less is legal.
* `CanonicalPath.resolve_undesignated` — what becomes of all other texts.
* `CanonicalPath.kind_of_resolve` — a path that is read is of the kind that is expected.
-/

namespace Estate

open Parse

/-! ## Legal and settled typings -/

/-- **A legal typing** of segments with these labels, the first of which has to fit. -/
structure LegalTyping (fits : Kind → Bool) (expected : Option Kind) (labels : List (Option Kind))
    (ts : List Kind) : Prop where
  start : ∀ t ∈ ts.head?, fits t
  steps : ts.IsChain fun above below => above.canContain below
  labelled : List.Forall₂ (fun label t => ∀ k ∈ label, t = k) labels ts
  last : ∀ t ∈ ts.getLast?, ∀ k ∈ expected, t = k

/-- A kind can follow others in a legal typing. -/
def Follows (legal : List Kind → Prop) (before : List Kind) (k : Kind) : Prop :=
  ∃ rest, legal (before ++ k :: rest)

/-- Among the kinds that may stand somewhere, this one is meant: there is no other, or it is an
environment and the only other one is a feed. -/
def Meant (may : Kind → Prop) (t : Kind) : Prop :=
  (∀ k, may k ↔ k = t) ∨ t = .environment ∧ ∀ k, may k ↔ k = .environment ∨ k = .feed

/-- **A settled typing**: each of its kinds is the one that is meant among those that can follow the
kinds before it. -/
def Settled (legal : List Kind → Prop) (ts : List Kind) : Prop :=
  ∀ before t rest, ts = before ++ t :: rest → Meant (Follows legal before) t

/-- **What inferring types answers**, given the legal typings and what each of them makes of the
text. -/
inductive Inferred {α : Type} (legal : List Kind → Prop) (reads : List Kind → α → Prop) :
    Except PathError α → Prop
  | exact {ts a} (is_legal : legal ts) (settled : Settled legal ts) (read : reads ts a) :
      Inferred legal reads (.ok a)
  | impossible {id} (none : ∀ ts, ¬ legal ts) : Inferred legal reads (.error (.noKindFits id))
  | ambiguous {id kinds} (some : ∃ ts, legal ts) (unsettled : ∀ ts, legal ts → ¬ Settled legal ts) :
      Inferred legal reads (.error (.ambiguous id kinds))

section Typings

variable {fits : Kind → Bool} {expected label : Option Kind} {labels : List (Option Kind)}
  {legal : List Kind → Prop} {t k : Kind} {ts : List Kind}

lemma admits_iff : admits label k ↔ ∀ k' ∈ label, k = k' := by
  cases label with
  | none => exact ⟨nofun, fun _ => rfl⟩
  | some k' =>
      simp only [admits, Option.all_some, beq_iff_eq, Option.mem_def, Option.some.injEq,
        forall_eq']
      exact eq_comm

lemma Meant.may {may : Kind → Prop} (h : Meant may t) : may t := by
  rcases h with h | ⟨rfl, h⟩
  · exact (h t).2 rfl
  · exact (h _).2 (Or.inl rfl)

/-- No more than one kind is meant. -/
lemma Meant.unique {may : Kind → Prop} {u : Kind} (ht : Meant may t) (hu : Meant may u) :
    t = u := by
  rcases ht with ht | ⟨rfl, ht⟩
  · exact ((ht u).1 hu.may).symm
  · rcases hu with hu | ⟨rfl, -⟩
    · exact (hu _).1 ((ht _).2 (Or.inl rfl))
    · rfl

/-- A kind is still meant if others become impossible. -/
lemma Meant.narrow {may may' : Kind → Prop} (h : Meant may t) (hless : ∀ k, may' k → may k)
    (ht : may' t) : Meant may' t := by
  rcases h with h | ⟨rfl, h⟩
  · refine Or.inl fun k => ⟨fun hk => (h k).1 (hless k hk), ?_⟩
    rintro rfl
    exact ht
  · by_cases hfeed : may' .feed
    · refine Or.inr ⟨rfl, fun k => ⟨fun hk => (h k).1 (hless k hk), ?_⟩⟩
      rintro (rfl | rfl)
      · exact ht
      · exact hfeed
    · refine Or.inl fun k => ⟨fun hk => ?_, ?_⟩
      · rcases (h k).1 (hless k hk) with rfl | rfl
        · rfl
        · exact absurd hk hfeed
      · rintro rfl
        exact ht

/-- **A settled typing stays settled if others become illegal.** -/
lemma Settled.narrow {legal' : List Kind → Prop} (h : Settled legal ts)
    (hless : ∀ us, legal' us → legal us) (hts : legal' ts) : Settled legal' ts :=
  fun before t rest hsplit => (h before t rest hsplit).narrow
    (fun _ ⟨rest, hrest⟩ => ⟨rest, hless _ hrest⟩) ⟨rest, hsplit ▸ hts⟩

/-- The kind a legal typing starts with, and what is left of it. -/
lemma legalTyping_cons : LegalTyping fits expected (label :: labels) (t :: ts) ↔
    (admits label t ∧ fits t ∧ (labels = [] → admits expected t)) ∧
      LegalTyping t.canContain expected labels ts := by
  rw [admits_iff, admits_iff]
  constructor
  · intro h
    obtain ⟨hlabel, hlabels⟩ := List.forall₂_cons.1 h.labelled
    refine ⟨⟨hlabel, h.start t rfl, ?_⟩, ?_, h.steps.tail, hlabels, ?_⟩
    · rintro rfl
      obtain rfl := List.forall₂_nil_left_iff.1 hlabels
      exact h.last t rfl
    · exact (List.isChain_cons.1 h.steps).1
    · intro u hu
      refine h.last u ?_
      rw [List.getLast?_cons, hu]
      rfl
  · rintro ⟨⟨hlabel, hfits, hexpected⟩, h⟩
    refine ⟨?_, List.isChain_cons.2 ⟨h.start, h.steps⟩, .cons hlabel h.labelled, ?_⟩
    · rintro _ ⟨⟩
      exact hfits
    · intro u hu
      cases ts with
      | nil =>
          obtain rfl := List.forall₂_nil_right_iff.1 h.labelled
          obtain rfl : t = u := by simpa using hu
          exact hexpected rfl
      | cons t' ts => exact h.last u hu

lemma legalTyping_nil : LegalTyping fits expected [] ts ↔ ts = [] := by
  constructor
  · exact fun h => List.forall₂_nil_left_iff.1 h.labelled
  · rintro rfl
    exact ⟨nofun, .nil, .nil, nofun⟩

lemma not_legalTyping_nil : ¬ LegalTyping fits expected (label :: labels) [] := fun h => by
  cases h.labelled

/-- What is so of the rest of a typing in which the first kind has been fixed. -/
lemma settled_cons : Settled legal (t :: ts) ↔
    Meant (Follows legal []) t ∧ Settled (fun us => legal (t :: us)) ts := by
  constructor
  · refine fun h => ⟨h [] t ts rfl, fun before u rest hts => h (t :: before) u rest ?_⟩
    rw [hts, List.cons_append]
  · rintro ⟨hfirst, hrest⟩ before u rest hts
    cases before with
    | nil =>
        obtain ⟨rfl, rfl⟩ := List.cons.inj hts
        exact hfirst
    | cons t' before =>
        obtain ⟨rfl, rfl⟩ := List.cons.inj hts
        exact hrest before u rest rfl

/-- The only legal typing is settled. -/
lemma Settled.of_unique (hts : legal ts) (hunique : ∀ us, legal us → us = ts) :
    Settled legal ts := by
  intro before t rest hsplit
  refine Or.inl fun k => ⟨?_, ?_⟩
  · rintro ⟨rest', hk⟩
    have hsame := (hunique _ hk).trans hsplit
    exact (List.cons.inj (List.append_cancel_left hsame)).1
  · rintro rfl
    exact ⟨rest, hsplit ▸ hts⟩

end Typings

/-! ## Settling on a kind -/

variable {fits : Kind → Bool} {expected : Option Kind} {k : Kind}

/-- The candidates are a list without repetitions in the order of the kinds, so that what is in the
list says what the list is. -/
lemma settle_spec (id : String) {test : Kind → Bool} {may : Kind → Prop}
    (htest : ∀ k, test k ↔ may k) :
    (∃ t, settle id (Kind.all.filter test) = .ok t ∧ Meant may t) ∨
      (settle id (Kind.all.filter test) = .error (.noKindFits id) ∧ ∀ k, ¬ may k) ∨
      ∃ kinds, settle id (Kind.all.filter test) = .error (.ambiguous id kinds) ∧ (∃ k, may k) ∧
        ∀ t, ¬ Meant may t := by
  have hmem : ∀ k, k ∈ Kind.all.filter test ↔ may k := fun k => by
    rw [List.mem_filter, htest]
    exact and_iff_right k.mem_all
  have hone : ∀ t, (∀ k, may k ↔ k = t) → Kind.all.filter test = [t] := fun t h => by
    have hsame : test = (· == t) :=
      funext fun k => Bool.eq_iff_iff.2 ((htest k).trans ((h k).trans beq_iff_eq.symm))
    rw [hsame]
    cases t <;> rfl
  have htwo : (∀ k, may k ↔ k = .environment ∨ k = .feed) →
      Kind.all.filter test = [.environment, .feed] := fun h => by
    have hsame : test = fun k => k == .environment || k == .feed :=
      funext fun k => Bool.eq_iff_iff.2 ((htest k).trans ((h k).trans (by simp)))
    rw [hsame]
    rfl
  generalize Kind.all.filter test = candidates at hmem hone htwo
  unfold settle
  split
  · next t => exact Or.inl ⟨t, rfl, Or.inl fun k => by rw [← hmem, List.mem_singleton]⟩
  · exact Or.inl ⟨.environment, rfl, Or.inr ⟨rfl, fun k => by rw [← hmem, List.mem_pair]⟩⟩
  · exact Or.inr (Or.inl ⟨rfl, fun k hk => List.not_mem_nil ((hmem k).2 hk)⟩)
  · next hsingle hpair hempty =>
      obtain ⟨k, hk⟩ := List.exists_mem_of_ne_nil _ hempty
      refine Or.inr (Or.inr ⟨candidates, rfl, ⟨k, (hmem k).1 hk⟩, fun t => ?_⟩)
      rintro (h | ⟨-, h⟩)
      · exact hsingle t (hone t h)
      · exact hpair (htwo h)

/-! ## The two passes -/

/-- **The candidates of the backward pass** are the kinds that a legal ending starts with. -/
lemma mem_backward (expected label : Option Kind) (labels : List (Option Kind)) :
    ∃ here, backward expected (label :: labels) = here :: backward expected labels ∧
      ∀ k, k ∈ here ↔ ∃ ts, LegalTyping (fun _ => true) expected (label :: labels) (k :: ts) := by
  refine ⟨_, rfl, fun k => ?_⟩
  rw [List.mem_filter, Bool.and_eq_true, and_iff_right k.mem_all]
  simp only [legalTyping_cons, exists_and_left, and_assoc, true_and]
  refine and_congr_right fun _ => ?_
  cases labels with
  | nil =>
      simp only [backward, legalTyping_nil, exists_eq, and_true, forall_const]
  | cons next labels =>
      obtain ⟨there, hbackward, hthere⟩ := mem_backward expected next labels
      simp only [hbackward, List.any_eq_true, hthere, reduceCtorEq, false_implies, true_and]
      constructor
      · rintro ⟨c, ⟨ts, hts⟩, hfits⟩
        obtain ⟨⟨hlabel, -, hexpected⟩, hts⟩ := legalTyping_cons.1 hts
        exact ⟨c :: ts, legalTyping_cons.2 ⟨⟨hlabel, hfits, hexpected⟩, hts⟩⟩
      · rintro ⟨_ | ⟨c, ts⟩, hts⟩
        · exact absurd hts not_legalTyping_nil
        · obtain ⟨⟨hlabel, hfits, hexpected⟩, hts⟩ := legalTyping_cons.1 hts
          exact ⟨c, ⟨ts, legalTyping_cons.2 ⟨⟨hlabel, rfl, hexpected⟩, hts⟩⟩, hfits⟩

/-- A legal ending follows a kind if it fits there. -/
lemma follows_iff {label : Option Kind} {labels : List (Option Kind)} :
    Follows (LegalTyping fits expected (label :: labels)) [] k ↔
      fits k ∧ ∃ ts, LegalTyping (fun _ => true) expected (label :: labels) (k :: ts) := by
  simp only [Follows, List.nil_append, legalTyping_cons]
  constructor
  · rintro ⟨ts, ⟨hlabel, hfits, hexpected⟩, hts⟩
    exact ⟨hfits, ts, ⟨hlabel, trivial, hexpected⟩, hts⟩
  · rintro ⟨hfits, ts, ⟨hlabel, -, hexpected⟩, hts⟩
    exact ⟨ts, ⟨hlabel, hfits, hexpected⟩, hts⟩

/-! ## Choosing from left to right -/

/-- The segments with these ids and the kinds of a typing. -/
def Typed (ids : List String) (ts : List Kind) (ss : List Segment) : Prop :=
  ss = List.zipWith Segment.mk ts ids

/-- The kinds of the segments of a typing. -/
lemma map_kind_zipWith {ts : List Kind} {ids : List String} (h : ts.length ≤ ids.length) :
    (List.zipWith Segment.mk ts ids).map (·.kind) = ts := by
  rw [← List.map_uncurry_zip_eq_zipWith, List.map_map]
  exact List.map_fst_zip h

/-- Once the first kind is fixed, what is inferred of the rest says what is inferred of all. -/
lemma Inferred.cons {legal : List Kind → Prop} {t : Kind} {id : String} {ids : List String}
    {x : Except PathError (List Segment)} (hmeant : Meant (Follows legal []) t)
    (hempty : ¬ legal []) (h : Inferred (fun ts => legal (t :: ts)) (Typed ids) x) :
    Inferred legal (Typed (id :: ids)) (x >>= fun ss => pure (⟨t, id⟩ :: ss)) := by
  cases h with
  | exact is_legal settled read =>
      exact .exact is_legal (settled_cons.2 ⟨hmeant, settled⟩)
        (congrArg (List.cons (⟨t, id⟩ : Segment)) read)
  | impossible none =>
      -- The kind that is meant has been chosen because a legal ending follows it.
      obtain ⟨ts, hts⟩ := hmeant.may
      exact absurd hts (none ts)
  | ambiguous some unsettled =>
      obtain ⟨ts, hts⟩ := some
      refine .ambiguous ⟨t :: ts, hts⟩ fun us hus hsettled => ?_
      cases us with
      | nil => exact hempty hus
      | cons u us =>
          obtain ⟨hmeant', hsettled⟩ := settled_cons.1 hsettled
          obtain rfl := hmeant.unique hmeant'
          exact unsettled us hus hsettled

/-- **Choosing never strands a legal typing.**  What the forward pass has let through is narrowed to
what the kind chosen before allows; `reach` are the kinds that are left of both. -/
lemma choose_inferred (segments : List (Option Kind × String)) : ∀ (above : Option Kind)
    (fits reach : Kind → Bool),
    (∀ k, reach k ↔ fits k ∧ above.all fun parent => parent.canContain k) →
    Inferred (LegalTyping reach expected (segments.map (·.1))) (Typed (segments.map (·.2)))
      (choose above ((segments.map (·.2)).zip
        ((forward fits (segments.map (·.1))).zip (backward expected (segments.map (·.1)))))) := by
  induction segments with
  | nil =>
      refine fun _ _ _ _ => .exact (legalTyping_nil.2 rfl) (fun before t rest h => ?_) rfl
      exact absurd h.symm (List.append_ne_nil_of_right_ne_nil before (List.cons_ne_nil t rest))
  | cons segment segments ih =>
      intro above fits reach hreach
      obtain ⟨label, id⟩ := segment
      simp only [List.map_cons]
      generalize segments.map (·.1) = labels at ih ⊢
      generalize segments.map (·.2) = ids at ih ⊢
      obtain ⟨after, hbackward, hafter⟩ := mem_backward expected label labels
      have hmay : ∀ k, (after.contains k && above.all fun parent => parent.canContain k) &&
          (admits label k && fits k) ↔
          Follows (LegalTyping reach expected (label :: labels)) [] k := fun k => by
        rw [follows_iff, hreach, ← hafter]
        have hlabel : k ∈ after → admits label k := fun hk => by
          obtain ⟨ts, hts⟩ := (hafter k).1 hk
          exact (legalTyping_cons.1 hts).1.1
        simp only [Bool.and_eq_true, List.contains_iff_mem]
        tauto
      simp only [forward, hbackward, List.zip_cons_cons, choose, List.filter_filter]
      rcases settle_spec id hmay with ⟨t, ht, hmeant⟩ | ⟨hnone, hno⟩ | ⟨kinds, hmany, ⟨k, hk⟩, hno⟩
      · rw [ht]
        refine Inferred.cons hmeant not_legalTyping_nil ?_
        obtain ⟨us, hus⟩ := hmeant.may
        obtain ⟨⟨hlabel, hfits, hexpected⟩, -⟩ := legalTyping_cons.1 hus
        have hrest : (fun ts => LegalTyping reach expected (label :: labels) (t :: ts)) =
            LegalTyping t.canContain expected labels := funext fun ts => propext <|
          legalTyping_cons.trans (and_iff_right ⟨hlabel, hfits, hexpected⟩)
        rw [hrest]
        refine ih (some t) _ _ fun k => ?_
        rw [Option.all_some]
        refine ⟨fun hk => ⟨List.any_eq_true.2 ⟨t, ?_, hk⟩, hk⟩, And.right⟩
        rw [List.mem_filter, Bool.and_eq_true]
        exact ⟨t.mem_all, hlabel, ((hreach t).1 hfits).1⟩
      · rw [hnone]
        refine .impossible fun ts hts => ?_
        cases ts with
        | nil => exact not_legalTyping_nil hts
        | cons t ts => exact hno t ⟨ts, hts⟩
      · rw [hmany]
        obtain ⟨us, hus⟩ := hk
        refine .ambiguous ⟨_, hus⟩ fun ts hts hsettled => ?_
        cases ts with
        | nil => exact not_legalTyping_nil hts
        | cons t ts => exact hno t (settled_cons.1 hsettled).1

/-- There is at most one settled typing. -/
lemma Settled.unique {legal : List Kind → Prop} {ts us : List Kind}
    (hlength : ts.length = us.length) (hts : Settled legal ts) (hus : Settled legal us) :
    ts = us := by
  induction ts generalizing legal us with
  | nil => exact (List.length_eq_zero_iff.1 hlength.symm).symm
  | cons t ts ih =>
      cases us with
      | nil => cases hlength
      | cons u us =>
          obtain ⟨ht, hts⟩ := settled_cons.1 hts
          obtain ⟨hu, hus⟩ := settled_cons.1 hus
          obtain rfl := ht.unique hu
          rw [ih (Nat.succ.inj hlength) hts hus]

namespace Inferred

variable {α β : Type} {legal : List Kind → Prop} {reads : List Kind → α → Prop}
  {reads' : List Kind → β → Prop} {x : Except PathError α} {f : α → Except PathError β}

lemma bind (h : Inferred legal reads x)
    (hf : ∀ ts a, legal ts → reads ts a → ∃ b, f a = .ok b ∧ reads' ts b) :
    Inferred legal reads' (x >>= f) := by
  cases h with
  | exact is_legal settled read =>
      obtain ⟨b, hb, hread⟩ := hf _ _ is_legal read
      show Inferred legal reads' (f _)
      rw [hb]
      exact .exact is_legal settled hread
  | impossible none => exact .impossible none
  | ambiguous some unsettled => exact .ambiguous some unsettled

/-- **Each answer says what the legal typings are like**, and the other way round. -/
lemma exact_iff (h : Inferred legal reads x)
    (hlength : ∀ ts us, legal ts → legal us → ts.length = us.length)
    (hreads : ∀ ts a b, reads ts a → reads ts b → a = b) :
    (∀ a, x = .ok a ↔ ∃ ts, legal ts ∧ Settled legal ts ∧ reads ts a) ∧
      ((∃ id, x = .error (.noKindFits id)) ↔ ∀ ts, ¬ legal ts) ∧
      ((∃ id kinds, x = .error (.ambiguous id kinds)) ↔
        (∃ ts, legal ts) ∧ ∀ ts, legal ts → ¬ Settled legal ts) := by
  cases h with
  | @exact ts a is_legal settled read =>
      refine ⟨fun b => ⟨fun h => ⟨ts, is_legal, settled, Except.ok.inj h ▸ read⟩, ?_⟩,
        ⟨nofun, fun h => absurd is_legal (h ts)⟩, nofun, fun h => absurd settled (h.2 ts is_legal)⟩
      rintro ⟨us, hlegal, hsettled, hread⟩
      obtain rfl := settled.unique (hlength _ _ is_legal hlegal) hsettled
      rw [hreads _ _ _ read hread]
  | impossible none =>
      exact ⟨fun a => ⟨nofun, fun ⟨ts, h, _⟩ => absurd h (none ts)⟩,
        ⟨fun _ => none, fun _ => ⟨_, rfl⟩⟩, nofun, fun ⟨⟨ts, h⟩, _⟩ => absurd h (none ts)⟩
  | ambiguous some unsettled =>
      obtain ⟨ts, hts⟩ := some
      exact ⟨fun a => ⟨nofun, fun ⟨us, hus, hsettled, _⟩ => absurd hsettled (unsettled us hus)⟩,
        ⟨nofun, fun h => absurd hts (h ts)⟩, fun _ => ⟨⟨ts, hts⟩, unsettled⟩, fun _ => ⟨_, _, rfl⟩⟩

end Inferred

/-- **What is inferred of segments** is their settled legal typing. -/
lemma inferSegments_inferred (above expected : Option Kind)
    (segments : List (Option Kind × String)) :
    Inferred (LegalTyping (match above with | none => Kind.isRoot | some parent => parent.canContain)
        expected (segments.map (·.1))) (Typed (segments.map (·.2)))
      (inferSegments above expected segments) := by
  cases above with
  | none => exact choose_inferred segments none _ _ fun k => (and_iff_left rfl).symm
  | some b => exact choose_inferred segments none _ _ fun k => (and_iff_left rfl).symm

/-! ## Reading a text -/

/-- A step down has an id. -/
def RawStep.Named : RawStep → Prop
  | .up => True
  | .down _ id => id ≠ ""

lemma RawPath.step_yields : RawPath.step.Yields RawStep.Named := by
  intro c s c' hc
  rw [RawPath.step] at hc
  split at hc
  · cases hc
    exact trivial
  · exact (Parser.Yields.trivial.bind fun _ _ => (escapedText_yields _ _).bind fun _ hid =>
      .pure hid : RawPath.down.Yields RawStep.Named) _ _ _ hc

lemma RawPath.path_yields : RawPath.path.Yields fun raw => ∀ s ∈ raw.steps, s.Named := by
  -- What stands behind the slash, if there is one.
  have hrest : ∀ absolute : Bool, ∀ c : Cursor, ∀ raw c',
      (if c.atEnd then Reply.done (⟨absolute, []⟩ : RawPath) c
        else (Parser.sepToEnd (char '/') RawPath.step c).map (⟨absolute, ·⟩)) = .done raw c' →
      ∀ s ∈ raw.steps, s.Named := by
    intro absolute c raw c' hc
    split at hc
    · cases hc
      exact nofun
    · cases hread : Parser.sepToEnd (char '/') RawPath.step c with
      | done steps d =>
          rw [hread] at hc
          cases hc
          exact Parser.Yields.sepToEnd RawPath.step_yields _ _ _ hread
      | _ =>
          rw [hread] at hc
          cases hc
  intro c raw c' hc
  rw [RawPath.path] at hc
  split at hc
  · cases hc
    exact nofun
  · split at hc
    exact hrest _ _ _ _ hc

/-- The ids that are read in a path text are not empty. -/
lemma RawPath.parse_named {text : String} {raw : RawPath} (h : RawPath.parse text = .ok raw) :
    ∀ s ∈ raw.steps, s.Named := by
  rw [RawPath.parse] at h
  cases hread : RawPath.path (.start text) with
  | done raw' rest =>
      rw [hread] at h
      cases h
      exact RawPath.path_yields _ _ _ hread
  | _ =>
      rw [hread] at h
      cases h

/-- The steps that segments are written as. -/
def downSteps (segments : List (Option Kind × String)) : List RawStep :=
  segments.map fun s => .down s.1 s.2

/-- **Where the segments of a text start and what they are**: at the start of a path behind a
slash, and otherwise below a path that the text climbs to from the origin. -/
inductive Designates (text : String) (origin : Option CanonicalPath) :
    Option CanonicalPath → List (Option Kind × String) → Prop
  | absolute {segments} (steps : RawPath.parse text = .ok ⟨true, downSteps segments⟩) :
      Designates text origin none segments
  | relative {o b : CanonicalPath} {left : List Segment} {segments} (start : origin = some o)
      (climbed : o.segments = b.segments ++ left) (steps : RawPath.parse text =
        .ok ⟨false, List.replicate left.length .up ++ downSteps segments⟩) :
      Designates text origin (some b) segments

section Designates

variable {text : String} {origin base : Option CanonicalPath}
  {segments : List (Option Kind × String)}

lemma descend_downSteps (text : String) (segments : List (Option Kind × String)) :
    splitClimb.descend text (downSteps segments) = .ok segments := by
  induction segments with
  | nil => rfl
  | cons s segments ih =>
      rw [downSteps, List.map_cons, ← downSteps, splitClimb.descend, ih]
      rfl

lemma splitClimb_downSteps (text : String) (absolute : Bool)
    (segments : List (Option Kind × String)) :
    splitClimb text absolute (downSteps segments) = .ok (0, segments) := by
  cases segments with
  | nil => rfl
  | cons s segments =>
      rw [downSteps, List.map_cons, ← downSteps, splitClimb, descend_downSteps]
      rfl

lemma splitClimb_climbs (text : String) (segments : List (Option Kind × String)) (ups : Nat) :
    splitClimb text false (List.replicate ups .up ++ downSteps segments) =
      .ok (ups, segments) := by
  induction ups with
  | zero => exact splitClimb_downSteps text false segments
  | succ ups ih =>
      rw [List.replicate_succ, List.cons_append, splitClimb, ih]
      rfl

/-- Steps are descended along unless one of them climbs. -/
lemma descend_spec (text : String) (steps : List RawStep) :
    (∃ segments, steps = downSteps segments ∧
      splitClimb.descend text steps = .ok segments) ∨
      splitClimb.descend text steps = .error (.lateClimbIn text) := by
  induction steps with
  | nil => exact Or.inl ⟨[], rfl, rfl⟩
  | cons step steps ih =>
      cases step with
      | up => exact Or.inr rfl
      | down kind id =>
          rw [splitClimb.descend]
          rcases ih with ⟨segments, rfl, h⟩ | h
          · rw [h]
            exact Or.inl ⟨(kind, id) :: segments, rfl, rfl⟩
          · rw [h]
            exact Or.inr rfl

/-- Steps are split unless one of them climbs where it may not. -/
lemma splitClimb_spec (text : String) (absolute : Bool) (steps : List RawStep) :
    (∃ ups segments, steps = List.replicate ups .up ++ downSteps segments ∧
      (absolute → ups = 0) ∧ splitClimb text absolute steps = .ok (ups, segments)) ∨
      splitClimb text absolute steps = .error (.lateClimbIn text) := by
  induction steps with
  | nil => exact Or.inl ⟨0, [], rfl, fun _ => rfl, rfl⟩
  | cons step steps ih =>
      cases step with
      | up =>
          rw [splitClimb]
          cases absolute with
          | true => exact Or.inr rfl
          | false =>
              rcases ih with ⟨ups, segments, rfl, -, h⟩ | h
              · rw [h]
                exact Or.inl ⟨ups + 1, segments, rfl, nofun, rfl⟩
              · rw [h]
                exact Or.inr rfl
      | down kind id =>
          rw [splitClimb]
          rcases descend_spec text steps with ⟨segments, rfl, h⟩ | h
          · rw [h]
            exact Or.inl ⟨0, (kind, id) :: segments, rfl, fun _ => rfl, rfl⟩
          · rw [h]
            exact Or.inr rfl

lemma Designates.ids (h : Designates text origin base segments) : ∀ s ∈ segments, s.2 ≠ "" := by
  intro s hs
  cases h with
  | absolute steps => exact RawPath.parse_named steps _ (List.mem_map_of_mem hs)
  | relative start climbed steps =>
      exact RawPath.parse_named steps _ (List.mem_append_right _ (List.mem_map_of_mem hs))

/-- A climb leads to what is left of a path. -/
lemma climb_of_append {o b : CanonicalPath} {left : List Segment}
    (h : o.segments = b.segments ++ left) : o.climb left.length = .ok b := by
  rw [CanonicalPath.climb, CanonicalPath.length, h, List.length_append, Nat.add_sub_cancel,
    List.take_left, CanonicalPath.ofSegments?_eq_some_iff.2 rfl]

/-- What a text designates is what resolving it infers the types of. -/
lemma Designates.resolve_eq (h : Designates text origin base segments) (hne : segments ≠ [])
    (expected : Option Kind) : CanonicalPath.resolve text origin expected =
      (inferSegments (base.map (·.kind)) expected segments >>= fun inferred =>
        Chain.extendAll ((base.map (·.segments)).getD []) inferred >>= Chain.toPath) := by
  have hsome : segments.isEmpty = false := List.isEmpty_eq_false_iff.2 hne
  rw [CanonicalPath.resolve]
  cases h with
  | absolute steps =>
      simp only [steps, bind, Except.bind, splitClimb_downSteps, inferenceBase, if_true, hsome,
        Bool.false_eq_true, if_false]
  | @relative o b left _ start climbed steps =>
      simp only [start, steps, bind, Except.bind, splitClimb_climbs, inferenceBase,
        climb_of_append climbed, hsome, Bool.false_eq_true, if_false]
      rfl

/-- A climb leads to a path that is left of the origin, or too far. -/
lemma climb_spec (o : CanonicalPath) (ups : Nat) :
    (∃ b left, o.climb ups = .ok b ∧ o.segments = b.segments ++ left ∧ left.length = ups) ∨
      o.climb ups = .error (.aboveRoot ups o) := by
  rw [CanonicalPath.climb]
  cases h : CanonicalPath.ofSegments? (o.segments.take (o.length - ups)) with
  | none => exact Or.inr rfl
  | some b =>
      have htake := CanonicalPath.ofSegments?_eq_some_iff.1 h
      refine Or.inl ⟨b, o.segments.drop (o.length - ups), rfl, ?_, ?_⟩
      · rw [← htake, List.take_append_drop]
      · have hlength : 0 < (o.segments.take (o.length - ups)).length := by
          rw [htake]
          exact List.length_pos_of_ne_nil b.ne_nil
        rw [List.length_take, ← CanonicalPath.length] at hlength
        rw [List.length_drop, ← CanonicalPath.length]
        omega

/-- **A text that designates nothing is refused** before any type is inferred: it cannot be read, it
climbs where it may not, or there is nothing that it can start from. -/
theorem CanonicalPath.resolve_undesignated
    (h : ∀ base segments, ¬ Designates text origin base segments) (expected : Option Kind) :
    ∃ e, resolve text origin expected = .error e ∧
      ((∃ errors, e = .unreadable errors) ∨ e = .lateClimbIn text ∨ e = .noOrigin text ∨
        ∃ levels o, origin = some o ∧ e = .aboveRoot levels o) := by
  rw [resolve]
  cases hraw : RawPath.parse text with
  | error errors => exact ⟨_, rfl, Or.inl ⟨errors, rfl⟩⟩
  | ok raw =>
      obtain ⟨absolute, steps⟩ := raw
      rcases splitClimb_spec text absolute steps with ⟨ups, segments, rfl, hups, hsplit⟩ | hsplit
      · simp only [bind, Except.bind, hsplit]
        cases absolute with
        | true =>
            obtain rfl := hups rfl
            exact absurd (.absolute hraw) (h none segments)
        | false =>
            cases origin with
            | none => exact ⟨_, rfl, Or.inr (Or.inr (Or.inl rfl))⟩
            | some o =>
                rcases climb_spec o ups with ⟨b, left, -, hleft, rfl⟩ | habove
                · exact absurd (.relative rfl hleft hraw) (h (some b) segments)
                · refine ⟨.aboveRoot ups o, ?_, Or.inr (Or.inr (Or.inr ⟨ups, o, rfl, rfl⟩))⟩
                  simp only [inferenceBase, Bool.false_eq_true, if_false, habove]
                  rfl
      · simp only [bind, Except.bind, hsplit]
        exact ⟨_, rfl, Or.inr (Or.inl rfl)⟩

end Designates

/-- The kinds that may stand below a path, or at the start of one. -/
def fitsBelow : Option CanonicalPath → Kind → Bool
  | none => Kind.isRoot
  | some b => b.kind.canContain

/-- What the first segment below a path takes. -/
lemma check_below_iff (base : Option CanonicalPath) (s : Segment) :
    s.check (Chain.lastKind? ((base.map (·.segments)).getD [])) = .ok () ↔
      s.id ≠ "" ∧ fitsBelow base s.kind := by
  rw [CanonicalPath.check_eq_ok_iff]
  cases base with
  | none => exact Iff.rfl
  | some b =>
      simp only [Option.map_some, Option.getD_some, CanonicalPath.lastKind?_segments]
      exact Iff.rfl

/-- **Segments of a legal typing can be added** to the path they are to stand below. -/
lemma Designates.grow {text : String} {origin base : Option CanonicalPath}
    {segments : List (Option Kind × String)} {expected : Option Kind} {ts : List Kind}
    (h : Designates text origin base segments) (hne : segments ≠ [])
    (hts : LegalTyping (fitsBelow base) expected (segments.map (·.1)) ts) :
    ∃ p, (Chain.extendAll ((base.map (·.segments)).getD [])
      (List.zipWith Segment.mk ts (segments.map (·.2))) >>= Chain.toPath) = .ok p ∧
      p.segments = (base.map (·.segments)).getD [] ++
        List.zipWith Segment.mk ts (segments.map (·.2)) := by
  have hlength : ts.length = (segments.map (·.2)).length := by
    rw [← hts.labelled.length_eq, List.length_map, List.length_map]
  generalize hss : List.zipWith Segment.mk ts (segments.map (·.2)) = ss
  have hkinds : ss.map (·.kind) = ts := hss ▸ map_kind_zipWith hlength.le
  have hids : ss.map (·.id) = segments.map (·.2) := by
    rw [← hss, ← List.map_uncurry_zip_eq_zipWith, List.map_map]
    exact List.map_snd_zip hlength.ge
  have hnamed : ∀ s ∈ ss, s.id ≠ "" := fun s hs => by
    obtain ⟨t, ht, hid⟩ := List.mem_map.1 (hids ▸ List.mem_map_of_mem hs)
    exact hid ▸ h.ids t ht
  have hsteps : ss.IsChain fun above below => above.kind.canContain below.kind := by
    rw [← List.isChain_map (R := fun above below : Kind => above.canContain below), hkinds]
    exact hts.steps
  have hfirst : ∀ s ∈ ss.head?,
      s.check (Chain.lastKind? ((base.map (·.segments)).getD [])) = .ok () := fun s hs => by
    have hfits : fitsBelow base s.kind := hts.start s.kind <| by
      rw [← hkinds, List.head?_map]
      exact Option.mem_map_of_mem _ hs
    exact (check_below_iff base s).2 ⟨hnamed s (List.mem_of_mem_head? hs), hfits⟩
  have hne' : ss ≠ [] := by
    rintro rfl
    exact hne (List.map_eq_nil_iff.1 hids.symm)
  refine ⟨⟨_, List.append_ne_nil_of_right_ne_nil _ hne'⟩, ?_, rfl⟩
  rw [CanonicalPath.chain_extendAll_eq_ok_iff.2 ⟨rfl, hfirst, hsteps, hnamed⟩]
  exact CanonicalPath.toPath_eq_ok_iff.2 rfl

/-- **What a text designates is read as its settled legal typing.** -/
lemma Designates.inferred {text : String} {origin base : Option CanonicalPath}
    {segments : List (Option Kind × String)} (h : Designates text origin base segments)
    (hne : segments ≠ []) (expected : Option Kind) :
    Inferred (LegalTyping (fitsBelow base) expected (segments.map (·.1)))
      (fun ts p => p.segments = (base.map (·.segments)).getD [] ++
        List.zipWith Segment.mk ts (segments.map (·.2)))
      (CanonicalPath.resolve text origin expected) := by
  have hinfer : Inferred (LegalTyping (fitsBelow base) expected (segments.map (·.1)))
      (Typed (segments.map (·.2))) (inferSegments (base.map (·.kind)) expected segments) := by
    cases base with
    | none => exact inferSegments_inferred none expected segments
    | some b => exact inferSegments_inferred (some b.kind) expected segments
  rw [h.resolve_eq hne]
  refine hinfer.bind fun ts ss hts hss => ?_
  obtain rfl := hss
  exact h.grow hne hts

/-- The last of the segments that are inferred is of the kind that is expected. -/
lemma inferSegments_last {above : Option Kind} {k : Kind} {segments : List (Option Kind × String)}
    {ss : List Segment} (h : inferSegments above (some k) segments = .ok ss) :
    ss.length = segments.length ∧ ∀ s ∈ ss.getLast?, s.kind = k := by
  have hinfer := inferSegments_inferred above (some k) segments
  rw [h] at hinfer
  cases hinfer with
  | @exact ts _ is_legal settled read =>
      have hlength : ts.length = segments.length := by
        rw [← is_legal.labelled.length_eq, List.length_map]
      subst read
      have hkinds : (List.zipWith Segment.mk ts (segments.map (·.2))).map (·.kind) = ts :=
        map_kind_zipWith (by rw [List.length_map, hlength])
      refine ⟨by rw [List.length_zipWith, List.length_map, hlength, Nat.min_self],
        fun s hs => ?_⟩
      refine is_legal.last s.kind ?_ k rfl
      rw [← hkinds, List.getLast?_map]
      exact Option.mem_map_of_mem _ hs

/-- **What is expected of a path text is true of the path.** -/
theorem CanonicalPath.kind_of_resolve {text : String} {origin : Option CanonicalPath} {k : Kind}
    {p : CanonicalPath} (h : resolve text origin (some k) = .ok p) : p.kind = k := by
  rw [resolve] at h
  split at h
  swap
  · cases h
  obtain ⟨raw, -, h⟩ := Refusal.bind_eq_ok_iff.1 h
  obtain ⟨⟨ups, segments⟩, -, h⟩ := Refusal.bind_eq_ok_iff.1 h
  obtain ⟨base, -, h⟩ := Refusal.bind_eq_ok_iff.1 h
  dsimp only at h
  split at h
  · cases base with
    | none => cases h
    | some q =>
        dsimp only at h
        split at h
        · next hkind => rwa [← Except.ok.inj h]
        · cases h
  · next hsome =>
      obtain ⟨ss, hss, h⟩ := Refusal.bind_eq_ok_iff.1 h
      obtain ⟨c, hc, h⟩ := Refusal.bind_eq_ok_iff.1 h
      obtain ⟨hlength, hlast⟩ := inferSegments_last hss
      have hpath := CanonicalPath.toPath_eq_ok_iff.1 h
      have hne : ss ≠ [] := by
        rintro rfl
        exact hsome (List.isEmpty_iff.2 (List.length_eq_zero_iff.1 hlength.symm))
      rw [(CanonicalPath.chain_extendAll_eq_ok_iff.1 hc).1] at hpath
      refine hlast p.last ?_
      rw [← List.getLast?_append_of_ne_nil _ hne, hpath]
      exact List.getLast?_eq_getLast_of_ne_nil p.ne_nil

/-- **Inferring types is exact.**  A text is read as its settled legal typing; that no kind fits is
reported if it has no legal typing, and that it is ambiguous if it has one but none that is settled.
-/
theorem CanonicalPath.resolve_exact {text : String} {origin base : Option CanonicalPath}
    {segments : List (Option Kind × String)} (h : Designates text origin base segments)
    (hne : segments ≠ []) (expected : Option Kind) :
    let legal := LegalTyping (fitsBelow base) expected (segments.map (·.1))
    (∀ p, resolve text origin expected = .ok p ↔ ∃ ts, legal ts ∧ Settled legal ts ∧
      p.segments = (base.map (·.segments)).getD [] ++
        List.zipWith Segment.mk ts (segments.map (·.2))) ∧
      ((∃ id, resolve text origin expected = .error (.noKindFits id)) ↔ ∀ ts, ¬ legal ts) ∧
      ((∃ id kinds, resolve text origin expected = .error (.ambiguous id kinds)) ↔
        (∃ ts, legal ts) ∧ ∀ ts, legal ts → ¬ Settled legal ts) := by
  intro legal
  exact (h.inferred hne expected).exact_iff
    (fun ts us hts hus => hts.labelled.length_eq.symm.trans hus.labelled.length_eq)
    fun ts p q hp hq => ext_segments (hp.trans hq.symm)

/-- An environment is preferred to a feed where both may hold a resource. -/
theorem untyped_neighbour_resolved :
    let origin : CanonicalPath := ⟨[⟨.tenant, "acme"⟩, ⟨.environment, "prod"⟩], by decide⟩
    let base : CanonicalPath := ⟨[⟨.tenant, "acme"⟩], by decide⟩
    let segments : List (Option Kind × String) := [(none, "x"), (none, "r1")]
    let legal := LegalTyping (fitsBelow (some base)) (some .resource) (segments.map (·.1))
    Designates "../x/r1" (some origin) (some base) segments ∧ segments ≠ [] ∧
      CanonicalPath.resolve "../x/r1" (some origin) (some .resource) = .ok
        ⟨[⟨.tenant, "acme"⟩, ⟨.environment, "x"⟩, ⟨.resource, "r1"⟩], by decide⟩ ∧
      ∃ ts, legal ts ∧ Settled legal ts ∧
        List.zipWith Segment.mk ts ["x", "r1"] = [⟨.environment, "x"⟩, ⟨.resource, "r1"⟩] := by
  intro origin base segments legal
  have hdesignates : Designates "../x/r1" (some origin) (some base) segments :=
    @Designates.relative _ _ origin base [⟨.environment, "prod"⟩] segments rfl rfl
      (by decide +kernel)
  have hne : segments ≠ [] := by decide
  have hresolve : CanonicalPath.resolve "../x/r1" (some origin) (some .resource) = .ok
      ⟨[⟨.tenant, "acme"⟩, ⟨.environment, "x"⟩, ⟨.resource, "r1"⟩], by decide⟩ := by
    decide +kernel
  obtain ⟨ts, hlegal, hsettled, hsegments⟩ :=
    ((CanonicalPath.resolve_exact hdesignates hne (some .resource)).1 _).1 hresolve
  exact ⟨hdesignates, hne, hresolve, ts, hlegal, hsettled, (List.cons.inj hsegments).2.symm⟩

end Estate
