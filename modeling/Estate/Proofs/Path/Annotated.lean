import Estate.Proofs.Path.Inference
import Estate.Proofs.Path.Relative

/-!
# Types that are written out

Where a text with missing types leads, it still leads when some of these types are written out: the
typings that are then legal are among those that were, and the one that was settled is among them.
In the end all types are there, and nothing is inferred.  Such texts lead where the readers of
canonical and of relative paths say, which check one step after the other.

* `Retyped`, `Annotated` — a text and one in which more types are written.
* `CanonicalPath.resolve_narrowed` — more labels, the same answer.
* `CanonicalPath.segments_of_resolve` — in every text all types can be written out.
* `CanonicalPath.resolve_typed_iff` — with all labels there, segments are added one by one.
* **`CanonicalPath.resolve_annotated`** — writing types out never changes an answer.
-/

namespace Estate

open Parse

/-! ## Texts with more types -/

/-- **Segments as they were written, and with more types.**  Each one is left as it is, or it had no
type and now has this one; the id may be spelled in another way then. -/
inductive Retyped : List Kind → List (List Char) → List (List Char) → Prop
  | nil : Retyped [] [] []
  | kept {k label id cs ks css css'} (spelled : RawStep.Spelled (.down label id) cs)
      (rest : Retyped ks css css') : Retyped (k :: ks) (cs :: css) (cs :: css')
  | typed {k id cs cs' ks css css'} (untyped : RawStep.Spelled (.down none id) cs)
      (typed : RawStep.Spelled (.down (some k) id) cs') (rest : Retyped ks css css') :
      Retyped (k :: ks) (cs :: css) (cs' :: css')

/-- **Types are written out in a text that leads to `p`**: it climbs as before, and some of the
segments behind that, which are the last ones of `p`, have got the types that they have in `p`.  A
dot alone has no segments; every other text that leads to `p` is like this
(`CanonicalPath.segments_of_resolve`). -/
inductive Annotated (p : CanonicalPath) : String → String → Prop
  | kept (text : String) : Annotated p text text
  | typed {text text' : String} {absolute : Bool} {ups : Nat} {ks : List Kind}
      {css css' : List (List Char)} (kinds : ks <:+ p.segments.map (·.kind))
      (retyped : Retyped ks css css')
      (before : text.toList = RawPath.chars absolute (List.replicate ups ['.', '.'] ++ css))
      (after : text'.toList = RawPath.chars absolute (List.replicate ups ['.', '.'] ++ css'))
      (ne_dot : text ≠ ".") : Annotated p text text'

/-- All segments of a text have types. -/
def AllTyped (text : String) : Prop :=
  ∀ raw, RawPath.parse text = .ok raw → ∀ id, RawStep.down none id ∉ raw.steps

/-! ## Labels -/

/-- The labels of segments allow these kinds. -/
abbrev Labelled (segments : List (Option Kind × String)) (ts : List Kind) : Prop :=
  List.Forall₂ (fun label t => ∀ k ∈ label, t = k) (segments.map (·.1)) ts

/-- **Segments with more labels**: each one is left as it is, or it had no label and now has this
one. -/
inductive Relabelled :
    List Kind → List (Option Kind × String) → List (Option Kind × String) → Prop
  | nil : Relabelled [] [] []
  | kept {k s ks segments segments'} (rest : Relabelled ks segments segments') :
      Relabelled (k :: ks) (s :: segments) (s :: segments')
  | labelled {k id ks segments segments'} (rest : Relabelled ks segments segments') :
      Relabelled (k :: ks) ((none, id) :: segments) ((some k, id) :: segments')

section Labels

variable {ks ts : List Kind} {css css' : List (List Char)}
  {segments segments' : List (Option Kind × String)}

/-- Texts of segments with more types are read as segments with more labels. -/
lemma Retyped.relabelled (h : Retyped ks css css') : ∃ segments segments',
    List.Forall₂ RawStep.Spelled (downSteps segments) css ∧
      List.Forall₂ RawStep.Spelled (downSteps segments') css' ∧
      Relabelled ks segments segments' := by
  induction h with
  | nil => exact ⟨[], [], .nil, .nil, .nil⟩
  | @kept k label id cs _ _ _ spelled _ ih =>
      obtain ⟨segments, segments', hbefore, hafter, hlabels⟩ := ih
      exact ⟨(label, id) :: segments, (label, id) :: segments', .cons spelled hbefore,
        .cons spelled hafter, .kept hlabels⟩
  | @typed k id cs cs' _ _ _ untyped typed _ ih =>
      obtain ⟨segments, segments', hbefore, hafter, hlabels⟩ := ih
      exact ⟨(none, id) :: segments, (some k, id) :: segments', .cons untyped hbefore,
        .cons typed hafter, .labelled hlabels⟩

lemma Relabelled.refl : ∀ {ks : List Kind} {segments : List (Option Kind × String)},
    ks.length = segments.length → Relabelled ks segments segments
  | [], [], _ => .nil
  | _ :: _, _ :: _, h => .kept (refl (Nat.succ.inj h))

namespace Relabelled

variable (h : Relabelled ks segments segments')
include h

lemma length_eq : ks.length = segments.length := by
  induction h with
  | nil => rfl
  | kept _ ih => exact congrArg Nat.succ ih
  | labelled _ ih => exact congrArg Nat.succ ih

lemma ids_eq : segments'.map (·.2) = segments.map (·.2) := by
  induction h with
  | nil => rfl
  | kept _ ih => exact congrArg (List.cons _) ih
  | labelled _ ih => exact congrArg (List.cons _) ih

/-- More labels allow less. -/
lemma labelled_of (hts : Labelled segments' ts) : Labelled segments ts := by
  induction h generalizing ts with
  | nil => exact hts
  | kept _ ih =>
      cases hts with
      | cons hlabel hts => exact .cons hlabel (ih hts)
  | labelled _ ih =>
      cases hts with
      | cons _ hts => exact .cons nofun (ih hts)

/-- The new labels allow the kinds that they are. -/
lemma labelled_kinds (hks : Labelled segments ks) : Labelled segments' ks := by
  induction h with
  | nil => exact hks
  | kept _ ih =>
      cases hks with
      | cons hlabel hks => exact .cons hlabel (ih hks)
  | labelled _ ih =>
      cases hks with
      | cons _ hks => exact .cons (by rintro _ ⟨⟩; rfl) (ih hks)

end Relabelled

end Labels

/-! ## More labels, the same answer -/

section Designates

variable {text text' : String} {origin base : Option CanonicalPath} {expected : Option Kind}
  {segments segments' : List (Option Kind × String)} {p : CanonicalPath}

/-- Without segments a text leads to where they would start. -/
lemma Designates.resolve_nil (h : Designates text origin base []) :
    CanonicalPath.resolve text origin expected = .ok p ↔
      base = some p ∧ ∀ k ∈ expected, p.kind = k := by
  rw [CanonicalPath.resolve]
  cases h with
  | absolute steps =>
      simp only [steps, bind, Except.bind, splitClimb_downSteps, inferenceBase, if_true]
      refine ⟨fun h => ?_, fun h => ?_⟩
      · cases h
      · cases h.1
  | @relative o b left _ start climbed steps =>
      simp only [start, steps, bind, Except.bind, splitClimb_climbs, inferenceBase,
        climb_of_append climbed, Bool.false_eq_true, if_false]
      cases expected with
      | none =>
          show Except.ok b = .ok p ↔ some b = some p ∧ ∀ k ∈ none, p.kind = k
          simp only [Except.ok.injEq, Option.some.injEq, Option.mem_def, reduceCtorEq,
            false_implies, implies_true, and_true]
      | some k =>
          show (if b.kind = k then Except.ok b else .error (PathError.wrongKind text b k)) = .ok p ↔
            some b = some p ∧ ∀ t ∈ some k, p.kind = t
          rw [Option.some.injEq]
          split
          · next hkind =>
              rw [Except.ok.injEq]
              refine ⟨fun h => ⟨h, ?_⟩, And.left⟩
              rintro _ ⟨⟩
              rw [← h, hkind]
          · next hkind =>
              constructor
              · rintro ⟨⟩
              · rintro ⟨rfl, h⟩
                exact absurd (h k rfl) hkind

/-- The kinds of a typing are the last ones of the path that is read with it. -/
lemma LegalTyping.kinds_of_read {fits : Kind → Bool} {ts : List Kind} {above : List Segment}
    (h : LegalTyping fits expected (segments.map (·.1)) ts)
    (read : p.segments = above ++ List.zipWith Segment.mk ts (segments.map (·.2))) :
    ts.length = segments.length ∧ above.map (·.kind) ++ ts = p.segments.map (·.kind) := by
  have hlength : ts.length = segments.length := by
    rw [← h.labelled.length_eq, List.length_map]
  refine ⟨hlength, ?_⟩
  rw [read, List.map_append, map_kind_zipWith (by rw [List.length_map, hlength])]

/-- A text that leads somewhere designates something. -/
lemma CanonicalPath.exists_designates (h : resolve text origin expected = .ok p) :
    ∃ base segments, Designates text origin base segments := by
  by_contra hnone
  obtain ⟨e, he, -⟩ := resolve_undesignated
    (fun base segments hdesignates => hnone ⟨base, segments, hdesignates⟩) expected
  cases he.symm.trans h

/-- **More labels, the same answer**, if they are the kinds that the path ends with. -/
theorem CanonicalPath.resolve_narrowed {expected' : Option Kind}
    (h : resolve text origin expected = .ok p) (hbefore : Designates text origin base segments)
    (hafter : Designates text' origin base segments')
    (hlabels : ∀ ts, ts <:+ p.segments.map (·.kind) → ts.length = segments.length →
      Relabelled ts segments segments')
    (hexpected : expected' = expected ∨ expected' = some p.kind) :
    resolve text' origin expected' = .ok p := by
  -- What is expected now is what was expected, if anything was.
  have hstill : ∀ k ∈ expected, k ∈ expected' := by
    rintro k rfl
    rcases hexpected with rfl | rfl
    · rfl
    · rw [kind_of_resolve h]
      rfl
  have hkind : ∀ k ∈ expected', p.kind = k := by
    intro k hk
    rcases hexpected with rfl | rfl
    · cases hk
      exact kind_of_resolve h
    · cases hk
      rfl
  cases segments with
  | nil =>
      cases hlabels [] List.nil_suffix rfl
      exact hafter.resolve_nil.2 ⟨(hbefore.resolve_nil.1 h).1, hkind⟩
  | cons s segments =>
      have hinferred := hbefore.inferred (List.cons_ne_nil s segments) expected
      rw [h] at hinferred
      cases hinferred with
      | @exact ts _ is_legal settled read =>
          obtain ⟨hlength, hkinds⟩ := is_legal.kinds_of_read read
          replace hlabels := hlabels ts ⟨_, hkinds⟩ hlength
          have hlegal : LegalTyping (fitsBelow base) expected' (segments'.map (·.1)) ts :=
            { start := is_legal.start
              steps := is_legal.steps
              labelled := hlabels.labelled_kinds is_legal.labelled
              last := fun t ht k hk => by
                have hlast := congrArg List.getLast? hkinds
                rw [List.getLast?_append_of_ne_nil _ (List.ne_nil_of_length_pos (by simp [hlength])),
                  ht, List.getLast?_map, List.getLast?_eq_some_getLast p.ne_nil] at hlast
                rw [Option.some.inj hlast]
                exact hkind k hk }
          have hless : ∀ us, LegalTyping (fitsBelow base) expected' (segments'.map (·.1)) us →
              LegalTyping (fitsBelow base) expected ((s :: segments).map (·.1)) us := fun us hus =>
            { start := hus.start
              steps := hus.steps
              labelled := hlabels.labelled_of hus.labelled
              last := fun t ht k hk => hus.last t ht k (hstill k hk) }
          have hne : segments' ≠ [] := by cases hlabels <;> exact List.cons_ne_nil _ _
          refine ((hafter.inferred hne expected').exact_iff
            (fun us vs hus hvs => hus.labelled.length_eq.symm.trans hvs.labelled.length_eq)
            fun us q q' hq hq' => ext_segments (hq.trans hq'.symm)).1 p |>.2
              ⟨ts, hlegal, settled.narrow hless hlegal, ?_⟩
          rw [hlabels.ids_eq]
          exact read

/-! ## More types, the same answer -/

/-- The segments that a text spells are those that it designates, and another text that climbs as
far designates those that it spells. -/
lemma Designates.respelled {absolute : Bool} {ups : Nat} {ss ss' : List (Option Kind × String)}
    (h : Designates text origin base segments)
    (hbefore : RawPath.parse text = .ok ⟨absolute, List.replicate ups .up ++ downSteps ss⟩)
    (hafter : RawPath.parse text' = .ok ⟨absolute, List.replicate ups .up ++ downSteps ss'⟩) :
    segments = ss ∧ Designates text' origin base ss' := by
  have hsplit : ∀ {n : Nat}, List.replicate n .up ++ downSteps segments =
      List.replicate ups .up ++ downSteps ss → n = ups ∧ segments = ss := fun heq => by
    have hsame := congrArg (splitClimb text false) heq
    rw [splitClimb_climbs, splitClimb_climbs] at hsame
    exact Prod.mk.inj (Except.ok.inj hsame)
  cases h with
  | absolute steps =>
      obtain ⟨rfl, hsteps⟩ := RawPath.mk.inj (Except.ok.inj (steps.symm.trans hbefore))
      obtain ⟨rfl, rfl⟩ := hsplit (n := 0) hsteps
      exact ⟨rfl, .absolute hafter⟩
  | relative start climbed steps =>
      obtain ⟨rfl, hsteps⟩ := RawPath.mk.inj (Except.ok.inj (steps.symm.trans hbefore))
      obtain ⟨rfl, rfl⟩ := hsplit hsteps
      exact ⟨rfl, .relative start climbed hafter⟩

end Designates

/-- Where a type has been written there is a semicolon. -/
lemma Retyped.kept_or_semicolon {ks : List Kind} {css css' : List (List Char)}
    (h : Retyped ks css css') : css' = css ∨ ∃ cs ∈ css', ';' ∈ cs := by
  induction h with
  | nil => exact Or.inl rfl
  | kept _ _ ih =>
      rcases ih with rfl | ⟨cs, hcs, hmem⟩
      · exact Or.inl rfl
      · exact Or.inr ⟨cs, List.mem_cons_of_mem _ hcs, hmem⟩
  | typed _ typed =>
      refine Or.inr ⟨_, List.mem_cons_self, ?_⟩
      cases typed
      simp

lemma mem_joined (separator : Char) {c : Char} {cs : List Char} {css : List (List Char)}
    (hcs : cs ∈ css) (hc : c ∈ cs) : c ∈ joined separator css := by
  obtain ⟨cs', css, rfl⟩ := List.exists_cons_of_ne_nil (List.ne_nil_of_mem hcs)
  rw [joined, List.mem_append, List.mem_flatMap]
  rcases List.mem_cons.1 hcs with rfl | hcs
  · exact Or.inl hc
  · exact Or.inr ⟨cs, hcs, List.mem_cons_of_mem _ hc⟩

/-- A text does not become a dot. -/
lemma Retyped.ne_dot {ks : List Kind} {css css' chunks : List (List Char)} {absolute : Bool}
    {text text' : String} (h : Retyped ks css css')
    (before : text.toList = RawPath.chars absolute (chunks ++ css))
    (after : text'.toList = RawPath.chars absolute (chunks ++ css')) (ne_dot : text ≠ ".") :
    text' ≠ "." := by
  rintro rfl
  rcases h.kept_or_semicolon with rfl | ⟨cs, hcs, hmem⟩
  · exact ne_dot (String.toList_inj.1 (before.trans after.symm))
  · have hjoined := mem_joined '/' (List.mem_append_right chunks hcs) hmem
    have hchars : ';' ∈ RawPath.chars absolute (chunks ++ css') := by
      rw [RawPath.chars]
      split
      · exact List.mem_cons_of_mem _ hjoined
      · exact hjoined
    rw [← after] at hchars
    exact absurd hchars (by decide)

/-- **Types that are written out do not change an answer**, nor does it to expect what has been
found. -/
theorem CanonicalPath.resolve_of_annotated {text text' : String} {origin : Option CanonicalPath}
    {expected expected' : Option Kind} {p : CanonicalPath}
    (h : resolve text origin expected = .ok p) (htypes : Annotated p text text')
    (hexpected : expected' = expected ∨ expected' = some p.kind) :
    resolve text' origin expected' = .ok p := by
  obtain ⟨base, segments, hdesignates⟩ := exists_designates h
  cases htypes with
  | kept =>
      exact resolve_narrowed h hdesignates hdesignates (fun ts _ hts => .refl hts) hexpected
  | @typed _ absolute ups ks css css' kinds retyped before after ne_dot =>
      have ne_dot' : text' ≠ "." := retyped.ne_dot before after ne_dot
      obtain ⟨ss, ss', hss, hss', hlabels⟩ := retyped.relabelled
      have hclimbs := RawPath.forall_climbs_spelled ups
      obtain ⟨rfl, hdesignates'⟩ := hdesignates.respelled
        (RawPath.parse_spelled (List.rel_append hclimbs hss) before ne_dot)
        (RawPath.parse_spelled (List.rel_append hclimbs hss') after ne_dot')
      refine resolve_narrowed h hdesignates hdesignates' (fun ts hts hlength => ?_) hexpected
      have hsame : ts.length = ks.length := hlength.trans hlabels.length_eq.symm
      obtain rfl : ts = ks :=
        (List.suffix_of_suffix_length_le hts kinds hsame.le).eq_of_length hsame
      exact hlabels

/-! ## Types can always be written out -/

/-- The kinds of what a text designates are the last ones of the path that it leads to. -/
lemma Designates.exists_kinds {text : String} {origin base : Option CanonicalPath}
    {expected : Option Kind} {segments : List (Option Kind × String)} {p : CanonicalPath}
    (h : Designates text origin base segments)
    (hresolve : CanonicalPath.resolve text origin expected = .ok p) :
    ∃ ks, ks <:+ p.segments.map (·.kind) ∧ ks.length = segments.length := by
  by_cases hne : segments = []
  · exact ⟨[], List.nil_suffix, by rw [hne]; rfl⟩
  have hinferred := h.inferred hne expected
  rw [hresolve] at hinferred
  cases hinferred with
  | @exact ts _ is_legal _ read =>
      obtain ⟨hlength, hkinds⟩ := is_legal.kinds_of_read read
      exact ⟨ts, ⟨_, hkinds⟩, hlength⟩

/-- Steps that are spelled in parts. -/
lemma RawPath.spelled_climbs {segments : List (Option Kind × String)} : ∀ {ups : Nat}
    {chunks : List (List Char)},
    List.Forall₂ RawStep.Spelled (List.replicate ups .up ++ downSteps segments) chunks →
    ∃ css, chunks = List.replicate ups ['.', '.'] ++ css ∧
      List.Forall₂ RawStep.Spelled (downSteps segments) css
  | 0, chunks, h => ⟨chunks, rfl, h⟩
  | ups + 1, _, h => by
      rw [List.replicate_succ, List.cons_append, List.forall₂_cons_left_iff] at h
      obtain ⟨_, _, ⟨⟩, hrest, rfl⟩ := h
      obtain ⟨css, rfl, hcss⟩ := spelled_climbs hrest
      exact ⟨css, rfl, hcss⟩

/-- Segments can be left as they are, and every one that has no type can be given one. -/
lemma Retyped.of_spelled {segments : List (Option Kind × String)} : ∀ {ks : List Kind}
    {css : List (List Char)}, List.Forall₂ RawStep.Spelled (downSteps segments) css →
    ks.length = segments.length → Retyped ks css css ∧ ∃ ss css', Retyped ks css css' ∧
      List.Forall₂ RawStep.Spelled (List.map RawPath.stepOf ss) css' := by
  induction segments with
  | nil =>
      rintro ks _ ⟨⟩ hlength
      obtain rfl := List.length_eq_zero_iff.1 hlength
      exact ⟨.nil, [], [], .nil, .nil⟩
  | cons s segments ih =>
      rintro (_ | ⟨k, ks⟩) _ hcss hlength
      · cases hlength
      rw [downSteps, List.map_cons, ← downSteps, List.forall₂_cons_left_iff] at hcss
      obtain ⟨cs, css, hcs, hcss, rfl⟩ := hcss
      obtain ⟨hkept, ss, css', hretyped, hss⟩ := ih hcss (Nat.succ.inj hlength)
      refine ⟨.kept hcs hkept, ?_⟩
      obtain ⟨_ | label, id⟩ := s
      · cases hcs with
        | untyped ne spelled not_up =>
          have htyped : RawStep.Spelled (.down (some k) id) (k.code.toList ++ ';' :: cs) :=
            .typed (by rw [Kind.ofWord?, Kind.ofCode?_code]; rfl) ne spelled
          exact ⟨⟨k, id⟩ :: ss, _ :: css', .typed (.untyped ne spelled not_up) htyped hretyped,
            .cons htyped hss⟩
      · exact ⟨⟨label, id⟩ :: ss, cs :: css', .kept hcs hretyped, .cons hcs hss⟩

/-- **A text that leads to a path is made of climbs and of segments**, which are the last ones of
the path, so that any of its types can be written out.  When all of them are, no type is missing. -/
theorem CanonicalPath.segments_of_resolve {text : String} {origin : Option CanonicalPath}
    {expected : Option Kind} {p : CanonicalPath} (h : resolve text origin expected = .ok p)
    (ne_dot : text ≠ ".") : ∃ absolute ups ks css, ks <:+ p.segments.map (·.kind) ∧
      text.toList = RawPath.chars absolute (List.replicate ups ['.', '.'] ++ css) ∧
      Retyped ks css css ∧ ∃ text', Annotated p text text' ∧ AllTyped text' := by
  obtain ⟨base, segments, hdesignates⟩ := exists_designates h
  obtain ⟨ks, hks, hlength⟩ := hdesignates.exists_kinds h
  have hraw : ∃ absolute ups, RawPath.parse text =
      .ok ⟨absolute, List.replicate ups .up ++ downSteps segments⟩ := by
    cases hdesignates with
    | absolute steps => exact ⟨true, 0, steps⟩
    | relative start climbed steps => exact ⟨false, _, steps⟩
  obtain ⟨absolute, ups, hraw⟩ := hraw
  rcases RawPath.parse_eq_ok_iff.1 hraw with ⟨hdot, -⟩ | ⟨-, chunks, hchunks, htext⟩
  · exact absurd hdot ne_dot
  obtain ⟨css, rfl, hcss⟩ := RawPath.spelled_climbs hchunks
  obtain ⟨hkept, ss, css', hretyped, hss⟩ := Retyped.of_spelled hcss hlength
  have hafter : (String.ofList (RawPath.chars absolute (List.replicate ups ['.', '.'] ++ css'))).toList =
      RawPath.chars absolute (List.replicate ups ['.', '.'] ++ css') := String.toList_ofList
  refine ⟨absolute, ups, ks, css, hks, htext, hkept, _, .typed hks hretyped htext hafter ne_dot, ?_⟩
  intro raw hparse id hid
  rw [RawPath.parse_spelled (List.rel_append (RawPath.forall_climbs_spelled ups) hss) hafter
    (hretyped.ne_dot htext hafter ne_dot)] at hparse
  obtain rfl := Except.ok.inj hparse
  rcases List.mem_append.1 hid with hid | hid
  · cases List.eq_of_mem_replicate hid
  · obtain ⟨s, -, hs⟩ := List.mem_map.1 hid
    cases hs

/-! ## Texts without missing types -/

/-- A segment with its label. -/
def Segment.labelled (s : Segment) : Option Kind × String :=
  (some s.kind, s.id)

section AllTyped

variable {text : String} {origin base : Option CanonicalPath}
  {segments : List (Option Kind × String)} {ss : List Segment} {p : CanonicalPath}

lemma downSteps_labelled (ss : List Segment) :
    downSteps (ss.map Segment.labelled) = ss.map RawPath.stepOf := by
  rw [downSteps, List.map_map]
  rfl

lemma exists_labelled (h : ∀ id, RawStep.down none id ∉ downSteps segments) :
    ∃ ss : List Segment, segments = ss.map Segment.labelled := by
  induction segments with
  | nil => exact ⟨[], rfl⟩
  | cons s segments ih =>
      obtain ⟨ss, rfl⟩ := ih fun id hid => h id (List.mem_cons_of_mem _ hid)
      match s, h with
      | (none, id), h => exact absurd List.mem_cons_self (h id)
      | (some k, id), _ => exact ⟨⟨k, id⟩ :: ss, rfl⟩

/-- The segments of a text in which all have types. -/
lemma Designates.all_labelled (h : Designates text origin base segments) (htyped : AllTyped text) :
    ∃ ss : List Segment, segments = ss.map Segment.labelled := by
  cases h with
  | absolute steps => exact exists_labelled (htyped _ steps)
  | relative start climbed steps =>
      exact exists_labelled fun id hid => htyped _ steps id (List.mem_append_right _ hid)

lemma labelled_iff {ts : List Kind} :
    Labelled (ss.map Segment.labelled) ts ↔ ts = ss.map (·.kind) := by
  rw [Labelled, List.map_map]
  induction ss generalizing ts with
  | nil => rw [List.map_nil, List.forall₂_nil_left_iff, List.map_nil]
  | cons s ss ih =>
      rw [List.map_cons, List.map_cons, List.forall₂_cons_left_iff]
      constructor
      · rintro ⟨t, ts, hlabel, hts, rfl⟩
        rw [hlabel s.kind rfl, ih.1 hts]
      · rintro rfl
        exact ⟨s.kind, ss.map (·.kind), by rintro _ ⟨⟩; rfl, ih.2 rfl, rfl⟩

lemma zipWith_kind_id (ss : List Segment) :
    List.zipWith Segment.mk (ss.map (·.kind)) (ss.map (·.id)) = ss := by
  induction ss with
  | nil => rfl
  | cons s ss ih => exact congrArg (List.cons s) ih

/-- **With all labels there, segments are added one by one**, and nothing is inferred. -/
theorem CanonicalPath.resolve_typed_iff (h : Designates text origin base (ss.map Segment.labelled)) :
    resolve text origin none = .ok p ↔
      Chain.extendAll ((base.map (·.segments)).getD []) ss = .ok p.segments := by
  by_cases hne : ss = []
  · subst hne
    rw [h.resolve_nil, Chain.extendAll, Except.ok.injEq]
    cases base with
    | none =>
        refine ⟨fun h => ?_, fun h => absurd h.symm p.ne_nil⟩
        cases h.1
    | some b =>
        rw [Option.some.injEq]
        exact ⟨fun h => h.1 ▸ rfl, fun h => ⟨ext_segments h, by rintro _ ⟨⟩⟩⟩
  have hids : ∀ s ∈ ss, s.id ≠ "" := fun s hs => h.ids _ (List.mem_map_of_mem hs)
  have hread : (ss.map Segment.labelled).map (·.2) = ss.map (·.id) := by
    rw [List.map_map]
    rfl
  rw [((h.inferred (List.map_eq_nil_iff.not.2 hne) none).exact_iff
    (fun us vs hus hvs => hus.labelled.length_eq.symm.trans hvs.labelled.length_eq)
    fun us q q' hq hq' => ext_segments (hq.trans hq'.symm)).1 p, chain_extendAll_eq_ok_iff, hread]
  constructor
  · rintro ⟨ts, hlegal, -, hsegments⟩
    obtain rfl := labelled_iff.1 hlegal.labelled
    rw [zipWith_kind_id] at hsegments
    refine ⟨hsegments, fun s hs => ?_, List.isChain_map _ |>.1 hlegal.steps, hids⟩
    refine (check_below_iff base s).2 ⟨hids s (List.mem_of_mem_head? hs), hlegal.start _ ?_⟩
    rw [List.head?_map]
    exact Option.mem_map_of_mem _ hs
  · rintro ⟨hsegments, hfirst, hsteps, -⟩
    have hlegal : LegalTyping (fitsBelow base) none ((ss.map Segment.labelled).map (·.1))
        (ss.map (·.kind)) :=
      { start := fun t ht => by
          rw [List.head?_map] at ht
          obtain ⟨s, hs, rfl⟩ := Option.map_eq_some_iff.1 ht
          exact ((check_below_iff base s).1 (hfirst s hs)).2
        steps := (List.isChain_map _).2 hsteps
        labelled := labelled_iff.2 rfl
        last := by rintro _ _ _ ⟨⟩ }
    refine ⟨_, hlegal, .of_unique hlegal fun us hus => labelled_iff.1 hus.labelled, ?_⟩
    rw [zipWith_kind_id]
    exact hsegments

/-- **An absolute text in which all segments have types** is read as a canonical path. -/
theorem CanonicalPath.resolve_typed_absolute (htyped : AllTyped text)
    (hslash : text.toList.head? = some '/') :
    resolve text origin none = .ok p ↔ parse text = .ok p := by
  rw [parse_eq_ok_iff]
  constructor
  · intro h
    obtain ⟨base, segments, hdesignates⟩ := exists_designates h
    obtain ⟨ss, rfl⟩ := hdesignates.all_labelled htyped
    have hsegments := (resolve_typed_iff hdesignates).1 h
    cases hdesignates with
    | absolute steps => exact ⟨ss, downSteps_labelled ss ▸ steps, hsegments⟩
    | relative start climbed steps => cases (RawPath.absolute_iff steps).2 hslash
  · rintro ⟨ss, hraw, hsegments⟩
    exact (resolve_typed_iff (.absolute (downSteps_labelled ss ▸ hraw))).2 hsegments

/-- What following a relative path takes. -/
lemma RelativePath.applyTo_eq_ok_iff {r : RelativePath} {o : CanonicalPath} :
    r.applyTo o = .ok p ↔
      ∃ b, o.climb r.ups = .ok b ∧ Chain.extendAll b.segments r.segments = .ok p.segments := by
  rw [applyTo]
  simp only [Refusal.bind_eq_ok_iff, CanonicalPath.toPath_eq_ok_iff]
  constructor
  · rintro ⟨b, hb, _, hc, rfl⟩
    exact ⟨b, hb, hc⟩
  · rintro ⟨b, hb, hc⟩
    exact ⟨b, hb, _, hc, rfl⟩

/-- **A relative text in which all segments have types** is read as a relative path, which is
followed from the origin. -/
theorem CanonicalPath.resolve_typed_relative {o : CanonicalPath} (htyped : AllTyped text)
    (hslash : text.toList.head? ≠ some '/') : resolve text (some o) none = .ok p ↔
      (do (← RelativePath.parse text).applyTo o) = .ok p := by
  simp only [Refusal.bind_eq_ok_iff, RelativePath.applyTo_eq_ok_iff, RelativePath.parse_eq_ok_iff]
  constructor
  · intro h
    obtain ⟨base, segments, hdesignates⟩ := exists_designates h
    obtain ⟨ss, rfl⟩ := hdesignates.all_labelled htyped
    have hsegments := (resolve_typed_iff hdesignates).1 h
    cases hdesignates with
    | absolute steps => exact absurd ((RawPath.absolute_iff steps).1 rfl) hslash
    | @relative _ b left _ start climbed steps =>
        obtain rfl := Option.some.inj start
        obtain ⟨-, -, hsteps, hids⟩ := chain_extendAll_eq_ok_iff.1 hsegments
        exact ⟨⟨left.length, ss⟩, ⟨downSteps_labelled ss ▸ steps, hsteps, hids⟩, b,
          climb_of_append climbed, hsegments⟩
  · rintro ⟨r, ⟨hraw, -⟩, b, hclimb, hsegments⟩
    rcases climb_spec o r.ups with ⟨b', left, hb, hleft, hlength⟩ | habove
    · obtain rfl := Except.ok.inj (hclimb.symm.trans hb)
      refine (resolve_typed_iff (.relative rfl hleft ?_)).2 hsegments
      rw [hlength, downSteps_labelled]
      exact hraw
    · cases hclimb.symm.trans habove

end AllTyped

namespace CanonicalPath

/-- **Writing types out never changes an answer.**  Where a text leads, it still leads when segments
without a type get the one that they have in the path, and when the kind of the path is expected.
Where all segments have types, absolute texts lead where they do as canonical paths, and relative
texts where they do as relative paths from the origin. -/
theorem resolve_annotated (text : String) (origin : Option CanonicalPath) :
    (∀ (expected : Option Kind) (p : CanonicalPath), resolve text origin expected = .ok p →
      ∀ text', Annotated p text text' → ∀ expected', expected' = expected ∨ expected' = some p.kind →
        resolve text' origin expected' = .ok p) ∧
      (AllTyped text → ∀ p,
        (text.toList.head? = some '/' →
          (resolve text origin none = .ok p ↔ parse text = .ok p)) ∧
        (text.toList.head? ≠ some '/' → ∀ o, origin = some o →
          (resolve text origin none = .ok p ↔
            (do (← RelativePath.parse text).applyTo o) = .ok p))) := by
  refine ⟨fun _ _ h _ htypes _ => resolve_of_annotated h htypes, fun htyped p =>
    ⟨resolve_typed_absolute htyped, fun hslash o horigin => ?_⟩⟩
  rw [horigin]
  exact resolve_typed_relative htyped hslash

/-- A neighbour of an environment that was written without its type, with it, and as a whole. -/
theorem annotated_neighbour_resolved :
    let origin : CanonicalPath := ⟨[⟨.tenant, "acme"⟩, ⟨.environment, "prod"⟩], by decide⟩
    let p : CanonicalPath :=
      ⟨[⟨.tenant, "acme"⟩, ⟨.environment, "x"⟩, ⟨.resource, "r1"⟩], by decide⟩
    (resolve "../x/r1" (some origin) (some .resource) = .ok p ∧
      Annotated p "../x/r1" "../environment;x/r1" ∧
      resolve "../environment;x/r1" (some origin) (some .resource) = .ok p) ∧
    (AllTyped "../e;x/r;r1" ∧ "../e;x/r;r1".toList.head? ≠ some '/' ∧
      (do (← RelativePath.parse "../e;x/r;r1").applyTo origin) = .ok p ∧
      resolve "../e;x/r;r1" (some origin) none = .ok p) ∧
    (AllTyped "/t;acme/e;x/r;r1" ∧ "/t;acme/e;x/r;r1".toList.head? = some '/' ∧
      parse "/t;acme/e;x/r;r1" = .ok p ∧ resolve "/t;acme/e;x/r;r1" none none = .ok p) := by
  intro origin p
  have hresolve : resolve "../x/r1" (some origin) (some .resource) = .ok p := by decide +kernel
  have hx : RawStep.Spelled (.down none "x") ['x'] :=
    .untyped (by decide) (.plain rfl .nil) (by decide)
  have hr1 : RawStep.Spelled (.down none "r1") ['r', '1'] :=
    .untyped (by decide) (.plain rfl (.plain rfl .nil)) (by decide)
  have htyped : RawStep.Spelled (.down (some .environment) "x") "environment;x".toList :=
    @RawStep.Spelled.typed "environment" _ _ _ (by decide) (by decide) (.plain rfl .nil)
  have hannotated : Annotated p "../x/r1" "../environment;x/r1" :=
    @Annotated.typed p _ _ false 1 [.environment, .resource] _ _ ⟨[.tenant], rfl⟩
      (.typed hx htyped (.kept hr1 .nil)) (by decide) (by decide) (by decide)
  have hrelative : AllTyped "../e;x/r;r1" := by
    have hparse : RawPath.parse "../e;x/r;r1" =
        .ok ⟨false, [.up, .down (some .environment) "x", .down (some .resource) "r1"]⟩ := by
      decide +kernel
    intro raw hraw id
    obtain rfl := Except.ok.inj (hparse.symm.trans hraw)
    simp
  have habsolute : AllTyped "/t;acme/e;x/r;r1" := by
    have hparse : RawPath.parse "/t;acme/e;x/r;r1" =
        .ok ⟨true, [.down (some .tenant) "acme", .down (some .environment) "x",
          .down (some .resource) "r1"]⟩ := by
      decide +kernel
    intro raw hraw id
    obtain rfl := Except.ok.inj (hparse.symm.trans hraw)
    simp
  have hfollowed : (do (← RelativePath.parse "../e;x/r;r1").applyTo origin) = .ok p := by
    decide +kernel
  have hparsed : parse "/t;acme/e;x/r;r1" = .ok p := by decide +kernel
  exact ⟨⟨hresolve, hannotated, (resolve_annotated _ _).1 _ _ hresolve _ hannotated _ (.inl rfl)⟩,
    ⟨hrelative, by decide, hfollowed,
      (((resolve_annotated _ _).2 hrelative p).2 (by decide) origin rfl).2 hfollowed⟩,
    habsolute, rfl, hparsed, (((resolve_annotated _ _).2 habsolute p).1 rfl).2 hparsed⟩

end CanonicalPath

end Estate
