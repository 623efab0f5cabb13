import Estate.Proofs.Path.Text
import Estate.Proofs.Traversal.Places
import Estate.Proofs.Traversal.Shape

/-!
# Traversals from a path

A relative traversal starts at a path that is given to it.  One can also write the path before it.
Then the text of the path is read as steps to entities, which lead along its segments, and what
follows is read as it was without the path.  From there on both traversals stand at entities of the
same kind, so that they are compiled to the same fragments.

Ids are escaped in the text of a path, but for the brackets, which mean nothing in a path and begin
and end filters in a traversal.

* `Grammar.segment_reads` — a segment is read as a step to an entity.
* `Traversal.parse_anchored` — what is read behind a path.
* `compileSteps_along` — what the steps along a path are compiled to.
* **`Query.compile_text`** — the text of a path is compiled to the way to it.
* **`Query.compile_anchored`** — a traversal from a path and the same one behind its text.
-/

namespace Estate

open Parse

/-- No id of a path has a bracket in it. -/
def CanonicalPath.BracketFree (p : CanonicalPath) : Prop :=
  ∀ s ∈ p.segments, '[' ∉ s.id.toList ∧ ']' ∉ s.id.toList

instance (p : CanonicalPath) : Decidable p.BracketFree :=
  inferInstanceAs (Decidable (∀ s ∈ p.segments, _))

/-- What a segment has to be like to be read as a step. -/
structure Segment.Readable (s : Segment) : Prop where
  kind : s.kind ≠ .relationship
  id : s.id ≠ ""
  brackets : '[' ∉ s.id.toList ∧ ']' ∉ s.id.toList

lemma CanonicalPath.OfEntity.readable {p : CanonicalPath} (hp : p.OfEntity)
    (hbrackets : p.BracketFree) : ∀ s ∈ p.segments, s.Readable := fun s hs =>
  ⟨hp.segment_ne s hs, hp.ids s hs, hbrackets s hs⟩

/-- The step that a segment of a path is read as. -/
def Segment.step (s : Segment) : Step :=
  .entity ⟨some s.kind, s.id, []⟩

/-- The fragments that lead from a parent to the child of a segment. -/
def Segment.hop (s : Segment) : List Fragment :=
  (Filter.children :: Query.segmentFilters s).map (⟨.path, ·⟩)

/-- Steps along some segments. -/
def StepsAlong (segments : List Segment) (steps : List (Spanned Step)) : Prop :=
  List.Forall₂ (fun s step => step.value = s.step) segments steps

/-- Steps further on. -/
def stepsMoved (k : Nat) (ts : List (Spanned Step)) : List (Spanned Step) :=
  ts.map (Spanned.moved k (Step.moved k))

namespace Grammar

variable {rest : List Char}

/-! ## Segments -/

lemma id_reads_segment {s : Segment} (h : s.Readable) (hrest : Chain.Stops rest) :
    Grammar.id.Reads (Segment.escapeChars s.id.toList) rest (· = s.id) := by
  refine (writes_escapeChars fun c hc hstop => ?_).text_reads h.id (hrest.escapeEnds (by decide))
  simp only [List.mem_cons, List.not_mem_nil, or_false] at hstop
  rcases hstop with rfl | rfl | rfl | rfl
  · rfl
  · rfl
  · exact absurd hc h.brackets.1
  · exact absurd hc h.brackets.2

/-- **A segment is read as a step to an entity.** -/
lemma segment_reads {s : Segment} (h : s.Readable) (hrest : Chain.Stops rest) :
    step.Reads s.chars rest (· = s.step) := by
  have hword : IsWord s.kind.code := by cases s.kind <;> decide
  have hmisses : ∀ {α : Type} {words : List String} {f : String → Parser α},
      (∀ k ∈ Kind.all, k ≠ .relationship → k.code ∉ words) →
        (keyword words >>= f).Misses (s.chars ++ rest) := fun hwords => by
    rw [Segment.chars, List.append_assoc]
    exact .bind (keyword_misses hword (hwords s.kind (Kind.mem_all _) h.kind)
      (wordEnds_cons (by decide)))
  refine .second (hmisses (by decide)) <| .second (hmisses (by decide)) <|
    .second (hmisses (by decide)) <| .second (hmisses (by decide)) <| .first ?_
  have hkind : RawPath.kindWord.Reads s.kind.code.toList
      (';' :: Segment.escapeChars s.id.toList ++ rest) (· = s.kind) :=
    RawPath.kindWord_reads (by rw [Kind.ofWord?, Kind.ofCode?_code]; rfl)
      (wordEnds_cons (by decide))
  have hbracket : rest.head? ≠ some '[' := by
    rcases hrest with rfl | ⟨more, rfl⟩ <;> simp
  have hfilters : (filters .entity).Reads [] rest (· = []) :=
    (Parser.Reads.many_nil (.bind (char_misses hbracket))).map (by rintro _ rfl; rfl)
  refine .bind hkind ?_
  rintro _ rfl
  refine .char_bind <| .bind_last (id_reads_segment h hrest).commit ?_
  rintro _ rfl
  exact hfilters.map (by rintro _ rfl; rfl)

/-! ## Steps with a slash before each -/

/-- A step and the slash before it. -/
def laterStep : Parser (Spanned Step) := do
  char '/'
  (Parser.spanned step).commit

/-- Steps up to the end of the text, with a slash before each. -/
def laterSteps : Parser (List (Spanned Step)) := do
  let steps ← Parser.many laterStep
  finished
  pure steps

/-- Steps up to the end of the text, with a slash before each but the first. -/
def steps : Parser (List (Spanned Step)) := do
  let first ← (Parser.spanned step).commit
  let others ← laterSteps
  pure (first :: others)

lemma steps_moves (k : Nat) : steps.Moves k (stepsMoved k) steps := by
  have hstep := (step_moves k).spanned.commit
  have hlater : laterSteps.Moves k (stepsMoved k) laterSteps :=
    .bind (.many (.bind (char_placeless _ k) fun _ => hstep)) fun _ =>
      .bind (finished_placeless k) fun _ => .pure rfl
  exact .bind hstep fun _ => .bind hlater fun _ => .pure rfl

/-- Behind a slash, the first step is one of the later ones. -/
lemma laterSteps_of_slash (offset : Nat) (cs : List Char) :
    laterSteps ⟨offset, '/' :: cs⟩ = steps ⟨offset + '/'.utf8Size, cs⟩ := by
  have hslash : char '/' ⟨offset, '/' :: cs⟩ = .done () ⟨offset + '/'.utf8Size, cs⟩ :=
    char_eq_done.2 ⟨rfl, rfl⟩
  have hlater : laterStep ⟨offset, '/' :: cs⟩ =
      (Parser.spanned step).commit ⟨offset + '/'.utf8Size, cs⟩ := Parser.bind_done hslash
  rw [laterSteps, steps]
  simp only [bind]
  rw [Parser.many, hlater]
  cases hfirst : (Parser.spanned step).commit ⟨offset + '/'.utf8Size, cs⟩ with
  | done first d =>
      have hless : d.rest.length < ('/' :: cs).length :=
        Nat.lt_succ_of_le (step_spanned_done hfirst).1.suffix.length_le
      simp only [if_pos hless, laterSteps, bind]
      cases Parser.many laterStep d with
      | done others e =>
          simp only [Reply.map]
          cases finished e <;> rfl
      | _ => rfl
  -- Behind a slash a step cannot miss, so that the repetition does not end before it.
  | miss e => exact absurd hfirst (Parser.Sure.commit _ _)
  | fatal e => rfl

lemma laterSteps_nil (offset : Nat) : laterSteps ⟨offset, []⟩ = .done [] ⟨offset, []⟩ := by
  have hmany : Parser.many laterStep ⟨offset, []⟩ = .done [] ⟨offset, []⟩ := by
    rw [Parser.many]
    rfl
  rw [laterSteps, Parser.bind_done hmany]
  rfl

/-- A traversal is made of steps, behind a slash if it is absolute. -/
lemma traversal_eq {c d : Cursor} {absolute : Option Unit}
    (h : (char '/').optional c = .done absolute d) :
    traversal c = (steps d).map (⟨absolute.isSome, ·⟩) := by
  rw [traversal, Parser.bind_done h]
  show (do
    let first ← (Parser.spanned step).commit
    let others ← Parser.many laterStep
    finished
    pure ⟨absolute.isSome, first :: others⟩ : Parser Traversal) d = _
  rw [steps]
  simp only [bind, laterSteps]
  cases (Parser.spanned step).commit d with
  | done first e =>
      dsimp only
      cases Parser.many laterStep e with
      | done others e' =>
          dsimp only
          cases finished e' <;> rfl
      | _ => rfl
  | _ => rfl

lemma stops_append {rest : List Char} (c : Chain) (hrest : Chain.Stops rest) :
    Chain.Stops (c.chars ++ rest) := by
  cases c with
  | nil => exact hrest
  | cons s c => exact Or.inr ⟨_, rfl⟩

/-- **The segments of a path are read as steps along it**, and what follows as if it stood alone. -/
lemma laterSteps_chars {c : Chain} (hc : ∀ s ∈ c, s.Readable) (hrest : Chain.Stops rest)
    (offset : Nat) :
    ∃ before offset', StepsAlong c before ∧
      laterSteps ⟨offset, c.chars ++ rest⟩ = (laterSteps ⟨offset', rest⟩).map (before ++ ·) := by
  have hsegment : ∀ front s after, c = front ++ s :: after →
      laterStep.Reads ('/' :: s.chars) (Chain.chars after ++ rest) fun x => x.value = s.step := by
    rintro front s after rfl
    exact .char_bind
      (segment_reads (hc s (by simp)) (stops_append after hrest)).spanned.commit
  obtain ⟨before, offset', hbefore, hmany⟩ :=
    Parser.Reads.many_append (fun _ _ => List.cons_ne_nil _ _) hsegment offset
  refine ⟨before, offset', hbefore, ?_⟩
  simp only [laterSteps, bind]
  rw [Chain.chars, hmany]
  cases Parser.many laterStep ⟨offset', rest⟩ with
  | done after d =>
      simp only [Reply.map]
      cases finished d <;> rfl
  | _ => rfl

end Grammar

namespace Traversal

open Grammar

variable {p : CanonicalPath} {rest : List Char}

/-- The text of a path is read as steps along it, and so is what follows it. -/
lemma parse_behind (hp : ∀ s ∈ p.segments, s.Readable) (hrest : Chain.Stops rest)
    {text : String} (htext : text.toList = Chain.chars p.segments ++ rest) :
    ∃ before offset, StepsAlong p.segments before ∧
      parse text = ((laterSteps ⟨offset, rest⟩).map (⟨true, before ++ ·⟩)).toExcept text := by
  obtain ⟨before, offset, hbefore, hread⟩ := laterSteps_chars hp hrest 0
  refine ⟨before, offset, hbefore, ?_⟩
  obtain ⟨s, c, hsegments⟩ := List.exists_cons_of_ne_nil p.ne_nil
  have hchars : Chain.chars p.segments ++ rest = '/' :: (s.chars ++ Chain.chars c ++ rest) := by
    rw [hsegments]
    rfl
  have hslash : (char '/').optional ⟨0, '/' :: (s.chars ++ Chain.chars c ++ rest)⟩ =
      .done (some ()) ⟨0 + '/'.utf8Size, s.chars ++ Chain.chars c ++ rest⟩ :=
    Parser.optional_eq_done.2 (.inl ⟨(), rfl, char_eq_done.2 ⟨rfl, rfl⟩⟩)
  -- The slash of the first segment is the one that makes a traversal absolute.
  rw [parse, Cursor.start, htext, hchars, traversal_eq hslash, ← laterSteps_of_slash, ← hchars,
    hread]
  cases laterSteps ⟨offset, rest⟩ <;> rfl

/-- One traversal is relative, and the other one goes to a path before it takes the same steps. -/
structure Continues (p : CanonicalPath) (t t' : Traversal) : Prop where
  relative : t.absolute = false
  absolute : t'.absolute = true
  steps : ∃ before k, t'.steps = before ++ stepsMoved k t.steps ∧ StepsAlong p.segments before

/-- **What is read behind a path** is read as it is without the path. -/
lemma parse_anchored (hp : ∀ s ∈ p.segments, s.Readable) {text : String}
    (hrelative : text.toList.head? ≠ some '/') :
    Refusal.Alike (Continues p) (parse text) (parse (p.text ++ "/" ++ text)) := by
  have htext : (p.text ++ "/" ++ text).toList = Chain.chars p.segments ++ '/' :: text.toList := by
    simp [CanonicalPath.text_toList]
  obtain ⟨before, offset, hbefore, hread⟩ := parse_behind hp (.inr ⟨_, rfl⟩) htext
  have hnone : (char '/').optional (.start text) = .done none (.start text) :=
    Parser.optional_eq_done.2 (.inr ⟨rfl, rfl, char_misses hrelative 0⟩)
  rw [hread, parse, traversal_eq hnone, laterSteps_of_slash]
  have hmoved := steps_moves (offset + '/'.utf8Size) (.start text)
  rw [show (Cursor.start text).moved (offset + '/'.utf8Size) =
    ⟨offset + '/'.utf8Size, text.toList⟩ from congrArg (Cursor.mk · _) (Nat.zero_add _)] at hmoved
  generalize Grammar.steps (.start text) = reply at hmoved
  generalize Grammar.steps ⟨offset + '/'.utf8Size, text.toList⟩ = reply' at hmoved
  cases hmoved with
  | done ts => exact .ok ⟨rfl, rfl, before, _, rfl, hbefore⟩
  | miss => exact .error
  | fatal => exact .error

end Traversal

/-! ## Compiling -/

section Compiling

variable {origin : Option CanonicalPath}

/-- A step to an entity of a known kind goes to it and stands there. -/
lemma compileStep_segment (standing : Standing) (hstanding : standing ≠ .relationships)
    {step : Spanned Step} {s : Segment} (hstep : step.value = s.step) :
    compileStep origin standing step =
      .ok (standing.hop ++ (Query.segmentFilters s).map (⟨.path, ·⟩), .entities (some s.kind)) := by
  obtain ⟨span, step⟩ := step
  obtain rfl := hstep
  cases standing with
  | relationships => exact absurd rfl hstanding
  | start => rfl
  | entities kind => rfl

lemma compileSteps_cons {standing next : Standing} {step : Spanned Step}
    {ts : List (Spanned Step)} {fragments : List Fragment}
    (h : compileStep origin standing step = .ok (fragments, next)) :
    compileSteps origin standing (step :: ts) =
      (compileSteps origin next ts).map (fragments ++ ·) := by
  rw [compileSteps, h]
  simp only [bind, Except.bind]
  cases compileSteps origin next ts <;> rfl

/-- **The steps along some segments** lead on from the end of a path. -/
lemma compileSteps_along {ss : List Segment} {before ts : List (Spanned Step)}
    (h : StepsAlong ss before) : ∀ c : Chain,
    compileSteps origin (.entities c.lastKind?) (before ++ ts) =
      (compileSteps origin (.entities (Chain.lastKind? (c ++ ss))) ts).map
        (ss.flatMap Segment.hop ++ ·) := by
  -- By induction on the segments that are left; the chain before them is where the step stands.
  induction h with
  | nil =>
      intro c
      rw [List.append_nil, List.nil_append]
      cases compileSteps origin (.entities c.lastKind?) ts <;> rfl
  | @cons s step ss before hstep _ ih =>
      intro c
      have hfirst : compileStep origin (.entities c.lastKind?) step =
          .ok (s.hop, .entities (Chain.lastKind? (c ++ [s]))) := by
        rw [compileStep_segment (.entities _) (by simp) hstep, CanonicalPath.lastKind?_concat]
        rfl
      rw [List.cons_append, compileSteps_cons hfirst, ih, List.append_assoc, List.singleton_append]
      cases compileSteps origin (.entities (Chain.lastKind? (c ++ s :: ss))) ts with
      | ok fragments => simp [Except.map]
      | error e => rfl

/-- The way to a path looks the first segment up and then goes down from parents to children. -/
lemma Query.fragments_pathChain {p : CanonicalPath} {s : Segment} {ss : List Segment}
    (h : p.segments = s :: ss) : (Query.pathChain p).fragments =
      (Query.segmentFilters s).map (⟨.path, ·⟩) ++ ss.flatMap Segment.hop := by
  simp only [pathChain, h, ofPath, fragments, List.map_append, List.map_flatMap]
  rfl

/-- **The steps to a path** are compiled to the way to it. -/
lemma compileSteps_to {p : CanonicalPath} {before ts : List (Spanned Step)}
    (h : StepsAlong p.segments before) :
    compileSteps origin .start (before ++ ts) =
      (compileSteps origin (.entities (some p.kind)) ts).map
        ((Query.pathChain p).fragments ++ ·) := by
  obtain ⟨s, ss, hsegments⟩ := List.exists_cons_of_ne_nil p.ne_nil
  have hkind : Chain.lastKind? ([s] ++ ss) = some p.kind := by
    rw [List.singleton_append, ← hsegments, CanonicalPath.lastKind?_segments]
  rw [hsegments] at h
  cases h with
  | @cons _ step _ before hstep hbefore =>
      have hfirst : compileStep origin .start step =
          .ok ((Query.segmentFilters s).map (⟨.path, ·⟩), .entities (Chain.lastKind? [s])) :=
        compileStep_segment .start (by simp) hstep
      rw [List.cons_append, compileSteps_cons hfirst, compileSteps_along hbefore, hkind,
        Query.fragments_pathChain hsegments]
      cases compileSteps origin (.entities (some p.kind)) ts with
      | ok fragments => exact congrArg Except.ok (List.append_assoc _ _ _).symm
      | error e => rfl

lemma Traversal.compile_relative (p : CanonicalPath) (ts : List (Spanned Step)) :
    Traversal.compile ⟨false, ts⟩ (some p) = do
      return .node ((Query.path p).fragments ++
        (← compileSteps (some p) (.entities (some p.kind)) ts)) [] := rfl

/-- A traversal along a path is compiled to the way to it, and then goes on from its end. -/
lemma Traversal.compile_of_along {p : CanonicalPath} {before ts : List (Spanned Step)}
    (h : StepsAlong p.segments before) :
    Traversal.compile ⟨true, before ++ ts⟩ origin = do
      return .node ((Query.pathChain p).fragments ++
        (← compileSteps origin (.entities (some p.kind)) ts)) [] := by
  show (do return .node ([] ++ (← compileSteps origin .start (before ++ ts))) [] :
    Except CompileError Query) = _
  rw [compileSteps_to h]
  cases compileSteps origin (.entities (some p.kind)) ts <;> rfl

end Compiling

namespace Query

variable {p : CanonicalPath}

/-- A query starts with a jump to a path, and another one goes on as it does at the end of the way
to that path. -/
def SameFrom (p : CanonicalPath) (q q' : Query) : Prop :=
  ∃ fragments, q = .node ((path p).fragments ++ fragments) [] ∧
    q' = .node ((pathChain p).fragments ++ fragments) []

/-- The way to a path has no branches. -/
lemma pathChain_eq_node (p : CanonicalPath) : pathChain p = .node (pathChain p).fragments [] := by
  rw [pathChain]
  split <;> rfl

/-- **The text of a path is compiled to the way to it**, whatever the origin is. -/
theorem compile_text (hp : p.OfEntity) (hbrackets : p.BracketFree) (origin : Option CanonicalPath) :
    compile p.text origin = .ok (pathChain p) := by
  have htext : p.text.toList = Chain.chars p.segments ++ [] := by
    rw [CanonicalPath.text_toList, List.append_nil]
  obtain ⟨before, offset, hbefore, hread⟩ :=
    Traversal.parse_behind (hp.readable hbrackets) (.inl rfl) htext
  rw [compile, hread, Grammar.laterSteps_nil]
  refine (Traversal.compile_of_along hbefore).trans (congrArg Except.ok ?_)
  rw [List.append_nil]
  exact (pathChain_eq_node p).symm

/-- **A traversal from a path and the same one behind the text of the path** differ only in how they
get to the path. -/
theorem compile_anchored (hp : p.OfEntity) (hbrackets : p.BracketFree) {text : String}
    (hrelative : text.toList.head? ≠ some '/') :
    Refusal.Alike (SameFrom p) (compile text (some p))
      (compile (p.text ++ "/" ++ text) (some p)) := by
  have hread := Traversal.parse_anchored (hp.readable hbrackets) hrelative
  refine hread.mapError.bind ?_
  rintro ⟨absolute, steps⟩ ⟨_, _⟩ ⟨rfl, rfl, before, k, rfl, hbefore⟩
  rw [Traversal.compile_relative, Traversal.compile_of_along hbefore]
  have hsteps := compileSteps_moved text k (some p) steps (.entities (some p.kind))
  exact hsteps.alike.bind fun fragments _ h => .pure ⟨fragments, rfl, by rw [h]⟩

end Query

end Estate
