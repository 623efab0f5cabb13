import Estate.Path.Relative
import Estate.Proofs.Path.Text

/-!
# Relative paths as text

A relative path is printed as its climbs and then its segments, with slashes between them, or as a
dot.  With one more slash in front this is how canonical paths are printed, so that what is known of
those is used here for everything behind the climbs.

* `RelativePath.Built` — how relative paths come about; `RelativePath.Built.placed` — what is so of
  all of them.
* **`RelativePath.text_injective`** — different relative paths have different texts, however they
  have come about.
* **`RelativePath.parse_text`** — a relative path whose segments may stand where they stand is read
  back from its text.
* **`paths_are_read_back`** — the same for both sorts of paths.
-/

namespace Estate

open Parse Text

namespace RelativePath

/-- A relative path in which every segment but the first may stand where it stands, and no id is
empty. -/
structure Placed (r : RelativePath) : Prop where
  steps : r.segments.IsChain fun above below => above.kind.canContain below.kind
  ids : ∀ s ∈ r.segments, s.id ≠ ""

/-- **How relative paths come about**: step by step, or from legal canonical paths. -/
inductive Built : RelativePath → Prop
  | empty : Built {}
  | climb {r r' : RelativePath} (before : Built r) (done : r.climb = .ok r') : Built r'
  | extend {r r' : RelativePath} {s : Segment} (before : Built r) (done : r.extend s = .ok r') :
      Built r'
  | whole {p : CanonicalPath} (legal : p.Legal) : Built p.toRelative
  | between {p origin : CanonicalPath} {r : RelativePath} (legal : p.Legal)
      (origin_legal : origin.Legal) (done : p.relativeTo origin = .ok r) : Built r

variable {r r' : RelativePath} {s : Segment}

/-! ## Growing -/

lemma climb_eq_ok_iff : r.climb = .ok r' ↔ r.segments = [] ∧ r' = ⟨r.ups + 1, []⟩ := by
  obtain ⟨ups, segments⟩ := r
  cases segments with
  | nil => exact ⟨fun h => ⟨rfl, (Except.ok.inj h).symm⟩, fun h => congrArg Except.ok h.2.symm⟩
  | cons s ss => exact ⟨nofun, nofun⟩

/-- **What extending a relative path takes**: an id, and a kind that may stand below the segment
before, if there is one. -/
lemma extend_eq_ok_iff : r.extend s = .ok r' ↔
    (s.id ≠ "" ∧ ∀ above ∈ r.segments.getLast?, above.kind.canContain s.kind) ∧
      r' = ⟨r.ups, r.segments ++ [s]⟩ := by
  rw [extend]
  by_cases hid : s.id = ""
  · rw [if_pos (String.isEmpty_iff.2 hid)]
    exact ⟨nofun, fun h => absurd hid h.1.1⟩
  · rw [if_neg (mt String.isEmpty_iff.1 hid)]
    cases r.segments.getLast? with
    | none =>
        constructor
        · exact fun h => ⟨⟨hid, nofun⟩, (Except.ok.inj h).symm⟩
        · exact fun h => congrArg Except.ok h.2.symm
    | some above =>
        show (s.check (some above.kind) >>= fun _ => pure _) = _ ↔ _
        simp only [Refusal.bind_eq_ok_iff, Refusal.pure_eq_ok_iff, Option.mem_def,
          Option.some.injEq, forall_eq']
        constructor
        · rintro ⟨_, hcheck, rfl⟩
          exact ⟨CanonicalPath.check_eq_ok_iff.1 hcheck, rfl⟩
        · rintro ⟨hfits, rfl⟩
          exact ⟨(), CanonicalPath.check_eq_ok_iff.2 hfits, rfl⟩

lemma Placed.extend (h : r.Placed) (hid : s.id ≠ "")
    (hfits : ∀ above ∈ r.segments.getLast?, above.kind.canContain s.kind) :
    Placed ⟨r.ups, r.segments ++ [s]⟩ where
  steps := h.steps.append (List.isChain_singleton s) fun above habove below hbelow => by
    obtain rfl : s = below := by simpa using hbelow
    exact hfits above habove
  ids := fun t ht => by
    rcases List.mem_append.1 ht with ht | ht
    · exact h.ids t ht
    · exact List.mem_singleton.1 ht ▸ hid

/-- The end of a legal path, behind any number of climbs. -/
lemma Placed.of_drop {p : CanonicalPath} (h : p.Legal) (ups n : Nat) :
    Placed ⟨ups, p.segments.drop n⟩ where
  steps := h.steps.drop n
  ids := fun s hs => h.ids s (List.mem_of_mem_drop hs)

/-- **However a relative path has come about**, its segments may stand where they stand. -/
theorem Built.placed (h : r.Built) : r.Placed := by
  induction h with
  | empty => exact ⟨List.isChain_nil, nofun⟩
  | climb before done ih =>
      obtain ⟨-, rfl⟩ := climb_eq_ok_iff.1 done
      exact ⟨List.isChain_nil, nofun⟩
  | extend before done ih =>
      obtain ⟨⟨hid, hfits⟩, rfl⟩ := extend_eq_ok_iff.1 done
      exact ih.extend hid hfits
  | whole legal => exact .of_drop legal 0 0
  | between legal origin_legal done =>
      rw [CanonicalPath.relativeTo] at done
      split at done
      · cases done
      · next n _ =>
          obtain rfl := Except.ok.inj done
          exact .of_drop legal _ (n + 1)

/-! ## Texts as characters -/

/-- The characters of some climbs and a chain of segments, each with a slash before it. -/
def chars : Nat → Chain → List Char
  | 0, c => c.chars
  | ups + 1, c => '/' :: '.' :: '.' :: chars ups c

/-- A slash before texts with slashes between them stands before each of them. -/
lemma slash_intercalate {texts : List String} (hne : texts ≠ []) :
    '/' :: ("/".intercalate texts).toList = (texts.map String.toList).flatMap ('/' :: ·) := by
  induction texts with
  | nil => exact absurd rfl hne
  | cons t texts ih =>
      cases texts with
      | nil => simp
      | cons u texts =>
          rw [String.intercalate_cons_cons, List.map_cons, List.flatMap_cons,
            ← ih (List.cons_ne_nil u texts)]
          simp

lemma flatMap_climbs (ups : Nat) (c : Chain) :
    (List.replicate ups ['.', '.'] ++ c.map Segment.chars).flatMap ('/' :: ·) = chars ups c := by
  induction ups with
  | zero =>
      rw [List.replicate_zero, List.nil_append, List.flatMap_map]
      rfl
  | succ ups ih =>
      rw [List.replicate_succ, List.cons_append, List.flatMap_cons, ih]
      rfl

/-- The text of a relative path that goes somewhere, with a slash before it. -/
lemma text_toList (h : r.isEmpty = false) : '/' :: r.text.toList = chars r.ups r.segments := by
  have hne : List.replicate r.ups ".." ++ r.segments.map Segment.text ≠ [] := by
    obtain ⟨ups, segments⟩ := r
    intro hnil
    rw [List.append_eq_nil_iff, List.replicate_eq_nil_iff, List.map_eq_nil_iff] at hnil
    obtain ⟨rfl, rfl⟩ := hnil
    cases h
  rw [text, h, if_neg Bool.false_ne_true, slash_intercalate hne, List.map_append,
    List.map_replicate, List.map_map, show String.toList ∘ Segment.text = Segment.chars from
      funext Segment.text_toList]
  exact flatMap_climbs r.ups r.segments

lemma eq_empty_of_isEmpty (h : r.isEmpty) : r = {} := by
  obtain ⟨ups, segments⟩ := r
  rw [isEmpty, Bool.and_eq_true, beq_iff_eq, List.isEmpty_iff] at h
  obtain ⟨rfl, rfl⟩ := h
  rfl

/-! ## Different relative paths have different texts -/

/-- No segment begins like a climb. -/
lemma chain_chars_ne (c : Chain) (rest : List Char) : c.chars ≠ '/' :: '.' :: rest := by
  cases c with
  | nil => exact nofun
  | cons s c =>
      have hchars : Chain.chars (s :: c) = '/' :: (s.chars ++ Chain.chars c) := rfl
      rw [hchars, Segment.chars]
      cases s.kind <;> exact fun h => by cases h

lemma chars_injective : ∀ {m n : Nat} {c d : Chain}, chars m c = chars n d → m = n ∧ c = d
  | 0, 0, _, _, h => ⟨rfl, Chain.chars_injective h⟩
  | 0, _ + 1, c, _, h => absurd h (chain_chars_ne c _)
  | _ + 1, 0, _, d, h => absurd h.symm (chain_chars_ne d _)
  | m + 1, n + 1, c, d, h => by
      simp only [chars, List.cons.injEq, true_and] at h
      obtain ⟨rfl, rfl⟩ := chars_injective h
      exact ⟨rfl, rfl⟩

/-- A dot alone is the text of no path that goes somewhere. -/
lemma chars_ne_dot (ups : Nat) (c : Chain) : chars ups c ≠ ['/', '.'] := by
  cases ups with
  | zero => exact chain_chars_ne c []
  | succ ups => exact nofun

/-- **Different relative paths have different texts**, however they have come about. -/
theorem text_injective : Function.Injective text := by
  intro r r' h
  have hempty : ∀ {r : RelativePath}, r.isEmpty → r.text = "." := fun hr => by
    rw [text, if_pos hr]
  cases hr : r.isEmpty with
  | true =>
      cases hr' : r'.isEmpty with
      | true => rw [eq_empty_of_isEmpty hr, eq_empty_of_isEmpty hr']
      | false =>
          have hchars := text_toList hr'
          rw [← h, hempty hr] at hchars
          exact absurd hchars.symm (chars_ne_dot _ _)
  | false =>
      cases hr' : r'.isEmpty with
      | true =>
          have hchars := text_toList hr
          rw [h, hempty hr'] at hchars
          exact absurd hchars.symm (chars_ne_dot _ _)
      | false =>
          obtain ⟨hups, hsegments⟩ := chars_injective
            ((text_toList hr).symm.trans ((congrArg (fun t => '/' :: t.toList) h).trans
              (text_toList hr')))
          cases r
          cases r'
          obtain rfl := hups
          obtain rfl := hsegments
          rfl

end RelativePath

/-! ## Reading a relative path back -/

namespace RawPath

lemma forall_climbs_spelled (ups : Nat) :
    List.Forall₂ RawStep.Spelled (List.replicate ups .up) (List.replicate ups ['.', '.']) := by
  induction ups with
  | zero => exact .nil
  | succ ups ih => exact .cons .up ih

/-- The text of a relative path with ids is taken apart into its climbs and segments. -/
lemma parse_relative {r : RelativePath} (hids : ∀ s ∈ r.segments, s.id ≠ "") :
    parse r.text = .ok ⟨false, List.replicate r.ups .up ++ r.segments.map stepOf⟩ := by
  cases hempty : r.isEmpty with
  | true =>
      rw [RelativePath.eq_empty_of_isEmpty hempty]
      rfl
  | false =>
      have hchars := RelativePath.text_toList hempty
      have hne : List.replicate r.ups ['.', '.'] ++ r.segments.map Segment.chars ≠ [] := by
        intro hnil
        rw [← RelativePath.flatMap_climbs, hnil] at hchars
        cases hchars
      rw [← RelativePath.flatMap_climbs, ← slash_joined hne] at hchars
      refine parse_spelled (List.rel_append (forall_climbs_spelled r.ups)
        (forall_stepOf_spelled hids)) (List.cons.inj hchars).2 fun hdot => ?_
      rw [slash_joined hne, RelativePath.flatMap_climbs, hdot] at hchars
      exact RelativePath.chars_ne_dot _ _ hchars.symm

end RawPath

namespace RelativePath

lemma addSteps_climbs (text : String) (steps : List RawStep) : ∀ n m : Nat,
    addSteps text ⟨m, []⟩ (List.replicate n .up ++ steps) = addSteps text ⟨m + n, []⟩ steps
  | 0, m => rfl
  | n + 1, m => by
      rw [List.replicate_succ, List.cons_append, addSteps, climb_eq_ok_iff.2 ⟨rfl, rfl⟩]
      refine (addSteps_climbs text steps n (m + 1)).trans ?_
      rw [Nat.add_assoc, Nat.add_comm 1 n]

lemma addSteps_segments (text : String) (ss : List Segment) : ∀ r : RelativePath,
    Placed ⟨r.ups, r.segments ++ ss⟩ →
    addSteps text r (ss.map RawPath.stepOf) = .ok ⟨r.ups, r.segments ++ ss⟩ := by
  induction ss with
  | nil => exact fun r _ => by rw [List.append_nil]; rfl
  | cons s ss ih =>
      intro r h
      have hfirst : r.extend s = .ok ⟨r.ups, r.segments ++ [s]⟩ := by
        refine extend_eq_ok_iff.2 ⟨⟨h.ids s (by simp), fun above habove => ?_⟩, rfl⟩
        exact (List.isChain_append.1 h.steps).2.2 above habove s rfl
      rw [List.map_cons, RawPath.stepOf, addSteps, hfirst]
      refine (ih ⟨r.ups, r.segments ++ [s]⟩ ?_).trans ?_
      · simpa using h
      · simp

/-- Steps that a relative path is continued by are climbs, if it has no segments yet, and then
segments that may stand where they stand. -/
lemma addSteps_done (text : String) {steps : List RawStep} : ∀ {r r' : RelativePath},
    addSteps text r steps = .ok r' → ∃ (n : Nat) (ss : List Segment),
      steps = List.replicate n .up ++ ss.map RawPath.stepOf ∧
      r' = ⟨r.ups + n, r.segments ++ ss⟩ ∧ (r.segments ≠ [] → n = 0) ∧ (r.Placed → r'.Placed) := by
  induction steps with
  | nil =>
      intro r r' h
      obtain rfl := Except.ok.inj h
      exact ⟨0, [], rfl, by rw [List.append_nil]; rfl, fun _ => rfl, fun h => h⟩
  | cons step steps ih =>
      intro r r' h
      match step, h with
      | .up, h =>
          obtain ⟨d, hd, h⟩ := Refusal.bind_eq_ok_iff.1 h
          obtain ⟨hnone, rfl⟩ := climb_eq_ok_iff.1 hd
          obtain ⟨n, ss, rfl, rfl, -, hplaced⟩ := ih h
          refine ⟨n + 1, ss, rfl, ?_, fun hne => absurd hnone hne, fun _ => ?_⟩
          · rw [hnone, Nat.add_assoc, Nat.add_comm 1 n]
          · exact hplaced ⟨List.isChain_nil, nofun⟩
      | .down (some k) id, h =>
          obtain ⟨d, hd, h⟩ := Refusal.bind_eq_ok_iff.1 h
          obtain ⟨⟨hid, hfits⟩, rfl⟩ := extend_eq_ok_iff.1 hd
          obtain ⟨n, ss, rfl, rfl, hzero, hplaced⟩ := ih h
          obtain rfl := hzero (List.append_ne_nil_of_right_ne_nil _ (List.cons_ne_nil _ _))
          refine ⟨0, ⟨k, id⟩ :: ss, rfl, ?_, fun _ => rfl, fun hr => ?_⟩
          · rw [List.append_assoc]
            rfl
          · exact hplaced (hr.extend hid hfits)

/-- **A relative path is read from the texts** of its climbs and segments, if these may stand where
they stand. -/
lemma parse_eq_ok_iff {text : String} : parse text = .ok r ↔
    RawPath.parse text =
      .ok ⟨false, List.replicate r.ups .up ++ r.segments.map RawPath.stepOf⟩ ∧ r.Placed := by
  rw [parse]
  constructor
  · intro h
    cases hraw : RawPath.parse text with
    | error errors =>
        rw [hraw] at h
        cases h
    | ok raw =>
        obtain ⟨absolute, steps⟩ := raw
        rw [hraw] at h
        cases absolute with
        | true => cases h
        | false =>
            obtain ⟨n, ss, rfl, rfl, -, hplaced⟩ := addSteps_done text h
            refine ⟨?_, hplaced ⟨List.isChain_nil, nofun⟩⟩
            rw [Nat.zero_add]
            rfl
  · rintro ⟨hraw, hplaced⟩
    rw [hraw]
    simp only [Bool.false_eq_true, if_false]
    rw [addSteps_climbs, Nat.zero_add]
    exact addSteps_segments text r.segments ⟨r.ups, []⟩ hplaced

/-- **A relative path is read back from its text.** -/
theorem parse_text (h : r.Placed) : parse r.text = .ok r :=
  parse_eq_ok_iff.2 ⟨RawPath.parse_relative h.ids, h⟩

end RelativePath

/-! ## Both sorts of paths -/

/-- **Paths are read back from their texts**, canonical ones that are legal and relative ones that
have been built from legal parts, whatever characters their ids have.  No two paths of one sort have
the same text. -/
theorem paths_are_read_back :
    (∀ p : CanonicalPath, p.Legal → CanonicalPath.parse p.text = .ok p) ∧
      (∀ r : RelativePath, r.Built → RelativePath.parse r.text = .ok r) ∧
      Function.Injective CanonicalPath.text ∧ Function.Injective RelativePath.text :=
  ⟨fun _ => CanonicalPath.parse_text, fun _ h => RelativePath.parse_text h.placed,
    fun _ _ => CanonicalPath.text_injective, RelativePath.text_injective⟩

/-- A tenant has the name of a climb and holds an environment whose id looks like a path, and the
way there starts at a feed whose id is a dot. -/
theorem climbing_names_are_read_back :
    let p : CanonicalPath :=
      ⟨[⟨.tenant, ".."⟩, ⟨.environment, "../r;a\\b"⟩, ⟨.resource, "ä.."⟩], by decide⟩
    let origin : CanonicalPath := ⟨[⟨.tenant, ".."⟩, ⟨.feed, "."⟩], by decide⟩
    let r : RelativePath := ⟨1, [⟨.environment, "../r;a\\b"⟩, ⟨.resource, "ä.."⟩]⟩
    p.Legal ∧ origin.Legal ∧ p.relativeTo origin = .ok r ∧
      r.text = "../e;..\\/r\\;a\\\\b/r;ä.." ∧
      CanonicalPath.parse p.text = .ok p ∧ RelativePath.parse r.text = .ok r := by
  intro p origin r
  have hp : p.Legal := ⟨by decide, by decide, by decide⟩
  have horigin : origin.Legal := ⟨by decide, by decide, by decide⟩
  have hr : p.relativeTo origin = .ok r := by decide
  exact ⟨hp, horigin, hr, by decide +kernel, paths_are_read_back.1 p hp,
    paths_are_read_back.2.1 r (.between hp horigin hr)⟩

end Estate
