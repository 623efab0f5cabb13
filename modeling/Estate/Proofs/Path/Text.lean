import Estate.Proofs.Path.Legal
import Estate.Proofs.Path.Spelled

/-!
# Paths as text

A path is printed segment by segment, and the characters of an id that mean something in a path are
escaped.  Nothing is lost on the way.

* **`CanonicalPath.text_injective`** — different paths have different texts.  This holds of all
  paths, legal or not.
* **`CanonicalPath.parse_text`** — a legal path is read back from its text.

Both rest on `unescapeUntil_escapeChars`: reading an escaped id stops where the id ends.
-/

namespace Estate

open Parse Text

/-! ## Texts as characters -/

/-- The characters of a segment, without the slash before it. -/
def Segment.chars (s : Segment) : List Char :=
  s.kind.code.toList ++ ';' :: escapeChars s.id.toList

/-- The characters of a chain of segments. -/
def Chain.chars (c : Chain) : List Char :=
  c.flatMap fun s => '/' :: s.chars

lemma Segment.text_toList (s : Segment) : s.text.toList = s.chars := by
  simp [text, chars, escapeId]

lemma CanonicalPath.text_toList (p : CanonicalPath) :
    p.text.toList = Chain.chars p.segments := by
  rw [text, String.toList_join, List.flatMap_map, Chain.chars]
  refine List.flatMap_congr fun s _ => ?_
  rw [String.toList_append, Segment.text_toList]
  rfl

lemma Chain.stops_chars (c : Chain) : Chain.Stops c.chars := by
  cases c with
  | nil => exact Or.inl rfl
  | cons s c => exact Or.inr ⟨_, rfl⟩

/-! ## Reading one segment -/

lemma takeWhile_code (k : Kind) (rest : List Char) :
    (k.code.toList ++ ';' :: rest).takeWhile isWordChar = k.code.toList ∧
      (k.code.toList ++ ';' :: rest).dropWhile isWordChar = ';' :: rest :=
  takeWhile_word (by cases k <;> decide) (wordEnds_cons (by decide))

/-- An id in which every stop is escaped can be read up to such stops. -/
lemma writes_escapeChars {stops cs : List Char}
    (hcs : ∀ c ∈ cs, c ∈ stops → Segment.isSpecial c) :
    Writes stops cs (Segment.escapeChars cs) := by
  induction cs with
  | nil => exact .nil
  | cons c cs ih =>
      rw [List.forall_mem_cons] at hcs
      rw [Segment.escapeChars]
      split
      · exact .escaped (ih hcs.2)
      · next hplain =>
          refine .plain ⟨?_, fun hmem => hplain (hcs.1 hmem)⟩ (ih hcs.2)
          rintro rfl
          exact hplain rfl

lemma spells_escapeChars (cs : List Char) : Spells cs (Segment.escapeChars cs) := by
  induction cs with
  | nil => exact .nil
  | cons c cs ih =>
      rw [Segment.escapeChars]
      split
      · exact .escaped ih
      · next hplain => exact .plain (Bool.not_eq_true _ ▸ hplain) ih

/-- An escaped id is read up to what follows it. -/
lemma unescapeUntil_escapeChars (cs : List Char) {rest : List Char} (hrest : Chain.Stops rest)
    (offset : Nat) :
    unescapeUntil ['/', ';'].contains offset (Segment.escapeChars cs ++ rest) =
      some (cs, ⟨offset + byteLength (Segment.escapeChars cs), rest⟩) :=
  (spells_escapeChars cs).read (hrest.escapeEnds (by decide)) offset

/-! ## Different paths have different texts -/

lemma Segment.chars_inj {s t : Segment} {rest rest' : List Char} (hrest : Chain.Stops rest)
    (hrest' : Chain.Stops rest') (h : s.chars ++ rest = t.chars ++ rest') :
    s = t ∧ rest = rest' := by
  simp only [chars, List.append_assoc, List.cons_append] at h
  have hcode := congrArg (List.takeWhile isWordChar) h
  have hafter := congrArg (List.dropWhile isWordChar) h
  rw [(takeWhile_code _ _).1, (takeWhile_code _ _).1, String.toList_inj] at hcode
  rw [(takeWhile_code _ _).2, (takeWhile_code _ _).2] at hafter
  have hkind : s.kind = t.kind := by
    have := congrArg Kind.ofCode? hcode
    rw [Kind.ofCode?_code, Kind.ofCode?_code] at this
    exact Option.some.inj this
  have hread := congrArg (unescapeUntil ['/', ';'].contains 0) (List.cons.inj hafter).2
  rw [unescapeUntil_escapeChars _ hrest, unescapeUntil_escapeChars _ hrest'] at hread
  obtain ⟨hid, hcursor⟩ := Prod.mk.inj (Option.some.inj hread)
  refine ⟨?_, (Cursor.mk.inj hcursor).2⟩
  cases s
  cases t
  obtain rfl := hkind
  obtain rfl := String.toList_inj.1 hid
  rfl

lemma Chain.chars_injective : ∀ {c d : Chain}, c.chars = d.chars → c = d
  | [], [], _ => rfl
  | [], _ :: _, h => by cases h
  | _ :: _, [], h => by cases h
  | s :: c, t :: d, h => by
      obtain ⟨rfl, hrest⟩ := Segment.chars_inj (stops_chars c) (stops_chars d) (List.cons.inj h).2
      rw [chars_injective hrest]

/-- **Different paths have different texts**, whatever their ids are. -/
theorem CanonicalPath.text_injective {p q : CanonicalPath} (h : p.text = q.text) : p = q := by
  refine ext_segments (Chain.chars_injective ?_)
  rw [← text_toList, ← text_toList, h]

/-! ## Reading a path back -/

namespace RawPath

/-- The step that a segment is read as. -/
def stepOf (s : Segment) : RawStep :=
  .down (some s.kind) s.id

lemma stepOf_spelled {s : Segment} (hid : s.id ≠ "") : (stepOf s).Spelled s.chars :=
  .typed (by rw [Kind.ofWord?, Kind.ofCode?_code]; rfl) hid (spells_escapeChars _)

/-- Segments with ids are spelled as their characters. -/
lemma forall_stepOf_spelled {c : Chain} (hids : ∀ s ∈ c, s.id ≠ "") :
    List.Forall₂ RawStep.Spelled (c.map stepOf) (c.map Segment.chars) := by
  rw [List.forall₂_map_left_iff, List.forall₂_map_right_iff, List.forall₂_same]
  exact fun s hs => stepOf_spelled (hids s hs)

/-- A slash before texts with slashes between them stands before each of them. -/
lemma slash_joined {chunks : List (List Char)} (hne : chunks ≠ []) :
    '/' :: joined '/' chunks = chunks.flatMap ('/' :: ·) := by
  obtain ⟨cs, chunks, rfl⟩ := List.exists_cons_of_ne_nil hne
  rfl

/-- The text of a path with ids is taken apart into its segments. -/
lemma parse_text {p : CanonicalPath} (hids : ∀ s ∈ p.segments, s.id ≠ "") :
    parse p.text = .ok ⟨true, p.segments.map stepOf⟩ := by
  have htext : p.text.toList = chars true (p.segments.map Segment.chars) := by
    rw [CanonicalPath.text_toList, chars, if_pos rfl,
      slash_joined (List.map_eq_nil_iff.not.2 p.ne_nil), List.flatMap_map]
    rfl
  refine parse_spelled (forall_stepOf_spelled hids) htext fun hdot => ?_
  rw [hdot, chars, if_pos rfl] at htext
  cases htext

end RawPath

namespace CanonicalPath

/-- **A chain is grown by steps** that are those of segments which can be added to it. -/
lemma addSteps_eq_ok_iff (text : String) {steps : List RawStep} : ∀ {c c' : Chain},
    addSteps text c steps = .ok c' ↔
      ∃ ss : List Segment, steps = ss.map RawPath.stepOf ∧ c.extendAll ss = .ok c' := by
  induction steps with
  | nil =>
      refine fun {c c'} => ⟨fun h => ⟨[], rfl, h⟩, ?_⟩
      rintro ⟨ss, hss, h⟩
      obtain rfl := List.map_eq_nil_iff.1 hss.symm
      exact h
  | cons step steps ih =>
      intro c c'
      constructor
      · intro h
        match step, h with
        | .down (some k) id, h =>
            obtain ⟨d, hd, h⟩ := Refusal.bind_eq_ok_iff.1 h
            obtain ⟨ss, rfl, hss⟩ := ih.1 h
            exact ⟨⟨k, id⟩ :: ss, rfl, Refusal.bind_eq_ok_iff.2 ⟨d, hd, hss⟩⟩
      · rintro ⟨_ | ⟨s, ss⟩, hss, h⟩
        · cases hss
        · obtain ⟨rfl, rfl⟩ := List.cons.inj hss
          obtain ⟨d, hd, h⟩ := Refusal.bind_eq_ok_iff.1 h
          exact Refusal.bind_eq_ok_iff.2 ⟨d, hd, ih.2 ⟨ss, rfl, h⟩⟩

/-- **A path is read from the texts** of segments that make it up one after the other. -/
lemma parse_eq_ok_iff {text : String} {p : CanonicalPath} : parse text = .ok p ↔
    ∃ ss : List Segment, RawPath.parse text = .ok ⟨true, ss.map RawPath.stepOf⟩ ∧
      Chain.extendAll [] ss = .ok p.segments := by
  rw [parse]
  cases RawPath.parse text with
  | error errors => exact ⟨nofun, nofun⟩
  | ok raw =>
      obtain ⟨absolute, steps⟩ := raw
      cases absolute with
      | false => exact ⟨nofun, nofun⟩
      | true =>
          simp only [if_true, Refusal.bind_eq_ok_iff, toPath_eq_ok_iff, addSteps_eq_ok_iff,
            Except.ok.injEq, RawPath.mk.injEq, true_and]
          constructor
          · rintro ⟨_, ⟨ss, hss, h⟩, rfl⟩
            exact ⟨ss, hss, h⟩
          · rintro ⟨ss, hss, h⟩
            exact ⟨_, ⟨ss, hss, h⟩, rfl⟩

/-- **A legal path is read back from its text.** -/
theorem parse_text {p : CanonicalPath} (h : p.Legal) : parse p.text = .ok p := by
  refine parse_eq_ok_iff.2 ⟨p.segments, RawPath.parse_text h.ids, ?_⟩
  refine chain_extendAll_eq_ok_iff.2 ⟨rfl, fun s hs => ?_, h.steps, h.ids⟩
  have hroot : p.root = s := by
    rw [root, List.head_eq_iff_head?_eq_some]
    exact hs
  exact check_eq_ok_iff.2 ⟨h.ids s (List.mem_of_mem_head? hs), hroot ▸ h.root⟩

end CanonicalPath

end Estate
