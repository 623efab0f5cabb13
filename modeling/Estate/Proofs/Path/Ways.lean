import Estate.Proofs.Path.Annotated

/-!
# Ways between paths

A relative path leads from an origin to a legal path exactly if it climbs to a path that both start
with and goes down from there.  Every common start of the two gives one such way, and the longer the
start, the fewer levels there are to climb.  `relativeTo` goes through the longest one.

* `RelativePath.Via` — a way climbs to a path and goes down from there.
* `RelativePath.applyTo_iff_via` — there are no other ways to a legal path.
* `CanonicalPath.exists_common`, `CanonicalPath.length_le_commonLength` — the longest common start.
* **`CanonicalPath.relativeTo_shortest`** — paths with the same first segment have a way between
  them, which is read back from its text and climbs no further than any other.
-/

namespace Estate

/-- **A way climbs to a path** that its origin starts with, and goes down from there. -/
structure RelativePath.Via (r : RelativePath) (origin b p : CanonicalPath) : Prop where
  climbs : ∃ left, origin.segments = b.segments ++ left ∧ left.length = r.ups
  descends : p.segments = b.segments ++ r.segments

namespace RelativePath

variable {r : RelativePath} {origin b p : CanonicalPath}

/-- What is climbed is what lies between the two ends of the climb. -/
lemma Via.length (h : r.Via origin b p) : origin.length = b.length + r.ups := by
  obtain ⟨left, horigin, hleft⟩ := h.climbs
  rw [CanonicalPath.length, horigin, List.length_append, hleft]
  rfl

/-- **All ways to a legal path** go through a path that it starts with. -/
lemma applyTo_iff_via (h : p.Legal) : r.applyTo origin = .ok p ↔ ∃ b, r.Via origin b p := by
  rw [applyTo_eq_ok_iff]
  refine exists_congr fun b => ?_
  constructor
  · rintro ⟨hclimb, hgrown⟩
    obtain ⟨hdescends, -⟩ := CanonicalPath.chain_extendAll_eq_ok_iff.1 hgrown
    rcases climb_spec origin r.ups with ⟨b', left, hb, hleft⟩ | habove
    · obtain rfl := Except.ok.inj (hclimb.symm.trans hb)
      exact ⟨⟨left, hleft⟩, hdescends⟩
    · cases hclimb.symm.trans habove
  · rintro ⟨⟨left, horigin, hleft⟩, hdescends⟩
    -- Every step down is one of the legal path, the first one from the end of the climb.
    obtain ⟨-, hsteps, hfirst⟩ := List.isChain_append.1 (hdescends ▸ h.steps)
    have hids : ∀ s ∈ r.segments, s.id ≠ "" := fun s hs =>
      h.ids s (hdescends ▸ List.mem_append_right _ hs)
    refine ⟨hleft ▸ climb_of_append horigin, ?_⟩
    refine CanonicalPath.chain_extendAll_eq_ok_iff.2 ⟨hdescends, fun s hs => ?_, hsteps, hids⟩
    rw [CanonicalPath.lastKind?_segments, CanonicalPath.check_eq_ok_iff]
    exact ⟨hids s (List.mem_of_mem_head? hs),
      hfirst b.last (List.getLast?_eq_some_getLast b.ne_nil) s hs⟩

end RelativePath

namespace CanonicalPath

variable {p origin : CanonicalPath}

/-! ## The longest common start -/

/-- Two chains part behind what they have in common. -/
lemma exists_common (ss ts : List Segment) : ∃ common us vs,
    ss = common ++ us ∧ ts = common ++ vs ∧ common.length = commonLength ss ts := by
  fun_induction commonLength ss ts with
  | case1 ss s ts ih =>
      obtain ⟨common, us, vs, rfl, rfl, hlength⟩ := ih
      exact ⟨s :: common, us, vs, rfl, rfl, congrArg Nat.succ hlength⟩
  | case2 s ss t ts hne => exact ⟨[], s :: ss, t :: ts, rfl, rfl, rfl⟩
  | case3 ss ts hnil => exact ⟨[], ss, ts, rfl, rfl, rfl⟩

/-- **No start that two chains have in common is longer.** -/
lemma length_le_commonLength (common us vs : List Segment) :
    common.length ≤ commonLength (common ++ us) (common ++ vs) := by
  induction common with
  | nil => exact Nat.zero_le _
  | cons s common ih =>
      rw [List.cons_append, List.cons_append, commonLength, if_pos rfl]
      exact Nat.succ_le_succ ih

/-- Two paths have something in common exactly if they have the same first segment. -/
lemma commonLength_eq_zero_iff :
    commonLength p.segments origin.segments = 0 ↔ p.root ≠ origin.root := by
  obtain ⟨s, ss, hp⟩ := List.exists_cons_of_ne_nil p.ne_nil
  obtain ⟨t, ts, horigin⟩ := List.exists_cons_of_ne_nil origin.ne_nil
  simp only [root, hp, horigin, List.head_cons, commonLength]
  split
  · next h => exact iff_of_false (Nat.succ_ne_zero _) (not_not_intro h)
  · next h => exact iff_of_true rfl h

/-! ## The way between two paths -/

/-- Paths without a common start have no way between them. -/
lemma relativeTo_unrelated (h : p.root ≠ origin.root) :
    p.relativeTo origin = .error (.unrelated p origin) := by
  rw [relativeTo, commonLength_eq_zero_iff.2 h]

/-- The way between two paths goes through all that they have in common. -/
lemma relativeTo_via (h : p.root = origin.root) : ∃ r b, p.relativeTo origin = .ok r ∧
    r.Via origin b p ∧ b.length = commonLength p.segments origin.segments := by
  obtain ⟨common, us, vs, hp, horigin, hlength⟩ := exists_common p.segments origin.segments
  obtain ⟨n, hn⟩ := Nat.exists_eq_add_one_of_ne_zero
    (mt commonLength_eq_zero_iff.1 (not_not_intro h))
  rw [hn] at hlength
  have hne : common ≠ [] := List.ne_nil_of_length_eq_add_one hlength
  refine ⟨⟨vs.length, us⟩, ⟨common, hne⟩, ?_, ⟨⟨vs, horigin, rfl⟩, hp⟩, hlength.trans hn.symm⟩
  have hups : origin.length - (n + 1) = vs.length := by
    rw [length, horigin, List.length_append, hlength, Nat.add_sub_cancel_left]
  have hdown : p.segments.drop (n + 1) = us := by
    rw [hp, ← hlength, List.drop_left]
  simp only [relativeTo, hn, hups, hdown]

/-- No way to a path climbs to more than what it has in common with the origin. -/
lemma length_le_of_via {r : RelativePath} {b : CanonicalPath} (h : r.Via origin b p) :
    b.length ≤ commonLength p.segments origin.segments := by
  obtain ⟨left, horigin, -⟩ := h.climbs
  rw [h.descends, horigin]
  exact length_le_commonLength b.segments r.segments left

/-- **The way between two paths is the shortest one.**  There is none exactly if their first
segments differ.  Otherwise it leads from the one to the other, is read back from its text, and
climbs no further than any other relative path that leads there. -/
theorem relativeTo_shortest (h : p.Legal) (origin : CanonicalPath) :
    (p.root ≠ origin.root → p.relativeTo origin = .error (.unrelated p origin)) ∧
      (p.root = origin.root → ∃ r, p.relativeTo origin = .ok r ∧
        r.applyTo origin = .ok p ∧ RelativePath.parse r.text = .ok r ∧
        ∀ r' : RelativePath, r'.applyTo origin = .ok p → r.ups ≤ r'.ups) := by
  refine ⟨relativeTo_unrelated, fun hroot => ?_⟩
  obtain ⟨r, b, hr, hvia, hlength⟩ := relativeTo_via hroot
  have hplaced : r.Placed := by
    have hdrop := RelativePath.Placed.of_drop h r.ups b.length
    rwa [hvia.descends, length, List.drop_left] at hdrop
  refine ⟨r, hr, (RelativePath.applyTo_iff_via h).2 ⟨b, hvia⟩, RelativePath.parse_text hplaced,
    fun r' hr' => ?_⟩
  obtain ⟨b', hvia'⟩ := (RelativePath.applyTo_iff_via h).1 hr'
  have hshorter : b'.length ≤ b.length := hlength ▸ length_le_of_via hvia'
  have hsame : b.length + r.ups = b'.length + r'.ups := hvia.length.symm.trans hvia'.length
  omega

/-- Between two resources of one environment, in one of which the other one's segment comes again:
the way climbs to the environment, though there is one through the tenant as well; and there is none
from another tenant. -/
theorem neighbour_shortest :
    let p : CanonicalPath :=
      ⟨[⟨.tenant, "acme"⟩, ⟨.environment, "prod"⟩, ⟨.resource, ".."⟩, ⟨.resource, "a/b"⟩],
        by decide⟩
    let origin : CanonicalPath :=
      ⟨[⟨.tenant, "acme"⟩, ⟨.environment, "prod"⟩, ⟨.resource, "a/b"⟩], by decide⟩
    let r : RelativePath := ⟨1, [⟨.resource, ".."⟩, ⟨.resource, "a/b"⟩]⟩
    let detour : RelativePath := ⟨2, ⟨.environment, "prod"⟩ :: r.segments⟩
    p.Legal ∧ p.root = origin.root ∧ p.root ≠ (tenant "globex").root ∧
      p.relativeTo (tenant "globex") = .error (.unrelated p (tenant "globex")) ∧
      p.relativeTo origin = .ok r ∧ r.applyTo origin = .ok p ∧ r.text = "../r;../r;a\\/b" ∧
      RelativePath.parse r.text = .ok r ∧ detour.applyTo origin = .ok p ∧
      r.ups ≤ detour.ups := by
  intro p origin r detour
  have hp : p.Legal := ⟨by decide, by decide, by decide⟩
  have hdetour : detour.applyTo origin = .ok p := by decide
  have hdiffer : p.root ≠ (tenant "globex").root := by decide
  obtain ⟨r', hr', happly, hparse, hshortest⟩ := (relativeTo_shortest hp origin).2 rfl
  have hr : p.relativeTo origin = .ok r := by decide
  obtain rfl := Except.ok.inj (hr.symm.trans hr')
  exact ⟨hp, rfl, hdiffer, (relativeTo_shortest hp (tenant "globex")).1 hdiffer, hr, happly,
    by decide +kernel, hparse, hdetour, hshortest detour hdetour⟩

end CanonicalPath

end Estate
