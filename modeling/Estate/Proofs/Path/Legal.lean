import Mathlib.Data.List.Chain
import Mathlib.Tactic.Common
import Estate.Path.Canonical
import Estate.Proofs.Refusal

/-!
# Legal paths

`CanonicalPath.Legal` says on the segments of a path what the refusals of `CanonicalPath.extend` say
on the way there: it starts with a root, every later segment may stand below the one before it, and
no id is empty.  The paths of entities are the legal paths that start with a tenant.

* **`CanonicalPath.extend_eq_ok_iff`** — when a path can be extended, and by what.
* `CanonicalPath.Legal.extend`, `CanonicalPath.Legal.up` — legal paths are closed under both.
* `CanonicalPath.up_induction` — induction along the parents of a path.
-/

namespace Estate

/-- Nothing may hold what stands at a root. -/
lemma Kind.not_canContain_root (kind : Kind) {child : Kind} (h : child.isRoot) :
    kind.canContain child = false := by
  cases child with
  | tenant => cases kind <;> rfl
  | relationship => cases kind <;> rfl
  | _ => cases h

namespace CanonicalPath

/-- A path that starts with a root, in which every segment may stand where it stands and no id is
empty. -/
structure Legal (p : CanonicalPath) : Prop where
  root : p.root.kind.isRoot
  steps : p.segments.IsChain fun above below => above.kind.canContain below.kind
  ids : ∀ s ∈ p.segments, s.id ≠ ""

/-- A path in which every segment may stand where it stands, whether or not its ids are empty. -/
structure Placed (p : CanonicalPath) : Prop where
  root : p.root.kind.isRoot
  steps : p.segments.IsChain fun above below => above.kind.canContain below.kind

/-- The legal path of an entity: it starts with a tenant. -/
structure OfEntity (p : CanonicalPath) : Prop extends p.Legal where
  tenant : p.root.kind = .tenant

variable {p q r : CanonicalPath} {s : Segment}

lemma ext_segments (h : p.segments = q.segments) : p = q := by
  cases p
  cases q
  cases h
  rfl

lemma segments_eq_dropLast_append (p : CanonicalPath) :
    p.segments = p.segments.dropLast ++ [p.last] :=
  (List.dropLast_append_getLast p.ne_nil).symm

lemma last_of_append {ss : List Segment} (h : p.segments = ss ++ [s]) : p.last = s := by
  simp [last, h]

lemma last_of_singleton (h : p.segments = [s]) : p.last = s :=
  last_of_append (h.trans (List.nil_append [s]).symm)

lemma ofSegments?_eq_some_iff {ss : List Segment} :
    ofSegments? ss = some p ↔ ss = p.segments := by
  cases ss with
  | nil =>
      constructor
      · intro h
        cases h
      · intro h
        exact absurd h.symm p.ne_nil
  | cons s ss =>
      constructor
      · intro h
        obtain rfl := Option.some.inj h
        rfl
      · intro h
        exact congrArg some (ext_segments h)

/-! ## Parents -/

lemma up?_eq_some_iff : q.up? = some p ↔ q.segments = p.segments ++ [q.last] := by
  rw [up?, ofSegments?_eq_some_iff]
  constructor
  · intro h
    rw [← h]
    exact q.segments_eq_dropLast_append
  · intro h
    rw [h, List.dropLast_concat]

lemma up?_eq_none_iff : q.up? = none ↔ q.segments = [q.last] := by
  constructor
  · intro h
    cases hdrop : q.segments.dropLast with
    | nil =>
        rw [q.segments_eq_dropLast_append, hdrop]
        rfl
    | cons s ss =>
        rw [up?, hdrop] at h
        cases h
  · intro h
    rw [up?, h]
    rfl

lemma up?_eq_none_iff_length : q.up? = none ↔ q.length = 1 := by
  rw [up?_eq_none_iff, length, List.length_eq_one_iff]
  constructor
  · exact fun h => ⟨q.last, h⟩
  · rintro ⟨s, h⟩
    rw [last_of_singleton h, h]

lemma up?_of_append (h : q.segments = p.segments ++ [s]) : q.up? = some p :=
  up?_eq_some_iff.2 (by rw [last_of_append h, h])

/-- A parent is the start of its child. -/
lemma root_of_up (h : q.up? = some p) : q.root = p.root := by
  simp [root, up?_eq_some_iff.1 h, List.head_append_of_ne_nil p.ne_nil]

lemma tenantId?_of_up (h : q.up? = some p) : q.tenantId? = p.tenantId? := by
  rw [tenantId?, tenantId?, root_of_up h]

lemma length_of_up (h : q.up? = some p) : q.length = p.length + 1 := by
  rw [length, up?_eq_some_iff.1 h, List.length_append, List.length_singleton]
  rfl

/-- **Induction along parents**: from a path of one segment, and from a parent to its child. -/
theorem up_induction {motive : CanonicalPath → Prop}
    (root : ∀ p, p.up? = none → motive p)
    (child : ∀ q p, q.up? = some p → motive p → motive q) (p : CanonicalPath) : motive p := by
  induction hn : p.length using Nat.strong_induction_on generalizing p with
  | _ n ih =>
      cases hup : p.up? with
      | none => exact root p hup
      | some q =>
          have hlt : q.length < n := by
            rw [← hn, length_of_up hup]
            exact Nat.lt_succ_self _
          exact child p q hup (ih q.length hlt q rfl)

/-! ## Growing a path -/

lemma check_eq_ok_iff {above : Option Kind} :
    s.check above = .ok () ↔ s.id ≠ "" ∧
      match above with
      | none => s.kind.isRoot
      | some parent => parent.canContain s.kind := by
  by_cases hid : s.id = ""
  · simp [Segment.check, hid]
  · cases above with
    | none => by_cases hroot : s.kind.isRoot <;> simp [Segment.check, hid, hroot]
    | some parent =>
        by_cases hfits : parent.canContain s.kind <;> simp [Segment.check, hid, hfits]

lemma toPath_eq_ok_iff {c : Chain} : c.toPath = .ok p ↔ c = p.segments := by
  rw [← ofSegments?_eq_some_iff, Chain.toPath]
  cases ofSegments? c with
  | none => exact ⟨nofun, nofun⟩
  | some q => rw [Except.ok.injEq, Option.some.injEq]

/-- A chain ends with the segment that has been added to it. -/
lemma lastKind?_concat (c : Chain) (s : Segment) : Chain.lastKind? (c ++ [s]) = some s.kind := by
  rw [Chain.lastKind?, List.getLast?_concat]
  rfl

/-- The segments of a path end with its kind. -/
lemma lastKind?_segments (p : CanonicalPath) : Chain.lastKind? p.segments = some p.kind := by
  rw [Chain.lastKind?, List.getLast?_eq_some_getLast p.ne_nil]
  rfl

lemma chain_extend_eq_ok_iff {c c' : Chain} :
    c.extend s = .ok c' ↔ s.check c.lastKind? = .ok () ∧ c ++ [s] = c' := by
  rw [Chain.extend, Refusal.bind_eq_ok_iff]
  simp only [Refusal.pure_eq_ok_iff]
  exact ⟨fun ⟨(), h⟩ => h, fun h => ⟨(), h⟩⟩

/-- **What extending a path takes**: an id, and a kind that may stand below the end of the path. -/
theorem extend_eq_ok_iff : p.extend s = .ok q ↔
    (s.id ≠ "" ∧ p.kind.canContain s.kind) ∧ q.segments = p.segments ++ [s] := by
  rw [extend, Refusal.bind_eq_ok_iff]
  simp only [chain_extend_eq_ok_iff, toPath_eq_ok_iff, lastKind?_segments, check_eq_ok_iff]
  constructor
  · rintro ⟨c, ⟨hfits, rfl⟩, hq⟩
    exact ⟨hfits, hq.symm⟩
  · rintro ⟨hfits, hq⟩
    exact ⟨_, ⟨hfits, rfl⟩, hq.symm⟩

/-- **What extending a chain by some segments takes**: the first one may stand below the end of the
chain, every later one may stand below the one before it, and they have ids. -/
lemma chain_extendAll_eq_ok_iff {ss : List Segment} : ∀ {c c' : Chain}, c.extendAll ss = .ok c' ↔
    c' = c ++ ss ∧ (∀ s ∈ ss.head?, s.check c.lastKind? = .ok ()) ∧
      (ss.IsChain fun above below => above.kind.canContain below.kind) ∧ ∀ s ∈ ss, s.id ≠ "" := by
  induction ss with
  | nil =>
      intro c c'
      rw [Chain.extendAll, Except.ok.injEq, List.append_nil]
      exact ⟨fun h => ⟨h.symm, nofun, List.isChain_nil, nofun⟩, fun h => h.1.symm⟩
  | cons s ss ih =>
      intro c c'
      have hnext : ∀ t : Segment, t.check (Chain.lastKind? (c ++ [s])) = .ok () ↔
          t.id ≠ "" ∧ s.kind.canContain t.kind := fun t => by rw [lastKind?_concat, check_eq_ok_iff]
      rw [Chain.extendAll, Refusal.bind_eq_ok_iff, List.isChain_cons, List.forall_mem_cons]
      simp only [chain_extend_eq_ok_iff, ih]
      constructor
      · rintro ⟨_, ⟨hcheck, rfl⟩, rfl, hfits, hsteps, hids⟩
        refine ⟨List.append_assoc .., ?_, ⟨fun t ht => ((hnext t).1 (hfits t ht)).2, hsteps⟩,
          (check_eq_ok_iff.1 hcheck).1, hids⟩
        rintro _ ⟨⟩
        exact hcheck
      · rintro ⟨rfl, hcheck, ⟨hfits, hsteps⟩, hid, hids⟩
        refine ⟨_, ⟨hcheck s rfl, rfl⟩, by rw [List.append_assoc]; rfl, fun t ht => ?_, hsteps, hids⟩
        exact (hnext t).2 ⟨hids t (List.mem_of_mem_head? ht), hfits t ht⟩

/-! ## Legal paths grow and shrink -/

lemma Legal.of_root (hroot : s.kind.isRoot) (hid : s.id ≠ "") (h : p.segments = [s]) :
    p.Legal where
  root := by simpa [CanonicalPath.root, h] using hroot
  steps := by
    rw [h]
    exact List.isChain_singleton s
  ids := by simpa [h] using hid

lemma Legal.extend (h : p.Legal) (hq : p.extend s = .ok q) : q.Legal := by
  obtain ⟨⟨hid, hfits⟩, hsegments⟩ := extend_eq_ok_iff.1 hq
  exact
    { root := by
        rw [root_of_up (up?_of_append hsegments)]
        exact h.root
      steps := by
        rw [hsegments]
        refine h.steps.append (List.isChain_singleton s) fun a ha b hb => ?_
        obtain rfl : p.last = a := by
          rw [List.getLast?_eq_some_getLast p.ne_nil] at ha
          exact Option.some.inj ha
        obtain rfl : s = b := by simpa using hb
        exact hfits
      ids := by
        rw [hsegments]
        intro t ht
        rcases List.mem_append.1 ht with ht | ht
        · exact h.ids t ht
        · exact List.mem_singleton.1 ht ▸ hid }

/-- The start of a legal path is legal. -/
lemma Legal.of_append {left : List Segment} (h : q.Legal) (hq : q.segments = p.segments ++ left) :
    p.Legal where
  root := by
    have hroot : q.root = p.root := by
      simp [CanonicalPath.root, hq, List.head_append_of_ne_nil p.ne_nil]
    exact hroot ▸ h.root
  steps := by
    have hsteps := h.steps
    rw [hq] at hsteps
    exact hsteps.left_of_append
  ids := fun s hs => h.ids s (hq ▸ List.mem_append_left _ hs)

lemma Legal.up (h : q.Legal) (hup : q.up? = some p) : p.Legal :=
  h.of_append (up?_eq_some_iff.1 hup)

lemma Legal.placed (h : p.Legal) : p.Placed where
  root := h.root
  steps := h.steps

lemma Placed.canContain (h : q.Placed) (hup : q.up? = some p) : p.kind.canContain q.kind := by
  have hsteps := h.steps
  rw [up?_eq_some_iff.1 hup, List.isChain_append] at hsteps
  exact hsteps.2.2 p.last (by rw [List.getLast?_eq_some_getLast p.ne_nil]; rfl) q.last (by simp)

lemma Legal.canContain (h : q.Legal) (hup : q.up? = some p) : p.kind.canContain q.kind :=
  h.placed.canContain hup

/-- Nothing stands below a relationship, so that everything else stands in a tenant. -/
lemma Placed.root_kind (h : p.Placed) (hkind : p.kind ≠ .relationship) : p.root.kind = .tenant := by
  obtain ⟨s, ss, hsegments⟩ := List.exists_cons_of_ne_nil p.ne_nil
  have hroot : p.root = s := by simp [CanonicalPath.root, hsegments]
  have hisRoot := h.root
  rw [hroot] at hisRoot ⊢
  cases hs : s.kind with
  | tenant => rfl
  | relationship =>
      cases ss with
      | nil =>
          rw [kind, last_of_singleton hsegments] at hkind
          exact absurd hs hkind
      | cons t ss =>
          have hsteps := h.steps
          rw [hsegments, List.isChain_cons_cons, hs] at hsteps
          cases hsteps.1
  | _ =>
      rw [hs] at hisRoot
      cases hisRoot

/-- A relationship stands at a root and holds nothing. -/
lemma Placed.eq_relationship (h : p.Placed) (hkind : p.kind = .relationship) :
    p = .relationship p.id := by
  cases hup : p.up? with
  | none =>
      have hlast : p.last = ⟨.relationship, p.id⟩ := by rw [← hkind]; rfl
      exact ext_segments ((up?_eq_none_iff.1 hup).trans (congrArg ([·]) hlast))
  | some q =>
      have hfits := h.canContain hup
      rw [hkind, Kind.not_canContain_root q.kind rfl] at hfits
      cases hfits

namespace OfEntity

lemma of_tenant (hkind : s.kind = .tenant) (hid : s.id ≠ "") (h : p.segments = [s]) :
    p.OfEntity where
  toLegal := .of_root (by rw [hkind]; rfl) hid h
  tenant := by simp [CanonicalPath.root, h, hkind]

lemma extend (h : p.OfEntity) (hq : p.extend s = .ok q) : q.OfEntity where
  toLegal := h.toLegal.extend hq
  tenant := by
    rw [root_of_up (up?_of_append (extend_eq_ok_iff.1 hq).2)]
    exact h.tenant

lemma up (h : q.OfEntity) (hup : q.up? = some p) : p.OfEntity where
  toLegal := h.toLegal.up hup
  tenant := root_of_up hup ▸ h.tenant

lemma tenantId? (h : p.OfEntity) : p.tenantId? = some p.root.id := by
  rw [CanonicalPath.tenantId?, h.tenant]

/-- The tenants are the roots. -/
lemma kind_eq_tenant_iff (h : p.OfEntity) : p.kind = .tenant ↔ p.up? = none := by
  constructor
  · intro hkind
    cases hup : p.up? with
    | none => rfl
    | some q =>
        have hfits := h.toLegal.canContain hup
        rw [hkind, Kind.not_canContain_root q.kind rfl] at hfits
        cases hfits
  · intro htop
    have hroot : p.root = p.last := by simp [root, up?_eq_none_iff.1 htop]
    rw [kind, ← hroot, h.tenant]

/-- An entity is no relationship, for nothing may hold one. -/
lemma kind_ne (h : p.OfEntity) : p.kind ≠ .relationship := by
  cases hup : p.up? with
  | none =>
      rw [h.kind_eq_tenant_iff.2 hup]
      exact nofun
  | some q =>
      have hfits := h.toLegal.canContain hup
      intro hkind
      rw [hkind, Kind.not_canContain_root q.kind rfl] at hfits
      cases hfits

/-- Every segment of the path of an entity is one of an entity. -/
lemma segment_ne (h : p.OfEntity) : ∀ s ∈ p.segments, s.kind ≠ .relationship := by
  induction p using up_induction with
  | root p hup =>
      rw [up?_eq_none_iff.1 hup, List.forall_mem_singleton]
      exact h.kind_ne
  | child q p hup ih =>
      rw [up?_eq_some_iff.1 hup, List.forall_mem_append, List.forall_mem_singleton]
      exact ⟨ih (h.up hup), h.kind_ne⟩

/-- Two entities of one tenant have the same first segment. -/
lemma root_eq (hp : p.OfEntity) (hq : q.OfEntity) (h : p.tenantId? = q.tenantId?) :
    p.root = q.root := by
  rw [hp.tenantId?, hq.tenantId?, Option.some.injEq] at h
  have hkind : p.root.kind = q.root.kind := hp.tenant.trans hq.tenant.symm
  cases hpr : p.root
  cases hqr : q.root
  simp_all

end OfEntity

end CanonicalPath

end Estate
