import Estate.Proofs.Registry.Containment
import Estate.Proofs.Registry.Invariant

/-!
# Containment is a forest

In sound contents one vertex contains another exactly if the path of the one is the parent of the
path of the other.  Paths get longer from parent to child, so that nothing contains itself, and
every entity is held, over some generations, by the tenant that its path starts with.

* `Contents.Holds`, `Contents.Contains` — containment between vertices.
* **`Contents.Sound.contains_iff`** — containment is parenthood.
* **`Contents.Sound.not_contains_self`** — there are no cycles.
* **`Contents.Sound.stored_above`** — with an entity there are all those above it.
* **`Contents.Sound.reaches_iff`** — what an entity contains lies below its path.
* `Contents.Sound.reaches_tenant` — every entity goes back to its tenant.
-/

namespace Estate

open Layout

namespace Contents

/-- An edge is a containment of one vertex in another. -/
def Holds (c : Contents) (e : EdgeId) (v w : VertexId) : Prop :=
  ∃ edge, c.edge e = some edge ∧ IsContainment edge ∧ edge.source = v ∧ edge.target = w

/-- One vertex contains another directly. -/
def Contains (c : Contents) (v w : VertexId) : Prop :=
  ∃ e, c.Holds e v w

variable {c : Contents} {v w : VertexId} {p q : CanonicalPath}

/-- **Containment is parenthood.** -/
theorem Sound.contains_iff (h : c.Sound) (hv : c.EntityAt v p) (hw : c.EntityAt w q) :
    c.Contains v w ↔ q.up? = some p := by
  constructor
  · rintro ⟨e, edge, he, hcontains, rfl, rfl⟩
    obtain ⟨p', hup, hp'⟩ := h.up_target he hcontains hw
    obtain rfl := hv.path_unique hp'
    exact hup
  · intro hup
    obtain ⟨e, edge, he, hcontains, hsource, htarget⟩ := h.owner hw hup
    exact ⟨e, edge, he, hcontains, h.unique hsource hv, htarget⟩

/-- Both ends of a containment are entities, one directly above the other. -/
lemma Sound.contains_ends (h : c.Sound) (hcontains : c.Contains v w) :
    ∃ p q, c.EntityAt v p ∧ c.EntityAt w q ∧ q.up? = some p := by
  obtain ⟨e, edge, he, hcontains, rfl, rfl⟩ := hcontains
  exact h.up he hcontains

/-- Whatever is contained, directly or not, has a longer path. -/
lemma Sound.length_lt (h : c.Sound) (hbelow : Relation.TransGen c.Contains v w) :
    ∃ p q, c.EntityAt v p ∧ c.EntityAt w q ∧ p.length < q.length := by
  induction hbelow with
  | single hcontains =>
      obtain ⟨p, q, hp, hq, hup⟩ := h.contains_ends hcontains
      refine ⟨p, q, hp, hq, ?_⟩
      rw [CanonicalPath.length_of_up hup]
      exact Nat.lt_succ_self _
  | tail _ hcontains ih =>
      obtain ⟨p, q, hp, hq, hlt⟩ := ih
      obtain ⟨q', r, hq', hr, hup⟩ := h.contains_ends hcontains
      obtain rfl := hq.path_unique hq'
      refine ⟨p, r, hp, hr, ?_⟩
      rw [CanonicalPath.length_of_up hup]
      exact Nat.lt_succ_of_lt hlt

/-- **Nothing contains itself**, directly or not. -/
theorem Sound.not_contains_self (h : c.Sound) : ¬ Relation.TransGen c.Contains v v := by
  intro hcycle
  obtain ⟨p, q, hp, hq, hlt⟩ := h.length_lt hcycle
  obtain rfl := hp.path_unique hq
  exact Nat.lt_irrefl _ hlt

/-- With an entity there are all those above it, and they contain it. -/
theorem Sound.stored_above (h : c.Sound) (hw : c.EntityAt w q)
    (habove : p.segments <+: q.segments) :
    ∃ v, c.EntityAt v p ∧ Relation.ReflTransGen c.Contains v w := by
  induction q using CanonicalPath.up_induction generalizing w with
  | root q htop =>
      rw [CanonicalPath.up?_eq_none_iff.1 htop, ← List.nil_append [q.last],
        List.prefix_concat_iff] at habove
      rcases habove with hsame | hnil
      · obtain rfl : p = q := CanonicalPath.ext_segments
          (hsame.trans (CanonicalPath.up?_eq_none_iff.1 htop).symm)
        exact ⟨w, hw, .refl⟩
      · exact absurd (List.prefix_nil.1 hnil) p.ne_nil
  | child q r hup ih =>
      rw [CanonicalPath.up?_eq_some_iff.1 hup, List.prefix_concat_iff] at habove
      rcases habove with hsame | hparent
      · obtain rfl : p = q := CanonicalPath.ext_segments
          (hsame.trans (CanonicalPath.up?_eq_some_iff.1 hup).symm)
        exact ⟨w, hw, .refl⟩
      · obtain ⟨e, edge, he, hcontains, hsource, htarget⟩ := h.owner hw hup
        obtain ⟨v, hv, hreach⟩ := ih hsource hparent
        exact ⟨v, hv, hreach.tail ⟨e, edge, he, hcontains, rfl, htarget⟩⟩

/-- **What an entity contains**, directly or not, are the entities whose paths start with its own
path. -/
theorem Sound.reaches_iff (h : c.Sound) (hv : c.EntityAt v p) :
    Relation.ReflTransGen c.Contains v w ↔ ∃ q, c.EntityAt w q ∧ p.segments <+: q.segments := by
  constructor
  · intro hreach
    induction hreach with
    | refl => exact ⟨p, hv, List.prefix_rfl⟩
    | tail _ hcontains ih =>
        obtain ⟨q, hq, habove⟩ := ih
        obtain ⟨q', r, hq', hr, hup⟩ := h.contains_ends hcontains
        obtain rfl := hq.path_unique hq'
        rw [CanonicalPath.up?_eq_some_iff] at hup
        exact ⟨r, hr, habove.trans (hup ▸ List.prefix_append _ _)⟩
  · rintro ⟨q, hw, habove⟩
    obtain ⟨v', hv', hreach⟩ := h.stored_above hw habove
    rwa [h.unique hv hv']

/-- Every entity of a tenant goes back to the tenant. -/
lemma Sound.reaches_tenant (h : c.Sound) (hv : c.EntityAt v p) (hw : c.EntityAt w q)
    (htop : p.up? = none) (htenant : p.tenantId? = q.tenantId?) :
    Relation.ReflTransGen c.Contains v w := by
  have hroot : p.root = q.root := hv.legal.root_eq hw.legal htenant
  have hlast : p.root = p.last := by
    simp [CanonicalPath.root, CanonicalPath.up?_eq_none_iff.1 htop]
  have habove : p.segments <+: q.segments := by
    rw [CanonicalPath.up?_eq_none_iff.1 htop, ← hlast, hroot]
    exact ⟨q.segments.tail, List.cons_head_tail q.ne_nil⟩
  obtain ⟨v', hv', hreach⟩ := h.stored_above hw habove
  rwa [h.unique hv hv']

end Contents

namespace Graph

variable {g : Graph} {v w : VertexId}

/-- Children are looked up by containment. -/
lemma WellFormed.follows_children (hwf : g.WellFormed) :
    Follows g.childrenOf v w ↔ g.contents.Contains v w :=
  hwf.mem_childrenOf

/-- Parents are looked up by containment. -/
lemma WellFormed.follows_parents (hwf : g.WellFormed) :
    Follows g.parentsOf w v ↔ g.contents.Contains v w :=
  hwf.mem_parentsOf

end Graph

end Estate
