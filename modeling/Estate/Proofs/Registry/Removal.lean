import Mathlib.Data.List.Nodup
import Estate.Proofs.Registry.Delete

/-!
# What a deletion removes, and what stands against it

A deletion goes along containments and answers with paths.  As containment is parenthood, what it
removes can be said on paths alone: the entity at the path that is given and those below it, with
every edge that has an end among them.  What stands against it is a definition that leads from
below the path to an entity that would stay.

* `CanonicalPath.Covers` — a path and all those below it.
* `Contents.Blocks` — a definition that stands against a deletion.
* `Contents.Removes` — what a deletion leaves and what it returns.
* `Graph.planRemoval_ok`, `Graph.planRemoval_blocked` — when a deletion is planned.
* **`Edit.delete_removes`** — what is planned is carried out.
-/

namespace Estate

open Layout Contents Work

/-! ## Paths below a path -/

namespace CanonicalPath

variable {p q : CanonicalPath}

/-- A path and all those below it. -/
def Covers (p q : CanonicalPath) : Prop :=
  q = p ∨ p.isAncestorOf q

lemma covers_iff : p.Covers q ↔ p.segments <+: q.segments := by
  rw [Covers, isAncestorOf, Bool.and_eq_true, decide_eq_true_iff, List.isPrefixOf_iff_prefix]
  constructor
  · rintro (rfl | ⟨-, h⟩)
    · exact List.prefix_rfl
    · exact h
  · intro h
    rcases h.length_le.lt_or_eq with hlt | heq
    · exact Or.inr ⟨hlt, h⟩
    · exact Or.inl (ext_segments (h.eq_of_length heq).symm)

/-- A path is longer than those above it. -/
lemma length_lt_of_isAncestorOf (h : p.isAncestorOf q) : p.length < q.length := by
  rw [isAncestorOf, Bool.and_eq_true, decide_eq_true_iff] at h
  exact h.1

end CanonicalPath

/-! ## What is removed and what stands against it -/

namespace Contents

/-- The entity at a vertex lies at a path or below it. -/
def Under (c : Contents) (p : CanonicalPath) (v : VertexId) : Prop :=
  ∃ q, c.EntityAt v q ∧ p.Covers q

/-- **A definition stands against a deletion**: it leads from an entity below the path, but not from
the one at the path, to an entity that would stay. -/
structure Blocks (c : Contents) (p definer defined : CanonicalPath) : Prop where
  below : p.isAncestorOf definer
  outside : ¬ p.Covers defined
  defines : ∃ e edge, c.edge e = some edge ∧ edge.label = WellKnown.defines.name ∧
    c.EntityAt edge.source definer ∧ c.EntityAt edge.target defined

/-- **What a deletion leaves of the contents, and the paths that it returns.** -/
structure Removes (c : Contents) (p : CanonicalPath) (c' : Contents) (paths : List CanonicalPath) :
    Prop where
  /-- The entity at the path and those below it are gone, and the others are as they were. -/
  vertices : ∀ v row, c'.vertex v = some row ↔ c.vertex v = some row ∧ ¬ c.Under p v
  /-- With them their edges are gone, and the others are as they were. -/
  edges : ∀ e edge, c'.edge e = some edge ↔
    c.edge e = some edge ∧ ¬ c.Under p edge.source ∧ ¬ c.Under p edge.target
  /-- The paths of what is gone are returned. -/
  paths_mem : ∀ q, q ∈ paths ↔ p.Covers q ∧ ∃ v, c.EntityAt v q
  nodup : paths.Nodup
  first : paths.head? = some p
  /-- No path comes before one that it lies below. -/
  ordered : paths.Pairwise fun a b => ¬ b.isAncestorOf a

variable {c : Contents} {v w root : VertexId} {p : CanonicalPath}

/-- What an entity contains, directly or not, lies under its path. -/
lemma Sound.reaches_iff_under (h : c.Sound) (hroot : c.EntityAt root p) :
    Relation.ReflTransGen c.Contains root v ↔ c.Under p v := by
  rw [h.reaches_iff hroot]
  exact exists_congr fun q => and_congr_right' CanonicalPath.covers_iff.symm

end Contents

namespace Graph

variable {g : Graph} {root v : VertexId} {p : CanonicalPath}

/-- A subtree lies under the path of its root. -/
lemma mem_subtree_iff (hwf : g.WellFormed) (h : g.contents.Sound)
    (hroot : g.contents.EntityAt root p) : v ∈ g.subtree root ↔ g.contents.Under p v := by
  rw [(hwf.subtree_spec hroot.isSome).2, ← h.reaches_iff_under hroot]
  have hsame : Follows g.childrenOf = g.contents.Contains :=
    funext fun _ => funext fun _ => propext hwf.follows_children
  rw [hsame]

/-! ## What stands against a deletion -/

/-- Two vertices that the check for definitions finds. -/
lemma survivor?_eq_some (hwf : g.WellFormed) {subtree : List VertexId} {definer defined : VertexId}
    (h : g.survivor? root subtree = some (definer, defined)) :
    definer ∈ subtree ∧ definer ≠ root ∧ defined ∉ subtree ∧ ∃ e edge, g.edge? e = some edge ∧
      edge.label = WellKnown.defines.name ∧ edge.source = definer ∧ edge.target = defined := by
  obtain ⟨v, hv, hfound⟩ := List.exists_of_findSome?_eq_some h
  obtain ⟨hv, hne⟩ := List.mem_filter.1 hv
  obtain ⟨e, he, hfound⟩ := List.exists_of_findSome?_eq_some hfound
  obtain ⟨edge, hedge, hsource, hlabel⟩ := hwf.mem_edgesOf.1 he
  rw [hedge, Option.bind_some] at hfound
  split at hfound
  · cases hfound
  · next houtside =>
      obtain ⟨rfl, rfl⟩ := Prod.mk.inj (Option.some.inj hfound)
      exact ⟨hv, by simpa using hne, by simpa using houtside, e, edge, hedge, hlabel _ rfl, hsource,
        rfl⟩

/-- If the check finds nothing, all definitions from below the root stay in the subtree. -/
lemma survivor?_eq_none (hwf : g.WellFormed) {subtree : List VertexId}
    (h : g.survivor? root subtree = none) {e : EdgeId} {edge : Edge}
    (he : g.edge? e = some edge) (hlabel : edge.label = WellKnown.defines.name)
    (hsource : edge.source ∈ subtree) (hne : edge.source ≠ root) : edge.target ∈ subtree := by
  have hnone := List.findSome?_eq_none_iff.1 h edge.source
    (List.mem_filter.2 ⟨hsource, by simpa using hne⟩)
  have hedge := List.findSome?_eq_none_iff.1 hnone e
    (hwf.mem_edgesOf.2 ⟨edge, he, rfl, fun l hl => hlabel.trans (Option.some.inj hl)⟩)
  rw [he, Option.bind_some] at hedge
  split at hedge
  · next hinside => simpa using hinside
  · cases hedge

/-- What the check finds stands against the deletion. -/
lemma survivor?_blocks (hwf : g.WellFormed) (h : g.contents.Sound)
    (hroot : g.contents.EntityAt root p) {v w : VertexId}
    (hfound : g.survivor? root (g.subtree root) = some (v, w)) :
    ∃ definer defined, g.contents.EntityAt v definer ∧ g.contents.EntityAt w defined ∧
      g.contents.Blocks p definer defined := by
  obtain ⟨hinside, hne, houtside, e, edge, he, hlabel, rfl, rfl⟩ := survivor?_eq_some hwf hfound
  obtain ⟨_, defined, -, hdefined, -⟩ := h.ends he
  obtain ⟨definer, hdefiner, rfl | hbelow⟩ := (mem_subtree_iff hwf h hroot).1 hinside
  · exact absurd (h.unique hdefiner hroot) hne
  · refine ⟨definer, defined, hdefiner, hdefined, hbelow, fun hcovers => houtside ?_,
      e, edge, he, hlabel, hdefiner, hdefined⟩
    exact (mem_subtree_iff hwf h hroot).2 ⟨defined, hdefined, hcovers⟩

/-- If the check finds nothing, nothing stands against the deletion. -/
lemma not_blocks_of_survivor? (hwf : g.WellFormed) (h : g.contents.Sound)
    (hroot : g.contents.EntityAt root p) (hnone : g.survivor? root (g.subtree root) = none)
    (definer defined : CanonicalPath) : ¬ g.contents.Blocks p definer defined := by
  rintro ⟨hbelow, houtside, e, edge, he, hlabel, hdefiner, hdefined⟩
  have hne : edge.source ≠ root := by
    intro heq
    obtain rfl := (heq ▸ hdefiner).path_unique hroot
    exact Nat.lt_irrefl _ (CanonicalPath.length_lt_of_isAncestorOf hbelow)
  have hinside := survivor?_eq_none hwf hnone he hlabel
    ((mem_subtree_iff hwf h hroot).2 ⟨definer, hdefiner, Or.inr hbelow⟩) hne
  obtain ⟨q, hq, hcovers⟩ := (mem_subtree_iff hwf h hroot).1 hinside
  obtain rfl := hq.path_unique hdefined
  exact houtside hcovers

/-! ## The paths that are returned -/

lemma pathOf_eq {q : CanonicalPath} (h : g.contents.EntityAt v q) : g.pathOf v = .ok q := by
  rw [pathOf, pathAt?_eq h]

/-- The paths of entities are read one after the other. -/
lemma mapM_pathOf : ∀ {vs : List VertexId}, (∀ v ∈ vs, ∃ q, g.contents.EntityAt v q) →
    vs.mapM g.pathOf = .ok (vs.filterMap g.pathAt?)
  | [], _ => rfl
  | v :: vs, h => by
      obtain ⟨q, hq⟩ := h v List.mem_cons_self
      rw [List.mapM_cons, pathOf_eq hq, mapM_pathOf fun w hw => h w (List.mem_cons_of_mem v hw),
        List.filterMap_cons_some (pathAt?_eq hq)]
      rfl

/-- How many segments the path at a vertex has. -/
def depthAt (g : Graph) (v : VertexId) : Nat :=
  (g.pathAt? v).elim 0 CanonicalPath.length

lemma depthAt_eq {q : CanonicalPath} (h : g.contents.EntityAt v q) : g.depthAt v = q.length := by
  rw [depthAt, pathAt?_eq h]
  rfl

/-- A subtree starts with its root and is listed from the shallow to the deep. -/
lemma subtree_sorted (hwf : g.WellFormed) (h : g.contents.Sound) (root : VertexId) :
    (g.subtree root).head? = some root ∧
      (g.subtree root).Pairwise fun u w => g.depthAt u ≤ g.depthAt w := by
  constructor
  · obtain ⟨rest, hrest⟩ := explore_starts g.childrenOf g.vertices.size [] [root]
    rw [subtree, ← hrest]
    rfl
  · refine explore_sorted (fun u w hw => ?_) g.vertices.size
      ⟨nofun, fun u hu => congrArg _ (List.mem_singleton.1 hu), .nil⟩
    obtain ⟨p, q, hp, hq, hup⟩ := h.contains_ends (hwf.follows_children.1 hw)
    rw [depthAt_eq hp, depthAt_eq hq, CanonicalPath.length_of_up hup]

/-! ## Planning -/

/-- **A deletion is planned** if there is an entity at the path and nothing stands against it. -/
theorem planRemoval_ok (hwf : g.WellFormed) (h : g.contents.Sound)
    (hroot : g.contents.EntityAt root p)
    (hfree : ∀ definer defined, ¬ g.contents.Blocks p definer defined) :
    g.planRemoval p = .ok ⟨(g.subtree root).filterMap g.pathAt?, g.subtree root⟩ := by
  have hentities : ∀ v ∈ g.subtree root, ∃ q, g.contents.EntityAt v q := fun v hv => by
    obtain ⟨q, hq, -⟩ := (mem_subtree_iff hwf h hroot).1 hv
    exact ⟨q, hq⟩
  have hnone : g.survivor? root (g.subtree root) = none := by
    cases hfound : g.survivor? root (g.subtree root) with
    | none => rfl
    | some found =>
        obtain ⟨definer, defined, -, -, hblocks⟩ := survivor?_blocks hwf h hroot hfound
        exact absurd hblocks (hfree definer defined)
  rw [planRemoval, (require_eq_ok_iff hwf h.toAddressed).2 hroot]
  simp only [bind, Except.bind, hnone, mapM_pathOf hentities]
  rfl

/-- **A deletion is refused** if something stands against it, and this is what the refusal names. -/
theorem planRemoval_blocked (hwf : g.WellFormed) (h : g.contents.Sound)
    (hroot : g.contents.EntityAt root p)
    (hblocked : ∃ definer defined, g.contents.Blocks p definer defined) :
    ∃ definer defined, g.contents.Blocks p definer defined ∧
      g.planRemoval p = .error (.badState definer (.definesSurvivor defined p)) := by
  cases hfound : g.survivor? root (g.subtree root) with
  | none =>
      obtain ⟨definer, defined, hblocks⟩ := hblocked
      exact absurd hblocks (not_blocks_of_survivor? hwf h hroot hfound definer defined)
  | some found =>
      obtain ⟨v, w⟩ := found
      obtain ⟨definer, defined, hv, hw, hblocks⟩ := survivor?_blocks hwf h hroot hfound
      refine ⟨definer, defined, hblocks, ?_⟩
      rw [planRemoval, (require_eq_ok_iff hwf h.toAddressed).2 hroot]
      simp only [bind, Except.bind, hfound, pathOf_eq hv, pathOf_eq hw]
      rfl

lemma planRemoval_missing (hwf : g.WellFormed) (h : g.contents.Sound)
    (hmissing : ∀ v, ¬ g.contents.EntityAt v p) : g.planRemoval p = .error (.notFound p) := by
  rw [planRemoval, require, (locate?_eq_none_iff hwf h.toAddressed).2 hmissing]
  rfl

/-- **What is left without a subtree**, and the paths that are read off it. -/
theorem removes_prune (hwf : g.WellFormed) (h : g.contents.Sound)
    (hroot : g.contents.EntityAt root p) :
    g.contents.Removes p (g.contents.prune (g.subtree root))
      ((g.subtree root).filterMap g.pathAt?) := by
  have hmem : ∀ v, v ∈ g.subtree root ↔ g.contents.Under p v := fun v => mem_subtree_iff hwf h hroot
  obtain ⟨hfirst, hsorted⟩ := subtree_sorted hwf h root
  exact
    { vertices := fun v row => by
        rw [vertex_prune, hmem, and_comm]
      edges := fun e edge => by
        rw [edge_prune, hmem, hmem]
      paths_mem := fun q => by
        simp only [List.mem_filterMap, hmem, pathAt?_eq_some_iff h.toAddressed]
        constructor
        · rintro ⟨v, ⟨q', hq', hcovers⟩, hq⟩
          obtain rfl := hq'.path_unique hq
          exact ⟨hcovers, v, hq⟩
        · rintro ⟨hcovers, v, hq⟩
          exact ⟨v, ⟨q, hq, hcovers⟩, hq⟩
      nodup := by
        refine List.Nodup.filterMap (fun v w q hv hw => ?_) (hwf.subtree_spec hroot.isSome).1
        exact h.unique ((pathAt?_eq_some_iff h.toAddressed).1 hv)
          ((pathAt?_eq_some_iff h.toAddressed).1 hw)
      first := by
        obtain ⟨rest, hrest⟩ := List.head?_eq_some_iff.1 hfirst
        rw [hrest, List.filterMap_cons_some (pathAt?_eq hroot), List.head?_cons]
      ordered := by
        refine List.pairwise_filterMap.2 (hsorted.imp fun {u w} hle a hu b hw hbelow => ?_)
        rw [depthAt_eq ((pathAt?_eq_some_iff h.toAddressed).1 hu),
          depthAt_eq ((pathAt?_eq_some_iff h.toAddressed).1 hw)] at hle
        exact absurd hle (Nat.not_le_of_lt (CanonicalPath.length_lt_of_isAncestorOf hbelow)) }

end Graph

/-! ## Carrying it out -/

namespace Edit

variable {d : Draft} {p : CanonicalPath}

/-- **A deletion that nothing stands against is carried out.** -/
theorem delete_removes (hd : d.Consistent) (hentity : ∃ v, d.contents.EntityAt v p)
    (hfree : ∀ definer defined, ¬ d.contents.Blocks p definer defined) :
    ∃ paths d', delete p d = .ok paths d' ∧ d.contents.Removes p d'.contents paths ∧
      d'.supply = d.supply ∧ d'.transaction.base = d.transaction.base ∧ d'.transaction.dirty := by
  obtain ⟨root, hroot⟩ := hentity
  have hplan := Graph.planRemoval_ok hd.wellFormed hd.sound hroot hfree
  obtain ⟨d', hrun, hgone⟩ := performRemoval_ok hd
    (r := ⟨(d.transaction.graph.subtree root).filterMap d.transaction.graph.pathAt?,
      d.transaction.graph.subtree root⟩) (hd.wellFormed.subtree_spec hroot.isSome).1
    fun v => Graph.subtree_stored hd.wellFormed hroot.isSome
  refine ⟨_, d', (bind_ok (check_ok hplan)).trans (bind_ok hrun), ?_, hgone.supply, hgone.base,
    hgone.dirty ?_⟩
  · rw [hgone.contents]
    exact Graph.removes_prune hd.wellFormed hd.sound hroot
  · obtain ⟨rest, hrest⟩ := List.head?_eq_some_iff.1
      (Graph.subtree_sorted hd.wellFormed hd.sound root).1
    exact hrest ▸ List.cons_ne_nil root rest

/-- A deletion that something stands against is refused. -/
theorem delete_blocked (hd : d.Consistent) (hentity : ∃ v, d.contents.EntityAt v p)
    (hblocked : ∃ definer defined, d.contents.Blocks p definer defined) :
    ∃ definer defined, d.contents.Blocks p definer defined ∧
      delete p d = .error (.badState definer (.definesSurvivor defined p)) d := by
  obtain ⟨root, hroot⟩ := hentity
  obtain ⟨definer, defined, hblocks, hplan⟩ :=
    Graph.planRemoval_blocked hd.wellFormed hd.sound hroot hblocked
  exact ⟨definer, defined, hblocks, bind_error (check_error hplan)⟩

/-- There is nothing to delete. -/
theorem delete_missing (hd : d.Consistent) (hmissing : ∀ v, ¬ d.contents.EntityAt v p) :
    delete p d = .error (.notFound p) d :=
  bind_error (check_error (Graph.planRemoval_missing hd.wellFormed hd.sound hmissing))

end Edit

end Estate
