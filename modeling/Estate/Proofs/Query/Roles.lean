import Estate.Proofs.Query.Union

/-!
# Either way of reading a filter

A filter in the role of a path may look elements up, and in the role of a filter it goes through
what has been reached and keeps some of it.  From everywhere both find the same entities: what is
looked up by kind, id or path is what a search through all entities would keep.  From elements there
is a difference for paths only, since a jump leaves them behind.

* `Graph.vertex_mem_ofKinds`, `Graph.vertex_mem_ofIds`, `Graph.vertex_mem_atPaths` — the entities
  that are looked up; `Graph.vertices_eq_search` — a search for them.
* **`Filter.vertices_apply_everywhere`** — from everywhere, both roles find the same entities.
* `Filter.isJumpless` — a filter without paths; **`Filter.apply_among_path`** — from elements, it
  does the same in both roles.
-/

namespace Estate

open Layout

/-- What is joined from several parts is in one of them. -/
lemma Reach.mem_foldl_union {α : Type} {f : α → Reach} {x : Element} {as : List α} {r : Reach} :
    x ∈ as.foldl (fun r a => r.union (f a)) r ↔ x ∈ r ∨ ∃ a ∈ as, x ∈ f a := by
  induction as generalizing r with
  | nil => simp
  | cons a as ih => rw [List.foldl_cons, ih, mem_union, List.exists_mem_cons_iff, or_assoc]

namespace Graph

variable {g : Graph} {v : VertexId} {p : CanonicalPath}

/-! ## What is looked up -/

/-- **The entities of some kinds** are looked up by these kinds. -/
lemma vertex_mem_ofKinds (hwf : g.WellFormed) (h : g.contents.Addressed) {kinds : List Kind} :
    .vertex v ∈ g.ofKinds kinds ↔ ∃ p, g.contents.EntityAt v p ∧ p.kind ∈ kinds := by
  rw [ofKinds, Reach.mem_foldl_union, or_iff_right Reach.not_mem_empty]
  refine (exists_congr fun kind => and_comm.trans (and_congr_left fun _ => ?_)).trans
    exists_exists_and_eq_and
  split
  · rw [Reach.mem_ofEdges]
    refine iff_of_false (by simp) ?_
    rintro ⟨p, hp, hkind⟩
    exact hp.legal.kind_ne hkind
  · simp only [Reach.mem_ofVertices, Element.vertex.injEq, exists_eq_right',
      mem_verticesBy_kind hwf h]

/-- **The entities with some ids** are looked up by these ids. -/
lemma vertex_mem_ofIds (hwf : g.WellFormed) (h : g.contents.Addressed) {ids : List String} :
    .vertex v ∈ g.ofIds ids ↔ ∃ p, g.contents.EntityAt v p ∧ p.id ∈ ids := by
  rw [ofIds, Reach.mem_foldl_union, or_iff_right Reach.not_mem_empty]
  refine (exists_congr fun id => and_comm.trans (and_congr_left fun _ => ?_)).trans
    exists_exists_and_eq_and
  rw [Reach.mem_vertex, Std.ExtTreeSet.mem_ofList, List.contains_iff_mem]
  exact mem_verticesBy_address hwf h fun haddr => haddr.id

/-- **The entities at some paths** are located one by one.  At the path of a relationship there is
none. -/
lemma vertex_mem_atPaths (hwf : g.WellFormed) (h : g.contents.Addressed)
    {paths : List CanonicalPath} :
    .vertex v ∈ g.atPaths paths ↔ ∃ p, g.contents.EntityAt v p ∧ p ∈ paths := by
  rw [atPaths, Reach.mem_foldl_union, or_iff_right Reach.not_mem_empty]
  refine exists_congr fun p => and_comm.trans (and_congr_left fun _ => ?_)
  split
  · next hkind =>
      rw [Reach.mem_ofEdges]
      exact iff_of_false (by simp) fun hp => hp.legal.kind_ne hkind
  · simp only [Reach.mem_ofVertices, Element.vertex.injEq, exists_eq_right', Option.mem_toList,
      locate?_eq_some_iff hwf h]

/-! ## What is kept -/

lemma keeps_withPaths (h : g.contents.EntityAt v p) (paths : List CanonicalPath) :
    g.keeps (.withPaths paths) (.vertex v) ↔ p ∈ paths := by
  obtain ⟨-, row, hrow, haddr⟩ := h
  have htext : row.string? pathKey = some p.text := by
    rw [Properties.string?, haddr.path]
    rfl
  rw [keeps, show g.vertex? v = some row from hrow, Option.any_some, keepsVertex, htext,
    Option.any_some, List.any_eq_true]
  constructor
  · rintro ⟨q, hq, hsame⟩
    obtain rfl := CanonicalPath.text_injective (beq_iff_eq.1 hsame)
    exact hq
  · exact fun hp => ⟨p, hp, beq_self_eq_true _⟩

lemma vertex_mem_everywhere (h : g.contents.Addressed) :
    .vertex v ∈ Position.everywhere.reach g ↔ ∃ p, g.contents.EntityAt v p := by
  simp only [Position.reach, Reach.mem_ofVertices, Element.vertex.injEq, exists_eq_right',
    Std.ExtTreeMap.mem_keys, mem_vertices_iff]
  constructor
  · intro hstored
    obtain ⟨row, hrow⟩ := Option.isSome_iff_exists.1 hstored
    exact h.entity hrow
  · rintro ⟨p, -, row, hrow, -⟩
    exact Option.isSome_iff_exists.2 ⟨row, hrow⟩

/-- **A search through all entities finds what a lookup finds** if both look for the same paths. -/
lemma vertices_eq_search (h : g.contents.Addressed) {wanted : CanonicalPath → Prop} {r : Reach}
    {keep : Element → Bool} (hr : ∀ v, .vertex v ∈ r ↔ ∃ p, g.contents.EntityAt v p ∧ wanted p)
    (hkeep : ∀ {v p}, g.contents.EntityAt v p → (keep (.vertex v) ↔ wanted p)) :
    r.vertices = ((Position.everywhere.reach g).filter keep).vertices := by
  refine Std.ExtTreeSet.ext_mem fun v => (hr v).trans ?_
  rw [← Reach.mem_vertex, Reach.mem_filter, vertex_mem_everywhere h, ← exists_and_right]
  exact exists_congr fun p => and_congr_right fun hp => (hkeep hp).symm

end Graph

section Evaluation

variable {g : Graph}

/-- **From everywhere, both roles of a filter find the same entities**: to look them up is to search
for them. -/
theorem Filter.vertices_apply_everywhere (digest : String → String) (hwf : g.WellFormed)
    (h : g.contents.Addressed) (f : Filter) :
    ((f.apply digest g .path .everywhere).reach g).vertices =
      ((f.apply digest g .filter .everywhere).reach g).vertices := by
  cases f with
  | relatedBy relation role other => cases other <;> rfl
  | withPaths paths =>
      exact Graph.vertices_eq_search h (fun v => Graph.vertex_mem_atPaths hwf h)
        fun hp => Graph.keeps_withPaths hp paths
  | withKinds kinds =>
      refine Graph.vertices_eq_search h (fun v => Graph.vertex_mem_ofKinds hwf h) fun hp => ?_
      rw [Graph.keeps_withKinds hp, List.contains_iff_mem]
  | withIds ids =>
      refine Graph.vertices_eq_search h (fun v => Graph.vertex_mem_ofIds hwf h) fun hp => ?_
      rw [Graph.keeps_withIds hp, List.contains_iff_mem]
  | _ => rfl

/-! ## From elements -/

mutual

/-- Whether a filter names no paths, in no chain either. -/
def Filter.isJumpless : Filter → Bool
  | .withPaths _ => false
  | .recurse chain => areJumpless chain
  | _ => true

/-- Whether a chain of filters names no paths. -/
def areJumpless : List Filter → Bool
  | [] => true
  | f :: fs => f.isJumpless && areJumpless fs

end

mutual

/-- **From elements, a filter does the same in both roles** if it names no paths. -/
theorem Filter.apply_among_path (digest : String → String) (hwf : g.WellFormed)
    (h : g.contents.Sound) : ∀ f : Filter, f.isJumpless → ∀ r,
      f.apply digest g .path (.among r) = f.apply digest g .filter (.among r)
  | .recurse chain, hf, r => by
      have hstep : ∀ fresh, applyChain digest g .path chain (.among fresh) =
          applyChain digest g .filter chain (.among fresh) :=
        applyChain_among_path digest hwf h chain hf
      simp only [Filter.apply, hstep]
  | .relatedBy _ _ none, _, _ | .relatedBy _ _ (some _), _, _ => rfl
  | .withIds _, _, _ | .withKinds _, _, _ | .withProperty _ _, _, _ => rfl
  | .toRelationships _, _, _ | .toEntities _, _, _ => rfl
  | .relationIds _, _, _ | .relationNames _, _, _ | .relationProperty _ _, _, _ => rfl
  | .relationSources _, _, _ | .relationTargets _, _, _ | .definedBy _, _, _ => rfl
  | .identical, _, _ | .noop, _, _ => rfl

/-- So does a chain of filters, since no filter leads back to everywhere. -/
theorem applyChain_among_path (digest : String → String) (hwf : g.WellFormed)
    (h : g.contents.Sound) : ∀ fs : List Filter, areJumpless fs → ∀ r,
      applyChain digest g .path fs (.among r) = applyChain digest g .filter fs (.among r)
  | [], _, _ => rfl
  | f :: fs, hfs, r => by
      obtain ⟨hf, hrest⟩ := Bool.and_eq_true_iff.1 hfs
      obtain ⟨s, hs⟩ := (f.apply_distributes digest hwf h .filter).narrowed r
      rw [applyChain, applyChain, Filter.apply_among_path digest hwf h f hf r, hs]
      exact applyChain_among_path digest hwf h fs hrest s

end

end Evaluation

end Estate
