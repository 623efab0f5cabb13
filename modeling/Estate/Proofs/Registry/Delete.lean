import Estate.Proofs.Refusal
import Estate.Proofs.Registry.Edit
import Estate.Proofs.Registry.Forest
import Estate.Proofs.Registry.Locate
import Estate.Registry.Delete

/-!
# Deletions take whole subtrees

A deletion removes the vertices of a subtree one after the other, each with the edges at it.  What
is left is what there was without the subtree, and as a subtree is closed under containment this is
one change.

* `Contents.prune_cons` — one vertex more that goes.
* **`Edit.delete_decided`** — a deletion is refused and does nothing, or it prunes a subtree.
-/

namespace Estate

open Layout Contents Work

namespace Contents

variable {c : Contents} {v : VertexId} {gone : List VertexId}

lemma prune_nil (c : Contents) : c.prune [] = c := by
  ext1
  · rfl
  · rfl
  · funext e
    cases hedge : c.edge e with
    | none => simp [prune, hedge]
    | some edge => simp [prune, hedge]

/-- One vertex more that goes. -/
lemma prune_cons : (c.prune gone).dropVertex v = c.prune (v :: gone) := by
  ext1
  · rfl
  · funext w
    by_cases hw : w = v
    · simp [prune, dropVertex, hw]
    · simp [prune, dropVertex, hw]
  · funext e
    simp only [prune, dropVertex, Option.filter_filter, List.any_cons, Bool.not_or, Bool.and_comm]

end Contents

namespace Graph

variable {g : Graph} {path : CanonicalPath} {r : Removal}

/-- What goes is a subtree. -/
lemma planRemoval_vertices (hwf : g.WellFormed) (h : g.contents.Addressed)
    (hplan : g.planRemoval path = .ok r) :
    ∃ root, g.contents.EntityAt root path ∧ r.vertices = g.subtree root := by
  obtain ⟨root, hroot, hplan⟩ := Refusal.bind_eq_ok_iff.1 hplan
  refine ⟨root, (require_eq_ok_iff hwf h).1 hroot, ?_⟩
  dsimp only at hplan
  split at hplan
  · obtain ⟨_, -, hplan⟩ := Refusal.bind_eq_ok_iff.1 hplan
    obtain ⟨_, -, hplan⟩ := Refusal.bind_eq_ok_iff.1 hplan
    cases hplan
  · obtain ⟨paths, -, hplan⟩ := Refusal.bind_eq_ok_iff.1 hplan
    obtain rfl := Refusal.pure_eq_ok_iff.1 hplan
    rfl

/-- What a subtree has a vertex of, it has all that the vertex contains of. -/
lemma subtree_closed (hwf : g.WellFormed) {root v w : VertexId}
    (hroot : (g.vertex? root).isSome) (hv : v ∈ g.subtree root)
    (hcontains : g.contents.Contains v w) : w ∈ g.subtree root := by
  rw [(hwf.subtree_spec hroot).2] at hv ⊢
  exact hv.tail (hwf.follows_children.2 hcontains)

/-- Whatever is in a subtree is stored. -/
lemma subtree_stored (hwf : g.WellFormed) {root v : VertexId} (hroot : (g.vertex? root).isSome)
    (hv : v ∈ g.subtree root) : (g.vertex? v).isSome := by
  rw [(hwf.subtree_spec hroot).2] at hv
  cases hv with
  | refl => exact hroot
  | tail _ hstep =>
      obtain ⟨e, edge, he, -, -, rfl⟩ := hwf.mem_childrenOf.1 hstep
      exact hwf.target_stored he

end Graph

namespace Edit

variable {d d' : Draft} {v : VertexId}

/-- Between two removals: some of the vertices are gone, and the others are left in reverse. -/
structure Removing (d : Draft) (vertices left gone : List VertexId) (d' : Draft) : Prop where
  whole : left.reverse ++ gone = vertices
  wellFormed : d'.transaction.graph.WellFormed
  contents : d'.contents = d.contents.prune gone
  supply : d'.supply = d.supply
  base : d'.transaction.base = d.transaction.base
  dirty : gone ≠ [] → d'.transaction.dirty

/-- One vertex on the way. -/
lemma removing_step {vertices left gone : List VertexId} (hnodup : vertices.Nodup)
    (hstored : ∀ v ∈ vertices, (d.contents.vertex v).isSome)
    (h : Removing d vertices (v :: left) gone d') :
    ∃ d'', mutate (.removeVertex v) d' = .ok () d'' ∧ Removing d vertices left (v :: gone) d'' := by
  have hwhole : left.reverse ++ v :: gone = vertices := by
    rw [← h.whole, List.reverse_cons, List.append_assoc, List.singleton_append]
  have hmem : v ∈ vertices := hwhole ▸ List.mem_append_right _ List.mem_cons_self
  have hgone : v ∉ gone := by
    rw [← hwhole] at hnodup
    exact (List.nodup_cons.1 (List.nodup_append.1 hnodup).2.1).1
  obtain ⟨row, hrow⟩ := Option.isSome_iff_exists.1 (hstored v hmem)
  obtain ⟨d'', hrun, hwf, hc, hsupply⟩ := mutate_eq (m := .removeVertex v) h.wellFormed
    (show Mutation.on _ d'.contents = .ok ((), d'.contents.dropVertex v) by
      rw [Mutation.on, h.contents, vertex_prune_of_not_mem hgone, hrow])
  obtain ⟨hbase, hdirty⟩ := mutate_transaction hrun
  refine ⟨d'', hrun, ?_⟩
  exact
    { whole := hwhole
      wellFormed := hwf
      contents := by rw [hc, h.contents, prune_cons]
      supply := hsupply.trans h.supply
      base := hbase.trans h.base
      dirty := fun _ => hdirty }

/-- Vertices that are stored can be removed, each once. -/
lemma performRemoval_ok {r : Removal} (hd : d.Consistent) (hnodup : r.vertices.Nodup)
    (hstored : ∀ v ∈ r.vertices, (d.contents.vertex v).isSome) :
    ∃ d', performRemoval r d = .ok () d' ∧ Removing d r.vertices [] r.vertices d' := by
  obtain ⟨d', hrun, gone, hgone⟩ := forM_ok (f := fun v => mutate (.removeVertex v))
    (I := fun left d' => ∃ gone, Removing d r.vertices left gone d')
    (fun v left d' hleft => by
      obtain ⟨gone, h⟩ := hleft
      obtain ⟨d'', hrun, h'⟩ := removing_step hnodup hstored h
      exact ⟨d'', hrun, v :: gone, h'⟩)
    r.vertices.reverse d
    ⟨[], by rw [List.reverse_reverse, List.append_nil], hd.wellFormed, (prune_nil _).symm, rfl, rfl,
      absurd rfl⟩
  obtain rfl : gone = r.vertices := hgone.whole
  exact ⟨d', hrun, hgone⟩

/-- **The plan decides about a deletion.** -/
theorem delete_decided (path : CanonicalPath) :
    (delete path).DecidedBy (·.planRemoval path) := by
  refine DecidedBy.check fun d r hd hplan => ?_
  obtain ⟨root, hroot, hsubtree⟩ :=
    Graph.planRemoval_vertices hd.wellFormed hd.sound.toAddressed hplan
  have hstored : ∀ v ∈ r.vertices, (d.contents.vertex v).isSome := by
    rw [hsubtree]
    exact fun v => Graph.subtree_stored hd.wellFormed hroot.isSome
  have hnodup : r.vertices.Nodup := by
    rw [hsubtree]
    exact (hd.wellFormed.subtree_spec hroot.isSome).1
  obtain ⟨d', hrun, hgone⟩ := performRemoval_ok hd hnodup hstored
  refine ⟨r.paths, d', bind_ok hrun, (Draft.Leads.refl hd).step hgone.wellFormed ?_⟩
  rw [Draft.state, Draft.state, hgone.contents, hgone.supply]
  refine .prune fun e edge he hcontains hsource => ?_
  rw [hsubtree] at hsource ⊢
  exact Graph.subtree_closed hd.wellFormed hroot.isSome hsource ⟨e, edge, he, hcontains, rfl, rfl⟩

end Edit

end Estate
