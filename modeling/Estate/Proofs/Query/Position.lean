import Mathlib.Data.List.Nodup
import Mathlib.Tactic.Common
import Estate.Query.Eval

/-!
# What is reached

A reach is a set of vertices and a set of edges.  It is told by its elements, and the operations on
it are those of sets.

* `Reach.ext_mem` — two reaches with the same elements are the same.
* `Reach.mem_filter`, `Reach.mem_union`, `Reach.mem_ofVertices`, `Reach.mem_ofEdges` — what the
  operations hold.
* `Reach.mem_toList`, `Reach.nodup_toList` — its elements can be listed.
* `Reach.All` — something is so of everything reached; **`Reach.All.close`** — a closure keeps what
  its step keeps.
* `Query.run_append` — fragments that follow others start where these have led.
-/

namespace Estate

namespace Reach

variable {r s : Reach} {v : VertexId} {e : EdgeId}

@[simp] lemma mem_vertex : Element.vertex v ∈ r ↔ v ∈ r.vertices := Iff.rfl

@[simp] lemma mem_edge : Element.edge e ∈ r ↔ e ∈ r.edges := Iff.rfl

lemma ext_mem (h : ∀ x, x ∈ r ↔ x ∈ s) : r = s := by
  obtain ⟨vertices, edges⟩ := r
  obtain ⟨vertices', edges'⟩ := s
  congr 1
  · exact Std.ExtTreeSet.ext_mem fun v => h (.vertex v)
  · exact Std.ExtTreeSet.ext_mem fun e => h (.edge e)

@[simp] lemma mem_union {x : Element} : x ∈ r.union s ↔ x ∈ r ∨ x ∈ s := by
  cases x with
  | vertex v => exact Std.ExtTreeSet.mem_union_iff
  | edge e => exact Std.ExtTreeSet.mem_union_iff

@[simp] lemma mem_filter {keep : Element → Bool} {x : Element} :
    x ∈ r.filter keep ↔ x ∈ r ∧ keep x := by
  cases x with
  | vertex v => simp [filter]
  | edge e => simp [filter]

@[simp] lemma mem_ofVertices {ids : List VertexId} {x : Element} :
    x ∈ ofVertices ids ↔ ∃ v ∈ ids, x = .vertex v := by
  cases x with
  | vertex v => simp [ofVertices]
  | edge e => simp [ofVertices]

@[simp] lemma mem_ofEdges {ids : List EdgeId} {x : Element} :
    x ∈ ofEdges ids ↔ ∃ e ∈ ids, x = .edge e := by
  cases x with
  | vertex v => simp [ofEdges]
  | edge e => simp [ofEdges]

@[simp] lemma not_mem_empty {x : Element} : x ∉ ({} : Reach) := by
  cases x with
  | vertex v => exact Std.ExtTreeSet.not_mem_empty
  | edge e => exact Std.ExtTreeSet.not_mem_empty

@[simp] lemma mem_vertices_union : v ∈ (r.union s).vertices ↔ v ∈ r.vertices ∨ v ∈ s.vertices :=
  Std.ExtTreeSet.mem_union_iff

@[simp] lemma mem_edges_union : e ∈ (r.union s).edges ↔ e ∈ r.edges ∨ e ∈ s.edges :=
  Std.ExtTreeSet.mem_union_iff

@[simp] lemma mem_diff {x : Element} : x ∈ r.diff s ↔ x ∈ r ∧ x ∉ s := by
  cases x with
  | vertex v => exact Std.ExtTreeSet.mem_diff_iff
  | edge e => exact Std.ExtTreeSet.mem_diff_iff

@[simp] lemma union_empty (r : Reach) : r.union {} = r :=
  ext_mem fun x => by simp

@[simp] lemma empty_union (r : Reach) : union {} r = r :=
  ext_mem fun x => by simp

/-! ### As a list -/

@[simp] lemma mem_toList {x : Element} : x ∈ r.toList ↔ x ∈ r := by
  cases x with
  | vertex v => simp [toList]
  | edge e => simp [toList]

/-- Every element is listed once. -/
lemma nodup_toList (r : Reach) : r.toList.Nodup := by
  have hids : ∀ ids : IdSet, ids.toList.Nodup := fun ids =>
    ids.distinct_toList.imp fun hne heq => hne (Nat.compare_eq_eq.2 heq)
  refine List.nodup_append.2 ⟨?_, ?_, ?_⟩
  · exact List.Nodup.map (fun _ _ => Element.vertex.inj) (hids r.vertices)
  · exact List.Nodup.map (fun _ _ => Element.edge.inj) (hids r.edges)
  · intro x hx y hy
    obtain ⟨v, -, rfl⟩ := List.mem_map.1 hx
    obtain ⟨e, -, rfl⟩ := List.mem_map.1 hy
    exact nofun

/-! ### What is so of everything reached -/

/-- Something is so of every element. -/
def All (P : Element → Prop) (r : Reach) : Prop :=
  ∀ x ∈ r, P x

variable {P : Element → Prop}

lemma all_empty : All P {} := fun _ hx => absurd hx not_mem_empty

lemma all_ofVertices {ids : List VertexId} (h : ∀ v ∈ ids, P (.vertex v)) :
    (ofVertices ids).All P := by
  intro x hx
  obtain ⟨v, hv, rfl⟩ := mem_ofVertices.1 hx
  exact h v hv

lemma all_ofEdges {ids : List EdgeId} (h : ∀ e ∈ ids, P (.edge e)) : (ofEdges ids).All P := by
  intro x hx
  obtain ⟨e, he, rfl⟩ := mem_ofEdges.1 hx
  exact h e he

namespace All

lemma union (hr : r.All P) (hs : s.All P) : (r.union s).All P := fun x hx =>
  (mem_union.1 hx).elim (hr x) (hs x)

lemma filter (hr : r.All P) (keep : Element → Bool) : (r.filter keep).All P :=
  fun x hx => hr x (mem_filter.1 hx).1

lemma diff (hr : r.All P) (s : Reach) : (r.diff s).All P := by
  intro x hx
  cases x with
  | vertex v => exact hr (.vertex v) (Std.ExtTreeSet.mem_diff_iff.1 hx).1
  | edge e => exact hr (.edge e) (Std.ExtTreeSet.mem_diff_iff.1 hx).1

/-- What is joined from several parts is as each part is. -/
lemma foldl {α : Type} {f : α → Reach} (hf : ∀ a, (f a).All P) :
    ∀ (as : List α) {r : Reach}, r.All P → (as.foldl (fun r a => r.union (f a)) r).All P
  | [], _, hr => hr
  | a :: as, _, hr => foldl hf as (hr.union (hf a))

/-- **A closure keeps what its step keeps.** -/
lemma close {step : Reach → Reach} (hstep : ∀ r, r.All P → (step r).All P) :
    ∀ (rounds : Nat) {found fresh : Reach}, found.All P → fresh.All P →
      (Reach.close step rounds found fresh).All P
  | 0, _, _, hfound, _ => hfound
  | rounds + 1, found, fresh, hfound, hfresh => by
      rw [Reach.close]
      split
      · exact hfound
      · have hnext := (hstep fresh hfresh).diff found
        exact close hstep rounds (hfound.union hnext) hnext

end All

end Reach

namespace Query

variable {digest : String → String} {g : Graph} {p : Position}

/-- Fragments that follow others start where these have led. -/
lemma run_append (before after : List Fragment) :
    (node (before ++ after) []).run digest g p =
      (node after []).run digest g ((node before []).run digest g p) := by
  simp only [run, List.foldl_append]

end Query

end Estate
