import Mathlib.Data.List.Perm.Subperm
import Mathlib.Logic.Relation
import Estate.Proofs.Graph.Lookup
import Estate.Registry.Containment

/-!
# What exploring a graph finds

`Graph.explore` goes from vertices to the next ones in rounds, and there are as many rounds as there
are vertices.  That is enough: a round that finds anything new makes the list of what has been found
longer, and the list has no vertex twice.

* `Explored` — what holds between two rounds.
* **`Graph.explore_spec`** — what is found is what can be reached, each vertex once.
* `Graph.explore_sorted` — what is found is listed from the shallow to the deep.
* `Graph.WellFormed.subtree_spec`, `Graph.WellFormed.lineage_spec` — the same along containments.
-/

namespace Estate

/-- No value is left twice. -/
lemma nodup_eraseDups {α : Type} [BEq α] [LawfulBEq α] : ∀ l : List α, l.eraseDups.Nodup
  | [] => List.nodup_nil
  | a :: l => by
      rw [List.eraseDups_cons, List.nodup_cons]
      refine ⟨fun ha => ?_, nodup_eraseDups _⟩
      rw [List.mem_eraseDups, List.mem_filter] at ha
      simp at ha
termination_by l => l.length
decreasing_by exact Nat.lt_succ_of_le (List.length_filter_le _ _)

namespace Graph

variable {next : VertexId → List VertexId} {v : VertexId}

/-- One step of an exploration. -/
def Follows (next : VertexId → List VertexId) (a b : VertexId) : Prop :=
  b ∈ next a

/-- Between two rounds: everything listed can be reached, nothing is listed twice, and what one
comes to from earlier rounds is listed. -/
structure Explored (next : VertexId → List VertexId) (v : VertexId)
    (found level : List VertexId) : Prop where
  start : v ∈ found ++ level
  nodup : (found ++ level).Nodup
  reached : ∀ w ∈ found ++ level, Relation.ReflTransGen (Follows next) v w
  closed : ∀ w ∈ found, ∀ x ∈ next w, x ∈ found ++ level

/-- The vertices that a round finds. -/
lemma mem_fresh {found level : List VertexId} {w : VertexId} :
    w ∈ ((level.flatMap next).filter fun v => !(found ++ level).contains v).eraseDups ↔
      (∃ u ∈ level, w ∈ next u) ∧ w ∉ found ++ level := by
  rw [List.mem_eraseDups, List.mem_filter, List.mem_flatMap, Bool.not_eq_true',
    List.contains_eq_mem, decide_eq_false_iff_not]

/-- A round that finds something leads to the next one. -/
lemma Explored.round {found level : List VertexId} (h : Explored next v found level) :
    Explored next v (found ++ level)
      ((level.flatMap next).filter fun v => !(found ++ level).contains v).eraseDups where
  start := List.mem_append_left _ h.start
  nodup := by
    refine List.nodup_append.2 ⟨h.nodup, nodup_eraseDups _, fun a ha b hb hab => ?_⟩
    exact (mem_fresh.1 hb).2 (hab ▸ ha)
  reached := fun w hw => by
    rcases List.mem_append.1 hw with hw | hw
    · exact h.reached w hw
    · obtain ⟨⟨u, hu, hnext⟩, -⟩ := mem_fresh.1 hw
      exact (h.reached u (List.mem_append_right _ hu)).tail hnext
  closed := fun w hw x hx => by
    by_cases hlisted : x ∈ found ++ level
    · exact List.mem_append_left _ hlisted
    · rcases List.mem_append.1 hw with hw | hw
      · exact absurd (h.closed w hw x hx) hlisted
      · exact List.mem_append_right _ (mem_fresh.2 ⟨⟨w, hw, hx⟩, hlisted⟩)

/-- **What an exploration finds is what can be reached**, each vertex once, if there are more rounds
than vertices that can be reached and have not been listed. -/
theorem explore_spec {reachable : List VertexId}
    (hreachable : ∀ w, Relation.ReflTransGen (Follows next) v w → w ∈ reachable) :
    ∀ (rounds : Nat) (found level : List VertexId), Explored next v found level →
      reachable.length < rounds + (found ++ level).length →
      (explore next rounds found level).Nodup ∧
        ∀ w, w ∈ explore next rounds found level ↔ Relation.ReflTransGen (Follows next) v w := by
  intro rounds
  induction rounds with
  | zero =>
      intro found level h hrounds
      have hle : (found ++ level).length ≤ reachable.length :=
        (h.nodup.subperm fun w hw => hreachable w (h.reached w hw)).length_le
      omega
  | succ rounds ih =>
      intro found level h hrounds
      have hround := h.round
      rw [explore]
      split
      · next hfresh =>
          -- Nothing is new, so that what is listed is closed.
          refine ⟨h.nodup, fun w => ⟨h.reached w, fun hw => ?_⟩⟩
          induction hw with
          | refl => exact h.start
          | tail _ hstep hprev =>
              have hmem := hround.closed _ hprev _ hstep
              rwa [hfresh, List.append_nil] at hmem
      · next hfresh =>
          refine ih _ _ hround ?_
          have hpos := List.length_pos_iff.2 hfresh
          rw [List.length_append]
          omega

/-- What has been listed stays in front. -/
lemma explore_starts (next : VertexId → List VertexId) : ∀ (rounds : Nat)
    (found level : List VertexId), found ++ level <+: explore next rounds found level
  | 0, _, _ => List.prefix_rfl
  | rounds + 1, found, level => by
      rw [explore]
      split
      · exact List.prefix_rfl
      · exact (List.prefix_append _ _).trans (explore_starts next rounds _ _)

/-- Between two rounds: what is listed goes from the shallow to the deep, and the last round has
found vertices of one depth. -/
structure Layered (depth : VertexId → Nat) (n : Nat) (found level : List VertexId) : Prop where
  shallow : ∀ u ∈ found, depth u ≤ n
  even : ∀ u ∈ level, depth u = n
  sorted : found.Pairwise fun u w => depth u ≤ depth w

variable {depth : VertexId → Nat} {n : Nat} {found level : List VertexId}

lemma Layered.listed (h : Layered depth n found level) :
    (found ++ level).Pairwise fun u w => depth u ≤ depth w := by
  rw [List.pairwise_append]
  refine ⟨h.sorted, List.pairwise_of_forall_mem_list fun u hu w hw => ?_, fun u hu w hw => ?_⟩
  · exact Nat.le_of_eq ((h.even u hu).trans (h.even w hw).symm)
  · exact h.even w hw ▸ h.shallow u hu

lemma Layered.round (hdepth : ∀ u, ∀ w ∈ next u, depth w = depth u + 1)
    (h : Layered depth n found level) : Layered depth (n + 1) (found ++ level)
      ((level.flatMap next).filter fun v => !(found ++ level).contains v).eraseDups where
  shallow := fun u hu => by
    rcases List.mem_append.1 hu with hu | hu
    · exact Nat.le_succ_of_le (h.shallow u hu)
    · exact Nat.le_succ_of_le (Nat.le_of_eq (h.even u hu))
  even := fun w hw => by
    obtain ⟨⟨u, hu, hnext⟩, -⟩ := mem_fresh.1 hw
    rw [hdepth u w hnext, h.even u hu]
  sorted := h.listed

/-- **What is found is listed from the shallow to the deep**, if every step leads one level down. -/
theorem explore_sorted (hdepth : ∀ u, ∀ w ∈ next u, depth w = depth u + 1) :
    ∀ (rounds : Nat) {n : Nat} {found level : List VertexId}, Layered depth n found level →
      (explore next rounds found level).Pairwise fun u w => depth u ≤ depth w
  | 0, _, _, _, h => h.listed
  | rounds + 1, _, _, _, h => by
      rw [explore]
      split
      · exact h.listed
      · exact explore_sorted hdepth rounds (h.round hdepth)

namespace WellFormed

variable {g : Graph}

/-- An exploration along stored vertices has enough rounds. -/
lemma explore_stored (hstored : (g.vertex? v).isSome)
    (hnext : ∀ a b, b ∈ next a → (g.vertex? b).isSome) :
    (explore next g.vertices.size [] [v]).Nodup ∧
      ∀ w, w ∈ explore next g.vertices.size [] [v] ↔
        Relation.ReflTransGen (Follows next) v w := by
  have hreachable : ∀ w, Relation.ReflTransGen (Follows next) v w → w ∈ g.vertices.keys := by
    intro w hw
    rw [Std.ExtTreeMap.mem_keys, mem_vertices_iff]
    cases hw with
    | refl => exact hstored
    | tail _ hstep => exact hnext _ _ hstep
  refine explore_spec hreachable g.vertices.size [] [v] ?_ ?_
  · exact
      { start := List.mem_singleton_self v
        nodup := by simp
        reached := fun w hw => by
          obtain rfl := List.mem_singleton.1 hw
          exact .refl
        closed := nofun }
  · rw [Std.ExtTreeMap.length_keys]
    exact Nat.lt_succ_self _

/-- **A subtree is what can be reached along containments**, each vertex once. -/
theorem subtree_spec (h : g.WellFormed) (hstored : (g.vertex? v).isSome) :
    (g.subtree v).Nodup ∧
      ∀ w, w ∈ g.subtree v ↔ Relation.ReflTransGen (Follows g.childrenOf) v w :=
  explore_stored hstored fun a b hb => by
    obtain ⟨e, edge, he, -, -, rfl⟩ := h.mem_childrenOf.1 hb
    exact h.target_stored he

/-- **A lineage is what can be reached against containments**, each vertex once. -/
theorem lineage_spec (h : g.WellFormed) (hstored : (g.vertex? v).isSome) :
    (g.lineage v).Nodup ∧
      ∀ w, w ∈ g.lineage v ↔ Relation.ReflTransGen (Follows g.parentsOf) v w :=
  explore_stored hstored fun a b hb => by
    obtain ⟨e, edge, he, -, rfl, -⟩ := h.mem_parentsOf.1 hb
    exact h.source_stored he

end WellFormed

end Graph

end Estate
