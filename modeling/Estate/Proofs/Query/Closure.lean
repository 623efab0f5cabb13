import Mathlib.Logic.Relation
import Mathlib.Order.Bounds.Basic
import Estate.Proofs.Graph.Calls
import Estate.Proofs.Query.Union
import Estate.Proofs.Query.Within

/-!
# What a closure gathers

A closure goes round until a round finds nothing new.  Every round but the last one finds something
that is stored and has not been found before, so that the number of vertices and edges bounds the
rounds.  A round starts from what the round before has found anew; as a chain of filters leads from
a set where it leads from its elements, nothing is missed by that.

* `Reach.Closes` — a closure without a bound on its rounds; `Reach.Closes.unique` — it has one
  result.
* **`Reach.closes_close`** — a bounded closure is not cut off, if a step leads to so many elements
  only.
* **`Reach.Closes.isLeast`** — the result is the least set that the step does not lead out of;
  `Reach.Closes.mem_iff` — it is what one comes to in any number of steps.
* **`Filter.recurse_isLeast`** — closures of chains of filters, after any calls on a graph.
-/

namespace Estate

namespace Reach

variable {step : Reach → Reach} {r found fresh s s' : Reach} {x y : Element}

/-! ## Elements taken alone -/

/-- One element. -/
def single : Element → Reach
  | .vertex v => ofVertices [v]
  | .edge e => ofEdges [e]

@[simp] lemma mem_single : x ∈ single y ↔ x = y := by
  cases y <;> simp [single]

lemma union_single (hx : x ∈ r) : (single x).union r = r :=
  ext_mem fun y => by
    rw [mem_union, mem_single]
    exact or_iff_right_of_imp fun h => h ▸ hx

lemma mem_ofList {l : List Element} : x ∈ ofList l ↔ x ∈ l := by
  cases x with
  | vertex v =>
      rw [mem_vertex, ofList, Std.ExtTreeSet.mem_ofList, List.contains_iff_mem, List.mem_filterMap]
      constructor
      · rintro ⟨y, hy, hv⟩
        cases y with
        | vertex w => exact Option.some.inj hv ▸ hy
        | edge e => cases hv
      · exact fun hv => ⟨_, hv, rfl⟩
  | edge e =>
      rw [mem_edge, ofList, Std.ExtTreeSet.mem_ofList, List.contains_iff_mem, List.mem_filterMap]
      constructor
      · rintro ⟨y, hy, he⟩
        cases y with
        | vertex v => cases he
        | edge e' => exact Option.some.inj he ▸ hy
      · exact fun he => ⟨_, he, rfl⟩

/-- Where a step leads from an element, it leads from every set with it. -/
lemma Additive.mono_single (h : Additive step) (hx : x ∈ r) (hy : y ∈ step (single x)) :
    y ∈ step r := by
  rw [← union_single hx, h, mem_union]
  exact .inl hy

/-- **Where a step leads from elements, it leads from one of them.**  From no elements it may lead
somewhere nevertheless. -/
lemma Additive.of_mem (h : Additive step) (hr : r ≠ {}) (hy : y ∈ step r) :
    ∃ x ∈ r, y ∈ step (single x) := by
  have hlist : ∀ (l : List Element), l ≠ [] → y ∈ step (ofList l) →
      ∃ x ∈ l, y ∈ step (single x) := by
    intro l
    induction l with
    | nil => exact fun hnil _ => absurd rfl hnil
    | cons x l ih =>
        intro _ hy
        by_cases hl : l = []
        · have hsingle : ofList (x :: l) = single x := ext_mem fun z => by simp [mem_ofList, hl]
          exact ⟨x, List.mem_cons_self, hsingle ▸ hy⟩
        · have hsplit : ofList (x :: l) = (single x).union (ofList l) := ext_mem fun z => by
            simp [mem_ofList]
          rw [hsplit, h, mem_union] at hy
          rcases hy with hy | hy
          · exact ⟨x, List.mem_cons_self, hy⟩
          · obtain ⟨z, hz, hy⟩ := ih hl hy
            exact ⟨z, List.mem_cons_of_mem x hz, hy⟩
  have hlisted : ofList r.toList = r := ext_mem fun z => by rw [mem_ofList, mem_toList]
  obtain ⟨x, hx, hy⟩ := hlist r.toList
    (fun hnil => hr (ext_mem fun z => by rw [← mem_toList, hnil]; simp)) (hlisted.symm ▸ hy)
  exact ⟨x, mem_toList.1 hx, hy⟩

/-! ## Going round -/

/-- **Going round without a bound**: what has been found, what is fresh, and what is found in the
end.  It ends when nothing is fresh. -/
inductive Closes (step : Reach → Reach) : Reach → Reach → Reach → Prop
  | done (found : Reach) : Closes step found {} found
  | round {found fresh s : Reach} (hfresh : fresh ≠ {})
      (rest : Closes step (found.union ((step fresh).diff found)) ((step fresh).diff found) s) :
      Closes step found fresh s

namespace Closes

/-- There is no choice in going round. -/
lemma unique (h : Closes step found fresh s) (h' : Closes step found fresh s') : s = s' := by
  induction h with
  | done found =>
      cases h' with
      | done => rfl
      | round hfresh _ => exact absurd rfl hfresh
  | round hfresh _ ih =>
      cases h' with
      | done => exact absurd rfl hfresh
      | round _ rest => exact ih rest

/-- What has been found stays. -/
lemma subset (h : Closes step found fresh s) (hx : x ∈ found) : x ∈ s := by
  induction h with
  | done => exact hx
  | round _ _ ih => exact ih (mem_union.2 (.inl hx))

/-- **The step leads nowhere else in the end**, if at first it does so from fresh elements only. -/
lemma closed (hstep : Additive step) (h : Closes step found fresh s)
    (hfound : ∀ x ∈ found, x ∉ fresh → (step (single x)).All (· ∈ found)) :
    ∀ x ∈ s, (step (single x)).All (· ∈ s) := by
  induction h with
  | done found => exact fun x hx => hfound x hx not_mem_empty
  | @round found fresh s hfresh _ ih =>
      refine ih fun x hx hold y hy => ?_
      rw [mem_union, mem_diff] at hx ⊢
      have hx : x ∈ found := hx.resolve_right fun hnew => hold (mem_diff.2 hnew)
      by_cases hxfresh : x ∈ fresh
      · by_cases hyfound : y ∈ found
        · exact .inl hyfound
        · exact .inr ⟨hstep.mono_single hxfresh hy, hyfound⟩
      · exact .inl (hfound x hx hxfresh y hy)

/-- **Nothing else is found** than what the step leads to from what has been found. -/
lemma all {P : Element → Prop} (hstep : Additive step) (h : Closes step found fresh s)
    (hfound : found.All P) (hfresh : fresh.All P)
    (hP : ∀ x, P x → (step (single x)).All P) : s.All P := by
  induction h with
  | done => exact hfound
  | @round found fresh s hne _ ih =>
      have hnext : ((step fresh).diff found).All P := All.diff (fun y hy => by
        obtain ⟨x, hx, hy⟩ := hstep.of_mem hne hy
        exact hP x (hfresh x hx) y hy) found
      exact ih (hfound.union hnext) hnext

/-- **What is found in the end is the least set** that has everything from the start in it and that
the step does not lead out of. -/
theorem isLeast (hstep : Additive step) (h : Closes step r r s) :
    IsLeast {t : Set Element | (∀ x ∈ r, x ∈ t) ∧ ∀ x ∈ t, ∀ y ∈ step (single x), y ∈ t}
      {x | x ∈ s} := by
  refine ⟨⟨fun x hx => h.subset hx, ?_⟩, fun t ht => ?_⟩
  · exact h.closed hstep fun x hx hold => absurd hx hold
  · exact h.all hstep ht.1 ht.1 ht.2

/-- **What is found in the end** is what one comes to from the start in any number of steps. -/
theorem mem_iff (hstep : Additive step) (h : Closes step r r s) :
    x ∈ s ↔ ∃ y ∈ r, Relation.ReflTransGen (fun a b => b ∈ step (single a)) y x := by
  constructor
  · exact h.all (P := fun x => ∃ y ∈ r, Relation.ReflTransGen (fun a b => b ∈ step (single a)) y x)
      hstep (fun y hy => ⟨y, hy, .refl⟩) (fun y hy => ⟨y, hy, .refl⟩)
      (fun a ⟨y, hy, hya⟩ b hb => ⟨y, hy, hya.tail hb⟩) x
  · rintro ⟨y, hy, hyx⟩
    obtain ⟨hstart, hclosed⟩ := (h.isLeast hstep).1
    induction hyx with
    | refl => exact hstart y hy
    | tail _ hb ih => exact hclosed _ ih _ hb

end Closes

/-! ## The bound on the rounds -/

instance decidableMem (r : Reach) : DecidablePred (· ∈ r)
  | .vertex v => inferInstanceAs (Decidable (v ∈ r.vertices))
  | .edge e => inferInstanceAs (Decidable (e ∈ r.edges))

/-- The elements of a list that have not been found. -/
def unseen (all : List Element) (found : Reach) : List Element :=
  all.filter fun x => x ∉ found

lemma unseen_length_lt {all : List Element} (hx : x ∈ all) (hfound : x ∉ found) (hr : x ∈ r) :
    (unseen all (found.union r)).length < (unseen all found).length := by
  have hsub : unseen all (found.union r) = (unseen all found).filter (· ∉ r) := by
    rw [unseen, unseen, List.filter_filter]
    refine List.filter_congr fun z _ => ?_
    simp [not_or, and_comm]
  rw [hsub]
  refine List.length_filter_lt_length_iff_exists.2 ⟨x, ?_, by simpa using hr⟩
  simpa [unseen] using ⟨hx, hfound⟩

/-- **A bound that exceeds what can still be found does not cut a closure off.** -/
theorem closes_close (all : List Element)
    (hstep : ∀ fresh, (step fresh).All fun x => x ∈ all ∨ x ∈ fresh) :
    ∀ {rounds : Nat} {found fresh : Reach}, fresh.All (· ∈ found) →
      (unseen all found).length < rounds → Closes step found fresh (close step rounds found fresh)
  | 0, _, _, _, hrounds => absurd hrounds (Nat.not_lt_zero _)
  | rounds + 1, found, fresh, hfresh, hrounds => by
      rw [close]
      split
      · next hempty =>
          obtain rfl := isEmpty_iff.1 hempty
          exact .done found
      · next hne =>
          refine .round (fun hempty => hne (isEmpty_iff.2 hempty)) ?_
          set next := (step fresh).diff found with hnext
          by_cases hlast : next = {}
          · -- The last round: what is left of the bound does not matter.
            have hclose : close step rounds (found.union next) next = found.union next := by
              rw [hlast]
              cases rounds <;> rfl
            rw [hclose, hlast]
            exact .done _
          · obtain ⟨x, hx⟩ : ∃ x, x ∈ next := by
              by_contra hno
              exact hlast (ext_mem fun x => iff_of_false (fun hx => hno ⟨x, hx⟩) not_mem_empty)
            obtain ⟨hxstep, hxfound⟩ := mem_diff.1 hx
            have hxall := (hstep fresh x hxstep).resolve_right fun h => hxfound (hfresh x h)
            refine closes_close all hstep (fun y hy => mem_union.2 (.inr hy)) ?_
            exact Nat.lt_of_lt_of_le (unseen_length_lt hxall hxfound hx) (Nat.le_of_lt_succ hrounds)

end Reach

/-! ## Closures of chains -/

section Evaluation

variable {digest : String → String} {g : Graph} {role : FragmentRole} {chain : List Filter}

/-- Where a chain of filters leads from a set of elements. -/
def chainStep (digest : String → String) (g : Graph) (role : FragmentRole) (chain : List Filter)
    (r : Reach) : Reach :=
  (applyChain digest g role chain (.among r)).reach g

/-- A chain leads from a union where it leads from its parts. -/
lemma chainStep_additive
    (htwins : areTwinless chain = false → Reach.Additive (g.identicalTo digest)) :
    Reach.Additive (chainStep digest g role chain) := by
  obtain ⟨f, hf, hchain⟩ := chain_distributes role chain htwins
  have hstep : chainStep digest g role chain = f := funext fun r => by
    rw [chainStep, hchain, Position.reach]
  exact hstep ▸ hf

/-- Everything that is stored. -/
def Graph.elements (g : Graph) : List Element :=
  g.vertices.keys.map .vertex ++ g.edges.keys.map .edge

lemma Graph.mem_elements {x : Element} (hx : g.Holds x) : x ∈ g.elements := by
  cases x with
  | vertex v =>
      have hv : v ∈ g.vertices.keys := Std.ExtTreeMap.mem_keys.2 (mem_vertices_iff.2 hx)
      simpa [elements] using hv
  | edge e =>
      have he : e ∈ g.edges.keys := Std.ExtTreeMap.mem_keys.2 (mem_edges_iff.2 hx)
      simpa [elements] using he

/-- **The closure of a chain is not cut off**: its bound is one more than there are elements. -/
lemma Graph.WellFormed.closes_recurse (hwf : g.WellFormed) (digest : String → String)
    (role : FragmentRole) (chain : List Filter) (r : Reach) :
    ∃ s, (Filter.recurse chain).apply digest g role (.among r) = .among s ∧
      Reach.Closes (chainStep digest g role chain) r r s := by
  refine ⟨_, by rw [Filter.apply], ?_⟩
  refine Reach.closes_close g.elements (fun fresh => ?_) (fun x hx => hx) ?_
  · exact applyChain_all hwf (fun x hx => .inl (g.mem_elements hx)) role chain
      (p := .among fresh) fun x hx => .inr hx
  · refine Nat.lt_succ_of_le ((List.length_filter_le _ _).trans ?_)
    simp [elements, Std.ExtTreeMap.length_keys]

/-- **A closure ends, and what it reaches is the least set it could reach.**  In every graph that
calls lead to, with cycles or without, from any set of elements and in both roles, going round a
chain of filters ends with one result, which is where the closure leads; and it is the least set
that has everything from the start in it and, with each element, everything that the chain leads to
from this element alone. -/
theorem Filter.recurse_isLeast (vertexKeys edgeKeys : List String) (ms : List AnyMutation)
    (digest : String → String) (role : FragmentRole) {chain : List Filter}
    (hchain : areTwinless chain = true) (r : Reach) :
    let g := ((Store.empty vertexKeys edgeKeys).begin.calls ms).graph
    ∃ s, (recurse chain).apply digest g role (.among r) = .among s ∧
      (∀ s', Reach.Closes (chainStep digest g role chain) r r s' ↔ s' = s) ∧
      IsLeast {t : Set Element | (∀ x ∈ r, x ∈ t) ∧
        ∀ x ∈ t, ∀ y ∈ chainStep digest g role chain (.single x), y ∈ t} {x | x ∈ s} := by
  intro g
  have hwf : g.WellFormed := (Transaction.calls_wellFormed ms
    (Graph.wellFormed_empty vertexKeys edgeKeys)).1
  obtain ⟨s, hs, hcloses⟩ := hwf.closes_recurse digest role chain r
  refine ⟨s, hs, fun s' => ⟨fun h => h.unique hcloses, fun h => h ▸ hcloses⟩, ?_⟩
  exact hcloses.isLeast (chainStep_additive fun h => absurd (h.symm.trans hchain) (by decide))

/-- Three vertices in a ring, of which one watches a fourth. -/
def watchedRing : List AnyMutation :=
  [⟨.addVertex ∅⟩, ⟨.addVertex ∅⟩, ⟨.addVertex ∅⟩, ⟨.addVertex ∅⟩,
    ⟨.addEdge "next" 1 2 ∅⟩, ⟨.addEdge "next" 2 3 ∅⟩, ⟨.addEdge "next" 3 1 ∅⟩,
    ⟨.addEdge "watches" 3 4 ∅⟩, ⟨.addEdge "next" 4 4 ∅⟩]

/-- Round the ring any number of times, and then over to what is watched. -/
def roundAndOver : List Filter :=
  [.recurse [.relatedBy (.name "next") .source none], .relatedBy (.name "watches") .source none]

/-- From the second vertex of a ring a closure within a closure ends with it and what is watched. -/
theorem watchedRing_closes :
    let g := ((Store.empty [] []).begin.calls watchedRing).graph
    let second := Reach.single (.vertex 2)
    areTwinless roundAndOver = true ∧
      ∃ s, (Filter.recurse roundAndOver).apply id g .path (.among second) = .among s ∧
        s.toList = [.vertex 2, .vertex 4] ∧
        (∀ s', Reach.Closes (chainStep id g .path roundAndOver) second second s' ↔ s' = s) ∧
        IsLeast {t : Set Element | (∀ x ∈ second, x ∈ t) ∧
          ∀ x ∈ t, ∀ y ∈ chainStep id g .path roundAndOver (.single x), y ∈ t} {x | x ∈ s} := by
  intro g second
  have hlist : (((Filter.recurse roundAndOver).apply id g .path (.among second)).reach g).toList =
      [.vertex 2, .vertex 4] := by
    decide +kernel
  obtain ⟨s, hs, hcloses, hleast⟩ := Filter.recurse_isLeast [] [] watchedRing id .path
    (show areTwinless roundAndOver = true from rfl) second
  rw [hs] at hlist
  exact ⟨rfl, s, hs, hlist, hcloses, hleast⟩

end Evaluation

end Estate
