import Mathlib.Data.List.Perm.Basic
import Mathlib.Data.List.Sort
import Mathlib.Data.Set.Function
import Mathlib.Order.Basic
import Estate.Proofs.Query.Identity

/-!
# Entities of the same shape are identical

Two entities have the same shape if what they contain can be matched, level by level, so that
matched entities are of the same nature.  Numbers, names, other properties, other relationships and
the order of creation do not matter, and the two may stand in different graphs.  Identity hashes see
nothing else: by induction over the containment below an entity, the hash that it has is also the
hash of what it is matched with, because the hashes of the children are sorted before they are
digested.

* `Graph.SameShape` — a match of what two entities contain.
* `Graph.SameShape.children` — the children are matched, in some order.
* **`Graph.SameShape.hasHash`** — the hash of an entity is the hash of its match.
* `Graph.identityHash_spec` — every entity has one hash, which is computed whatever is noted and
  however deep containment may go.
* `Graph.SameShape.twins` — in one graph, entities of the same shape are twins.
-/

namespace Estate

open Layout

namespace Graph

variable {digest : String → String} {g g' : Graph} {v v' w : VertexId}
  {f : VertexId → VertexId}

/-- A vertex and all that it contains, directly or not. -/
def below (g : Graph) (v : VertexId) : Set VertexId :=
  {w | Relation.ReflTransGen g.contents.Contains v w}

/-- **A match of what two vertices contain**, of one graph or of two.  It is one to one, it goes
along with containment, and matched entities have the same kind, the same id and the same structural
properties. -/
structure SameShape (g g' : Graph) (f : VertexId → VertexId) (v v' : VertexId) : Prop where
  stored : (g.vertex? v).isSome
  root : f v = v'
  bijective : Set.BijOn f (g.below v) (g'.below v')
  contains : ∀ x ∈ g.below v, ∀ y ∈ g.below v,
    g.contents.Contains x y ↔ g'.contents.Contains (f x) (f y)
  nature : ∀ x ∈ g.below v, (g.vertex? x).map nature = (g'.vertex? (f x)).map nature

/-! ## Children -/

/-- No child is listed twice, since no two containments have the same ends. -/
lemma WellFormed.nodup_childrenOf (hwf : g.WellFormed) (h : g.contents.Linked) (v : VertexId) :
    (g.childrenOf v).Nodup := by
  have hedges : (g.edgesOf v .outgoing (some WellKnown.contains.name)).Pairwise (· < ·) :=
    (IdSet.pairwise_toList _).filter _
  refine List.pairwise_filterMap.2 (hedges.imp_of_mem fun {e e'} he he' hlt w hw w' hw' hsame => ?_)
  obtain ⟨a, ha, hsource, hlabel⟩ := hwf.mem_edgesOf.1 he
  obtain ⟨b, hb, hsource', hlabel'⟩ := hwf.mem_edgesOf.1 he'
  rw [ha] at hw
  rw [hb] at hw'
  have htarget : a.target = b.target :=
    (Option.some.inj hw).trans (hsame.trans (Option.some.inj hw').symm)
  exact Nat.ne_of_lt hlt (h.once ha hb ((hlabel _ rfl).trans (hlabel' _ rfl).symm)
    (hsource.trans hsource'.symm) htarget)

namespace SameShape

/-- What a match leads to has been matched. -/
lemma mem_below (h : g.SameShape g' f v v') {x : VertexId} (hx : x ∈ g.below v) :
    f x ∈ g'.below v' :=
  h.bijective.mapsTo hx

/-- What has been matched is stored. -/
lemma stored_match (h : g.SameShape g' f v v') : (g'.vertex? v').isSome := by
  have hnature := h.nature v .refl
  rw [h.root] at hnature
  rw [← Option.isSome_map (f := Graph.nature), ← hnature, Option.isSome_map]
  exact h.stored

/-- The children of what is matched are the matches of its children, in some order. -/
theorem children (h : g.SameShape g' f v v') (hwf : g.WellFormed) (hwf' : g'.WellFormed)
    (hlinked : g.contents.Linked) (hlinked' : g'.contents.Linked) {x : VertexId}
    (hx : x ∈ g.below v) : (g'.childrenOf (f x)).Perm ((g.childrenOf x).map f) := by
  have hbelow : ∀ {y}, y ∈ g.childrenOf x → y ∈ g.below v := fun hy =>
    hx.tail (hwf.follows_children.1 hy)
  have hnodup : ((g.childrenOf x).map f).Nodup :=
    (hwf.nodup_childrenOf hlinked x).map_on fun y hy z hz hsame =>
      h.bijective.injOn (hbelow hy) (hbelow hz) hsame
  refine (List.perm_ext_iff_of_nodup (hwf'.nodup_childrenOf hlinked' (f x)) hnodup).2 fun y' => ?_
  rw [List.mem_map]
  constructor
  · intro hy'
    have hcontains := hwf'.follows_children.1 hy'
    -- Nothing is left out on the other side: a child of the match is the match of something.
    obtain ⟨y, hy, rfl⟩ := h.bijective.surjOn ((h.mem_below hx).tail hcontains)
    exact ⟨y, hwf.follows_children.2 ((h.contains x hx y hy).2 hcontains), rfl⟩
  · rintro ⟨y, hy, rfl⟩
    exact hwf'.follows_children.2
      ((h.contains x hx y (hbelow hy)).1 (hwf.follows_children.1 hy))

end SameShape

/-! ## Hashes -/

/-- The hashes of the children may come in any order. -/
lemma identityText_perm {row : Properties} {hashes hashes' : List String}
    (h : hashes.Perm hashes') : identityText row hashes = identityText row hashes' := by
  have hsorted : hashes.mergeSort (· ≤ ·) = hashes'.mergeSort (· ≤ ·) :=
    ((List.mergeSort_perm ..).trans (h.trans (List.mergeSort_perm ..).symm)).eq_of_pairwise'
      (List.pairwise_mergeSort' (· ≤ ·) hashes) (List.pairwise_mergeSort' (· ≤ ·) hashes')
  rw [identityText, identityText, hsorted]

/-- **The hash of a vertex is the hash of what it is matched with**, in whatever order their
children are listed. -/
theorem SameShape.hasHash (h : g.SameShape g' f v v') (hwf : g.WellFormed) (hwf' : g'.WellFormed)
    (hlinked : g.contents.Linked) (hlinked' : g'.contents.Linked) {x : VertexId} {hash : String}
    (hx : x ∈ g.below v) (hhash : g.HasHash digest x hash) : g'.HasHash digest (f x) hash := by
  revert hx
  -- By induction on the containment below `x`, for one vertex and for several at a time.
  refine @HasHash.rec digest g (fun x hash _ => x ∈ g.below v → g'.HasHash digest (f x) hash)
    (fun xs hashes _ => (∀ x ∈ xs, x ∈ g.below v) →
      List.Forall₂ (g'.HasHash digest) (xs.map f) hashes) ?digest ?nil ?cons x hash hhash
  case digest =>
    intro x row hashes stored _ ih hx
    have hmatched : List.Forall₂ (g'.HasHash digest) ((g.childrenOf x).map f) hashes :=
      ih fun y hy => hx.tail (hwf.follows_children.1 hy)
    obtain ⟨hashes', hchildren, hperm⟩ :=
      List.perm_comp_forall₂ (h.children hwf hwf' hlinked hlinked' hx) hmatched
    have hnature := h.nature x hx
    rw [stored, Option.map_some] at hnature
    obtain ⟨row', stored', hsame⟩ := Option.map_eq_some_iff.1 hnature.symm
    rw [← identityText_perm hperm, ← identityText_congr hsame]
    exact .digest stored' hchildren
  case nil =>
    intro _
    exact .nil
  case cons =>
    intro x hash xs hashes _ _ ih ihs hxs
    obtain ⟨hx, hrest⟩ := List.forall_mem_cons.1 hxs
    exact .cons (ih hx) (ihs hrest)

/-- **Every entity has one hash**, and it is computed whatever has been noted before, as long as it
is right, and for every bound of the depth that is larger than the number of vertices. -/
theorem identityHash_spec (digest : String → String) (hwf : g.WellFormed) (h : g.contents.Sound)
    (hstored : (g.vertex? v).isSome) :
    ∃ hash, g.HasHash digest v hash ∧ ∀ memo, g.Notes digest memo → ∀ depth > g.vertices.size,
      ∃ noted, hashWithin digest g depth memo v = .ok (hash, noted) ∧ g.Notes digest noted := by
  obtain ⟨row, hrow⟩ := Option.isSome_iff_exists.1 hstored
  obtain ⟨p, hv⟩ := h.toAddressed.entity hrow
  have hcomputed : ∀ memo, g.Notes digest memo → ∀ depth > g.vertices.size,
      ∃ r, hashWithin digest g depth memo v = .ok r ∧ g.HasHash digest v r.1 ∧
        g.Notes digest r.2 := by
    intro memo hmemo depth hdepth
    obtain ⟨r, hr⟩ := hashWithin_ok digest hwf h depth memo hv (by omega)
    exact ⟨r, hr, hashWithin_sound depth hmemo hr⟩
  obtain ⟨⟨hash, _⟩, -, hhash, -⟩ :=
    hcomputed ∅ (notes_empty digest g) (g.vertices.size + 1) (Nat.lt_succ_self _)
  refine ⟨hash, hhash, fun memo hmemo depth hdepth => ?_⟩
  obtain ⟨⟨hash', noted⟩, hr, hhash', hnoted⟩ := hcomputed memo hmemo depth hdepth
  obtain rfl := hhash.unique hhash'
  exact ⟨noted, hr, hnoted⟩

/-- In one graph, entities of the same shape are twins. -/
theorem SameShape.twins (h : g.SameShape g f v v') (hwf : g.WellFormed) (hsound : g.contents.Sound) :
    g.Twins digest v v' := by
  obtain ⟨hash, hhash, -⟩ := identityHash_spec digest hwf hsound h.stored
  have hhash' := h.hasHash hwf hwf hsound.toLinked hsound.toLinked .refl hhash
  rw [h.root] at hhash'
  exact ⟨kindAt?_congr (h.root ▸ h.nature v .refl), hash, hhash, hhash'⟩

/-! ## The filter -/

variable {role : FragmentRole} {p p' : Position}

lemma Twins.refl (digest : String → String) (hwf : g.WellFormed) (h : g.contents.Sound)
    (hstored : (g.vertex? v).isSome) : g.Twins digest v v := by
  obtain ⟨hash, hhash, -⟩ := identityHash_spec digest hwf h hstored
  exact ⟨rfl, hash, hhash, hhash⟩

/-- `identical` leads to the twins of entities. -/
lemma vertex_mem_identical (hwf : g.WellFormed) (h : g.contents.Sound) :
    .vertex w ∈ (Filter.identical.apply digest g role p).reach g ↔
      ∃ v, .vertex v ∈ p.reach g ∧ g.Twins digest v w := by
  refine (mem_identicalTo hwf h).trans ⟨?_, ?_⟩
  · rintro ⟨v, w, hv, hw, htwins⟩
    obtain rfl := Element.vertex.inj hw
    exact ⟨v, hv, htwins⟩
  · rintro ⟨v, hv, htwins⟩
    exact ⟨v, w, hv, rfl, htwins⟩

lemma edge_not_mem_identical {e : EdgeId} (hwf : g.WellFormed) (h : g.contents.Sound) :
    .edge e ∉ (Filter.identical.apply digest g role p).reach g := fun he =>
  have ⟨_, _, _, hedge, _⟩ := (mem_identicalTo hwf h).1 he
  nomatch hedge

/-- Two positions are told apart by `identical` only if their entities have other twins. -/
lemma identical_congr (hwf : g.WellFormed) (h : g.contents.Sound)
    (hsame : ∀ w, (∃ v, .vertex v ∈ p.reach g ∧ g.Twins digest v w) ↔
      ∃ v, .vertex v ∈ p'.reach g ∧ g.Twins digest v w) :
    Filter.identical.apply digest g role p = Filter.identical.apply digest g role p' := by
  have hvertex : ∀ {p w}, _ := @fun p w => @vertex_mem_identical digest g w role p hwf h
  have hedge : ∀ {p e}, _ := @fun p e => @edge_not_mem_identical digest g role p e hwf h
  refine congrArg Position.among (Reach.ext_mem fun x => ?_)
  cases x with
  | vertex w => exact hvertex.trans ((hsame w).trans hvertex.symm)
  | edge e => exact iff_of_false hedge hedge

/-- **`identical` keeps the entities** that it starts from. -/
theorem mem_identical_self (hwf : g.WellFormed) (h : g.contents.Sound)
    (hstored : (g.vertex? v).isSome) (hv : .vertex v ∈ p.reach g) :
    .vertex v ∈ (Filter.identical.apply digest g role p).reach g :=
  (vertex_mem_identical hwf h).2 ⟨v, hv, .refl digest hwf h hstored⟩

/-- **`identical` twice is `identical` once**. -/
theorem identical_identical (hwf : g.WellFormed) (h : g.contents.Sound) :
    Filter.identical.apply digest g role (Filter.identical.apply digest g role p) =
      Filter.identical.apply digest g role p := by
  refine identical_congr hwf h fun w => ⟨?_, ?_⟩
  · rintro ⟨v, hv, htwins⟩
    obtain ⟨u, hu, htwins'⟩ := (vertex_mem_identical hwf h).1 hv
    exact ⟨u, hu, htwins'.trans htwins⟩
  · rintro ⟨v, hv, htwins⟩
    obtain ⟨hash, -, hhash⟩ := htwins.hash
    exact ⟨w, (vertex_mem_identical hwf h).2 ⟨v, hv, htwins⟩, rfl, hash, hhash, hhash⟩

/-- `identical` leads to both of two twins, or to none. -/
lemma Twins.mem_identical_iff (hwf : g.WellFormed) (h : g.contents.Sound)
    (htwins : g.Twins digest v w) :
    .vertex v ∈ (Filter.identical.apply digest g role p).reach g ↔
      .vertex w ∈ (Filter.identical.apply digest g role p).reach g := by
  rw [vertex_mem_identical hwf h, vertex_mem_identical hwf h]
  exact exists_congr fun u => and_congr_right fun _ =>
    ⟨fun hsame => hsame.trans htwins, fun hsame => hsame.trans htwins.symm⟩

/-- `identical` leads from two twins to the same entities. -/
lemma Twins.identical_eq (hwf : g.WellFormed) (h : g.contents.Sound)
    (htwins : g.Twins digest v w) :
    Filter.identical.apply digest g role (.among (.ofVertices [v])) =
      Filter.identical.apply digest g role (.among (.ofVertices [w])) := by
  have hstart : ∀ {u x}, .vertex x ∈ (Position.among (.ofVertices [u])).reach g ↔ x = u :=
    Reach.mem_ofVertices.trans (by simp)
  refine identical_congr hwf h fun x => ?_
  simp only [hstart, exists_eq_left]
  exact ⟨htwins.symm.trans, htwins.trans⟩

end Graph

end Estate
