import Estate.Proofs.Registry.Unindexed

/-!
# Queries without indexes

A query looks elements up where it starts, where it jumps, and where it compares an element with the
entity at a path or with all entities of a kind.  Everything else is read off the vertices, the
edges and their ends.  So a query leads to the same elements with indexes and without, and whatever
is selected by it is read and paged alike.

* `Graph.Faithful.atPaths`, `Graph.Faithful.identicalTo`, … — what is looked up.
* **`Filter.apply_unindexed`**, **`Query.run_unindexed`** — filters and queries.
* **`Selection.page_unindexed`** — the pages of a selection.
-/

namespace Estate

open Layout

variable {g : Graph} {digest : String → String}

namespace Graph

mutual

lemma hashWithin_unindexed (digest : String → String) (g : Graph) :
    ∀ (depth : Nat) (memo : HashMemo) (v : VertexId),
      hashWithin digest g.unindexed depth memo v = hashWithin digest g depth memo v
  | 0, _, _ => by rw [hashWithin, hashWithin]
  | depth + 1, memo, v => by
      rw [hashWithin, hashWithin, vertex?_unindexed]
      simp only [hashesWithin_unindexed digest g depth memo,
        show g.unindexed.childrenOf v = g.childrenOf v from rfl]

lemma hashesWithin_unindexed (digest : String → String) (g : Graph) :
    ∀ (depth : Nat) (memo : HashMemo) (vs : List VertexId),
      hashesWithin digest g.unindexed depth memo vs = hashesWithin digest g depth memo vs
  | _, _, [] => by rw [hashesWithin, hashesWithin]
  | depth, memo, v :: vs => by
      rw [hashesWithin, hashesWithin, hashWithin_unindexed digest g depth memo v]
      simp only [hashesWithin_unindexed digest g depth _ vs]

end

lemma identityHashes_unindexed (digest : String → String) (g : Graph) :
    ∀ (vs : List VertexId) (memo : HashMemo),
      g.unindexed.identityHashes digest memo vs = g.identityHashes digest memo vs
  | [], _ => rfl
  | v :: vs, memo => by
      have hhash : g.unindexed.identityHash digest memo v = g.identityHash digest memo v :=
        hashWithin_unindexed digest g _ memo v
      simp only [identityHashes, hhash, identityHashes_unindexed digest g vs]

namespace Faithful

variable (h : g.Faithful)

include h

/-! ## Looking up -/

lemma keeps (f : Filter) : g.unindexed.keeps f = g.keeps f := by
  have hdefined : ∀ v type, g.unindexed.isDefinedBy v type = g.isDefinedBy v type :=
    fun v type => by
      rw [isDefinedBy, h.locate?]
      rfl
  funext x
  cases x with
  | vertex v =>
      cases f with
      | definedBy type =>
          exact congrArg (fun keep => (g.vertex? v).any keep) (funext fun _ => hdefined v type)
      | _ => rfl
  | edge e => cases f <;> rfl

lemma relatedTo (relation : RelationRef) (role : Role) (other : CanonicalPath) (r : Reach) :
    g.unindexed.relatedTo relation role other r = g.relatedTo relation role other r := by
  rw [Graph.relatedTo, h.locate?]
  rfl

lemma atPaths (paths : List CanonicalPath) : g.unindexed.atPaths paths = g.atPaths paths := by
  simp only [Graph.atPaths, h.locate?, h.relationEdges]

lemma ofKinds (kinds : List Kind) : g.unindexed.ofKinds kinds = g.ofKinds kinds := by
  simp only [Graph.ofKinds, h.verticesBy typeKey (by decide), edges_unindexed]

lemma ofIds (ids : List String) : g.unindexed.ofIds ids = g.ofIds ids := by
  simp only [Graph.ofIds, h.verticesBy idKey (by decide), h.edgesBy]

lemma identicalTo (digest : String → String) (r : Reach) :
    g.unindexed.identicalTo digest r = g.identicalTo digest r := by
  simp only [Graph.identicalTo, h.verticesBy typeKey (by decide), vertex?_unindexed,
    identityHashes_unindexed]

end Faithful

end Graph

/-! ## Filters and queries -/

/-- Nothing has to be looked up to know what is reached at a position. -/
lemma Position.reach_unindexed (g : Graph) (p : Position) : p.reach g.unindexed = p.reach g := by
  cases p <;> rfl

mutual

/-- **A filter leads to the same elements** with indexes and without. -/
theorem Filter.apply_unindexed (digest : String → String) (h : g.Faithful) :
    ∀ (role : FragmentRole) (f : Filter) (p : Position),
      f.apply digest g.unindexed role p = f.apply digest g role p
  | role, .recurse chain, .among r => by
      simp only [Filter.apply, applyChain_unindexed digest h role chain, Position.reach_unindexed,
        Graph.vertices_unindexed, Graph.edges_unindexed]
  | _, .recurse _, .everywhere | _, .noop, _ => rfl
  | _, .relatedBy relation role none, p => by
      simp only [Filter.apply, Position.reach_unindexed]
      rfl
  | _, .relatedBy relation role (some other), p => by
      simp only [Filter.apply, Position.reach_unindexed, h.relatedTo]
  | _, .toRelationships direction, p => by
      simp only [Filter.apply, Position.reach_unindexed]
      rfl
  | _, .toEntities direction, p => by
      simp only [Filter.apply, Position.reach_unindexed]
      rfl
  | _, .identical, p => by
      simp only [Filter.apply, Position.reach_unindexed, h.identicalTo]
  | .path, .withPaths paths, _ => by simp only [Filter.apply, h.atPaths]
  | .path, .withKinds kinds, .everywhere => by simp only [Filter.apply, h.ofKinds]
  | .path, .withIds ids, .everywhere => by simp only [Filter.apply, h.ofIds]
  | .filter, .withPaths _, p | .filter, .withKinds _, p | .filter, .withIds _, p
  | .path, .withKinds _, .among r | .path, .withIds _, .among r
  | _, .withProperty _ _, p | _, .definedBy _, p | _, .relationIds _, p | _, .relationNames _, p
  | _, .relationProperty _ _, p | _, .relationSources _, p | _, .relationTargets _, p => by
      simp only [Filter.apply, Position.reach_unindexed, h.keeps]

/-- So does a chain of filters. -/
theorem applyChain_unindexed (digest : String → String) (h : g.Faithful) (role : FragmentRole) :
    ∀ (fs : List Filter) (p : Position),
      applyChain digest g.unindexed role fs p = applyChain digest g role fs p
  | [], _ => rfl
  | f :: fs, p => by
      rw [applyChain, applyChain, Filter.apply_unindexed digest h role f,
        applyChain_unindexed digest h role fs]

end

namespace Query

lemma fragments_unindexed (digest : String → String) (h : g.Faithful) :
    ∀ (fragments : List Fragment) (p : Position),
      fragments.foldl (fun p f => f.apply digest g.unindexed p) p =
        fragments.foldl (fun p f => f.apply digest g p) p
  | [], _ => rfl
  | f :: fs, p => by
      rw [List.foldl_cons, List.foldl_cons, Fragment.apply, Fragment.apply,
        Filter.apply_unindexed digest h, fragments_unindexed digest h fs]

mutual

/-- **A query leads to the same elements** with indexes and without. -/
theorem run_unindexed (digest : String → String) (h : g.Faithful) :
    ∀ (q : Query) (p : Position), q.run digest g.unindexed p = q.run digest g p
  | node fragments [], p => fragments_unindexed digest h fragments p
  | node fragments [only], p => by
      simp only [run, fragments_unindexed digest h, run_unindexed digest h only]
  | node fragments (b :: b' :: bs), p => by
      simp only [run, fragments_unindexed digest h, runAll_unindexed digest h (b :: b' :: bs)]

/-- So do several. -/
theorem runAll_unindexed (digest : String → String) (h : g.Faithful) :
    ∀ (qs : List Query) (p : Position), runAll digest g.unindexed qs p = runAll digest g qs p
  | [], _ => rfl
  | q :: qs, p => by
      rw [runAll, runAll, run_unindexed digest h q, runAll_unindexed digest h qs]

end

lemma elements_unindexed (digest : String → String) (h : g.Faithful) (q : Query) :
    q.elements digest g.unindexed = q.elements digest g := by
  rw [elements, elements, run_unindexed digest h, Position.reach_unindexed]

end Query

/-! ## Selections -/

namespace Selection

variable (digest) (h : g.Faithful) (s : Selection)

include h

lemma elements_unindexed : s.elements digest g.unindexed = s.elements digest g := by
  rw [elements, Query.elements_unindexed digest h]
  rfl

lemma listing_unindexed (p : Pager) : s.listing digest g.unindexed p = s.listing digest g p := by
  rw [listing, elements_unindexed digest h]
  rfl

/-- **A page shows the same** with indexes and without. -/
theorem page_unindexed (limit : UInt64) (p : Pager) :
    s.page digest limit p g.unindexed = s.page digest limit p g := by
  rw [page, listing_unindexed digest h]
  rfl

lemma all_unindexed (limit : UInt64) : s.all digest limit g.unindexed = s.all digest limit g := by
  rw [all, page_unindexed digest h, all]

lemma first?_unindexed (limit : UInt64) :
    s.first? digest limit g.unindexed = s.first? digest limit g := by
  rw [first?, page_unindexed digest h, first?]

lemma paths_unindexed : s.paths digest g.unindexed = s.paths digest g := by
  rw [paths, elements_unindexed digest h]
  rfl

end Selection

end Estate
