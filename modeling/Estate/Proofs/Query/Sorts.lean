import Estate.Proofs.Query.Conditions

/-!
# Entities and relationships apart

Vertices stand for entities and edges for relationships.  A hop leads from entities to entities,
`toRelationships` from entities to relationships and `toEntities` back, whatever narrows keeps the
sort of what it starts from, and so does the closure of a hop.  What is looked up is of the sort of
the kind or of the path that it is looked up by.

* `Element.IsVertex`, `Element.IsEdge`, `Kind.Sorts` — the two sorts, and the one of a kind.
* `Graph.hop_vertices`, `Graph.toRelationships_edges`, `Graph.ofKinds_sorted`, … — one lemma for
  each step.
* `Position.AtEntities`, `Position.AtRelationships` — a query stands at one sort only.
* `Fragment.Narrows`, **`Position.Among.narrow`** — narrowing fragments keep the sort.
* `Position.AtEntities.closure`, `Position.Among.closure` — and so do closures of hops.
-/

namespace Estate

/-! ## Sorts -/

/-- An element is a vertex. -/
def Element.IsVertex : Element → Prop
  | vertex _ => True
  | edge _ => False

/-- An element is an edge. -/
def Element.IsEdge : Element → Prop
  | vertex _ => False
  | edge _ => True

/-- **The sort of a kind**: relationships are edges, and all other kinds are of vertices. -/
def Kind.Sorts : Kind → Element → Prop
  | relationship => Element.IsEdge
  | _ => Element.IsVertex

lemma Kind.sorts_of_ne {k : Kind} (h : k ≠ .relationship) : k.Sorts = Element.IsVertex := by
  cases k with
  | relationship => exact absurd rfl h
  | _ => rfl

namespace Graph

variable {g : Graph} {r : Reach} {P : Element → Prop}

/-! ## Steps -/

lemma hop_vertices (g : Graph) (relation : RelationRef) (role : Role) (r : Reach) :
    (g.hop relation role r).All Element.IsVertex :=
  Reach.all_ofVertices fun _ _ => trivial

/-- From relationships there is no hop. -/
lemma hop_of_edges (relation : RelationRef) (role : Role) (hr : r.All Element.IsEdge) :
    (g.hop relation role r).All P := by
  refine Reach.all_ofVertices fun w hw => ?_
  obtain ⟨v, hv, -⟩ := List.mem_flatMap.1 hw
  exact (hr (.vertex v) (Std.ExtTreeSet.mem_toList.1 hv)).elim

lemma toRelationships_edges (g : Graph) (direction : Direction) (r : Reach) :
    (g.toRelationships direction r).All Element.IsEdge :=
  Reach.all_ofEdges fun _ _ => trivial

lemma toEntities_vertices (g : Graph) (direction : Direction) (r : Reach) :
    (g.toEntities direction r).All Element.IsVertex :=
  Reach.all_ofVertices fun _ _ => trivial

lemma identicalTo_vertices (digest : String → String) (g : Graph) (r : Reach) :
    (g.identicalTo digest r).All Element.IsVertex :=
  Reach.all_ofVertices fun _ _ => trivial

/-! ## What is looked up -/

/-- What is looked up by a kind is of its sort. -/
lemma ofKinds_sorted (g : Graph) (k : Kind) : (g.ofKinds [k]).All k.Sorts := by
  refine Reach.all_empty.union ?_
  cases k with
  | relationship => exact Reach.all_ofEdges fun _ _ => trivial
  | _ => exact Reach.all_ofVertices fun _ _ => trivial

/-- What is looked up by a path is of the sort of its kind. -/
lemma atPaths_sorted (g : Graph) (p : CanonicalPath) : (g.atPaths [p]).All p.kind.Sorts := by
  refine Reach.all_empty.union ?_
  cases p.kind with
  | relationship => exact Reach.all_ofEdges fun _ _ => trivial
  | _ => exact Reach.all_ofVertices fun _ _ => trivial

end Graph

/-! ## Positions -/

namespace Position

/-- **A query stands at entities only.**  Before anything has narrowed it, these are all there
are. -/
def AtEntities : Position → Prop
  | everywhere => True
  | among r => r.All Element.IsVertex

/-- A query has been narrowed to elements that are so. -/
def Among (P : Element → Prop) : Position → Prop
  | everywhere => False
  | among r => r.All P

/-- **A query stands at relationships only.** -/
abbrev AtRelationships (p : Position) : Prop :=
  p.Among Element.IsEdge

variable {g : Graph} {p : Position} {P : Element → Prop}

lemma Among.atEntities (h : p.Among Element.IsVertex) : p.AtEntities := by
  cases p with
  | everywhere => trivial
  | among r => exact h

lemma AtEntities.reach (h : p.AtEntities) (g : Graph) : (p.reach g).All Element.IsVertex := by
  cases p with
  | everywhere => exact Reach.all_ofVertices fun _ _ => trivial
  | among r => exact h

lemma Among.reach (h : p.Among P) (g : Graph) : (p.reach g).All P := by
  cases p with
  | everywhere => exact h.elim
  | among r => exact h

end Position

/-! ## Fragments -/

/-- **A fragment narrows** what has been reached. -/
def Fragment.Narrows (f : Fragment) : Prop :=
  ∀ digest g r, ∃ keep, f.apply digest g (.among r) = .among (r.filter keep)

lemma Fragment.IsCondition.narrows {f : Fragment} (h : f.IsCondition) : f.Narrows := by
  obtain ⟨role, filter⟩ := f
  obtain ⟨rfl, hfilter⟩ := h
  intro digest g r
  obtain ⟨keep, hkeep⟩ := Filter.exists_apply_eq_filter digest g hfilter
  exact ⟨keep, hkeep (.among r)⟩

lemma narrows_withKinds (kinds : List Kind) : Fragment.Narrows ⟨.path, .withKinds kinds⟩ :=
  fun _ g _ => ⟨g.keeps (.withKinds kinds), rfl⟩

lemma narrows_withIds (ids : List String) : Fragment.Narrows ⟨.path, .withIds ids⟩ :=
  fun _ g _ => ⟨g.keeps (.withIds ids), rfl⟩

lemma narrows_relationNames (names : List String) :
    Fragment.Narrows ⟨.path, .relationNames names⟩ :=
  fun _ g _ => ⟨g.keeps (.relationNames names), rfl⟩

section Runs

variable {digest : String → String} {g : Graph} {p : Position} {r : Reach} {fs : List Fragment}
  {k : Kind}

namespace Position

/-- **Narrowing fragments keep what is so of all elements.** -/
lemma Among.narrow {P : Element → Prop} (h : p.Among P) (hfs : ∀ f ∈ fs, f.Narrows) :
    ((Query.node fs []).run digest g p).Among P := by
  induction fs generalizing p with
  | nil => exact h
  | cons f fs ih =>
      obtain ⟨hf, hrest⟩ := List.forall_mem_cons.1 hfs
      cases p with
      | everywhere => exact h.elim
      | among r =>
          obtain ⟨keep, hkeep⟩ := hf digest g r
          have hkept : (f.apply digest g (.among r)).Among P := by
            rw [hkeep]
            exact Reach.All.filter h keep
          exact ih hkept hrest

/-- What narrows vertices leads to entities. -/
lemma AtEntities.of_among (hr : r.All Element.IsVertex) (hfs : ∀ f ∈ fs, f.Narrows) :
    ((Query.node fs []).run digest g (.among r)).AtEntities :=
  Among.atEntities (Among.narrow (p := .among r) hr hfs)

/-- From entities, conditions lead to entities, even where nothing has been narrowed before. -/
lemma AtEntities.conditions (h : p.AtEntities) (hfs : ∀ f ∈ fs, f.IsCondition) :
    ((Query.node fs []).run digest g p).AtEntities := by
  cases fs with
  | nil => exact h
  | cons f fs =>
      obtain ⟨hf, htail⟩ := List.forall_mem_cons.1 hfs
      obtain ⟨role, filter⟩ := f
      obtain ⟨rfl, hfilter⟩ := hf
      obtain ⟨keep, hkeep⟩ := Filter.exists_apply_eq_filter digest g hfilter
      show ((Query.node fs []).run digest g (filter.apply digest g .filter p)).AtEntities
      rw [hkeep p]
      exact .of_among ((h.reach g).filter keep) fun f hf => (htail f hf).narrows

/-- From entities, those of a kind of entities are entities. -/
lemma AtEntities.ofKind (h : p.AtEntities) (hk : k ≠ .relationship) (hfs : ∀ f ∈ fs, f.Narrows) :
    ((Query.node (⟨.path, .withKinds [k]⟩ :: fs) []).run digest g p).AtEntities := by
  cases p with
  | everywhere => exact .of_among (Kind.sorts_of_ne hk ▸ g.ofKinds_sorted k) hfs
  | among r => exact .of_among h (List.forall_mem_cons.2 ⟨narrows_withKinds [k], hfs⟩)

/-- The closure of a hop keeps a query at entities. -/
lemma AtEntities.closure (h : p.AtEntities) (relation : RelationRef) (role : Role) :
    (Fragment.apply digest g ⟨.path, .recurse [.relatedBy relation role none]⟩ p).AtEntities := by
  cases p with
  | everywhere => trivial
  | among r => exact Reach.All.close (fun fresh _ => g.hop_vertices relation role fresh) _ h h

/-- It keeps a query at relationships, since it finds nothing more from there. -/
lemma Among.closure (h : p.AtRelationships) (relation : RelationRef) (role : Role) :
    (Fragment.apply digest g
      ⟨.path, .recurse [.relatedBy relation role none]⟩ p).AtRelationships := by
  cases p with
  | everywhere => exact h.elim
  | among r =>
      exact Reach.All.close (fun _ hfresh => Graph.hop_of_edges relation role hfresh) _ h h

end Position

end Runs

end Estate
