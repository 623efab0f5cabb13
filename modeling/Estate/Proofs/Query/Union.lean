import Estate.Proofs.Query.Identity

/-!
# Queries and unions

Once a query stands at a set of elements, it looks at them one by one: where it leads from the
elements of two sets is where it leads from each of the sets.  This is so of all filters in both
roles, of a jump as well, since a jump leads from anywhere to the same place, and of closures, since
a closure gathers what any number of rounds lead to.

* `Reach.Additive` — a step leads from a union where it leads from its parts;
  **`Reach.Additive.close`** — so does its closure.
* `Graph.hop_additive`, `Graph.identicalTo_additive`, … — one lemma for each step.
* `Position.Distributes` — the same for what is done at a position.
* **`Filter.distributes`**, **`Query.run_distributes`** — filters and queries.
* **`Query.run_continued`** — to continue a query at every leaf is to go on from what it reaches.
-/

namespace Estate

namespace Reach

variable {r s t : Reach} {v : VertexId} {e : EdgeId}

/-! ## Unions -/

@[simp] lemma union_self (r : Reach) : r.union r = r :=
  ext_mem fun x => by simp

lemma union_assoc (r s t : Reach) : (r.union s).union t = r.union (s.union t) :=
  ext_mem fun x => by simp only [mem_union, or_assoc]

/-- Two unions are joined part by part. -/
lemma union_union_union_comm (r r' s s' : Reach) :
    (r.union r').union (s.union s') = (r.union s).union (r'.union s') :=
  ext_mem fun x => by simp only [mem_union, or_or_or_comm]

lemma isEmpty_iff : r.isEmpty ↔ r = {} := by
  obtain ⟨vertices, edges⟩ := r
  rw [isEmpty, Bool.and_eq_true, Std.ExtTreeSet.isEmpty_iff, Std.ExtTreeSet.isEmpty_iff, mk.injEq]

/-! ## Steps -/

/-- **A step leads from a union where it leads from its parts.** -/
def Additive (step : Reach → Reach) : Prop :=
  ∀ r s, step (r.union s) = (step r).union (step s)

namespace Additive

variable {step step' : Reach → Reach}

lemma id : Additive fun r => r := fun _ _ => rfl

/-- A jump leads to the same place from wherever one stands. -/
lemma const (t : Reach) : Additive fun _ => t := fun _ _ => (union_self t).symm

lemma comp (h : Additive step) (h' : Additive step') : Additive fun r => step' (step r) :=
  fun r s => (congrArg step' (h r s)).trans (h' (step r) (step s))

lemma union (h : Additive step) (h' : Additive step') :
    Additive fun r => (step r).union (step' r) := fun r s => by
  simp only [h r s, h' r s, union_union_union_comm]

lemma filter (keep : Element → Bool) : Additive fun r => r.filter keep :=
  fun r s => ext_mem fun x => by simp only [mem_filter, mem_union, or_and_right]

/-- One more round from everything that has been found. -/
lemma round (h : Additive step) : Additive fun r => r.union (step r) :=
  id.union h

lemma iterate (h : Additive step) : ∀ n : ℕ, Additive step^[n]
  | 0 => id
  | n + 1 => h.comp (iterate h n)

/-- **A closure gathers what some rounds lead to.**  A round starts only from what is fresh, which
is enough: what the rest leads to has been found before. -/
lemma close_eq_iterate (h : Additive step) : ∀ (n : ℕ) {found fresh : Reach},
    found.union (step found) = found.union (step fresh) → found.union fresh = found →
    (fresh = {} → found.union (step found) = found) →
      Reach.close step n found fresh = (fun r => r.union (step r))^[n] found
  | 0, _, _, _, _, _ => rfl
  | n + 1, found, fresh, hstep, hfresh, hlast => by
      rw [Reach.close]
      split
      · next hempty =>
          exact (Function.iterate_fixed (hlast (isEmpty_iff.1 hempty)) (n + 1)).symm
      · set next := (step fresh).diff found with hnext
        have hround : found.union next = found.union (step found) := by
          refine hstep.symm ▸ ext_mem fun x => ?_
          simp only [hnext, mem_union, mem_diff]
          tauto
        rw [Function.iterate_succ_apply, ← hround]
        refine close_eq_iterate h n ?_ ?_ ?_
        · -- What the old ones lead to is in the union already.
          calc (found.union next).union (step (found.union next))
            _ = ((found.union next).union (step found)).union (step next) := by
                rw [h found next, union_assoc (found.union next)]
            _ = (found.union next).union (step next) := by
                rw [hround, union_assoc found, union_self]
        · rw [union_assoc, union_self]
        · intro hnothing
          rw [hnothing, union_empty] at hround ⊢
          exact hround.symm

/-- **The closure of a step leads from a union where it leads from its parts.**  From nothing a
closure leads to nothing, even if the step would jump somewhere. -/
lemma close (h : Additive step) (n : ℕ) : Additive fun r => Reach.close step n r r := by
  have hclose : ∀ r : Reach, r ≠ {} →
      Reach.close step n r r = (fun r => r.union (step r))^[n] r := fun r hr =>
    close_eq_iterate h n rfl (union_self r) fun hempty => absurd hempty hr
  have hnothing : Reach.close step n {} {} = {} := by
    cases n <;> rfl
  intro r s
  by_cases hr : r = {}
  · simp only [hr, empty_union, hnothing]
  · by_cases hs : s = {}
    · simp only [hs, union_empty, hnothing]
    · have hrs : r.union s ≠ {} := fun hempty => hr <| ext_mem fun x =>
        iff_of_false (fun hx => not_mem_empty (hempty ▸ mem_union.2 (.inl hx))) not_mem_empty
      simp only [hclose r hr, hclose s hs, hclose _ hrs]
      exact h.round.iterate n r s

end Additive

end Reach

namespace Graph

variable {g : Graph}

/-! ## The steps of a graph -/

lemma hop_additive (g : Graph) (relation : RelationRef) (role : Role) :
    Reach.Additive (g.hop relation role) := fun r s => Reach.ext_mem fun x => by
  simp only [hop, Reach.mem_union, Reach.mem_ofVertices, List.mem_flatMap,
    Std.ExtTreeSet.mem_toList, Reach.mem_vertices_union, or_and_right, exists_or]

lemma relatedTo_additive (g : Graph) (relation : RelationRef) (role : Role)
    (other : CanonicalPath) : Reach.Additive (g.relatedTo relation role other) := by
  intro r s
  cases hother : g.locate? other with
  | none => simp only [relatedTo, hother, Reach.union_self]
  | some target =>
      refine Reach.ext_mem fun x => ?_
      cases x with
      | vertex v => simp [relatedTo, hother, or_and_right]
      | edge e => simp [relatedTo, hother]

lemma toRelationships_additive (g : Graph) (direction : Direction) :
    Reach.Additive (g.toRelationships direction) := fun r s => Reach.ext_mem fun x => by
  simp only [toRelationships, Reach.mem_union, Reach.mem_ofEdges, List.mem_flatMap,
    Std.ExtTreeSet.mem_toList, Reach.mem_vertices_union, or_and_right, exists_or]

lemma toEntities_additive (g : Graph) (direction : Direction) :
    Reach.Additive (g.toEntities direction) := fun r s => Reach.ext_mem fun x => by
  simp only [toEntities, Reach.mem_union, Reach.mem_ofVertices, List.mem_flatMap,
    List.mem_filterMap, Std.ExtTreeSet.mem_toList, Reach.mem_edges_union, or_and_right, exists_or]

/-- Twins are looked up for one entity at a time. -/
lemma identicalTo_additive (digest : String → String) (hwf : g.WellFormed)
    (h : g.contents.Sound) : Reach.Additive (g.identicalTo digest) := fun r s =>
  Reach.ext_mem fun x => by
    simp only [Reach.mem_union, mem_identicalTo hwf h, Reach.mem_vertices_union, or_and_right,
      exists_or]

end Graph

/-! ## Filters and queries -/

/-- **What is done at a position respects unions**: from elements it leads to elements, and from a
union where it leads from the parts. -/
def Position.Distributes (step : Position → Position) : Prop :=
  ∃ f : Reach → Reach, Reach.Additive f ∧ ∀ r, step (.among r) = .among (f r)

namespace Position.Distributes

variable {step step' : Position → Position}

lemma narrowed (h : Distributes step) (r : Reach) : ∃ s, step (.among r) = .among s := by
  obtain ⟨f, -, hstep⟩ := h
  exact ⟨f r, hstep r⟩

lemma among_union (h : Distributes step) (r s : Reach) :
    step (.among (r.union s)) = (step (.among r)).union (step (.among s)) := by
  obtain ⟨f, hf, hstep⟩ := h
  simp only [hstep, hf r s, Position.union]

lemma id : Distributes fun p => p :=
  ⟨_, .id, fun _ => rfl⟩

lemma comp (h : Distributes step) (h' : Distributes step') :
    Distributes fun p => step' (step p) := by
  obtain ⟨f, hf, hstep⟩ := h
  obtain ⟨f', hf', hstep'⟩ := h'
  exact ⟨_, hf.comp hf', fun r => by simp only [hstep, hstep']⟩

lemma union (h : Distributes step) (h' : Distributes step') :
    Distributes fun p => (step p).union (step' p) := by
  obtain ⟨f, hf, hstep⟩ := h
  obtain ⟨f', hf', hstep'⟩ := h'
  exact ⟨_, hf.union hf', fun r => by simp only [hstep, hstep', Position.union]⟩

end Position.Distributes

mutual

/-- Whether a filter looks up no twins, in no chain either. -/
def Filter.isTwinless : Filter → Bool
  | .identical => false
  | .recurse chain => areTwinless chain
  | _ => true

/-- Whether a chain of filters looks up no twins. -/
def areTwinless : List Filter → Bool
  | [] => true
  | f :: fs => f.isTwinless && areTwinless fs

end

section Evaluation

variable {digest : String → String} {g : Graph}

mutual

/-- **A filter respects unions**, in both roles, if it looks up no twins or twins are looked up one
by one. -/
theorem Filter.distributes : ∀ (role : FragmentRole) (f : Filter),
    (f.isTwinless = false → Reach.Additive (g.identicalTo digest)) →
      Position.Distributes (f.apply digest g role)
  | _, .relatedBy relation role none, _ => ⟨_, g.hop_additive relation role, fun _ => rfl⟩
  | _, .relatedBy relation role (some other), _ =>
      ⟨_, g.relatedTo_additive relation role other, fun _ => rfl⟩
  | _, .toRelationships direction, _ => ⟨_, g.toRelationships_additive direction, fun _ => rfl⟩
  | _, .toEntities direction, _ => ⟨_, g.toEntities_additive direction, fun _ => rfl⟩
  | _, .identical, htwins => ⟨_, htwins rfl, fun _ => rfl⟩
  | _, .noop, _ => .id
  | role, .recurse chain, htwins => by
      obtain ⟨f, hf, hchain⟩ := chain_distributes role chain htwins
      have hstep : (fun r => (applyChain digest g role chain (.among r)).reach g) = f :=
        funext fun r => by rw [hchain, Position.reach]
      refine ⟨_, hf.close (g.vertices.size + g.edges.size + 1), fun r => ?_⟩
      rw [Filter.apply, hstep]
  | .path, .withPaths paths, _ => ⟨_, .const (g.atPaths paths), fun _ => rfl⟩
  | .filter, .withPaths paths, _ => ⟨_, .filter (g.keeps (.withPaths paths)), fun _ => rfl⟩
  | .path, .withKinds kinds, _ | .filter, .withKinds kinds, _ =>
      ⟨_, .filter (g.keeps (.withKinds kinds)), fun _ => rfl⟩
  | .path, .withIds ids, _ | .filter, .withIds ids, _ =>
      ⟨_, .filter (g.keeps (.withIds ids)), fun _ => rfl⟩
  | _, .withProperty name values, _ =>
      ⟨_, .filter (g.keeps (.withProperty name values)), fun _ => rfl⟩
  | _, .definedBy type, _ => ⟨_, .filter (g.keeps (.definedBy type)), fun _ => rfl⟩
  | _, .relationIds ids, _ => ⟨_, .filter (g.keeps (.relationIds ids)), fun _ => rfl⟩
  | _, .relationNames names, _ => ⟨_, .filter (g.keeps (.relationNames names)), fun _ => rfl⟩
  | _, .relationProperty name values, _ =>
      ⟨_, .filter (g.keeps (.relationProperty name values)), fun _ => rfl⟩
  | _, .relationSources kinds, _ => ⟨_, .filter (g.keeps (.relationSources kinds)), fun _ => rfl⟩
  | _, .relationTargets kinds, _ => ⟨_, .filter (g.keeps (.relationTargets kinds)), fun _ => rfl⟩

/-- So does a chain of filters. -/
theorem chain_distributes (role : FragmentRole) : ∀ fs : List Filter,
    (areTwinless fs = false → Reach.Additive (g.identicalTo digest)) →
      Position.Distributes (applyChain digest g role fs)
  | [], _ => .id
  | f :: fs, htwins =>
      (Filter.distributes role f fun hf => htwins (by rw [areTwinless, hf, Bool.false_and])).comp
        (chain_distributes role fs fun hfs => htwins (by rw [areTwinless, hfs, Bool.and_false]))

end

/-- **A filter respects unions** where everything is consistent. -/
theorem Filter.apply_distributes (digest : String → String) (hwf : g.WellFormed)
    (h : g.contents.Sound) (role : FragmentRole) (f : Filter) :
    Position.Distributes (f.apply digest g role) :=
  f.distributes role fun _ => Graph.identicalTo_additive digest hwf h

namespace Query

variable {p : Position} {r : Reach} {qs : List Query}

/-- So do fragments one after the other. -/
lemma fragments_distributes (digest : String → String) (hwf : g.WellFormed)
    (h : g.contents.Sound) : ∀ fragments : List Fragment,
      Position.Distributes fun p => fragments.foldl (fun p f => f.apply digest g p) p
  | [] => .id
  | f :: fs => (f.filter.apply_distributes digest hwf h f.role).comp
      (fragments_distributes digest hwf h fs)

mutual

/-- **A query respects unions.** -/
theorem run_distributes (digest : String → String) (hwf : g.WellFormed) (h : g.contents.Sound) :
    ∀ q : Query, Position.Distributes (q.run digest g)
  | node fragments [] => fragments_distributes digest hwf h fragments
  | node fragments [only] =>
      (fragments_distributes digest hwf h fragments).comp (run_distributes digest hwf h only)
  | node fragments (b :: b' :: bs) =>
      (fragments_distributes digest hwf h fragments).comp
        (runAll_distributes digest hwf h (b :: b' :: bs))

/-- So do several. -/
theorem runAll_distributes (digest : String → String) (hwf : g.WellFormed)
    (h : g.contents.Sound) : ∀ qs : List Query, Position.Distributes (runAll digest g qs)
  | [] => ⟨_, .const {}, fun _ => rfl⟩
  | q :: qs => (run_distributes digest hwf h q).union (runAll_distributes digest hwf h qs)

end

/-! ## Continuing a query -/

/-- One query taken alone. -/
lemma runAll_singleton (digest : String → String) (hwf : g.WellFormed) (h : g.contents.Sound)
    (q : Query) (r : Reach) : runAll digest g [q] (.among r) = q.run digest g (.among r) := by
  obtain ⟨s, hs⟩ := (run_distributes digest hwf h q).narrowed r
  rw [runAll, runAll, hs, Position.union, Reach.union_empty]

/-- What several queries lead to from elements is what one of them leads to. -/
lemma runAll_among (digest : String → String) (hwf : g.WellFormed) (h : g.contents.Sound)
    (qs : List Query) (r : Reach) : ∃ s, runAll digest g qs (.among r) = .among s ∧
      ∀ x, x ∈ s ↔ ∃ q ∈ qs, x ∈ (q.run digest g (.among r)).reach g := by
  induction qs with
  | nil => exact ⟨{}, rfl, by simp⟩
  | cons q qs ih =>
      obtain ⟨s, hs, hmem⟩ := ih
      obtain ⟨t, ht⟩ := (run_distributes digest hwf h q).narrowed r
      refine ⟨t.union s, by rw [runAll, ht, hs, Position.union], fun x => ?_⟩
      rw [Reach.mem_union, hmem x, List.exists_mem_cons_iff, ht, Position.reach]

/-- The branches of a node, be it one, go on from what its fragments reach. -/
lemma run_node (digest : String → String) (hwf : g.WellFormed) (h : g.contents.Sound)
    (fragments : List Fragment) (hqs : qs ≠ []) (r : Reach) :
    (node fragments qs).run digest g (.among r) =
      runAll digest g qs ((node fragments []).run digest g (.among r)) := by
  match qs, hqs with
  | [q], _ =>
      obtain ⟨s, hs⟩ := (fragments_distributes digest hwf h fragments).narrowed r
      rw [run, run, hs, runAll_singleton digest hwf h]
  | q :: q' :: qs, _ => rfl

section Continued

variable {continued : Query → Query} {step : Position → Position}

mutual

/-- **To continue a query at every leaf is to go on from what it reaches**, if what is done there
respects unions: the leaves are continued one by one, and what they reach is joined afterwards. -/
theorem run_continued (digest : String → String) (hwf : g.WellFormed) (h : g.contents.Sound)
    (hstep : Position.Distributes step)
    (leaf : ∀ fragments r, (continued (node fragments [])).run digest g (.among r) =
      step ((node fragments []).run digest g (.among r)))
    (inner : ∀ fragments b bs, continued (node fragments (b :: bs)) =
      node fragments ((b :: bs).map continued)) :
    ∀ (q : Query) (r : Reach), (continued q).run digest g (.among r) =
      step (q.run digest g (.among r))
  | node fragments [], r => leaf fragments r
  | node fragments (b :: bs), r => by
      obtain ⟨s, hs⟩ := (run_distributes digest hwf h (node fragments [])).narrowed r
      have hcontinued : (b :: bs).map continued ≠ [] := by simp
      rw [inner, run_node digest hwf h fragments hcontinued,
        run_node digest hwf h fragments (List.cons_ne_nil b bs), hs]
      exact runAll_continued digest hwf h hstep leaf inner (b :: bs) (List.cons_ne_nil b bs) s

/-- So it is for several queries. -/
theorem runAll_continued (digest : String → String) (hwf : g.WellFormed) (h : g.contents.Sound)
    (hstep : Position.Distributes step)
    (leaf : ∀ fragments r, (continued (node fragments [])).run digest g (.among r) =
      step ((node fragments []).run digest g (.among r)))
    (inner : ∀ fragments b bs, continued (node fragments (b :: bs)) =
      node fragments ((b :: bs).map continued)) :
    ∀ qs : List Query, qs ≠ [] → ∀ r : Reach,
      runAll digest g (qs.map continued) (.among r) = step (runAll digest g qs (.among r))
  | [], hqs, _ => absurd rfl hqs
  | [q], _, r => by
      rw [List.map_singleton, runAll_singleton digest hwf h, runAll_singleton digest hwf h]
      exact run_continued digest hwf h hstep leaf inner q r
  | q :: q' :: qs, _, r => by
      obtain ⟨s, hs⟩ := (run_distributes digest hwf h q).narrowed r
      obtain ⟨t, ht⟩ := (runAll_distributes digest hwf h (q' :: qs)).narrowed r
      rw [List.map_cons, runAll, runAll,
        run_continued digest hwf h hstep leaf inner q r,
        runAll_continued digest hwf h hstep leaf inner (q' :: qs) (List.cons_ne_nil q' qs) r,
        hs, ht, Position.union, hstep.among_union]

end

end Continued

lemma appendAll_eq_map (f : Fragment) : ∀ qs : List Query, appendAll f qs = qs.map (append f)
  | [] => rfl
  | q :: qs => by rw [appendAll, appendAll_eq_map f qs, List.map_cons]

lemma branchAllLeaves_eq_map (continuations : List Query) :
    ∀ qs : List Query, branchAllLeaves continuations qs = qs.map (branchLeaves continuations)
  | [] => rfl
  | q :: qs => by rw [branchAllLeaves, branchAllLeaves_eq_map continuations qs, List.map_cons]

/-- **A fragment that is added at every leaf** is applied to what the query reaches. -/
theorem run_appended (digest : String → String) (hwf : g.WellFormed) (h : g.contents.Sound)
    (f : Fragment) (q : Query) (r : Reach) :
    (q.append f).run digest g (.among r) = f.apply digest g (q.run digest g (.among r)) := by
  refine run_continued digest hwf h (f.filter.apply_distributes digest hwf h f.role)
    (fun fragments r => ?_) (fun fragments b bs => ?_) q r
  · rw [append, run_append, run, List.foldl_cons, List.foldl_nil]
    rfl
  · rw [append, appendAll_eq_map]

/-- **Queries that are put at every leaf** go on, each for itself, from what the query reaches. -/
theorem run_branched (digest : String → String) (hwf : g.WellFormed) (h : g.contents.Sound)
    (hqs : qs ≠ []) (q : Query) (r : Reach) :
    (q.branch qs).run digest g (.among r) = runAll digest g qs (q.run digest g (.among r)) := by
  refine run_continued digest hwf h (runAll_distributes digest hwf h qs)
    (fun fragments r => ?_) (fun fragments b bs => ?_) q r
  · rw [branch, branchLeaves, run_node digest hwf h fragments hqs]
  · rw [branch, branchLeaves, branchAllLeaves_eq_map]
    rfl

end Query

end Evaluation

end Estate
