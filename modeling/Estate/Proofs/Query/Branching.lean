import Estate.Proofs.Query.Union

/-!
# Branches that stay everywhere

A query that nothing has narrowed stands everywhere, and that is at all vertices but at no edge.
Two positions are joined to everywhere as soon as one of them is everywhere; so the edges that other
branches reach are lost beside a branch that does not narrow.  Apart from that, branching is union.

* `Position.mem_reach_union`, `Query.mem_runAll` — what positions, and queries, reach together.
* `Filter.idles`, `Query.idles` — what narrows nothing; **`Query.run_eq_everywhere_iff`** — that is
  what leaves a query everywhere.
* **`Query.mem_elements_branches`** — what a query with several branches reaches.
-/

namespace Estate

variable {digest : String → String} {g : Graph}

/-! ## Positions taken together -/

namespace Position

variable {p q : Position}

lemma union_eq_everywhere_iff : p.union q = everywhere ↔ p = everywhere ∨ q = everywhere := by
  cases p <;> cases q <;> simp [union]

/-- Everywhere there is every vertex, and no edge. -/
lemma Within.mem_everywhere (hp : p.Within g) {x : Element} (hx : x ∈ p.reach g) :
    x ∈ everywhere.reach g ↔ ∀ e, x ≠ .edge e := by
  rw [reach, Reach.mem_ofVertices]
  cases x with
  | vertex v =>
      refine iff_of_true ⟨v, ?_, rfl⟩ nofun
      rw [Std.ExtTreeMap.mem_keys, Graph.mem_vertices_iff]
      exact hp _ hx
  | edge e => exact iff_of_false nofun fun h => h e rfl

/-- **What two positions reach together** is what one of them reaches, but no edge if one of them is
everywhere. -/
lemma mem_reach_union (hp : p.Within g) (hq : q.Within g) {x : Element} :
    x ∈ (p.union q).reach g ↔
      (x ∈ p.reach g ∨ x ∈ q.reach g) ∧ (p = everywhere ∨ q = everywhere → ∀ e, x ≠ .edge e) := by
  by_cases heverywhere : p = everywhere ∨ q = everywhere
  · rw [union_eq_everywhere_iff.2 heverywhere, forall_prop_of_true heverywhere]
    refine ⟨fun hx => ⟨?_, (everywhere_within.mem_everywhere hx).1 hx⟩, fun ⟨hx, hvertex⟩ => ?_⟩
    · rcases heverywhere with rfl | rfl
      · exact .inl hx
      · exact .inr hx
    · rcases hx with hx | hx
      · exact (hp.mem_everywhere hx).2 hvertex
      · exact (hq.mem_everywhere hx).2 hvertex
  · cases p with
    | everywhere => exact absurd (.inl rfl) heverywhere
    | among r =>
        cases q with
        | everywhere => exact absurd (.inr rfl) heverywhere
        | among s =>
            rw [union, reach, Reach.mem_union, and_iff_left fun h => absurd h heverywhere]
            rfl

end Position

/-! ## What narrows nothing -/

/-- Whether a filter leaves a query everywhere. -/
def Filter.idles : Filter → Bool
  | noop | recurse _ => true
  | _ => false

namespace Query

mutual

/-- Whether a query narrows nothing: no fragment does, and one of the branches, if there are any,
does not either. -/
def idles : Query → Bool
  | node fragments [] => fragments.all (·.filter.idles)
  | node fragments (b :: bs) => fragments.all (·.filter.idles) && anyIdles (b :: bs)

/-- Whether one of some queries narrows nothing. -/
def anyIdles : List Query → Bool
  | [] => false
  | q :: qs => q.idles || anyIdles qs

end

end Query

namespace Filter

/-- **A filter leaves a query everywhere just if it idles.** -/
lemma apply_eq_everywhere_iff (role : FragmentRole) (f : Filter) :
    f.apply digest g role .everywhere = .everywhere ↔ f.idles := by
  cases f with
  | noop | recurse => exact iff_of_true rfl rfl
  | relatedBy relation role' other =>
      cases other <;> exact iff_of_false nofun nofun
  | withPaths | withKinds | withIds =>
      cases role <;> exact iff_of_false nofun nofun
  | _ => exact iff_of_false nofun nofun

end Filter

/-! ## What leaves a query everywhere -/

/-- Nothing leads back from elements to everywhere. -/
lemma Position.Distributes.eq_everywhere_iff {step : Position → Position} (h : Distributes step)
    {p : Position} : step p = .everywhere ↔ p = .everywhere ∧ step .everywhere = .everywhere := by
  cases p with
  | everywhere => exact (and_iff_right rfl).symm
  | among r =>
      obtain ⟨s, hs⟩ := h.narrowed r
      rw [hs]
      exact iff_of_false nofun nofun

namespace Query

/-- Several queries are everywhere together just if one of them is. -/
lemma runAll_eq_everywhere_iff {qs : List Query} {p : Position} :
    runAll digest g qs p = .everywhere ↔ ∃ q ∈ qs, q.run digest g p = .everywhere := by
  induction qs with
  | nil => simp [runAll]
  | cons q qs ih => rw [runAll, Position.union_eq_everywhere_iff, ih, List.exists_mem_cons_iff]

/-- **What several queries reach** is what one of them reaches, but no edge if one of them is
everywhere. -/
lemma mem_runAll (hwf : g.WellFormed) {qs : List Query} {p : Position} (hp : p.Within g)
    {x : Element} :
    x ∈ (runAll digest g qs p).reach g ↔ (∃ q ∈ qs, x ∈ (q.run digest g p).reach g) ∧
      ((∃ q ∈ qs, q.run digest g p = .everywhere) → ∀ e, x ≠ .edge e) := by
  induction qs with
  | nil => simp [runAll, Position.reach]
  | cons q qs ih =>
      rw [runAll, Position.mem_reach_union (run_within hwf q hp) (runAll_within hwf qs hp), ih,
        runAll_eq_everywhere_iff, List.exists_mem_cons_iff, List.exists_mem_cons_iff]
      exact and_congr_left fun hvertex =>
        or_congr_right (and_iff_left fun heverywhere => hvertex (.inr heverywhere))

lemma fragments_eq_everywhere_iff (digest : String → String) (hwf : g.WellFormed)
    (h : g.contents.Sound) : ∀ fragments : List Fragment,
    fragments.foldl (fun p f => f.apply digest g p) .everywhere = .everywhere ↔
      fragments.all (·.filter.idles)
  | [] => iff_of_true rfl rfl
  | f :: fs => by
      rw [List.foldl_cons, (fragments_distributes digest hwf h fs).eq_everywhere_iff,
        fragments_eq_everywhere_iff digest hwf h fs, List.all_cons, Bool.and_eq_true,
        Fragment.apply, Filter.apply_eq_everywhere_iff]

mutual

/-- **A query stays everywhere just if it idles.** -/
theorem run_eq_everywhere_iff (digest : String → String) (hwf : g.WellFormed)
    (h : g.contents.Sound) : ∀ q : Query, q.run digest g .everywhere = .everywhere ↔ q.idles
  | node fragments [] => by
      rw [run, idles, fragments_eq_everywhere_iff digest hwf h]
  | node fragments [only] => by
      rw [run, (run_distributes digest hwf h only).eq_everywhere_iff,
        fragments_eq_everywhere_iff digest hwf h, run_eq_everywhere_iff digest hwf h only, idles,
        anyIdles, anyIdles, Bool.or_false, Bool.and_eq_true]
  | node fragments (b :: b' :: bs) => by
      show runAll digest g (b :: b' :: bs) _ = .everywhere ↔ _
      rw [(runAll_distributes digest hwf h (b :: b' :: bs)).eq_everywhere_iff,
        fragments_eq_everywhere_iff digest hwf h,
        runAll_eq_everywhere_iff_anyIdles digest hwf h (b :: b' :: bs), idles, Bool.and_eq_true]

/-- So it is for several queries. -/
theorem runAll_eq_everywhere_iff_anyIdles (digest : String → String) (hwf : g.WellFormed)
    (h : g.contents.Sound) : ∀ qs : List Query,
      runAll digest g qs .everywhere = .everywhere ↔ anyIdles qs
  | [] => iff_of_false nofun nofun
  | q :: qs => by
      rw [runAll, Position.union_eq_everywhere_iff, run_eq_everywhere_iff digest hwf h q,
        runAll_eq_everywhere_iff_anyIdles digest hwf h qs, anyIdles, Bool.or_eq_true]

end

/-- **What a query with several branches reaches** is what the query reaches with one of them as its
only branch, but no relationships if one of these queries idles. -/
theorem mem_elements_branches (digest : String → String) (hwf : g.WellFormed)
    (h : g.contents.Sound) (fragments : List Fragment) (b b' : Query) (bs : List Query)
    {x : Element} :
    x ∈ (node fragments (b :: b' :: bs)).elements digest g ↔
      (∃ c ∈ b :: b' :: bs, x ∈ (node fragments [c]).elements digest g) ∧
        ((∃ c ∈ b :: b' :: bs, (node fragments [c]).idles) → ∀ e, x ≠ .edge e) := by
  have hp : (fragments.foldl (fun p f => Fragment.apply digest g f p) .everywhere).Within g :=
    fragments_within hwf fragments Position.everywhere_within
  simp only [← run_eq_everywhere_iff digest hwf h, elements, run]
  exact mem_runAll hwf hp

end Query

end Estate
