import Estate.Proofs.Inventory.Run
import Estate.Proofs.Query.Branching

/-!
# Branches and continuations

What a query with branches means, in every state that requests lead to: a query that is continued
goes on from what it reaches, and several branches reach together what they reach one by one.  The
first holds of all queries that have narrowed to a set of elements; the second fails where a branch
does not narrow at all while another reaches relationships.

* **`Inventory.continuations_compose`** — fragments and branches at the leaves.
* **`Inventory.branches_unite`** — several branches; `Inventory.branches_lose_relationships`.
-/

namespace Estate.Inventory

/-- **To continue a query is to go on from what it reaches**, in every state that requests lead to
and from any set of elements: a fragment is applied there, and of several queries everything counts
that one of them leads to from there. -/
theorem continuations_compose (config : Config) (supply : Supply) (requests : List Request)
    (digest : String → String) :
    ((empty config supply).run requests).Everywhere fun g => ∀ (q : Query) (r : Reach),
      (∀ f : Fragment, (q.append f).run digest g (.among r) =
        f.apply digest g (q.run digest g (.among r))) ∧
      ∀ (b : Query) (bs : List Query), ∃ s,
        (q.branch (b :: bs)).run digest g (.among r) = .among s ∧
          ∀ x, x ∈ s ↔ ∃ c ∈ b :: bs,
            x ∈ (c.run digest g (q.run digest g (.among r))).reach g := by
  intro g hg q r
  obtain ⟨hwf, hsound⟩ := run_empty_consistent config supply requests g hg
  refine ⟨fun f => q.run_appended digest hwf hsound f r, fun b bs => ?_⟩
  rw [Query.run_branched digest hwf hsound (List.cons_ne_nil b bs)]
  obtain ⟨start, hstart⟩ := (Query.run_distributes digest hwf hsound q).narrowed r
  rw [hstart]
  exact Query.runAll_among digest hwf hsound (b :: bs) start

/-- **Several branches are united**, in every state that requests lead to: a query reaches what it
reaches with one of them as its only branch.  Yet as soon as one of these queries does not narrow at
all, only entities are reached, and the relationships that the others reach are not. -/
theorem branches_unite (config : Config) (supply : Supply) (requests : List Request)
    (digest : String → String) :
    ((empty config supply).run requests).Everywhere fun g =>
      ∀ (fragments : List Fragment) (b b' : Query) (bs : List Query) (x : Element),
        x ∈ (Query.node fragments (b :: b' :: bs)).elements digest g ↔
          (∃ c ∈ b :: b' :: bs, x ∈ (Query.node fragments [c]).elements digest g) ∧
            ((∃ c ∈ b :: b' :: bs, (Query.node fragments [c]).idles) → ∀ e, x ≠ .edge e) := by
  intro g hg fragments b b' bs x
  obtain ⟨hwf, hsound⟩ := run_empty_consistent config supply requests g hg
  exact Query.mem_elements_branches digest hwf hsound fragments b b' bs

/-- A tenant with one environment. -/
def loneEnvironment : List Request :=
  [.create none ⟨"acme", none, ∅, .tenant⟩,
    .create (some (.tenant "acme")) ⟨"live", none, ∅, .environment⟩]

/-- **The relationships that one branch reaches are lost** beside a branch that does not narrow: of
a tenant with one environment, neither the query for everything nor the query for the relationships
misses what it asks for, but both as branches miss the one relationship. -/
theorem branches_lose_relationships : ¬ ∀ (config : Config) (supply : Supply)
    (requests : List Request) (digest : String → String),
    ((empty config supply).run requests).Everywhere fun g =>
      ∀ (fragments : List Fragment) (b b' : Query) (bs : List Query) (x : Element),
        x ∈ (Query.node fragments (b :: b' :: bs)).elements digest g ↔
          ∃ c ∈ b :: b' :: bs, x ∈ (Query.node fragments [c]).elements digest g := by
  intro h
  let everything : Query := .ofPath [.noop]
  let relationships : Query := .ofPath [.withKinds [.relationship]]
  have hunited := h .usual .counting loneEnvironment Digest.md5 _ .committed [] everything
    relationships [] (.edge 3)
  let g := ((empty .usual .counting).run loneEnvironment).store.graph
  have hreached : .edge 3 ∈ ((Query.node [] [relationships]).elements Digest.md5 g).toList := by
    decide +kernel
  have hlost : .edge 3 ∉
      ((Query.node [] [everything, relationships]).elements Digest.md5 g).toList := by
    decide +kernel
  exact hlost <| Reach.mem_toList.2 <| hunited.2
    ⟨relationships, List.mem_cons_of_mem _ List.mem_cons_self, Reach.mem_toList.1 hreached⟩

end Estate.Inventory
