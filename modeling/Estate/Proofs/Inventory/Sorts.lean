import Estate.Proofs.Inventory.Run
import Estate.Proofs.Inventory.Selection
import Estate.Proofs.Traversal.Sorts

/-!
# What traversals reach in an inventory

A traversal is refused if it goes on behind relationships without selecting entities first.  All
others reach entities only, or relationships only, in every state that requests lead to.

* `Graph.provides_of_vertices`, `Graph.provides_of_edges` — what is reached of one sort is stored
  and can be read as such.
* **`Inventory.traversals_sorted`** — a traversal does not mix entities and relationships.
-/

namespace Estate

namespace Graph

variable {g : Graph} {r : Reach}

/-- Stored vertices are entities. -/
lemma provides_of_vertices (h : g.contents.Addressed) (hr : r.Within g)
    (hsorted : r.All Element.IsVertex) :
    r.All fun x => ∃ kind, g.contents.Provides (.entities kind) x := by
  intro x hx
  cases x with
  | edge e => exact (hsorted _ hx).elim
  | vertex v =>
      obtain ⟨row, hrow⟩ := Option.isSome_iff_exists.1 (hr _ hx)
      obtain ⟨p, hp⟩ := h.entity hrow
      exact ⟨p.kind, .entity hp⟩

/-- Stored edges are relationships. -/
lemma provides_of_edges (hr : r.Within g) (hsorted : r.All Element.IsEdge) :
    r.All (g.contents.Provides .relationships) := by
  intro x hx
  cases x with
  | vertex v => exact (hsorted _ hx).elim
  | edge e =>
      obtain ⟨edge, hedge⟩ := Option.isSome_iff_exists.1 (hr _ hx)
      exact .relationship hedge

end Graph

namespace Inventory

/-- **A traversal does not mix entities and relationships.**  It is refused if any step follows one
that ends at relationships.  Otherwise its query has no branches, and in every state that requests
lead to it reaches entities only, or relationships only; these only if its last step ends at
relationships, or if it starts at some, by the path that it starts from or by the type of its first
step. -/
theorem traversals_sorted (config : Config) (supply : Supply) (requests : List Request)
    (digest : String → String) {text : String} {t : Traversal}
    (hread : Traversal.parse text = .ok t) (origin : Option CanonicalPath) :
    (∀ before s next after, t.steps = before ++ s :: next :: after →
        s.value.endsAtRelationships → ∃ e, Query.compile text origin = .error e) ∧
      ∀ q, Query.compile text origin = .ok q → q.branches = [] ∧
        ((empty config supply).run requests).Everywhere fun g =>
          ((q.elements digest g).All fun x => ∃ kind, g.contents.Provides (.entities kind) x) ∨
            (q.elements digest g).All (g.contents.Provides .relationships) ∧
              (t.StartsAtRelationships origin ∨
                ∃ s ∈ t.steps.getLast?, s.value.endsAtRelationships) := by
  have hcompile : Query.compile text origin = t.compile origin := by
    rw [Query.compile, hread]
    rfl
  rw [hcompile]
  refine ⟨fun before s next after hsteps hends => ?_, fun q hq => ?_⟩
  · cases hresult : t.compile origin with
    | error e => exact ⟨e, rfl⟩
    | ok q => exact (Traversal.not_compiled hsteps hends q hresult).elim
  · obtain ⟨hbranches, hsorted⟩ := Traversal.compile_sorted (Traversal.wellShaped_of_parse hread) hq
    refine ⟨hbranches, fun g hg => ?_⟩
    obtain ⟨hwf, hsound⟩ := run_empty_consistent config supply requests g hg
    have hwithin := q.elements_within hwf digest
    rcases hsorted digest g with hentities | ⟨hrelationships, hwhy⟩
    · exact .inl (Graph.provides_of_vertices hsound.toAddressed hwithin (hentities.reach g))
    · exact .inr ⟨Graph.provides_of_edges hwithin (hrelationships.reach g), hwhy⟩

/-- A tenant with an environment. -/
def settledTenant : List Request :=
  [.create none ⟨"acme", none, ∅, .tenant⟩,
    .create (some (.tenant "acme")) ⟨"live", none, ∅, .environment⟩]

/-- From the tenant there is one relationship, the containment of the environment, and so nothing
but relationships is reached; behind them, even if they are selected, nothing else may follow. -/
theorem settledTenant_sorted :
    let g := ((empty .usual .counting).run settledTenant).store.graph
    let origin := some (CanonicalPath.tenant "acme")
    let contains : RelationshipStep := ⟨some "contains", .outgoing, [], none⟩
    let all : RelationshipStep := ⟨none, .outgoing, [], some ⟨⟨3, 16⟩, .relationships []⟩⟩
    let q : Query := .node [⟨.path, .withPaths [.tenant "acme"]⟩,
      ⟨.path, .toRelationships .outgoing⟩, ⟨.path, .relationNames ["contains"]⟩] []
    Traversal.parse "rl;contains" = .ok ⟨false, [⟨⟨0, 11⟩, .relationships contains⟩]⟩ ∧
      Query.compile "rl;contains" origin = .ok q ∧
      .edge 3 ∈ q.elements Digest.md5 g ∧
      (q.elements Digest.md5 g).All (g.contents.Provides .relationships) ∧
      Traversal.parse "rl/relationships/identical" =
        .ok ⟨false, [⟨⟨0, 16⟩, .relationships all⟩, ⟨⟨17, 26⟩, .identical⟩]⟩ ∧
      ∃ e, Query.compile "rl/relationships/identical" origin = .error e := by
  intro g origin contains all q
  have hread : Traversal.parse "rl;contains" =
      .ok ⟨false, [⟨⟨0, 11⟩, .relationships contains⟩]⟩ := by
    decide +kernel
  have hmisplaced : Traversal.parse "rl/relationships/identical" =
      .ok ⟨false, [⟨⟨0, 16⟩, .relationships all⟩, ⟨⟨17, 26⟩, .identical⟩]⟩ := by
    decide +kernel
  have hcompiled : Query.compile "rl;contains" origin = .ok q := by
    rw [Query.compile, hread]
    rfl
  have hreached : .edge 3 ∈ (q.elements Digest.md5 g).toList := by
    decide +kernel
  rw [Reach.mem_toList] at hreached
  obtain ⟨-, hsorted⟩ := (traversals_sorted .usual .counting settledTenant Digest.md5 hread
    origin).2 q hcompiled
  have hrelationships : (q.elements Digest.md5 g).All (g.contents.Provides .relationships) := by
    rcases hsorted g .committed with hentities | ⟨hrelationships, -⟩
    · obtain ⟨kind, hkind⟩ := hentities _ hreached
      cases hkind
    · exact hrelationships
  have hrefused := (traversals_sorted .usual .counting settledTenant Digest.md5 hmisplaced
    origin).1 [] _ _ [] rfl rfl
  exact ⟨hread, hcompiled, hreached, hrelationships, hmisplaced, hrefused⟩

end Inventory

end Estate
