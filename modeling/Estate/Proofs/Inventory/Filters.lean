import Estate.Proofs.Inventory.Run
import Estate.Proofs.Query.Hops
import Estate.Proofs.Query.Roles

/-!
# Filters in an inventory

What filters mean does not depend on how they are carried out.  In every state that requests lead
to, a filter finds the same in both of its roles, paths apart; and the conditions that look for
relationships keep the entities from which a hop leads to the entity they ask for.

* **`Inventory.roles_agree`** — the two roles of a filter.
* **`Inventory.related_iff_hop`** — conditions on relationships and hops.
-/

namespace Estate.Inventory

/-- **Only what is looked up depends on the role of a filter**, in every state that requests lead
to.  From everywhere both roles reach the same entities, and from elements a filter that names no
paths does the same in both. -/
theorem roles_agree (config : Config) (supply : Supply) (requests : List Request)
    (digest : String → String) :
    ((empty config supply).run requests).Everywhere fun g => ∀ f : Filter,
      ((Query.node [⟨.path, f⟩] []).elements digest g).vertices =
          ((Query.node [⟨.filter, f⟩] []).elements digest g).vertices ∧
        (f.isJumpless → ∀ r : Reach,
          f.apply digest g .path (.among r) = f.apply digest g .filter (.among r)) := by
  intro g hg f
  obtain ⟨hwf, hsound⟩ := run_empty_consistent config supply requests g hg
  exact ⟨f.vertices_apply_everywhere digest hwf hsound.toAddressed,
    f.apply_among_path digest hwf hsound⟩

/-- A tenant with a type of hosts and an environment in which there is a host. -/
def loneHost : List Request :=
  [.create none ⟨"works", none, ∅, .tenant⟩,
    .create (some (.tenant "works")) ⟨"host", none, ∅, .resourceType []⟩,
    .create (some (.tenant "works")) ⟨"floor", none, ∅, .environment⟩,
    .create (some ⟨[⟨.tenant, "works"⟩, ⟨.environment, "floor"⟩], by decide⟩)
      ⟨"web", none, ∅, .resource "/t;works/rt;host"⟩]

/-- In the role of a path the host is looked up by its kind, and so are the relationships; in the
role of a filter the host is found by a search.  From the environment, the way down to the host and
back to its type is the same in both. -/
theorem loneHost_roles :
    let g := ((empty .usual .counting).run loneHost).store.graph
    let kinds := Filter.withKinds [.resource, .relationship]
    let way := Filter.recurse [.children, .recurse [.relatedBy (.name "defines") .target none]]
    ((Query.node [⟨.path, kinds⟩] []).elements Digest.md5 g).toList =
        [.vertex 6, .edge 3, .edge 5, .edge 7, .edge 8] ∧
      ((Query.node [⟨.path, kinds⟩] []).elements Digest.md5 g).vertices =
        ((Query.node [⟨.filter, kinds⟩] []).elements Digest.md5 g).vertices ∧
      way.isJumpless ∧
      ((way.apply Digest.md5 g .path (.among (.ofVertices [4]))).reach g).toList =
        [.vertex 2, .vertex 4, .vertex 6] ∧
      way.apply Digest.md5 g .path (.among (.ofVertices [4])) =
        way.apply Digest.md5 g .filter (.among (.ofVertices [4])) := by
  intro g kinds way
  have hagree := roles_agree .usual .counting loneHost Digest.md5 g .committed
  exact ⟨by decide +kernel, (hagree kinds).1, rfl, by decide +kernel, (hagree way).2 rfl _⟩

/-- **To be related to an entity is to reach it by a hop**, in every state that requests lead to.
Of what has been reached, the condition with a path at the other end keeps the entities from which
the hop without it leads to the entity there; it keeps no relationships, and nothing at all if no
entity is there.  Entities that a type defines are those that are related to it against
`defines`. -/
theorem related_iff_hop (config : Config) (supply : Supply) (requests : List Request)
    (digest : String → String) :
    ((empty config supply).run requests).Everywhere fun g => ∀ (reading : FragmentRole)
      (p : Position) (relation : RelationRef) (role : Role) (q : CanonicalPath), ∃ s,
        (Filter.relatedBy relation role (some q)).apply digest g reading p = .among s ∧
          (∀ v, .vertex v ∈ s ↔ .vertex v ∈ p.reach g ∧ ∃ w, g.contents.EntityAt w q ∧
            .vertex w ∈ ((Filter.relatedBy relation role none).apply digest g reading
              (.among (.ofVertices [v]))).reach g) ∧
          (∀ e, .edge e ∉ s) ∧ ((∀ w, ¬ g.contents.EntityAt w q) → s = {}) ∧
          ∀ v, .vertex v ∈ ((Filter.definedBy q).apply digest g reading p).reach g ↔
            .vertex v ∈ ((Filter.relatedBy (.name WellKnown.defines.name) .target
              (some q)).apply digest g reading p).reach g := by
  intro g hg reading p relation role q
  obtain ⟨hwf, hsound⟩ := run_empty_consistent config supply requests g hg
  have hmem : ∀ x, x ∈ g.relatedTo relation role q (p.reach g) ↔ ∃ v w, x = .vertex v ∧
      .vertex v ∈ p.reach g ∧ g.contents.EntityAt w q ∧
        .vertex w ∈ g.hop relation role (.ofVertices [v]) := fun x => by
    simp only [Graph.mem_relatedTo_iff_hop hwf, Graph.locate?_eq_some_iff hwf hsound.toAddressed,
      Reach.mem_vertex]
  refine ⟨_, rfl, fun v => ?_, fun e he => ?_, fun hnone => ?_, fun v => ?_⟩
  · rw [hmem]
    constructor
    · rintro ⟨_, w, ⟨⟩, hv, hw, hhop⟩
      exact ⟨hv, w, hw, hhop⟩
    · rintro ⟨hv, w, hw, hhop⟩
      exact ⟨v, w, rfl, hv, hw, hhop⟩
  · obtain ⟨v, w, hvertex, -⟩ := (hmem _).1 he
    cases hvertex
  · refine Reach.ext_mem fun x => iff_of_false (fun hx => ?_) Reach.not_mem_empty
    obtain ⟨v, w, -, -, hw, -⟩ := (hmem x).1 hx
    exact hnone w hw
  · exact Graph.vertex_mem_filter_definedBy hwf

/-- Among all that is stored, the host is related to its type, which defines it; to a type that is
not there nothing is related. -/
theorem loneHost_related :
    let g := ((empty .usual .counting).run loneHost).store.graph
    let type : CanonicalPath := ⟨[⟨.tenant, "works"⟩, ⟨.resourceType, "host"⟩], by decide⟩
    let ghost : CanonicalPath := ⟨[⟨.tenant, "works"⟩, ⟨.resourceType, "ghost"⟩], by decide⟩
    let related := Filter.relatedBy (.name "defines") .target
    .vertex 6 ∈ ((related (some type)).apply Digest.md5 g .filter .everywhere).reach g ∧
      .vertex 6 ∈ ((Filter.definedBy type).apply Digest.md5 g .filter .everywhere).reach g ∧
      (∀ w, ¬ g.contents.EntityAt w ghost) ∧
      (related (some ghost)).apply Digest.md5 g .filter .everywhere = .among {} := by
  intro g type ghost related
  obtain ⟨hwf, hsound⟩ := run_empty_consistent .usual .counting loneHost g .committed
  have hiff := related_iff_hop .usual .counting loneHost Digest.md5 g .committed .filter .everywhere
    (.name "defines") .target
  have hreached : .vertex 6 ∈
      (((related (some type)).apply Digest.md5 g .filter .everywhere).reach g).toList := by
    decide +kernel
  have hnowhere : g.locate? ghost = none := by
    decide +kernel
  have hghost : ∀ w, ¬ g.contents.EntityAt w ghost := fun w hw => by
    rw [(Graph.locate?_eq_some_iff hwf hsound.toAddressed).2 hw] at hnowhere
    cases hnowhere
  obtain ⟨-, -, -, -, -, hdefined⟩ := hiff type
  obtain ⟨s, hs, -, -, hempty, -⟩ := hiff ghost
  have hhost := Reach.mem_toList.1 hreached
  exact ⟨hhost, (hdefined 6).2 hhost, hghost, hs.trans (congrArg _ (hempty hghost))⟩

end Estate.Inventory
