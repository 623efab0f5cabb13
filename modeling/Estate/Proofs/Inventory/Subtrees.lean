import Estate.Proofs.Inventory.Run
import Estate.Proofs.Query.Closure
import Estate.Proofs.Query.Paths
import Estate.Proofs.Registry.Removal

/-!
# Recursive traversals and paths

`recursive` follows the containments from an entity any number of times, none included, and a
collection that is `recursive` does so in place of its hop to the children.  What an entity contains
lies below its path, so that what is reached can be told by paths alone.

* `Traversal.parse_recursive`, `Query.compile_recursive`, … — the text, the steps and the query.
* `Query.mem_elements_subtree` — the closure of containment from the entity at a path.
* **`Inventory.recursive_subtree`** — in every state that requests lead to, recursive traversals
  reach the entities at and below their origin, and of them those of a kind.
-/

namespace Estate

open Layout Contents

/-! ## The text and the query -/

/-- The closure of containment is read. -/
lemma Traversal.parse_recursive : ∃ t ∈ (Traversal.parse "recursive").toOption,
    t.absolute = false ∧ t.steps.map (·.value) = [.recursive .contained] := by
  decide +kernel

/-- The recursive collections are read. -/
lemma Traversal.parse_recursiveCollection : ∀ kind ∈ Kind.all, kind.isEntity →
    ∃ t ∈ (Traversal.parse (kind.plural ++ ";recursive")).toOption,
      t.absolute = false ∧ t.steps.map (·.value) = [.collection ⟨kind, true, [], none, []⟩] := by
  decide +kernel

namespace Query

/-- From an entity to everything that it contains. -/
def subtreeOf (p : CanonicalPath) (conditions : List Fragment) : Query :=
  .node (⟨.path, .withPaths [p]⟩ ::
    ⟨.path, closureOver WellKnown.contains.name .outgoing⟩ :: conditions) []

/-- A relative traversal of one step is compiled from its origin. -/
lemma compile_step {text : String} {step : Step} {p : CanonicalPath} {fragments : List Fragment}
    (standing : Standing)
    (hparse : ∃ t ∈ (Traversal.parse text).toOption,
      t.absolute = false ∧ t.steps.map (·.value) = [step])
    (hstep : ∀ span, compileStep (some p) (.entities (some p.kind)) ⟨span, step⟩ =
      .ok (fragments, standing)) :
    Query.compile text (some p) = .ok (.node (⟨.path, .withPaths [p]⟩ :: fragments) []) := by
  obtain ⟨⟨absolute, steps⟩, ht, rfl, hsteps⟩ := hparse
  have hread : Traversal.parse text = .ok ⟨false, steps⟩ := by
    cases hparse : Traversal.parse text with
    | error e => rw [hparse] at ht; cases ht
    | ok t => rw [hparse] at ht; cases ht; rfl
  obtain ⟨⟨span, step'⟩, rfl, rfl⟩ := List.map_eq_singleton_iff.1 hsteps
  rw [Query.compile, hread]
  simp only [Except.mapError, Traversal.compile, compileSteps, hstep, bind, Except.bind, pure,
    Except.pure, List.append_nil, List.singleton_append]

lemma compile_recursive (p : CanonicalPath) :
    Query.compile "recursive" (some p) = .ok (subtreeOf p []) :=
  compile_step (.entities none) Traversal.parse_recursive fun _ => rfl

lemma compile_recursiveCollection (p : CanonicalPath) {kind : Kind} (hkind : kind.isEntity) :
    Query.compile (kind.plural ++ ";recursive") (some p) =
      .ok (subtreeOf p [⟨.path, .withKinds [kind]⟩]) :=
  compile_step (.entities (some kind))
    (Traversal.parse_recursiveCollection kind (Kind.mem_all kind) hkind) fun _ => rfl

end Query

/-! ## What is reached -/

section Evaluation

variable {digest : String → String} {g : Graph} {root : VertexId} {p : CanonicalPath} {x : Element}

/-- Containment, as a step between elements. -/
lemma Graph.mem_hop_single (hwf : g.WellFormed) {y : Element} :
    y ∈ g.hop (.name WellKnown.contains.name) .source (.single x) ↔
      ∃ v w, x = .vertex v ∧ g.contents.Contains v w ∧ y = .vertex w := by
  rw [mem_hop_children hwf]
  refine exists_congr fun v => exists_congr fun w => and_congr ?_ Iff.rfl
  rw [← Reach.mem_vertex, Reach.mem_single, eq_comm]

/-- Containments lead from a vertex to vertices. -/
lemma Graph.reflTransGen_hop (hwf : g.WellFormed) :
    Relation.ReflTransGen
        (fun a b => b ∈ g.hop (.name WellKnown.contains.name) .source (.single a)) (.vertex root) x ↔
      ∃ w, x = .vertex w ∧ Relation.ReflTransGen g.contents.Contains root w := by
  constructor
  · intro hx
    induction hx with
    | refl => exact ⟨root, rfl, .refl⟩
    | tail _ hstep ih =>
        obtain ⟨v, rfl, hv⟩ := ih
        obtain ⟨v', w, hvv, hcontains, rfl⟩ := (mem_hop_single hwf).1 hstep
        cases hvv
        exact ⟨w, rfl, hv.tail hcontains⟩
  · rintro ⟨w, rfl, hw⟩
    exact hw.lift Element.vertex fun a b hab => (mem_hop_single hwf).2 ⟨a, b, rfl, hab, rfl⟩

namespace Query

/-- **The closure of containment from an entity** leads to the entities at its path and below. -/
lemma run_subtreeOf (digest : String → String) (hwf : g.WellFormed) (h : g.contents.Sound)
    (hp : g.contents.EntityAt root p) :
    ∃ s, (subtreeOf p []).run digest g .everywhere = .among s ∧
      ∀ x, x ∈ s ↔ ∃ w, x = .vertex w ∧ g.contents.Under p w := by
  have hjump : g.atPaths [p] = .single (.vertex root) := Reach.ext_mem fun x => by
    rw [Graph.mem_atPaths_entity hwf h.toAddressed hp.legal.kind_ne, Reach.mem_single]
    constructor
    · rintro ⟨v, hv, rfl⟩
      rw [h.unique hv hp]
    · exact fun hx => ⟨root, hp, hx⟩
  obtain ⟨s, hs, hcloses⟩ := hwf.closes_recurse digest .path
    [.relatedBy (.name WellKnown.contains.name) .source none] (.single (.vertex root))
  refine ⟨s, ?_, fun x => ?_⟩
  · rw [← hs, ← hjump]
    simp only [subtreeOf, run, List.foldl_cons, List.foldl_nil, Fragment.apply, Filter.apply,
      closureOver]
  · rw [hcloses.mem_iff (g.hop_additive _ _)]
    simp only [Reach.mem_single, exists_eq_left]
    refine (Graph.reflTransGen_hop hwf).trans (exists_congr fun w => ?_)
    rw [h.reaches_iff_under hp]

/-- So do its elements. -/
lemma mem_elements_subtree (digest : String → String) (hwf : g.WellFormed)
    (h : g.contents.Sound) (hp : g.contents.EntityAt root p) :
    x ∈ (subtreeOf p []).elements digest g ↔ ∃ w, x = .vertex w ∧ g.contents.Under p w := by
  obtain ⟨s, hs, hmem⟩ := run_subtreeOf digest hwf h hp
  rw [elements, hs, Position.reach, hmem]

/-- Of them, those of a kind are kept. -/
lemma mem_elements_subtreeOfKind (digest : String → String) (hwf : g.WellFormed)
    (h : g.contents.Sound) (hp : g.contents.EntityAt root p) (kind : Kind) :
    x ∈ (subtreeOf p [⟨.path, .withKinds [kind]⟩]).elements digest g ↔
      ∃ w q, x = .vertex w ∧ g.contents.EntityAt w q ∧ p.Covers q ∧ q.kind = kind := by
  obtain ⟨s, hs, hmem⟩ := run_subtreeOf digest hwf h hp
  have hrun : (subtreeOf p [⟨.path, .withKinds [kind]⟩]).run digest g .everywhere =
      .among (s.filter (g.keeps (.withKinds [kind]))) := by
    rw [show subtreeOf p [⟨.path, .withKinds [kind]⟩] =
      .node ([⟨.path, .withPaths [p]⟩, ⟨.path, closureOver WellKnown.contains.name .outgoing⟩] ++
        [⟨.path, .withKinds [kind]⟩]) [] from rfl, run_append]
    rw [subtreeOf] at hs
    rw [hs]
    simp only [run, List.foldl_cons, List.foldl_nil, Fragment.apply, Filter.apply, Position.reach]
  rw [elements, hrun, Position.reach, Reach.mem_filter, hmem]
  constructor
  · rintro ⟨⟨w, rfl, q, hq, hcovers⟩, hkeeps⟩
    rw [Graph.keeps_withKinds hq] at hkeeps
    exact ⟨w, q, rfl, hq, hcovers, by simpa using hkeeps⟩
  · rintro ⟨w, q, rfl, hq, hcovers, rfl⟩
    refine ⟨⟨w, rfl, q, hq, hcovers⟩, ?_⟩
    rw [Graph.keeps_withKinds hq]
    simp

end Query

end Evaluation

namespace Inventory

/-- **A recursive traversal reaches the subtree of its origin.**  In every state that requests lead
to and from every entity, `recursive` is a traversal that reaches exactly the entities whose path is
that of the origin or has it as an ancestor; and for every kind of entities, the recursive
collection of the kind is a traversal that reaches exactly those of them that are of the kind. -/
theorem recursive_subtree (config : Config) (supply : Supply) (requests : List Request)
    (digest : String → String) :
    ((empty config supply).run requests).Everywhere fun g =>
      ∀ root p, g.contents.EntityAt root p →
        (∃ q, Query.compile "recursive" (some p) = .ok q ∧
          ∀ x, x ∈ q.elements digest g ↔
            ∃ w r, x = .vertex w ∧ g.contents.EntityAt w r ∧ (r = p ∨ p.isAncestorOf r)) ∧
          ∀ kind : Kind, kind.isEntity →
            ∃ q, Query.compile (kind.plural ++ ";recursive") (some p) = .ok q ∧
              ∀ x, x ∈ q.elements digest g ↔ ∃ w r, x = .vertex w ∧ g.contents.EntityAt w r ∧
                (r = p ∨ p.isAncestorOf r) ∧ r.kind = kind := by
  intro g hg root p hp
  obtain ⟨hwf, hsound⟩ := run_empty_consistent config supply requests g hg
  refine ⟨⟨_, Query.compile_recursive p, fun x => ?_⟩, fun kind hkind =>
    ⟨_, Query.compile_recursiveCollection p hkind, fun x =>
      Query.mem_elements_subtreeOfKind digest hwf hsound hp kind⟩⟩
  rw [Query.mem_elements_subtree digest hwf hsound hp]
  exact exists_congr fun w => exists_and_left.symm

/-- A host with a disk in one of two environments. -/
def nestedHost : List Request :=
  let tenant : CanonicalPath := .tenant "acme"
  let main : CanonicalPath := ⟨[⟨.tenant, "acme"⟩, ⟨.environment, "main"⟩], by decide⟩
  let host : CanonicalPath :=
    ⟨[⟨.tenant, "acme"⟩, ⟨.environment, "main"⟩, ⟨.resource, "host"⟩], by decide⟩
  [.create none ⟨"acme", none, ∅, .tenant⟩,
    .create (some tenant) ⟨"main", none, ∅, .environment⟩,
    .create (some tenant) ⟨"spare", none, ∅, .environment⟩,
    .create (some tenant) ⟨"machine", none, ∅, .resourceType []⟩,
    .create (some main) ⟨"host", none, ∅, .resource "/t;acme/rt;machine"⟩,
    .create (some host) ⟨"disk", none, ∅, .resource "/t;acme/rt;machine"⟩]

/-- The host and its disk are the resources of the environment, and the disk lies below the host. -/
theorem nestedHost_subtree :
    let g := ((empty .usual .counting).run nestedHost).store.graph
    let main : CanonicalPath := ⟨[⟨.tenant, "acme"⟩, ⟨.environment, "main"⟩], by decide⟩
    let reached text := (Query.compile text (some main)).toOption.map fun q =>
      (q.elements Digest.md5 g).toList
    g.contents.EntityAt 2 main ∧
      reached "recursive" = some [.vertex 2, .vertex 8, .vertex 11] ∧
      reached "resources;recursive" = some [.vertex 8, .vertex 11] ∧
      ∃ q, Query.compile "recursive" (some main) = .ok q ∧
        ∀ x, x ∈ q.elements Digest.md5 g ↔
          ∃ w r, x = .vertex w ∧ g.contents.EntityAt w r ∧ (r = main ∨ main.isAncestorOf r) := by
  intro g main reached
  have hsound := (run_empty_consistent .usual .counting nestedHost g .committed).2
  have hmain : g.contents.EntityAt 2 main :=
    (Graph.elementPath?_vertex hsound.toAddressed).1 (by decide +kernel)
  refine ⟨hmain, by decide +kernel, by decide +kernel, ?_⟩
  exact (recursive_subtree .usual .counting nestedHost Digest.md5 g .committed 2 main hmain).1

end Inventory

end Estate
