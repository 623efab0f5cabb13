import Estate.Proofs.Graph.Calls
import Estate.Proofs.Query.Paths
import Estate.Proofs.Registry.Removal
import Estate.Proofs.Registry.Stored

/-!
# What is undone by another operation

No operation remembers what an earlier one has done.  What takes a creation or a link back searches
the graph for what to remove: a deletion goes through a subtree, an unlinking looks for a name and
two ends, and the deletion of a relationship looks for an id.  In sound contents each of these finds
what has come last and nothing else, and when that is gone the graph looks as it did before.

* `Graph.LooksLike` — two graphs are not told apart by what is looked up.
* **`Graph.WellFormed.looksLike`** — this is so if they have the same vertices and edges.
* `Edit.UndoneBy` — one edit takes back what another has done.
* `Contents.Attached.removed` — what has been attached to a new vertex goes with it.
* **`Edit.create_undone`** — a creation is undone by a deletion.
* `Edit.Draws`, `Edit.link_draws` — what a link has done.
* **`Edit.link_undone`**, `Edit.link_undone_by_id` — a link is undone by its name and ends, and by
  the id that it has answered.
* `Draft.Undoes` — all of them.
-/

namespace Estate

open Layout Contents Work

/-! ## Graphs that look alike -/

namespace Graph

/-- **Two graphs look alike**: they have the same vertices and the same edges, with everything that
they carry, and whatever is looked up is found alike.  Their counters may differ. -/
structure LooksLike (g g' : Graph) : Prop where
  vertex : g.vertex? = g'.vertex?
  edge : g.edge? = g'.edge?
  edgesOf : ∀ v direction label, g.edgesOf v direction label = g'.edgesOf v direction label
  verticesBy : ∀ key value, g.verticesBy key value = g'.verticesBy key value
  edgesBy : ∀ key value, g.edgesBy key value = g'.edgesBy key value

/-- **A well-formed graph is told by its vertices and edges**, if its indexes cover the same keys.
What is left of the ends of an edge that is gone is not seen. -/
theorem WellFormed.looksLike {g g' : Graph} (h : g.WellFormed) (h' : g'.WellFormed)
    (hkeys : g.KeepsKeys g') (hvertex : g.vertex? = g'.vertex?) (hedge : g.edge? = g'.edge?) :
    g.LooksLike g' where
  vertex := hvertex
  edge := hedge
  edgesOf v direction label :=
    (g.edgesOf_sorted v direction label).eq_of_mem_iff (g'.edgesOf_sorted v direction label)
      fun e => by rw [h.mem_edgesOf, h'.mem_edgesOf, hedge]
  verticesBy key value :=
    (g.pairwise_verticesBy key value).eq_of_mem_iff (g'.pairwise_verticesBy key value) fun v => by
      simp only [h.mem_verticesBy_iff, h'.mem_verticesBy_iff, hvertex, Index.Takes, hkeys.vertex]
  edgesBy key value :=
    (g.pairwise_edgesBy key value).eq_of_mem_iff (g'.pairwise_edgesBy key value) fun e => by
      simp only [h.mem_edgesBy_iff, h'.mem_edgesBy_iff, hedge, Index.Takes, hkeys.edge]

end Graph

namespace Edit

variable {α β : Type}

lemma mutate_keepsKeys {m : Mutation α} {d d' : Draft} {a : α} (h : mutate m d = .ok a d') :
    d.transaction.graph.KeepsKeys d'.transaction.graph := by
  rw [mutate, Transaction.mutate] at h
  cases hm : m.run d.transaction.graph with
  | error err =>
      rw [hm] at h
      cases h
  | ok r =>
      rw [hm] at h
      cases h
      exact Graph.keepsKeys_run hm

/-- **No edit changes which keys the indexes cover.** -/
theorem Composed.keepsKeys {may : (α : Type) → Mutation α → Prop} {e : Edit α}
    (h : Composed may e) {d d' : Draft} {a : α} (hrun : e d = .ok a d') :
    d.transaction.graph.KeepsKeys d'.transaction.graph := by
  induction h generalizing d d' with
  | pure b =>
      cases hrun
      exact .refl _
  | check f =>
      obtain ⟨-, rfl⟩ := of_check_ok hrun
      exact .refl _
  | freshId =>
      cases hrun
      exact .refl _
  | mutate m => exact mutate_keepsKeys hrun
  | bind _ _ ihe ihf =>
      obtain ⟨b, d₁, hfirst, hrest⟩ := bind_eq_ok hrun
      exact (ihe hfirst).trans (ihf b hrest)

/-- **An edit is undone by another**: wherever it is carried out, and in whatever transaction one
goes on from the graph that it has left, the other is carried out with the answer that is expected,
and then the graph looks as it did before. -/
def UndoneBy (e : Edit α) (back : α → Edit β) (answer : α → β) (d : Draft) : Prop :=
  ∀ a d', e d = .ok a d' → ∀ d₁, d₁.transaction.graph = d'.transaction.graph →
    ∃ d₂, back a d₁ = .ok (answer a) d₂ ∧
      d.transaction.graph.LooksLike d₂.transaction.graph

end Edit

/-! ## A creation and a deletion -/

/-- An attachment joins the new vertex. -/
lemma Attachment.edge_at (a : Attachment) (v : VertexId) (label : Properties) :
    (a.edge v label).source = v ∨ (a.edge v label).target = v := by
  rw [edge, ends]
  cases a.direction with
  | outgoing => exact Or.inl rfl
  | incoming => exact Or.inr rfl
  | both => exact Or.inr rfl

namespace Contents.Attached

variable {c c' c'' : Contents} {row : Properties} {l : List Attachment} {p : CanonicalPath}
  {v : VertexId} {e : EdgeId} {edge : Edge}

section

variable (h : (c.addVertex row).Attached (c.counter + 1) l c')

include h

lemma vertex_old (hv : v ≠ c.counter + 1) : c'.vertex v = c.vertex v := by
  rw [h.vertex, vertex_addVertex, Function.update_of_ne hv]

variable (hc : c.Sound)

include hc

/-- The edges that are not at the new vertex are those that there were. -/
lemma edge_iff : c.edge e = some edge ↔ c'.edge e = some edge ∧
    edge.source ≠ c.counter + 1 ∧ edge.target ≠ c.counter + 1 := by
  constructor
  · intro he
    obtain ⟨p, q, hp, hq, -⟩ := hc.ends he
    exact ⟨h.kept he, hp.ne_new hc.toCounted, hq.ne_new hc.toCounted⟩
  · rintro ⟨he, hsource, htarget⟩
    rcases h.added he with hold | ⟨-, a, -, label, rfl⟩
    · exact hold
    · rcases a.edge_at (c.counter + 1) label with hat | hat
      · exact absurd hat hsource
      · exact absurd hat htarget

variable (hfree : ∀ v, ¬ c.EntityAt v p) (hnew : c'.EntityAt (c.counter + 1) p)

include hfree hnew

/-- Under a new path there is nothing but the new vertex, because with an entity there are all those
above it. -/
lemma under_iff : c'.Under p v ↔ v = c.counter + 1 := by
  constructor
  · rintro ⟨q, hq, hcovers⟩
    by_contra hv
    have hold : c.EntityAt v q := hq.congr (h.vertex_old hv).symm
    obtain ⟨w, hw, -⟩ := hc.stored_above hold (CanonicalPath.covers_iff.1 hcovers)
    exact hfree w hw
  · rintro rfl
    exact ⟨p, hnew, Or.inl rfl⟩

/-- What the new entity defines does not stand against its deletion, and nothing else could. -/
lemma not_blocks (definer defined : CanonicalPath) : ¬ c'.Blocks p definer defined := by
  rintro ⟨hbelow, -, e, edge, -, -, hdefiner, -⟩
  have hsource : edge.source = c.counter + 1 :=
    (h.under_iff hc hfree hnew).1 ⟨definer, hdefiner, Or.inr hbelow⟩
  obtain rfl := (hsource ▸ hdefiner).path_unique hnew
  exact Nat.lt_irrefl _ (CanonicalPath.length_lt_of_isAncestorOf hbelow)

/-- **What has been attached to a new vertex goes with it**, and nothing else does. -/
lemma removed {paths : List CanonicalPath} (hremoves : c'.Removes p c'' paths) :
    c.vertex = c''.vertex ∧ c.edge = c''.edge ∧ paths = [p] := by
  have hunder := fun v => h.under_iff hc hfree hnew (v := v)
  refine ⟨?_, ?_, ?_⟩
  · funext v
    refine Option.ext fun row' => ?_
    rw [hremoves.vertices, hunder]
    by_cases hv : v = c.counter + 1
    · simp [hv, hc.vertex_free]
    · simp [hv, h.vertex_old hv]
  · funext e
    refine Option.ext fun edge => ?_
    rw [hremoves.edges, hunder, hunder]
    exact h.edge_iff hc
  · have hmem : ∀ q, q ∈ paths ↔ q ∈ [p] := fun q => by
      rw [hremoves.paths_mem, List.mem_singleton]
      constructor
      · rintro ⟨hcovers, v, hv⟩
        obtain rfl := (hunder v).1 ⟨q, hv, hcovers⟩
        exact hv.path_unique hnew
      · rintro rfl
        exact ⟨Or.inl rfl, _, hnew⟩
    exact List.perm_singleton.1
      ((List.perm_ext_iff_of_nodup hremoves.nodup (List.nodup_singleton p)).2 hmem)

end

end Contents.Attached

/-- The names of properties have been checked when a link is planned. -/
lemma Graph.planLink_names {g : Graph} {name : String} {source target : CanonicalPath}
    {properties : Properties} {ends : VertexId × VertexId}
    (hplan : g.planLink name source target properties = .ok ends) :
    properties.checkNames relationFieldNames = .ok () := by
  rw [planLink] at hplan
  obtain ⟨-, hplan⟩ := Refusal.ite_throw_eq_ok_iff.1 hplan
  obtain ⟨_, hnames, -⟩ := Refusal.bind_eq_ok_iff.1 hplan
  exact hnames

/-- If ids have been drawn once, one edge at most has an id. -/
lemma Graph.relationEdges_eq {g : Graph} {s : Supply} {e : EdgeId} {edge : Edge} {id : String}
    (hwf : g.WellFormed) (hi : g.contents.Identified s) (he : g.edge? e = some edge)
    (hid : edge.properties[idKey]? = some (.string id)) : g.relationEdges id = [e] := by
  have hlabelled : g.contents.Labelled := fun he => by
    obtain ⟨i, -, hid⟩ := hi.drawn he
    exact ⟨_, hid⟩
  refine (pairwise_edgesBy _ _ _).eq_of_mem_iff (List.pairwise_singleton _ _) fun e' => ?_
  rw [← relationEdges, mem_relationEdges hwf hlabelled, List.mem_singleton]
  constructor
  · rintro ⟨edge', he', hid'⟩
    exact hi.once he' he ((relationId?_eq_some.1 hid').trans hid.symm)
  · rintro rfl
    exact ⟨edge, he, relationId?_eq_some.2 hid⟩

/-- A relationship is read with the id that is stored. -/
lemma Graph.readRelationship_id {g : Graph} {e : EdgeId} {edge : Edge} {r : Relationship}
    {id : String} (h : g.readRelationship e edge = .ok r) (hid : relationId? edge = some id) :
    r.id = id := by
  rw [readRelationship] at h
  split at h
  · obtain rfl := Except.ok.inj h
    rw [hid, Option.getD_some]
  · cases h

namespace Edit

variable {d d' d₁ : Draft} {s t : VertexId} {name : String} {source target : CanonicalPath}
  {label : Properties} {r : Relationship}

/-- **A creation is undone by deleting what has been created.** -/
theorem create_undone (hd : d.Consistent) (parent : Option CanonicalPath) (b : Blueprint) :
    (create parent b).UndoneBy delete (fun p => [p]) d := by
  intro p d' h d₁ hgraph
  obtain ⟨n, hplan, rfl, hattached⟩ := create_stored hd.wellFormed h
  have hallowed := Graph.planCreation_allowed hd.wellFormed hd.sound.toAddressed hplan
  have hd' := ((create_decided parent b).orderly.leads hd h).consistent hd
  have hcontents : d₁.contents = d'.contents := congrArg Graph.contents hgraph
  have hd₁ : d₁.Consistent := ⟨hgraph ▸ hd'.wellFormed, hcontents ▸ hd'.sound⟩
  have hnew : d'.contents.EntityAt (d.contents.counter + 1) n.path :=
    (entityAt_new hallowed.legal hallowed.addressed).congr (congrFun hattached.vertex _)
  have hfree := hattached.not_blocks hd.sound hallowed.free hnew
  rw [← hcontents] at hattached hnew hfree
  obtain ⟨paths, d₂, hrun, hremoves, -⟩ := delete_removes hd₁ ⟨_, hnew⟩ hfree
  obtain ⟨hvertex, hedge, rfl⟩ := hattached.removed hd.sound hallowed.free hnew hremoves
  refine ⟨d₂, hrun, hd.wellFormed.looksLike ?_ ?_ hvertex hedge⟩
  · exact ((delete_decided n.path).orderly.leads hd₁ hrun).wellFormed
  · have hkeys := (create_composed parent b).keepsKeys h
    rw [← hgraph] at hkeys
    exact hkeys.trans ((delete_composed n.path).keepsKeys hrun)

/-! ## A link and what takes it back -/

/-- **What a link has done**: there is one more edge, under the id that has been drawn, where there
was none of its name. -/
structure Draws (d : Draft) (name : String) (source target : CanonicalPath) (s t : VertexId)
    (label : Properties) (d' : Draft) : Prop where
  joins : d.transaction.graph.Joins name source target s t
  wellFormed : d'.transaction.graph.WellFormed
  keys : d.transaction.graph.KeepsKeys d'.transaction.graph
  contents : d'.contents = d.contents.addEdge ⟨name, s, t, label⟩
  id : label[idKey]? = some (.string d.supply.draw.1)

lemma Draws.edge_new (h : Draws d name source target s t label d') :
    d'.contents.edge (d.contents.counter + 1) = some ⟨name, s, t, label⟩ := by
  rw [h.contents, edge_addEdge, Function.update_self]

/-- What a link has drawn carries the properties and the id, and it answers what is read of it. -/
lemma link_labels {properties : Properties} (hd : d.Consistent)
    (h : link name source target properties d = .ok r d') :
    ∃ s t label, label = properties.insert idKey (.string d.supply.draw.1) ∧
      Draws d name source target s t label d' ∧
      properties.checkNames relationFieldNames = .ok () ∧
      d'.transaction.graph.readRelationship (d.contents.counter + 1) ⟨name, s, t, label⟩ =
        .ok r := by
  have hkeys := (link_composed name source target properties).keepsKeys h
  obtain ⟨⟨s, t⟩, _, hcheck, hrest⟩ := bind_eq_ok h
  obtain ⟨hplan, rfl⟩ := of_check_ok hcheck
  have hjoins := Graph.planLink_joins hd.wellFormed hd.sound hplan
  obtain ⟨d₂, hadd, hwf, hc, -⟩ :=
    addRelation_eq name properties hd.wellFormed hjoins.source.isSome hjoins.target.isSome
  obtain ⟨e, _, hadded, hread⟩ := bind_eq_ok hrest
  cases hadd.symm.trans hadded
  obtain ⟨hread, rfl⟩ := of_check_ok hread
  have h' : Draws _ name source target s t _ d' :=
    ⟨hjoins, hwf, hkeys, hc, Std.ExtTreeMap.getElem?_insert_self⟩
  have hedge : d'.transaction.graph.edge? (_ + 1) = _ := h'.edge_new
  rw [hedge] at hread
  exact ⟨s, t, _, rfl, h', Graph.planLink_names hplan, hread⟩

/-- **A link has done this**, and it answers the id. -/
theorem link_draws {properties : Properties} (hd : d.Consistent)
    (h : link name source target properties d = .ok r d') :
    ∃ s t label, Draws d name source target s t label d' ∧ r.id = d.supply.draw.1 := by
  obtain ⟨s, t, label, -, h', -, hread⟩ := link_labels hd h
  exact ⟨s, t, label, h', Graph.readRelationship_id hread (Graph.relationId?_eq_some.2 h'.id)⟩

namespace Draws

variable (h : Draws d name source target s t label d')

include h

/-- **The search by id finds the new edge**, if the id had not been drawn before. -/
lemma planRelationRemoval (hi : d.contents.Identified d.supply)
    (fresh : Function.Injective d.supply.name) :
    d'.transaction.graph.planRelationRemoval d.supply.draw.1 = .ok (d.contents.counter + 1) := by
  have hi' : d'.contents.Identified d.supply.draw.2 := by
    rw [h.contents]
    exact hi.addEdge fresh h.id
  have honly : d'.transaction.graph.relationEdges d.supply.draw.1 = [d.contents.counter + 1] :=
    Graph.relationEdges_eq h.wellFormed hi' h.edge_new h.id
  have hedge : d'.transaction.graph.edge? (d.contents.counter + 1) = some ⟨name, s, t, label⟩ :=
    h.edge_new
  rw [Graph.planRelationRemoval, Graph.requireRelation, Graph.findRelation, honly]
  simp only [bind, Except.bind, hedge, if_neg h.joins.free]
  rfl

/-- **The search by name and ends finds the new edge**, because there was none before. -/
lemma findEdge?_eq : d'.transaction.graph.findEdge? name s t = some (d.contents.counter + 1) := by
  cases hfind : d'.transaction.graph.findEdge? name s t with
  | none =>
      exact absurd ⟨rfl, rfl, rfl⟩ (h.wellFormed.findEdge?_eq_none_iff.1 hfind _ _ h.edge_new)
  | some e =>
      obtain ⟨edge, he, hends⟩ := h.wellFormed.findEdge?_eq_some hfind
      have hcases : (d.contents.addEdge ⟨name, s, t, label⟩).edge e = some edge := h.contents ▸ he
      rcases edge_addEdge_cases hcases with ⟨rfl, -⟩ | hold
      · rfl
      · exact absurd hends (h.joins.new e edge hold)

variable (hd : d.Consistent)

include hd

/-- Every entity is still where it was. -/
lemma locate?_eq {v : VertexId} {p : CanonicalPath} (hv : d.contents.EntityAt v p) :
    d'.transaction.graph.locate? p = some v := by
  have haddressed : d'.contents.Addressed := by
    rw [h.contents]
    exact hd.sound.toAddressed.addEdge
  refine (Graph.locate?_eq_some_iff h.wellFormed haddressed).2 ?_
  exact hv.congr (congrFun (congrArg Contents.vertex h.contents) v)

lemma planUnlink : d'.transaction.graph.planUnlink name source target =
    .ok (d.contents.counter + 1) := by
  rw [Graph.planUnlink, h.locate?_eq hd h.joins.source, h.locate?_eq hd h.joins.target]
  simp only [bind, Option.bind, h.findEdge?_eq, if_neg h.joins.free]

/-- **When the new edge is taken away, the graph looks as it did before.** -/
lemma removed (hgraph : d₁.transaction.graph = d'.transaction.graph) :
    ∃ d₂, mutate (.removeEdge (d.contents.counter + 1)) d₁ = .ok () d₂ ∧
      d.transaction.graph.LooksLike d₂.transaction.graph := by
  have hcontents : d₁.contents = d'.contents := congrArg Graph.contents hgraph
  obtain ⟨d₂, hrun, hwf, hc, -⟩ := mutate_eq (m := .removeEdge (d.contents.counter + 1))
    (hgraph ▸ h.wellFormed : d₁.transaction.graph.WellFormed)
    (show Mutation.on _ d₁.contents = .ok ((), d₁.contents.setEdge (d.contents.counter + 1) none) by
      rw [Mutation.on, hcontents, h.edge_new])
  have hkeys := mutate_keepsKeys hrun
  rw [hcontents, h.contents] at hc
  refine ⟨d₂, hrun, hd.wellFormed.looksLike hwf (h.keys.trans (hgraph ▸ hkeys)) ?_ ?_⟩
  · exact (congrArg Contents.vertex hc).symm
  · refine Eq.trans ?_ (congrArg Contents.edge hc).symm
    rw [edge_setEdge, edge_addEdge, Function.update_idem,
      Function.update_eq_self_iff.2 hd.sound.edge_free.symm]
    rfl

end Draws

/-- **A link is undone by unlinking** by the same name and ends. -/
theorem link_undone (hd : d.Consistent) (name : String) (source target : CanonicalPath)
    (properties : Properties) : (link name source target properties).UndoneBy
      (fun _ => unlink name source target) (fun _ => ()) d := by
  intro r d' hlink d₁ hgraph
  obtain ⟨s, t, label, h, -⟩ := link_draws hd hlink
  obtain ⟨d₂, hrun, hlooks⟩ := h.removed hd hgraph
  have hplan := h.planUnlink hd
  rw [← hgraph] at hplan
  exact ⟨d₂, (bind_ok (check_ok hplan)).trans hrun, hlooks⟩

/-- **A link is undone by deleting the relationship with the id that it answers**, if ids that are
drawn do not repeat themselves. -/
theorem link_undone_by_id (hd : d.Consistent) (hi : d.contents.Identified d.supply)
    (fresh : Function.Injective d.supply.name) (name : String) (source target : CanonicalPath)
    (properties : Properties) : (link name source target properties).UndoneBy
      (fun r => deleteRelation r.id) (fun _ => ()) d := by
  intro r d' hlink d₁ hgraph
  obtain ⟨s, t, label, h, hid⟩ := link_draws hd hlink
  obtain ⟨d₂, hrun, hlooks⟩ := h.removed hd hgraph
  have hplan := h.planRelationRemoval hi fresh
  rw [← hgraph, ← hid] at hplan
  exact ⟨d₂, (bind_ok (check_ok hplan)).trans hrun, hlooks⟩

end Edit

/-- **What is undone in a transaction**: creations by deletions, and links both by their names and
ends and, if ids do not repeat themselves, by the ids that they answer. -/
structure Draft.Undoes (d : Draft) : Prop where
  create : ∀ parent b, (Edit.create parent b).UndoneBy Edit.delete (fun p => [p]) d
  link : ∀ name source target properties, (Edit.link name source target properties).UndoneBy
    (fun _ => Edit.unlink name source target) (fun _ => ()) d
  linkById : Function.Injective d.supply.name → ∀ name source target properties,
    (Edit.link name source target properties).UndoneBy
      (fun r => Edit.deleteRelation r.id) (fun _ => ()) d

/-- All this is undone wherever what is stored is sound and ids are those that have been drawn. -/
theorem Draft.Consistent.undoes {d : Draft} (hd : d.Consistent)
    (hi : Function.Injective d.supply.name → d.contents.Identified d.supply) : d.Undoes where
  create := Edit.create_undone hd
  link := Edit.link_undone hd
  linkById fresh := Edit.link_undone_by_id hd (hi fresh) fresh

end Estate
