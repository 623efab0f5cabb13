import Estate.Inventory.Entities
import Estate.Proofs.Graph.Unindexed
import Estate.Proofs.Registry.Change
import Estate.Proofs.Registry.Locate
import Estate.Proofs.Registry.Operation

/-!
# The registry without indexes

The registry looks elements up by their kind, id and path, all of which are stored as texts.  So it
finds the same with indexes and without, makes the same plans, and carries them out alike.

* `Graph.Faithful` — what the registry looks up is found without indexes too.
* `Graph.Faithful.locate?`, `Graph.Faithful.planCreation`, … — one lemma for each look at a graph.
* **`Operation.ignores_indexes`** — an operation does the same with indexes and without.
-/

namespace Estate

open Layout

namespace Graph

variable {g : Graph} {p : CanonicalPath}

/-- **What the registry looks up is found without indexes too**, and in the same order. -/
structure Faithful (g : Graph) : Prop where
  verticesBy : ∀ key ∈ addressing, ∀ text,
    g.unindexed.verticesBy key (.string text) = g.verticesBy key (.string text)
  edgesBy : ∀ text, g.unindexed.edgesBy idKey (.string text) = g.edgesBy idKey (.string text)

/-- Kinds, ids and paths are stored as texts. -/
lemma addressing_string (h : g.contents.Addressed) {key : String} (hkey : key ∈ addressing)
    {v : VertexId} {row : Properties} {value : Json} (hrow : g.vertex? v = some row)
    (hvalue : row[key]? = some value) : ∃ s, value = .string s := by
  obtain ⟨p, -, row', hrow', haddr⟩ := h.entity hrow
  obtain rfl := Option.some.inj (hrow.symm.trans hrow')
  simp only [addressing, List.mem_cons, List.not_mem_nil, or_false] at hkey
  rcases hkey with rfl | rfl | rfl
  · exact ⟨_, Option.some.inj (hvalue.symm.trans haddr.kind)⟩
  · exact ⟨_, Option.some.inj (hvalue.symm.trans haddr.id)⟩
  · exact ⟨_, Option.some.inj (hvalue.symm.trans haddr.path)⟩

lemma WellFormed.faithful (hwf : g.WellFormed) (h : g.contents.Addressed)
    (hl : g.contents.Labelled) : g.Faithful where
  verticesBy _ hkey := hwf.verticesBy_unindexed (addressing_string h hkey)
  edgesBy := hwf.edgesBy_unindexed fun he hvalue => by
    obtain ⟨id, hid⟩ := hl he
    exact ⟨id, Option.some.inj (hvalue.symm.trans hid)⟩

namespace Faithful

variable (h : g.Faithful)

include h

/-! ## Finding -/

lemma locate? (p : CanonicalPath) : g.unindexed.locate? p = g.locate? p :=
  congrArg List.head? (h.verticesBy pathKey (by decide) p.text)

lemma require (p : CanonicalPath) : g.unindexed.require p = g.require p := by
  rw [Graph.require, h.locate?, Graph.require]

lemma relationEdges (id : String) : g.unindexed.relationEdges id = g.relationEdges id :=
  h.edgesBy id

lemma requireRelation (id : String) : g.unindexed.requireRelation id = g.requireRelation id := by
  simp only [Graph.requireRelation, findRelation, h.relationEdges, edge?_unindexed]

lemma relation (id : String) : g.unindexed.relation id = g.relation id := by
  rw [Graph.relation, h.requireRelation]
  rfl

lemma entityAt (p : CanonicalPath) : g.unindexed.entityAt p = g.entityAt p := by
  rw [Graph.entityAt, h.require]
  rfl

lemma peek (wanted : Wanted) (p : CanonicalPath) : g.unindexed.peek wanted p = g.peek wanted p := by
  rw [Graph.peek, h.locate?]
  rfl

/-! ## Planning -/

lemma attachments (path : CanonicalPath) (b : Blueprint) (parent : Option CanonicalPath) :
    g.unindexed.attachments path b parent = g.attachments path b parent := by
  have hattachment : g.unindexed.attachment path = g.attachment path :=
    funext fun r => by rw [attachment, h.require, attachment]
  cases parent with
  | none => rfl
  | some parent => simp only [Graph.attachments, h.require, hattachment]

lemma planCreation (parent : Option CanonicalPath) (b : Blueprint) :
    g.unindexed.planCreation parent b = g.planCreation parent b := by
  simp only [Graph.planCreation, h.locate?, h.attachments]

lemma planUpdate (p : CanonicalPath) (kind : Kind) (u : Update) :
    g.unindexed.planUpdate p kind u = g.planUpdate p kind u := by
  rw [Graph.planUpdate, h.require]
  rfl

lemma planRemoval (p : CanonicalPath) : g.unindexed.planRemoval p = g.planRemoval p := by
  rw [Graph.planRemoval, h.require]
  rfl

lemma planLink (name : String) (source target : CanonicalPath) (properties : Properties) :
    g.unindexed.planLink name source target properties =
      g.planLink name source target properties := by
  rw [Graph.planLink, h.require, h.require]
  rfl

lemma planUnlink (name : String) (source target : CanonicalPath) :
    g.unindexed.planUnlink name source target = g.planUnlink name source target := by
  rw [Graph.planUnlink, h.locate?, h.locate?]
  rfl

lemma planRelationUpdate (id : String) (properties : Properties) :
    g.unindexed.planRelationUpdate id properties = g.planRelationUpdate id properties := by
  rw [Graph.planRelationUpdate, h.requireRelation, Graph.planRelationUpdate]

lemma planRelationRemoval (id : String) :
    g.unindexed.planRelationRemoval id = g.planRelationRemoval id := by
  rw [Graph.planRelationRemoval, h.requireRelation, Graph.planRelationRemoval]

end Faithful

end Graph

/-! ## Edits -/

/-- A transaction on the graph without its indexes. -/
def Transaction.unindexed (t : Transaction) : Transaction :=
  { t with graph := t.graph.unindexed }

/-- A draft on the graph without its indexes. -/
def Draft.unindexed (d : Draft) : Draft :=
  { d with transaction := d.transaction.unindexed }

namespace Edit

variable {α : Type} {d : Draft}

/-- **An edit ignores indexes.** -/
abbrev IgnoresIndexes (e : Edit α) (d : Draft) : Prop :=
  Work.Ignores Draft.unindexed e d

lemma check_ignores {f : Graph → Except RegistryError α}
    (h : f d.transaction.graph.unindexed = f d.transaction.graph) : (check f).IgnoresIndexes d := by
  show check f d.unindexed = Work.seen Draft.unindexed (check f d)
  rw [check, check, show d.unindexed.transaction.graph = d.transaction.graph.unindexed from rfl, h]
  cases f d.transaction.graph <;> rfl

lemma freshId_ignores (d : Draft) : freshId.IgnoresIndexes d := rfl

lemma mutate_ignores (m : Mutation α) (d : Draft) : (mutate m).IgnoresIndexes d := by
  show mutate m d.unindexed = Work.seen Draft.unindexed (mutate m d)
  have hrun : m.run d.unindexed.transaction.graph = _ := m.run_unindexed d.transaction.graph
  rw [mutate, mutate, Transaction.mutate, Transaction.mutate, hrun]
  cases m.run d.transaction.graph <;> rfl

lemma addRelation_ignores (name : String) (source target : VertexId) (properties : Properties)
    (d : Draft) : (addRelation name source target properties).IgnoresIndexes d :=
  .bind (freshId_ignores d) fun _ _ _ => mutate_ignores _ _

lemma attach_ignores (v : VertexId) (a : Attachment) (d : Draft) :
    (attach v a).IgnoresIndexes d := by
  rw [attach]
  split
  · exact .discard (addRelation_ignores _ _ _ _ _)
  · exact .discard (addRelation_ignores _ _ _ _ _)

/-- A relationship is read back from its edge, and not looked up. -/
lemma readBack_ignores (e : EdgeId) (id : String) (d : Draft) :
    (readBack e id).IgnoresIndexes d :=
  check_ignores rfl

end Edit

/-- **An operation does the same with indexes and without.**  All that it looks up is looked up for
its plan, before it changes anything. -/
theorem Operation.ignores_indexes (op : Operation) {d : Draft}
    (h : d.transaction.graph.Faithful) : op.edit.IgnoresIndexes d := by
  cases op with
  | create parent b =>
      refine .bind (Edit.check_ignores (h.planCreation parent b)) fun c d' _ => ?_
      refine .bind ?_ fun _ _ _ => .pure _ _
      exact .bind (Edit.mutate_ignores _ _) fun v d'' _ => .forM (Edit.attach_ignores v) _ _
  | update p kind u =>
      refine .bind (Edit.check_ignores (h.planUpdate p kind u)) fun r d' _ => ?_
      refine .bind (.forM (fun key d => .discard (Edit.mutate_ignores _ d)) _ _) fun _ d'' _ => ?_
      exact .forM (fun kv d => Edit.mutate_ignores _ d) _ _
  | delete p =>
      refine .bind (Edit.check_ignores (h.planRemoval p)) fun r d' _ => ?_
      exact .bind (.forM (fun v d => Edit.mutate_ignores _ d) _ _) fun _ _ _ => .pure _ _
  | link name source target properties =>
      have hplan := h.planLink name source target properties
      refine .bind (Edit.check_ignores hplan) fun ends d' _ => ?_
      exact .bind (Edit.addRelation_ignores _ _ _ _ _) fun e d'' _ => Edit.readBack_ignores _ _ _
  | unlink name source target =>
      exact .bind (Edit.check_ignores (h.planUnlink name source target)) fun e d' _ =>
        Edit.mutate_ignores _ _
  | updateRelation id properties =>
      refine .bind (Edit.check_ignores (h.planRelationUpdate id properties)) fun found d' _ => ?_
      refine .bind (.forM (fun key d => .discard (Edit.mutate_ignores _ d)) _ _) fun _ d'' _ => ?_
      exact .bind (.forM (fun kv d => Edit.mutate_ignores _ d) _ _) fun _ _ _ =>
        Edit.readBack_ignores _ _ _
  | deleteRelation id =>
      exact .bind (Edit.check_ignores (h.planRelationRemoval id)) fun e d' _ =>
        Edit.mutate_ignores _ _

end Estate
