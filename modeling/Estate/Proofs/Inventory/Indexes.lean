import Estate.Proofs.Inventory.Run
import Estate.Proofs.Query.Unindexed

/-!
# The choice of indexes

Which property names are indexed is a setting, and nothing but speed depends on it.  Two inventories
that are set up with different indexes and asked for the same answer the same, and they number what
they store alike, however long they are asked.

* `Look`, `Call` — all that an inventory can be asked for, with the types of the answers.
* `Call.steps` — a call takes an inventory one step further.
* `Inventory.unindexed` — what is left of an inventory without its indexes.
* **`Call.ignores_indexes`** — a call does the same with indexes and without.
* `Inventory.after_unindexed` — so do calls one after the other.
* **`Inventory.indexes_unobservable`** — two choices of indexes are not told apart.
-/

namespace Estate

/-! ## Looking -/

/-- What can be read off the graph of an inventory. -/
inductive Look
  | contains (p : CanonicalPath)
  | entity (p : CanonicalPath)
  | relation (id : String)
  | page (s : Selection) (p : Pager)
  | all (s : Selection)
  | first (s : Selection)
  | paths (s : Selection)
  /-- The numbers of the elements that a query reaches. -/
  | elements (q : Query)

namespace Look

/-- The type of what is read. -/
def Answer : Look → Type
  | contains _ => Bool
  | entity _ => Item
  | relation _ => Relationship
  | page _ _ => Page Item
  | all _ => List Item
  | first _ => Option Item
  | paths _ => List CanonicalPath
  | elements _ => Reach

/-- The operation of the inventory. -/
def service : (l : Look) → Service l.Answer
  | contains p => Service.contains p
  | entity p => Service.entity p
  | relation id => Service.relation id
  | page s p => Service.page s p
  | all s => Service.all s
  | first s => Service.first? s
  | paths s => Service.paths s
  | elements q => Service.read fun g => .ok (q.elements Digest.md5 g)

/-- What is read off a graph.  No page exceeds the limit. -/
def see (limit : UInt64) (g : Graph) : (l : Look) → Except RegistryError l.Answer
  | contains p => .ok (g.locate? p).isSome
  | entity p => g.entityAt p
  | relation id => g.relation id
  | page s p => s.page Digest.md5 limit p g
  | all s => s.all Digest.md5 limit g
  | first s => s.first? Digest.md5 limit g
  | paths s => .ok (s.paths Digest.md5 g)
  | elements q => .ok (q.elements Digest.md5 g)

/-- All looks are reads. -/
lemma service_eq (l : Look) (i : Inventory) :
    l.service i = Service.read (fun g => l.see i.config.maxPageSize g) i := by
  cases l <;> rfl

lemma leaves_eq (l : Look) (i : Inventory) : l.service.leaves i = i := by
  rw [Service.leaves, service_eq]
  exact Service.read_leaves _ i

/-- **The same is read** off a graph with indexes and without. -/
lemma see_unindexed {g : Graph} (h : g.Faithful) (limit : UInt64) (l : Look) :
    l.see limit g.unindexed = l.see limit g := by
  cases l with
  | contains p => exact congrArg (fun found => Except.ok found.isSome) (h.locate? p)
  | entity p => exact h.entityAt p
  | relation id => exact h.relation id
  | page s p => exact s.page_unindexed Digest.md5 h limit p
  | all s => exact s.all_unindexed Digest.md5 h limit
  | first s => exact s.first?_unindexed Digest.md5 h limit
  | paths s => exact congrArg Except.ok (s.paths_unindexed Digest.md5 h)
  | elements q => exact congrArg Except.ok (q.elements_unindexed Digest.md5 h)

end Look

/-! ## Calls -/

/-- What an inventory may be asked for. -/
inductive Call
  | look (l : Look)
  | get (p : CanonicalPath)
  /-- A page of what a traversal reaches. -/
  | traverse (text : String) (origin : Option CanonicalPath) (p : Pager)
  /-- An operation of the registry, in a transaction of its own. -/
  | change (op : Operation)
  | linkWith (p : CanonicalPath) (name : String) (other : CanonicalPath) (direction : Direction)
      (properties : Properties)
  | openBulk
  | bulkCreate (parent : Option CanonicalPath) (b : Blueprint)
  | bulkLink (name : String) (source target : CanonicalPath) (properties : Properties)
  | bulkPeek (wanted : Wanted) (p : CanonicalPath)
  | commitBulk
  | dropBulk

namespace Call

/-- The type of what a call returns. -/
def Answer : Call → Type
  | look l => l.Answer
  | get _ => Item
  | traverse _ _ _ => Page Item
  | change op => op.Answer
  | linkWith _ _ _ _ _ | bulkLink _ _ _ _ => Relationship
  | openBulk | dropBulk => Unit
  | bulkCreate _ _ => CanonicalPath
  | bulkPeek _ _ => Option Item
  | commitBulk => List CanonicalPath

/-- The operation of the inventory. -/
def service : (c : Call) → Service c.Answer
  | look l => l.service
  | get p => Service.get p
  | traverse text origin p => do
      Service.page (← Service.ofCheck (Selection.traversal text origin)) p
  | change op => Service.transact op.edit
  | linkWith p name other direction properties =>
      Service.linkWith p name other direction properties
  | openBulk => Service.openBulk
  | bulkCreate parent b => Service.bulkCreate parent b
  | bulkLink name source target properties => Service.bulkLink name source target properties
  | bulkPeek wanted p => Service.bulkPeek wanted p
  | commitBulk => Service.commitBulk
  | dropBulk => Service.dropBulk

/-- What a call returns. -/
def answer (c : Call) (i : Inventory) : Except ServiceError c.Answer :=
  match c.service i with
  | .ok a _ => .ok a
  | .error e _ => .error e

end Call

namespace Service

variable {α β : Type} {i : Inventory}

/-- To read and then to read more changes nothing. -/
lemma bind_leaves {x : Service α} {f : α → Service β} (hx : x.leaves i = i)
    (hf : ∀ a, (f a).leaves i = i) : (x >>= f).leaves i = i := by
  cases hrun : x i with
  | ok a j =>
      obtain rfl : j = i := (leaves_ok hrun).symm.trans hx
      rw [leaves, Work.bind_ok hrun]
      exact hf a
  | error e j =>
      rw [leaves, Work.bind_error hrun]
      exact (leaves_error hrun).symm.trans hx

lemma ofCheck_leaves (r : Except RegistryError α) (i : Inventory) : (ofCheck r).leaves i = i := by
  cases r <;> rfl

end Service

/-- **A call takes an inventory one step further.** -/
theorem Call.steps (c : Call) : c.service.Steps := by
  cases c with
  | look l => exact .of_leaves_eq l.leaves_eq
  | get p =>
      refine .of_leaves_eq fun i => Service.bind_leaves ((Look.all _).leaves_eq i) fun items => ?_
      cases items.head? <;> rfl
  | traverse text origin p =>
      exact .of_leaves_eq fun i => Service.bind_leaves (Service.ofCheck_leaves _ i) fun s =>
        (Look.page s p).leaves_eq i
  | change op => exact Service.transact_steps op.decided.orderly
  | linkWith p name other direction properties =>
      exact Service.linkWith_steps p name other direction properties
  | openBulk => exact Service.openBulk_steps
  | bulkCreate parent b => exact Service.inBulk_steps (Edit.create_decided parent b).orderly
  | bulkLink name source target properties =>
      exact Service.inBulk_steps (Edit.link_decided name source target properties).orderly
  | bulkPeek wanted p => exact .of_leaves_eq (Service.peekBulk_leaves fun g => g.peek wanted p)
  | commitBulk => exact Service.commitBulk_steps
  | dropBulk => exact Service.dropBulk_steps

/-! ## Without indexes -/

/-- A store without its indexes. -/
def Store.unindexed (s : Store) : Store :=
  { s with graph := s.graph.unindexed }

/-- A bulk on the graph without its indexes. -/
def Bulk.unindexed (b : Bulk) : Bulk :=
  { b with transaction := b.transaction.map Transaction.unindexed }

/-- **What is left of an inventory without its indexes**: neither the shared graph nor that of the
open bulk has any, and the settings ask for none. -/
def Inventory.unindexed (i : Inventory) : Inventory where
  config := { i.config with vertexKeys := [], edgeKeys := [] }
  store := i.store.unindexed
  supply := i.supply
  bulk := i.bulk.map Bulk.unindexed

/-- Whether a transaction can be committed does not depend on the graph. -/
lemma Store.commit_unindexed (s : Store) (t : Transaction) :
    s.unindexed.commit t.unindexed = (s.commit t).map Store.unindexed := by
  show (if t.dirty then if s.version = t.base then _ else _ else _) = Except.map _ (s.commit t)
  rw [commit]
  split_ifs <;> rfl

namespace Service

variable {α : Type} {i : Inventory} {e : Edit α}

/-- **An operation ignores indexes.** -/
abbrev IgnoresIndexes (x : Service α) (i : Inventory) : Prop :=
  Work.Ignores Inventory.unindexed x i

lemma ofCheck_ignores (r : Except RegistryError α) (i : Inventory) :
    (ofCheck r).IgnoresIndexes i := by
  cases r <;> rfl

lemma read_ignores {f : Graph → Except RegistryError α}
    (h : f i.store.graph.unindexed = f i.store.graph) : (read f).IgnoresIndexes i := by
  show read f i.unindexed = Work.seen Inventory.unindexed (read f i)
  obtain ⟨config, store, supply, bulk⟩ := i
  cases bulk with
  | some b => rfl
  | none => exact (congrArg (ofCheck · _) h).trans (ofCheck_ignores _ _)

lemma peekBulk_ignores {f : Graph → Except RegistryError α}
    (h : ∀ t created, i.bulk = some ⟨some t, created⟩ → f t.graph.unindexed = f t.graph) :
    (peekBulk f).IgnoresIndexes i := by
  show peekBulk f i.unindexed = Work.seen Inventory.unindexed (peekBulk f i)
  obtain ⟨config, store, supply, bulk⟩ := i
  rcases bulk with _ | ⟨_ | t, created⟩
  · rfl
  · rfl
  · exact (congrArg (ofCheck · _) (h t created rfl)).trans (ofCheck_ignores _ _)

/-- What an edit returns and leaves in a transaction. -/
lemma runIn_unindexed {t : Transaction} {s : Supply} (h : e.IgnoresIndexes ⟨t, s⟩) :
    e.runIn t.unindexed s =
      ((e.runIn t s).1, (e.runIn t s).2.1.unindexed, (e.runIn t s).2.2) := by
  have hrun : e ⟨t.unindexed, s⟩ = Work.seen Draft.unindexed (e ⟨t, s⟩) := h
  rw [Edit.runIn, hrun, Edit.runIn]
  cases e ⟨t, s⟩ <;> rfl

lemma transact_ignores (h : e.IgnoresIndexes ⟨i.store.begin, i.supply⟩) :
    (transact e).IgnoresIndexes i := by
  show transact e i.unindexed = Work.seen Inventory.unindexed (transact e i)
  obtain ⟨config, store, supply, bulk⟩ := i
  cases bulk with
  | some b => rfl
  | none =>
      have hrun : e.runIn store.unindexed.begin supply = _ := runIn_unindexed h
      simp only [transact, Inventory.unindexed, Option.map_none, hrun]
      rcases e.runIn store.begin supply with ⟨err | a, t, s⟩
      · rfl
      · simp only [Store.commit_unindexed]
        cases store.commit t <;> rfl

lemma inBulk_ignores {created : α → List CanonicalPath}
    (h : ∀ t before, i.bulk = some ⟨some t, before⟩ → e.IgnoresIndexes ⟨t, i.supply⟩) :
    (inBulk e created).IgnoresIndexes i := by
  show inBulk e created i.unindexed = Work.seen Inventory.unindexed (inBulk e created i)
  obtain ⟨config, store, supply, bulk⟩ := i
  rcases bulk with _ | ⟨_ | t, before⟩
  · rfl
  · rfl
  · have hrun : e.runIn t.unindexed supply = _ := runIn_unindexed (h t before rfl)
    simp only [inBulk, Inventory.unindexed, Option.map_some, Bulk.unindexed, hrun]
    rcases e.runIn t supply with ⟨err | a, t', s⟩ <;> rfl

lemma openBulk_ignores (i : Inventory) : openBulk.IgnoresIndexes i := by
  obtain ⟨config, store, supply, bulk⟩ := i
  cases bulk <;> rfl

lemma commitBulk_ignores (i : Inventory) : commitBulk.IgnoresIndexes i := by
  show commitBulk i.unindexed = Work.seen Inventory.unindexed (commitBulk i)
  obtain ⟨config, store, supply, bulk⟩ := i
  rcases bulk with _ | ⟨_ | t, created⟩
  · rfl
  · rfl
  · simp only [commitBulk, Inventory.unindexed, Option.map_some, Bulk.unindexed,
      Store.commit_unindexed]
    cases store.commit t <;> rfl

lemma dropBulk_ignores (i : Inventory) : dropBulk.IgnoresIndexes i := by
  obtain ⟨config, store, supply, bulk⟩ := i
  cases bulk <;> rfl

end Service

namespace Call

variable {i : Inventory}

lemma look_ignores (h : i.store.graph.Faithful) (l : Look) : l.service.IgnoresIndexes i := by
  show l.service i.unindexed = Work.seen Inventory.unindexed (l.service i)
  rw [l.service_eq, l.service_eq]
  exact Service.read_ignores (l.see_unindexed h _)

/-- **A call does the same with indexes and without.** -/
theorem ignores_indexes (c : Call) (h : i.Everywhere Graph.Faithful) :
    c.service.IgnoresIndexes i := by
  have hstore := h _ .committed
  have hbulk : ∀ t created, i.bulk = some ⟨some t, created⟩ → t.graph.Faithful :=
    fun t created hopened => h _ (.bulk hopened)
  cases c with
  | look l => exact look_ignores hstore l
  | get p =>
      refine .bind (look_ignores hstore (.all _)) fun items j _ => ?_
      cases items.head? <;> rfl
  | traverse text origin p =>
      refine .bind (Service.ofCheck_ignores _ i) fun s j hcheck => ?_
      obtain rfl : i = j := (Service.ofCheck_leaves _ i).symm.trans (Service.leaves_ok hcheck)
      exact look_ignores hstore (.page s p)
  | change op => exact Service.transact_ignores (op.ignores_indexes hstore)
  | linkWith p name other direction properties =>
      cases direction with
      | outgoing =>
          exact Service.transact_ignores
            ((Operation.link name p other properties).ignores_indexes hstore)
      | incoming =>
          exact Service.transact_ignores
            ((Operation.link name other p properties).ignores_indexes hstore)
      | both => rfl
  | openBulk => exact Service.openBulk_ignores i
  | bulkCreate parent b =>
      exact Service.inBulk_ignores fun t created hopened =>
        (Operation.create parent b).ignores_indexes (hbulk t created hopened)
  | bulkLink name source target properties =>
      exact Service.inBulk_ignores fun t created hopened =>
        (Operation.link name source target properties).ignores_indexes (hbulk t created hopened)
  | bulkPeek wanted p =>
      exact Service.peekBulk_ignores (f := fun g => g.peek wanted p) fun t created hopened =>
        (hbulk t created hopened).peek wanted p
  | commitBulk => exact Service.commitBulk_ignores i
  | dropBulk => exact Service.dropBulk_ignores i

lemma answer_unindexed (c : Call) (h : i.Everywhere Graph.Faithful) :
    c.answer i.unindexed = c.answer i := by
  rw [answer, answer, show c.service i.unindexed = _ from c.ignores_indexes h]
  cases c.service i <;> rfl

lemma leaves_unindexed (c : Call) (h : i.Everywhere Graph.Faithful) :
    c.service.leaves i.unindexed = (c.service.leaves i).unindexed := by
  rw [Service.leaves, Service.leaves, show c.service i.unindexed = _ from c.ignores_indexes h]
  cases c.service i <;> rfl

end Call

/-! ## One call after the other -/

namespace Inventory

variable {i : Inventory} {supply : Supply}

/-- What is left after some calls. -/
def after (i : Inventory) (calls : List Call) : Inventory :=
  calls.foldl (fun i c => c.service.leaves i) i

lemma From.after (calls : List Call) : ∀ {i : Inventory}, i.From (.nothing, supply) →
    (i.after calls).From (.nothing, supply) := by
  induction calls with
  | nil => exact fun h => h
  | cons c calls ih =>
      exact fun h => ih ((c.steps _ (h.consistent Contents.sound_nothing)).from h)

/-- Whatever has come from nothing can be seen without its indexes. -/
lemma From.faithful (h : i.From (.nothing, supply)) : i.Everywhere Graph.Faithful := by
  intro g hg
  obtain ⟨hwf, hsound⟩ := h.consistent Contents.sound_nothing g hg
  exact hwf.faithful hsound.toAddressed ((h g hg).2.labelled nofun)

/-- **Calls one after the other do the same with indexes and without.** -/
theorem after_unindexed (calls : List Call) : ∀ {i : Inventory}, i.From (.nothing, supply) →
    i.unindexed.after calls = (i.after calls).unindexed := by
  induction calls with
  | nil => exact fun _ => rfl
  | cons c calls ih =>
      intro i h
      show (c.service.leaves i.unindexed).after calls = ((c.service.leaves i).after calls).unindexed
      rw [c.leaves_unindexed h.faithful]
      exact ih ((c.steps i (h.consistent Contents.sound_nothing)).from h)

/-- **The choice of indexes is not observed.**  Two inventories that are set up with different
indexes and the same ids for relationships, and have been asked for the same, give the same answer
to whatever they are asked for next; and apart from the indexes they are the same, so that all they
store has the same numbers. -/
theorem indexes_unobservable (config : Config) (vertexKeys edgeKeys : List String)
    (supply : Supply) (calls : List Call) (c : Call) :
    let i := (empty config supply).after calls
    let j := (empty { config with vertexKeys, edgeKeys } supply).after calls
    c.answer i = c.answer j ∧ i.unindexed = j.unindexed := by
  intro i j
  have hi := empty_from config supply
  have hj := empty_from { config with vertexKeys, edgeKeys } supply
  have hsame : i.unindexed = j.unindexed :=
    (after_unindexed calls hi).symm.trans (after_unindexed calls hj)
  refine ⟨?_, hsame⟩
  calc c.answer i
    _ = c.answer i.unindexed := (c.answer_unindexed (hi.after calls).faithful).symm
    _ = c.answer j.unindexed := congrArg c.answer hsame
    _ = c.answer j := c.answer_unindexed (hj.after calls).faithful

end Inventory

end Estate
