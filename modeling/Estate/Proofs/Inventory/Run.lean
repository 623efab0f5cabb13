import Estate.Inventory.Entities
import Estate.Proofs.Registry.Delete
import Estate.Proofs.Registry.Relation

/-!
# Runs of an inventory

An inventory is asked for one operation after the other, and an operation that is refused leaves a
state behind just as one that is carried out.  Whatever is asked for, in whatever order, the shared
graph and the graph of the open bulk have come from the empty one by changes, so that every
invariant of changes holds of them.

* `Request`, `Inventory.run` — what may be asked for, and what is left in the end.
* `Inventory.Shows` — the graphs that can be looked at.
* `Inventory.Step` — what a request can do; **`Request.step`** — it does nothing else.
* **`Inventory.run_from`** — whatever is shown after a run has come from the origin by changes.
* `Inventory.run_rooted` — the open bulk has come from the shared graph by changes.
* `Inventory.Step.kept` — a step keeps addresses in the graph that is worked on.
-/

namespace Estate

/-- What an operation leaves behind, whether it is carried out or refused. -/
def Service.leaves {α : Type} (x : Service α) (i : Inventory) : Inventory :=
  match x i with
  | .ok _ j => j
  | .error _ j => j

namespace Service

variable {α : Type} {x : Service α} {i j : Inventory}

lemma leaves_ok {a : α} (h : x i = .ok a j) : x.leaves i = j := by
  rw [leaves, h]

lemma leaves_error {err : ServiceError} (h : x i = .error err j) : x.leaves i = j := by
  rw [leaves, h]

end Service

/-- What an inventory may be asked for. -/
inductive Request
  | create (parent : Option CanonicalPath) (b : Blueprint)
  | update (p : CanonicalPath) (u : Update)
  | delete (p : CanonicalPath)
  | link (name : String) (source target : CanonicalPath) (properties : Properties)
  | linkWith (p : CanonicalPath) (name : String) (other : CanonicalPath) (direction : Direction)
      (properties : Properties)
  | unlink (name : String) (source target : CanonicalPath)
  | updateRelation (id : String) (properties : Properties)
  | deleteRelation (id : String)
  | openBulk
  | bulkCreate (parent : Option CanonicalPath) (b : Blueprint)
  | bulkLink (name : String) (source target : CanonicalPath) (properties : Properties)
  | commitBulk
  | dropBulk
  /-- Any operation that only reads. -/
  | read (f : Graph → Except RegistryError Unit)
  /-- Any look at the graph of the open bulk. -/
  | peekBulk (f : Graph → Except RegistryError Unit)

/-- What a request leaves of an inventory. -/
def Request.leaves : Request → Inventory → Inventory
  | create parent b => (Service.create parent b).leaves
  | update p u => (Service.update p u).leaves
  | delete p => (Service.delete p).leaves
  | link name source target properties => (Service.link name source target properties).leaves
  | linkWith p name other direction properties =>
      (Service.linkWith p name other direction properties).leaves
  | unlink name source target => (Service.unlink name source target).leaves
  | updateRelation id properties => (Service.updateRelation id properties).leaves
  | deleteRelation id => (Service.deleteRelation id).leaves
  | openBulk => Service.openBulk.leaves
  | bulkCreate parent b => (Service.bulkCreate parent b).leaves
  | bulkLink name source target properties =>
      (Service.bulkLink name source target properties).leaves
  | commitBulk => Service.commitBulk.leaves
  | dropBulk => Service.dropBulk.leaves
  | read f => (Service.read f).leaves
  | peekBulk f => (Service.peekBulk f).leaves

namespace Inventory

/-- What is left after some requests. -/
def run (i : Inventory) (requests : List Request) : Inventory :=
  requests.foldl (fun i r => r.leaves i) i

/-- The graphs that can be looked at: what has been committed, and what an open bulk sees. -/
inductive Shows (i : Inventory) : Graph → Prop
  | committed : i.Shows i.store.graph
  | bulk {t : Transaction} {created : List CanonicalPath} (h : i.bulk = some ⟨some t, created⟩) :
      i.Shows t.graph

/-- Something is so in all graphs that can be looked at. -/
def Everywhere (i : Inventory) (P : Graph → Prop) : Prop :=
  ∀ g, i.Shows g → P g

/-- All graphs are well formed and what they store is sound. -/
def Consistent (i : Inventory) : Prop :=
  i.Everywhere fun g => g.WellFormed ∧ g.contents.Sound

/-! ## What a request can do -/

/-- **One step** of an inventory. -/
inductive Step (i : Inventory) : Inventory → Prop
  /-- Nothing is done. -/
  | stay : i.Step i
  /-- The shared graph is changed, or ids are drawn. -/
  | write {store : Store} {supply : Supply} (free : i.bulk = none)
      (wellFormed : store.graph.WellFormed)
      (changes : Changes (i.store.graph.contents, i.supply) (store.graph.contents, supply)) :
      i.Step { i with store, supply }
  /-- A bulk begins. -/
  | openBulk (free : i.bulk = none) : i.Step { i with bulk := some ⟨some i.store.begin, []⟩ }
  /-- The graph of the open bulk is changed. -/
  | writeBulk {t t' : Transaction} {created created' : List CanonicalPath} {supply : Supply}
      (opened : i.bulk = some ⟨some t, created⟩) (wellFormed : t'.graph.WellFormed)
      (changes : Changes (t.graph.contents, i.supply) (t'.graph.contents, supply)) :
      i.Step { i with bulk := some ⟨some t', created'⟩, supply }
  /-- The work of the open bulk is forgotten, with the bulk or without it. -/
  | forget {b : Option Bulk} (ended : ∀ t created, b ≠ some ⟨some t, created⟩) :
      i.Step { i with bulk := b }
  /-- The graph of the open bulk is shared. -/
  | commitBulk {t : Transaction} {created : List CanonicalPath} {store : Store}
      (opened : i.bulk = some ⟨some t, created⟩) (same : store.graph = t.graph) :
      i.Step { i with store, bulk := none }

end Inventory

namespace Service

variable {α : Type} {e : Edit α}

/-- An operation takes a consistent inventory one step further. -/
def Steps (x : Service α) : Prop :=
  ∀ i : Inventory, i.Consistent → i.Step (x.leaves i)

/-- An operation that leaves every inventory as it is. -/
lemma Steps.of_leaves_eq {x : Service α} (h : ∀ i, x.leaves i = i) : x.Steps := fun i _ => by
  rw [h i]
  exact .stay

/-- An orderly edit in a transaction. -/
lemma runIn_orderly {t : Transaction} {s : Supply} (he : e.Orderly) (hwf : t.graph.WellFormed)
    (h : t.graph.contents.Sound) :
    (∃ a t' s', e.runIn t s = (.ok a, t', s') ∧ t'.graph.WellFormed ∧
      Changes (t.graph.contents, s) (t'.graph.contents, s')) ∨
    ∃ err, e.runIn t s = (.error err, t, s) := by
  rcases he ⟨t, s⟩ ⟨hwf, h⟩ with ⟨a, d, hrun, hleads⟩ | ⟨err, hrun⟩
  · refine Or.inl ⟨a, d.transaction, d.supply, ?_, hleads.wellFormed, hleads.changes⟩
    rw [Edit.runIn, hrun]
  · refine Or.inr ⟨err, ?_⟩
    rw [Edit.runIn, hrun]

/-- After a commit the graph of the transaction is shared, or what was shared still is. -/
lemma graph_of_commit {s s' : Store} {t : Transaction} (h : s.commit t = .ok s') :
    s'.graph = t.graph ∨ s' = s := by
  rw [Store.commit] at h
  split at h
  · split at h
    · obtain rfl := Except.ok.inj h
      exact Or.inl rfl
    · cases h
  · exact Or.inr (Except.ok.inj h).symm

theorem transact_steps (he : e.Orderly) : (transact e).Steps := fun i hi => by
  obtain ⟨hwf, hsound⟩ := hi _ .committed
  rw [leaves, transact]
  cases hbulk : i.bulk with
  | some b => exact .stay
  | none =>
      rcases runIn_orderly (t := i.store.begin) (s := i.supply) he hwf hsound with
        ⟨a, t', s', hrun, hwf', hchanges⟩ | ⟨err, hrun⟩
      · -- Even if the commit fails, ids have been drawn.
        have hwaste : Changes (i.store.graph.contents, i.supply) (i.store.graph.contents, s') :=
          .single hchanges.wasted
        simp only [hrun]
        cases hcommit : i.store.commit t' with
        | error err => exact hbulk ▸ .write hbulk hwf hwaste
        | ok store =>
            rcases graph_of_commit hcommit with hgraph | rfl
            · exact hbulk ▸ .write hbulk (hgraph ▸ hwf') (hgraph ▸ hchanges)
            · exact hbulk ▸ .write hbulk hwf hwaste
      · simp only [hrun]
        exact hbulk ▸ .stay

theorem inBulk_steps {created : α → List CanonicalPath} (he : e.Orderly) :
    (inBulk e created).Steps := fun i hi => by
  rw [leaves, inBulk]
  rcases hbulk : i.bulk with _ | ⟨_ | t, before⟩
  · exact .stay
  · exact .stay
  · obtain ⟨hwf, hsound⟩ := hi _ (.bulk hbulk)
    rcases runIn_orderly (s := i.supply) he hwf hsound with
      ⟨a, t', s', hrun, hwf', hchanges⟩ | ⟨err, hrun⟩
    · simp only [hrun]
      exact .writeBulk hbulk hwf' hchanges
    · simp only [hrun]
      exact .forget nofun

lemma openBulk_steps : openBulk.Steps := fun i _ => by
  rw [leaves, openBulk]
  cases hbulk : i.bulk with
  | some b => exact .stay
  | none => exact .openBulk hbulk

lemma commitBulk_steps : commitBulk.Steps := fun i _ => by
  rw [leaves, commitBulk]
  rcases hbulk : i.bulk with _ | ⟨_ | t, created⟩
  · exact .stay
  · exact .forget nofun
  · dsimp only
    cases hcommit : i.store.commit t with
    | error err => exact .forget nofun
    | ok store =>
        rcases graph_of_commit hcommit with hgraph | rfl
        · exact .commitBulk hbulk hgraph
        · exact .forget nofun

lemma dropBulk_steps : dropBulk.Steps := fun i _ => by
  rw [leaves, dropBulk]
  cases i.bulk with
  | none => exact .stay
  | some b => exact .forget nofun

lemma ofCheck_steps (r : Except RegistryError α) : (ofCheck r).Steps :=
  .of_leaves_eq fun i => by cases r <;> rfl

lemma read_leaves (f : Graph → Except RegistryError α) (i : Inventory) : (read f).leaves i = i := by
  rw [leaves, read]
  cases i.bulk with
  | some b => rfl
  | none => cases f i.store.graph <;> rfl

lemma peekBulk_leaves (f : Graph → Except RegistryError α) (i : Inventory) :
    (peekBulk f).leaves i = i := by
  rw [leaves, peekBulk]
  rcases i.bulk with _ | ⟨_ | t, created⟩
  · rfl
  · rfl
  · dsimp only
    cases f t.graph <;> rfl

lemma linkWith_steps (p : CanonicalPath) (name : String) (other : CanonicalPath)
    (direction : Direction) (properties : Properties) :
    (linkWith p name other direction properties).Steps := by
  cases direction with
  | outgoing => exact transact_steps (Edit.link_decided name p other properties).orderly
  | incoming => exact transact_steps (Edit.link_decided name other p properties).orderly
  | both => exact ofCheck_steps (.error (.misuse (.needsDirection name)))

end Service

/-- **Every request takes an inventory one step further.** -/
theorem Request.step (r : Request) {i : Inventory} (hi : i.Consistent) : i.Step (r.leaves i) := by
  cases r with
  | create parent b => exact Service.transact_steps (Edit.create_decided parent b).orderly i hi
  | update p u => exact Service.transact_steps (Edit.update_decided p p.kind u).orderly i hi
  | delete p => exact Service.transact_steps (Edit.delete_decided p).orderly i hi
  | link name source target properties =>
      exact Service.transact_steps (Edit.link_decided name source target properties).orderly i hi
  | linkWith p name other direction properties =>
      exact Service.linkWith_steps p name other direction properties i hi
  | unlink name source target =>
      exact Service.transact_steps (Edit.unlink_decided name source target).orderly i hi
  | updateRelation id properties =>
      exact Service.transact_steps (Edit.updateRelation_decided id properties).orderly i hi
  | deleteRelation id => exact Service.transact_steps (Edit.deleteRelation_decided id).orderly i hi
  | openBulk => exact Service.openBulk_steps i hi
  | bulkCreate parent b => exact Service.inBulk_steps (Edit.create_decided parent b).orderly i hi
  | bulkLink name source target properties =>
      exact Service.inBulk_steps (Edit.link_decided name source target properties).orderly i hi
  | commitBulk => exact Service.commitBulk_steps i hi
  | dropBulk => exact Service.dropBulk_steps i hi
  | read f => exact Service.Steps.of_leaves_eq (Service.read_leaves f) i hi
  | peekBulk f => exact Service.Steps.of_leaves_eq (Service.peekBulk_leaves f) i hi

namespace Inventory

variable {i j : Inventory} {o : Contents × Supply}

/-! ## Where graphs come from -/

/-- Whatever is shown has come from an origin by changes. -/
def From (i : Inventory) (o : Contents × Supply) : Prop :=
  i.Everywhere fun g => g.WellFormed ∧ Changes o (g.contents, i.supply)

lemma From.consistent (h : i.From o) (ho : o.1.Sound) : i.Consistent := fun g hg =>
  ⟨(h g hg).1, (h g hg).2.sound ho⟩

/-- Without a bulk, only the shared graph is shown. -/
lemma From.of_store (free : i.bulk = none) (hwf : i.store.graph.WellFormed)
    (hchanges : Changes o (i.store.graph.contents, i.supply)) : i.From o := by
  intro g hg
  cases hg with
  | committed => exact ⟨hwf, hchanges⟩
  | bulk h => cases free.symm.trans h

/-- A step does not lose where graphs come from. -/
theorem Step.from (h : i.Step j) (hfrom : i.From o) : j.From o := by
  obtain ⟨hwf, hchanges⟩ := hfrom _ .committed
  cases h with
  | stay => exact hfrom
  | write free wellFormed changes => exact .of_store free wellFormed (hchanges.trans changes)
  | openBulk free =>
      intro g hg
      cases hg with
      | committed => exact ⟨hwf, hchanges⟩
      | bulk h =>
          cases h
          exact ⟨hwf, hchanges⟩
  | writeBulk opened wellFormed changes =>
      intro g hg
      cases hg with
      | committed => exact ⟨hwf, hchanges.tail changes.wasted⟩
      | bulk h =>
          cases h
          exact ⟨wellFormed, (hfrom _ (.bulk opened)).2.trans changes⟩
  | forget ended =>
      intro g hg
      cases hg with
      | committed => exact ⟨hwf, hchanges⟩
      | bulk h => exact absurd h (ended _ _)
  | commitBulk opened same =>
      obtain ⟨hwf', hchanges'⟩ := hfrom _ (.bulk opened)
      exact .of_store rfl (same ▸ hwf') (same ▸ hchanges')

/-- **Whatever is shown after a run has come from the origin by changes.** -/
theorem run_from (ho : o.1.Sound) : ∀ (requests : List Request) {i : Inventory}, i.From o →
    (i.run requests).From o
  | [], _, h => h
  | r :: requests, _, h => run_from ho requests ((r.step (h.consistent ho)).from h)

/-- What is shown has come from the shared graph by changes. -/
def Rooted (i : Inventory) : Prop :=
  ∃ s, i.From (i.store.graph.contents, s)

lemma Step.rooted (h : i.Step j) (hi : i.Rooted) : j.Rooted := by
  obtain ⟨s, hfrom⟩ := hi
  have hnext := h.from hfrom
  cases h with
  | write free wellFormed => exact ⟨_, .of_store free wellFormed .refl⟩
  | commitBulk => exact ⟨_, .of_store rfl (hnext _ .committed).1 .refl⟩
  | _ => exact ⟨s, hnext⟩

theorem run_rooted (ho : o.1.Sound) : ∀ (requests : List Request) {i : Inventory}, i.From o →
    i.Rooted → (i.run requests).Rooted
  | [], _, _, hi => hi
  | r :: requests, _, h, hi => by
      have hstep := r.step (h.consistent ho)
      exact run_rooted ho requests (hstep.from h) (hstep.rooted hi)

/-- The graph that the next request works on. -/
def current (i : Inventory) : Graph :=
  match i.bulk with
  | some ⟨some t, _⟩ => t.graph
  | _ => i.store.graph

/-- A step keeps the addresses in the graph that is worked on, or that graph is forgotten. -/
theorem Step.kept (h : i.Step j) :
    i.current.contents.KeepsAddresses j.current.contents ∨ j.current = i.store.graph := by
  cases h with
  | stay => exact Or.inl (.refl _)
  | write free wellFormed changes =>
      simp only [current, free]
      exact Or.inl changes.keepsAddresses
  | openBulk free => exact Or.inr rfl
  | writeBulk opened wellFormed changes =>
      simp only [current, opened]
      exact Or.inl changes.keepsAddresses
  | forget ended =>
      refine Or.inr ?_
      rw [current]
      split
      · next h => exact absurd h (ended _ _)
      · rfl
  | commitBulk opened same =>
      simp only [current, opened, same]
      exact Or.inl (.refl _)

/-! ## From the empty inventory on -/

variable (config : Config) (supply : Supply)

lemma empty_from : (empty config supply).From (.nothing, supply) := by
  refine .of_store rfl (Graph.wellFormed_empty _ _) ?_
  rw [show (empty config supply).store.graph.contents = .nothing from Graph.contents_empty _ _]
  exact .refl

variable (requests : List Request)

theorem run_empty_from : ((empty config supply).run requests).From (.nothing, supply) :=
  run_from Contents.sound_nothing requests (empty_from config supply)

/-- **Every inventory that can be reached is consistent.** -/
theorem run_empty_consistent : ((empty config supply).run requests).Consistent :=
  (run_empty_from config supply requests).consistent Contents.sound_nothing

theorem run_empty_rooted : ((empty config supply).run requests).Rooted :=
  run_rooted Contents.sound_nothing requests (empty_from config supply)
    ⟨supply, .of_store rfl (Graph.wellFormed_empty _ _) .refl⟩

end Inventory

end Estate
