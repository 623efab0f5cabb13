import Estate.Proofs.Inventory.Run
import Estate.Proofs.Registry.Fields

/-!
# What operations keep is so everywhere

Whatever an inventory is asked for, all that is ever done to a graph is an operation of the registry
in some transaction.  So what every operation keeps is true of all graphs that can be looked at.

* `Request.operation?` — the operation that a request asks for.
* `Edit.Keeps` — something is still so after an edit that is carried out.
* **`Request.everywhere`**, `Inventory.run_everywhere` — one request, and all requests.
* `Inventory.run_empty_fielded` — what is stored for entities fits their kinds.
-/

namespace Estate

/-- The operation that a request asks for, in a transaction of its own or in the open bulk. -/
def Request.operation? : Request → Option Operation
  | create parent b | bulkCreate parent b => some (.create parent b)
  | update p u => some (.update p p.kind u)
  | delete p => some (.delete p)
  | link name source target properties | bulkLink name source target properties =>
      some (.link name source target properties)
  | linkWith p name other .outgoing properties => some (.link name p other properties)
  | linkWith p name other .incoming properties => some (.link name other p properties)
  | linkWith _ _ _ .both _ => none
  | unlink name source target => some (.unlink name source target)
  | updateRelation id properties => some (.updateRelation id properties)
  | deleteRelation id => some (.deleteRelation id)
  | openBulk | commitBulk | dropBulk | read _ | peekBulk _ => none

/-- Something is still so after an edit that is carried out. -/
def Edit.Keeps {α : Type} (e : Edit α) (P : Graph → Prop) : Prop :=
  ∀ d a d', d.Consistent → P d.transaction.graph → e d = .ok a d' → P d'.transaction.graph

namespace Inventory

variable {α : Type} {e : Edit α} {P : Graph → Prop} {i j : Inventory}

/-- Without a bulk, only the shared graph is shown. -/
lemma Everywhere.of_store (free : i.bulk = none) (h : P i.store.graph) : i.Everywhere P := by
  intro g hg
  cases hg with
  | committed => exact h
  | bulk hopened => cases free.symm.trans hopened

/-- The shared graph is shown, and if a bulk is open, so is its graph. -/
lemma Everywhere.of_bulk {t : Transaction} {created : List CanonicalPath}
    (opened : i.bulk = some ⟨some t, created⟩) (h : P i.store.graph) (ht : P t.graph) :
    i.Everywhere P := by
  intro g hg
  cases hg with
  | committed => exact h
  | bulk hopened =>
      cases opened.symm.trans hopened
      exact ht

/-- If the bulk has come to nothing or there is none, only the shared graph is shown. -/
lemma Everywhere.of_ended (ended : ∀ t created, i.bulk ≠ some ⟨some t, created⟩)
    (h : P i.store.graph) : i.Everywhere P := by
  intro g hg
  cases hg with
  | committed => exact h
  | bulk hopened => exact absurd hopened (ended _ _)

end Inventory

namespace Service

open Inventory

variable {α : Type} {e : Edit α} {P : Graph → Prop} {i : Inventory}

/-- What is carried out in a transaction keeps what the edit keeps. -/
lemma runIn_keeps {t t' : Transaction} {s s' : Supply} {a : α}
    (hrun : e.runIn t s = (.ok a, t', s')) (hk : e.Keeps P) (hwf : t.graph.WellFormed)
    (hsound : t.graph.contents.Sound) (h : P t.graph) : P t'.graph := by
  rw [Edit.runIn] at hrun
  split at hrun
  · next b d hok =>
      cases hrun
      exact hk ⟨t, s⟩ a d ⟨hwf, hsound⟩ h hok
  · cases hrun

lemma transact_everywhere (hk : e.Keeps P) (hi : i.Consistent) (h : i.Everywhere P) :
    ((transact e).leaves i).Everywhere P := by
  obtain ⟨hwf, hsound⟩ := hi _ .committed
  rw [leaves, transact]
  cases hbulk : i.bulk with
  | some b => exact h
  | none =>
      rcases hrun : e.runIn i.store.begin i.supply with ⟨err | a, t', s'⟩
      · exact .of_store rfl (h _ .committed)
      · have hkept := runIn_keeps hrun hk hwf hsound (h _ .committed)
        dsimp only
        cases hcommit : i.store.commit t' with
        | error err => exact .of_store rfl (h _ .committed)
        | ok store =>
            rcases graph_of_commit hcommit with hgraph | rfl
            · exact .of_store rfl (hgraph ▸ hkept)
            · exact .of_store rfl (h _ .committed)

lemma inBulk_everywhere {created : α → List CanonicalPath} (hk : e.Keeps P) (hi : i.Consistent)
    (h : i.Everywhere P) : ((inBulk e created).leaves i).Everywhere P := by
  rw [leaves, inBulk]
  rcases hbulk : i.bulk with _ | ⟨_ | t, before⟩
  · exact h
  · exact h
  · obtain ⟨hwf, hsound⟩ := hi _ (.bulk hbulk)
    rcases hrun : e.runIn t i.supply with ⟨err | a, t', s'⟩
    · simp only [hrun]
      exact .of_ended (fun _ _ => by simp) (h _ .committed)
    · simp only [hrun]
      exact .of_bulk rfl (h _ .committed) (runIn_keeps hrun hk hwf hsound (h _ (.bulk hbulk)))

lemma openBulk_everywhere (h : i.Everywhere P) : (openBulk.leaves i).Everywhere P := by
  rw [leaves, openBulk]
  cases hbulk : i.bulk with
  | some b => exact h
  | none => exact .of_bulk rfl (h _ .committed) (h _ .committed)

lemma commitBulk_everywhere (h : i.Everywhere P) : (commitBulk.leaves i).Everywhere P := by
  rw [leaves, commitBulk]
  rcases hbulk : i.bulk with _ | ⟨_ | t, created⟩
  · exact h
  · exact .of_store rfl (h _ .committed)
  · dsimp only
    cases hcommit : i.store.commit t with
    | error err => exact .of_store rfl (h _ .committed)
    | ok store =>
        rcases graph_of_commit hcommit with hgraph | rfl
        · exact .of_store rfl (hgraph ▸ h _ (.bulk hbulk))
        · exact .of_store rfl (h _ .committed)

lemma dropBulk_everywhere (h : i.Everywhere P) : (dropBulk.leaves i).Everywhere P := by
  rw [leaves, dropBulk]
  cases i.bulk with
  | none => exact h
  | some b => exact .of_store rfl (h _ .committed)

end Service

namespace Request

variable {P : Graph → Prop} {i : Inventory}

/-- **What the operation that is asked for keeps is so everywhere afterwards.** -/
theorem everywhere (r : Request) (hk : ∀ op, r.operation? = some op → op.edit.Keeps P)
    (hi : i.Consistent) (h : i.Everywhere P) : (r.leaves i).Everywhere P := by
  cases r with
  | create parent b => exact Service.transact_everywhere (hk _ rfl) hi h
  | update p u => exact Service.transact_everywhere (hk _ rfl) hi h
  | delete p => exact Service.transact_everywhere (hk _ rfl) hi h
  | link name source target properties => exact Service.transact_everywhere (hk _ rfl) hi h
  | linkWith p name other direction properties =>
      cases direction with
      | outgoing => exact Service.transact_everywhere (hk _ rfl) hi h
      | incoming => exact Service.transact_everywhere (hk _ rfl) hi h
      | both => exact h
  | unlink name source target => exact Service.transact_everywhere (hk _ rfl) hi h
  | updateRelation id properties => exact Service.transact_everywhere (hk _ rfl) hi h
  | deleteRelation id => exact Service.transact_everywhere (hk _ rfl) hi h
  | openBulk => exact Service.openBulk_everywhere h
  | bulkCreate parent b => exact Service.inBulk_everywhere (hk _ rfl) hi h
  | bulkLink name source target properties => exact Service.inBulk_everywhere (hk _ rfl) hi h
  | commitBulk => exact Service.commitBulk_everywhere h
  | dropBulk => exact Service.dropBulk_everywhere h
  | read f =>
      rw [leaves, Service.read_leaves]
      exact h
  | peekBulk f =>
      rw [leaves, Service.peekBulk_leaves]
      exact h

end Request

namespace Inventory

variable {P : Graph → Prop} {o : Contents × Supply}

theorem run_everywhere (ho : o.1.Sound) : ∀ (requests : List Request) {i : Inventory},
    (∀ r ∈ requests, ∀ op, r.operation? = some op → op.edit.Keeps P) → i.From o →
      i.Everywhere P → (i.run requests).Everywhere P
  | [], _, _, _, h => h
  | r :: requests, _, hk, hfrom, h => by
      have hi := hfrom.consistent ho
      exact run_everywhere ho requests (fun r' hr => hk r' (List.mem_cons_of_mem r hr))
        ((r.step hi).from hfrom) (r.everywhere (hk r List.mem_cons_self) hi h)

/-- What is stored for entities fits their kinds, in every state that requests lead to. -/
theorem run_empty_fielded (config : Config) (supply : Supply) (requests : List Request) :
    ((empty config supply).run requests).Everywhere fun g => g.contents.Fielded := by
  have hstart : (empty config supply).Everywhere fun g => g.contents.Fielded := by
    refine .of_store rfl ?_
    rw [show (empty config supply).store.graph.contents = .nothing from Graph.contents_empty _ _]
    exact Contents.fielded_nothing
  exact run_everywhere Contents.sound_nothing requests
    (fun _ _ op _ _ _ _ hd hfielded hrun => op.fielded hd hfielded hrun)
    (empty_from config supply) hstart

end Inventory

end Estate
