import Estate.Proofs.Inventory.Undo
import Estate.Proofs.Inventory.Untouched

/-!
# The life of a relationship

A relationship begins with a link, under an id that nothing has had before.  From then on it is told
as the link has answered it, through whatever else is asked for.  It may be given other properties,
and it ends with a deletion of one of its ends, by being taken back, or by its id.  After that it
never comes back, since ids are drawn only once.

* `Inventory.Links`, `Inventory.Loses` — how a relationship comes and goes.
* `Inventory.Lives` — what is told of it in between, and after.
* **`Inventory.relationships_live_on`** — this is the life of every relationship, in every state.
-/

namespace Estate

namespace Inventory

open Service Work

/-- **A link is carried out**, as an operation of its own or in the open bulk.  The ledger notes
what is known then under the id of the relationship that it answers. -/
inductive Links (i : Inventory) (name : String) (source target : CanonicalPath)
    (properties : Properties) (r : Relationship) (j : Inventory) : Ledger → Prop
  | alone (h : Service.link name source target properties i = .ok r j) :
      i.Links name source target properties r j (.both (some r))
  | outgoing (h : Service.linkWith source name target .outgoing properties i = .ok r j) :
      i.Links name source target properties r j (.both (some r))
  | incoming (h : Service.linkWith target name source .incoming properties i = .ok r j) :
      i.Links name source target properties r j (.both (some r))
  | bulk (h : Service.bulkLink name source target properties i = .ok r j) :
      i.Links name source target properties r j ⟨none, some r⟩

/-- **A relationship ends**: with one of its ends, by being taken back, or by its id. -/
inductive Loses (i : Inventory) (r : Relationship) (j : Inventory) : Prop
  | source {p : CanonicalPath} {paths : List CanonicalPath}
      (h : Service.delete p i = .ok paths j) (covers : p.Covers r.source)
  | target {p : CanonicalPath} {paths : List CanonicalPath}
      (h : Service.delete p i = .ok paths j) (covers : p.Covers r.target)
  | unlink (h : Service.unlink r.name r.source r.target i = .ok () j)
  | byId (h : Service.deleteRelation r.id i = .ok () j)

/-- **The life of a relationship**, from an inventory on in which a ledger notes what is known of
it. -/
structure Lives (i : Inventory) (r : Relationship) (start : Ledger) : Prop where
  /-- Whatever is asked for, what the ledger notes is told. -/
  tells : ∀ later, (i.run later).Tells r.id (i.ledger later start)
  /-- It never notes anything but this relationship, with the same name and ends. -/
  follows : ∀ later, (i.ledger later start).Follows r
  /-- An update gives the relationship just the new properties, and is noted. -/
  updates : ∀ later properties x j,
    Service.updateRelation r.id properties (i.run later) = .ok x j →
      x = { r with properties } ∧ j.Tells r.id (.both (some x)) ∧
        i.ledger (later ++ [.updateRelation r.id properties]) start = .both (some x) ∧
        (i.run later).Touches r.id (fun _ => False) j
  /-- Until it is given other properties or ends, it is told as it was. -/
  stays : ∀ later more x, i.ledger later start = .both (some x) →
    (∀ q ∈ more, ∀ op, q.operation? = some op → op.Spares r) →
      (i.run (later ++ more)).Tells r.id (.both (some x))
  /-- Until it ends, it is told. -/
  lasts : ∀ later more x, i.ledger later start = .both (some x) →
    (∀ q ∈ more, ∀ op, q.operation? = some op → ¬ op.Ends r) →
      ∃ y, y.Rewords r ∧ (i.run (later ++ more)).Tells r.id (.both (some y))
  /-- After its end nothing is told of it any more. -/
  ends : ∀ later j, (i.run later).Loses r j → ∀ more, (j.run more).Tells r.id (.both none)

variable {i j : Inventory} {name : String} {source target : CanonicalPath}
  {properties : Properties} {r : Relationship} {start : Ledger} {supply : Supply}

/-! ## How a relationship begins -/

/-- Under the next id nothing is known yet, in any graph. -/
lemma Traceable.unknown (hi : i.Traceable) : i.Records i.supply.draw.1 (.both none) where
  shared := (hi _ .committed 0 false).identified.unknown (hi _ .committed 0 false).fresh
  bulk := fun _ _ opened =>
    (hi _ (.bulk opened) 0 false).identified.unknown (hi _ (.bulk opened) 0 false).fresh
  closed := fun _ => rfl

/-- A step of a bulk changes nothing of what is shared. -/
lemma store_of_inBulk {α : Type} {e : Edit α} {created : α → List CanonicalPath} {a : α}
    (h : Service.inBulk e created i = .ok a j) : j.store = i.store := by
  rw [Service.inBulk] at h
  split at h
  · cases h
  · cases h
  · split at h
    · cases h
    · cases h
      rfl

namespace Links

variable (h : i.Links name source target properties r j start)

include h

/-- It takes an inventory one step further. -/
lemma request : ∃ q : Request, q.leaves i = j := by
  cases h with
  | alone h => exact ⟨.link name source target properties, leaves_ok h⟩
  | outgoing h => exact ⟨.linkWith source name target .outgoing properties, leaves_ok h⟩
  | incoming h => exact ⟨.linkWith target name source .incoming properties, leaves_ok h⟩
  | bulk h => exact ⟨.bulkLink name source target properties, leaves_ok h⟩

/-- **A link is an edit of the graph that is worked on**, and what the ledger notes is known. -/
lemma edit (hi : i.Traceable) :
    ∃ t d, Edit.link name source target properties ⟨t, i.supply⟩ = .ok r d ∧ i.WorksOn t.graph ∧
      j.WorksOn d.transaction.graph ∧ j.Records r.id start := by
  have halone (h : Service.link name source target properties i = .ok r j) :
      ∃ t d, Edit.link name source target properties ⟨t, i.supply⟩ = .ok r d ∧
        i.WorksOn t.graph ∧ j.WorksOn d.transaction.graph ∧
          j.Records r.id (.both (some r)) := by
    obtain ⟨free, free', d, hedit, hgraph⟩ :=
      edit_of_transact (Edit.link_composed name source target properties).blind h
    refine ⟨_, d, hedit, .alone free, hgraph ▸ .alone free', .of_free free' ?_⟩
    rw [hgraph]
    exact Edit.link_knows (hi _ .committed _ _) hedit
  cases h with
  | alone h => exact halone h
  | outgoing h => exact halone h
  | incoming h => exact halone h
  | bulk h =>
      obtain ⟨t, before, d, after, opened, hedit, opened'⟩ := edit_of_inBulk h
      have htraced : Draft.Traceable ⟨t, i.supply⟩ := hi _ (.bulk opened) t.base t.dirty
      obtain ⟨hr, -⟩ := Edit.link_adds htraced.consistent hedit
      have hid : r.id = i.supply.draw.1 := by rw [hr]
      refine ⟨t, d, hedit, .bulk opened, .bulk opened', ?_, ?_, fun free => ?_⟩
      · rw [store_of_inBulk h, hid]
        exact hi.unknown.shared
      · intro t' created hopened
        cases opened'.symm.trans hopened
        exact Edit.link_knows htraced hedit
      · cases opened'.symm.trans free

lemma follows : start.Follows r := by
  have hsame : ∀ x, some r = some x → x.Rewords r := by
    rintro x ⟨⟩
    rfl
  cases h with
  | bulk => exact ⟨nofun, hsame⟩
  | _ => exact Ledger.follows_both hsame

end Links

/-! ## How it goes on -/

/-- What ends a relationship is an operation of its own. -/
lemma Loses.operation (h : i.Loses r j) :
    ∃ (op : Operation) (a : op.Answer), op.Ends r ∧ transact op.edit i = .ok a j := by
  cases h with
  | source h covers => exact ⟨_, _, .source covers, h⟩
  | target h covers => exact ⟨_, _, .target covers, h⟩
  | unlink h => exact ⟨_, _, .unlink, h⟩
  | byId h => exact ⟨_, _, .byId, h⟩

namespace Keeps

variable {l : Ledger} {x : Relationship} {o : Option Relationship} {id : String}

/-- What no operation that is asked for changes of the notes is told in the end. -/
lemma tells_after {P : Option Relationship → Prop} (h : i.Keeps supply id (.both o))
    (more : List Request) (hkept : ∀ q ∈ more, ∀ op, q.operation? = some op →
      ∀ o, P o → P (o.bind op.becomes)) (ho : P o) :
    ∃ o', P o' ∧ (i.run more).Tells id (.both o') := by
  obtain ⟨o', hledger, ho'⟩ := Ledger.run_both more hkept ho
  have hlast := h.run more
  rw [hledger] at hlast
  exact ⟨o', ho', hlast.records.tells hlast.traceable⟩

/-- **An update gives a relationship just the new properties**, and changes no more than that. -/
lemma update (h : i.Keeps supply r.id l) (hfollows : l.Follows r)
    (hrun : Service.updateRelation r.id properties i = .ok x j) :
    x = { r with properties } ∧
      l.shared.bind (Operation.updateRelation r.id properties).becomes = some x ∧
        i.Touches r.id (fun _ => False) j := by
  obtain ⟨free, free', d, hedit, hgraph⟩ :=
    edit_of_transact (Edit.updateRelation_composed r.id properties).blind hrun
  obtain ⟨⟨y, hy, hid, rfl⟩, -⟩ :=
    Edit.updateRelation_stores (h.traceable _ .committed _ _) hedit
  have hknown : l.shared = some y := (h.records.shared y).1 ⟨hy, hid⟩
  have hnext := h.transact (.updateRelation r.id properties) hrun
  refine ⟨?_, ?_, ?_⟩
  · rw [hfollows.shared y hknown]
  · rw [hknown]
    exact congrArg some (if_pos hid)
  · exact WorksOn.touches_update (.alone free) (hgraph ▸ .alone free') h.traceable
      hnext.traceable hedit

/-- **What a ledger notes of one relationship is the life of it.** -/
theorem lives (h : i.Keeps supply r.id start) (hfollows : start.Follows r) : i.Lives r start where
  tells := fun later => (h.run later).records.tells (h.run later).traceable
  follows := fun later => hfollows.run later
  updates := fun later properties x j hrun => by
    have hkeeps := h.run later
    obtain ⟨hx, hbecomes, htouches⟩ := hkeeps.update (hfollows.run later) hrun
    have hnext := hkeeps.transact (.updateRelation r.id properties) hrun
    obtain ⟨free, -⟩ := edit_of_transact (Edit.updateRelation_composed r.id properties).blind hrun
    rw [hbecomes] at hnext
    refine ⟨hx, hnext.records.tells hnext.traceable, ?_, htouches⟩
    rw [ledger_append, ledger, ledger, Request.entry, succeeds_ok hrun, if_pos rfl, ← hbecomes]
    nth_rewrite 1 [hkeeps.records.closed free]
    rfl
  stays := fun later more x hx hspares => by
    have hkeeps := h.run later
    rw [hx] at hkeeps
    have hrewords : x.Rewords r := (hfollows.run later).shared x (by rw [hx]; rfl)
    have hkept : ∀ q ∈ more, ∀ op, q.operation? = some op → ∀ o, o = some x →
        o.bind op.becomes = some x := by
      rintro q hq op hop _ rfl
      exact Operation.becomes_of_spares ((hspares q hq op hop).of_rewords hrewords)
    obtain ⟨_, rfl, htells⟩ := hkeeps.tells_after more hkept rfl
    exact run_append later more ▸ htells
  lasts := fun later more x hx hstays => by
    have hkeeps := h.run later
    rw [hx] at hkeeps
    have hrewords : x.Rewords r := (hfollows.run later).shared x (by rw [hx]; rfl)
    have hkept : ∀ q ∈ more, ∀ op, q.operation? = some op →
        ∀ o, (∃ y, o = some y ∧ y.Rewords r) → ∃ y, o.bind op.becomes = some y ∧ y.Rewords r := by
      rintro q hq op hop _ ⟨y, rfl, hy⟩
      obtain ⟨z, hz⟩ := Operation.exists_becomes fun hends =>
        hstays q hq op hop (hends.of_rewords hy.symm)
      exact ⟨z, hz, (Operation.rewords_of_becomes hz).trans hy⟩
    obtain ⟨_, ⟨y, rfl, hy⟩, htells⟩ := hkeeps.tells_after more hkept ⟨x, rfl, hrewords⟩
    exact ⟨y, hy, run_append later more ▸ htells⟩
  ends := fun later j hloses more => by
    obtain ⟨op, a, hends, hrun⟩ := hloses.operation
    have hnext := (h.run later).transact op hrun
    have hgone : (i.ledger later start).shared.bind op.becomes = none := by
      refine Option.bind_eq_none_iff.2 fun y hy => ?_
      exact Operation.becomes_of_ends (hends.of_rewords ((hfollows.run later).shared y hy))
    rw [hgone] at hnext
    have hkept : ∀ q ∈ more, ∀ op, q.operation? = some op → ∀ o, o = none →
        o.bind op.becomes = none := by
      rintro q - op - _ rfl
      rfl
    obtain ⟨_, rfl, htells⟩ := hnext.tells_after more hkept rfl
    exact htells

end Keeps

/-! ## The whole life -/

/-- Every inventory that can be reached is tidy. -/
lemma run_tidy : ∀ (requests : List Request) {i : Inventory}, i.Tidy → (i.run requests).Tidy
  | [], _, h => h
  | q :: requests, _, h => run_tidy requests (tidy_leaves q h)

/-- **Relationships live from their links to their ends**, in every state that requests lead to.  A
link answers a relationship under an id of which nothing was told before, with just the name, the
ends and the properties that are given; it changes no other relationship, and of the entities only
references; and from then on the relationship has its life. -/
theorem relationships_live_on (config : Config) {supply : Supply}
    (fresh : Function.Injective supply.name) (requests : List Request) {name : String}
    {source target : CanonicalPath} {properties : Properties} {r : Relationship} {j : Inventory}
    {start : Ledger} (h : ((empty config supply).run requests).Links name source target properties
      r j start) :
    let i := (empty config supply).run requests
    r = ⟨i.supply.draw.1, name, source, target, properties⟩ ∧ i.Tells r.id (.both none) ∧
      i.Touches r.id r.RefersAt j ∧ j.Lives r start := by
  intro i
  have origin : i.From (.nothing, supply) := run_empty_from config supply requests
  have traced : i.Traceable := origin.traceable fresh
  obtain ⟨q, rfl⟩ := h.request
  have hstep : i.Step (q.leaves i) := q.step (origin.consistent Contents.sound_nothing)
  have traced' : (q.leaves i).Traceable := (hstep.from origin).traceable fresh
  obtain ⟨t, d, hedit, hi, hj, hrecords⟩ := h.edit traced
  have hd : Draft.Traceable ⟨t, i.supply⟩ := traced _ hi.shows t.base t.dirty
  obtain ⟨hr, -⟩ := Edit.link_adds hd.consistent hedit
  have hid : r.id = i.supply.draw.1 := by rw [hr]
  refine ⟨hr, ?_, hi.touches_link hj traced traced' hedit, ?_⟩
  · rw [hid]
    exact traced.unknown.tells traced
  · -- An edge has the id, so that it has been drawn by now.
    have hstored : d.contents.Stores r := (Edit.link_stores hd.consistent hedit).2 (Or.inr rfl)
    have hkeeps : (q.leaves i).Keeps supply r.id start :=
      { origin := hstep.from origin
        fresh := fresh
        tidy := tidy_leaves q (run_tidy requests (.of_free rfl))
        drawn := (traced' _ hj.shows 0 false).identified.drawn_of_stores hstored
        records := hrecords }
    exact hkeeps.lives h.follows

/-- An environment uses a resource type until it is deleted. -/
theorem typedTenant_uses :
    let i := (empty .usual .counting).run typedTenant
    let live : CanonicalPath := ⟨[⟨.tenant, "acme"⟩, ⟨.environment, "live"⟩], by decide⟩
    let machine : CanonicalPath := ⟨[⟨.tenant, "acme"⟩, ⟨.resourceType, "machine"⟩], by decide⟩
    Function.Injective Supply.counting.name ∧
      ∃ r j, Service.link "uses" live machine ∅ i = .ok r j ∧
        r = ⟨i.supply.draw.1, "uses", live, machine, ∅⟩ ∧ i.Tells r.id (.both none) ∧
          i.Touches r.id r.RefersAt j ∧ j.Lives r (.both (some r)) ∧
            ∃ k, Service.delete live j = .ok [live] k ∧ k.Tells r.id (.both none) := by
  intro i live machine
  obtain ⟨r, hanswer⟩ := Option.isSome_iff_exists.1
    (show ((Service.link "uses" live machine ∅).run' i).isSome by decide +kernel)
  obtain ⟨j, hlink⟩ := ok_of_run hanswer
  obtain ⟨hr, hbefore, htouches, hlives⟩ :=
    relationships_live_on .usual Supply.counting_injective typedTenant (.alone hlink)
  obtain ⟨k, hdelete⟩ := ok_of_run (a := [live]) (x := Service.delete live)
    (s := (Service.link "uses" live machine ∅).leaves i) (by decide +kernel)
  rw [leaves_ok hlink] at hdelete
  have hloses : (j.run []).Loses r k := .source hdelete (hr ▸ Or.inl rfl)
  exact ⟨Supply.counting_injective, r, j, hlink, hr, hbefore, htouches, hlives, k, hdelete,
    hlives.ends [] k hloses []⟩

end Inventory

end Estate
