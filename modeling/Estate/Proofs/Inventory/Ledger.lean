import Estate.Proofs.Inventory.Everywhere
import Estate.Proofs.Inventory.Fate

/-!
# A ledger of one relationship

What is known under an id is told by what has been asked for.  A ledger notes it for two graphs: the
one that is shared, and the one that an open bulk works on.  An operation of its own that is carried
out makes of both notes what becomes of the relationship.  A bulk begins with what is shared, and
when it is committed, what it knows is shared.  The bulk itself does nothing to a relationship that
was there before it, and what is refused does nothing at all.

* `Ledger`, `Request.entry`, `Inventory.ledger` — how the ledger is kept.
* `Inventory.Tidy` — a bulk that has changed nothing still works on the shared graph.
* `Inventory.Records` — what is noted is known.
* **`Inventory.Records.request`** — it stays so with one more request.
* `Inventory.Keeps`, **`Inventory.Keeps.run`** — a ledger is kept on, whatever is asked for.
-/

namespace Estate

/-- Whether an operation is carried out. -/
def Service.succeeds {α : Type} (x : Service α) (i : Inventory) : Bool :=
  match x i with
  | .ok _ _ => true
  | .error _ _ => false

/-! ## How the ledger is kept -/

/-- **What is known of a relationship**: in the shared graph, and in the graph of a bulk.  While no
bulk is open, the two notes are the same. -/
structure Ledger where
  shared : Option Relationship
  bulk : Option Relationship

namespace Ledger

/-- A ledger that notes the same for both graphs. -/
def both (o : Option Relationship) : Ledger :=
  ⟨o, o⟩

/-- What an operation makes of a ledger. -/
def after (l : Ledger) (op : Operation) : Ledger :=
  ⟨l.shared.bind op.becomes, l.bulk.bind op.becomes⟩

end Ledger

/-- **What a request makes of a ledger.**  Creations, updates of entities and links do nothing to a
relationship, and neither does what is refused. -/
def Request.entry : Request → Inventory → Ledger → Ledger
  | delete p, i, l => if (Service.delete p).succeeds i then l.after (.delete p) else l
  | unlink name source target, i, l =>
      if (Service.unlink name source target).succeeds i then l.after (.unlink name source target)
      else l
  | updateRelation id properties, i, l =>
      if (Service.updateRelation id properties).succeeds i then
        l.after (.updateRelation id properties)
      else l
  | deleteRelation id, i, l =>
      if (Service.deleteRelation id).succeeds i then l.after (.deleteRelation id) else l
  | openBulk, i, l => if Service.openBulk.succeeds i then .both l.shared else l
  | commitBulk, i, l => .both (if Service.commitBulk.succeeds i then l.bulk else l.shared)
  | dropBulk, _, l => .both l.shared
  | _, _, l => l

/-- **What requests make of a ledger**, one after the other. -/
def Inventory.ledger (i : Inventory) : List Request → Ledger → Ledger
  | [], l => l
  | q :: requests, l => (q.leaves i).ledger requests (q.entry i l)

namespace Ledger

variable {l : Ledger} {op : Operation} {r : Relationship} {o : Option Relationship}

/-- All that is noted is a relationship, but for its properties. -/
structure Follows (l : Ledger) (r : Relationship) : Prop where
  shared : ∀ x, l.shared = some x → x.Rewords r
  bulk : ∀ x, l.bulk = some x → x.Rewords r

lemma follows_both (h : ∀ x, o = some x → x.Rewords r) : (both o).Follows r :=
  ⟨h, h⟩

lemma Follows.after (h : l.Follows r) (op : Operation) : (l.after op).Follows r := by
  have hnext {x y : Relationship} (hx : x.Rewords r) (hy : op.becomes x = some y) :
      y.Rewords r := (Operation.rewords_of_becomes hy).trans hx
  constructor
  · intro y hy
    obtain ⟨x, hx, hy⟩ := Option.bind_eq_some_iff.1 hy
    exact hnext (h.shared x hx) hy
  · intro y hy
    obtain ⟨x, hx, hy⟩ := Option.bind_eq_some_iff.1 hy
    exact hnext (h.bulk x hx) hy

/-- If nothing becomes of a relationship, a ledger stays as it is. -/
lemma after_eq (hkept : ∀ r, op.becomes r = some r) (l : Ledger) : l.after op = l := by
  have hsome : op.becomes = some := funext hkept
  rw [after, hsome, Option.bind_fun_some, Option.bind_fun_some]

/-- What is noted stays a relationship, but for its properties. -/
lemma Follows.entry {i : Inventory} (h : l.Follows r) (q : Request) :
    (q.entry i l).Follows r := by
  have hafter (carriedOut : Bool) (op : Operation) :
      (if carriedOut then l.after op else l).Follows r := by
    split
    · exact h.after op
    · exact h
  cases q with
  | delete p => exact hafter _ (.delete p)
  | unlink name source target => exact hafter _ (.unlink name source target)
  | updateRelation id properties => exact hafter _ (.updateRelation id properties)
  | deleteRelation id => exact hafter _ (.deleteRelation id)
  | openBulk =>
      rw [Request.entry]
      split
      · exact follows_both h.shared
      · exact h
  | commitBulk =>
      rw [Request.entry]
      split
      · exact follows_both h.bulk
      · exact follows_both h.shared
  | dropBulk => exact follows_both h.shared
  | _ => exact h

lemma Follows.run : ∀ (requests : List Request) {i : Inventory} {l : Ledger}, l.Follows r →
    (i.ledger requests l).Follows r
  | [], _, _, h => h
  | q :: requests, _, _, h => run requests (h.entry q)

/-- If both notes are the same, they stay so: nothing happens to them, or what the operation makes
of them. -/
lemma entry_both (q : Request) (i : Inventory) (o : Option Relationship) :
    q.entry i (both o) = both o ∨
      ∃ op, q.operation? = some op ∧ q.entry i (both o) = both (o.bind op.becomes) := by
  have hafter {q : Request} {op : Operation} (carriedOut : Bool) (hop : q.operation? = some op)
      (hentry : q.entry i (both o) = if carriedOut then (both o).after op else both o) :
      q.entry i (both o) = both o ∨
        ∃ op, q.operation? = some op ∧ q.entry i (both o) = both (o.bind op.becomes) := by
    rw [hentry]
    split
    · exact Or.inr ⟨op, hop, rfl⟩
    · exact Or.inl rfl
  cases q with
  | delete p => exact hafter _ rfl rfl
  | unlink name source target => exact hafter _ rfl rfl
  | updateRelation id properties => exact hafter _ rfl rfl
  | deleteRelation id => exact hafter _ rfl rfl
  | openBulk => exact Or.inl (ite_self _)
  | commitBulk => exact Or.inl (congrArg both (ite_self o))
  | _ => exact Or.inl rfl

/-- **What no operation that is asked for changes of the notes** is so in the end. -/
lemma run_both {P : Option Relationship → Prop} : ∀ (requests : List Request) {i : Inventory}
    {o : Option Relationship}, (∀ q ∈ requests, ∀ op, q.operation? = some op →
      ∀ o, P o → P (o.bind op.becomes)) → P o →
        ∃ o', i.ledger requests (both o) = both o' ∧ P o'
  | [], _, o, _, ho => ⟨o, rfl, ho⟩
  | q :: requests, i, o, hkept, ho => by
      have hrest := fun q' hq => hkept q' (List.mem_cons_of_mem q hq)
      rw [Inventory.ledger]
      rcases entry_both q i o with hsame | ⟨op, hop, hnext⟩
      · rw [hsame]
        exact run_both requests hrest ho
      · rw [hnext]
        exact run_both requests hrest (hkept q List.mem_cons_self op hop o ho)

end Ledger

lemma Inventory.run_append {i : Inventory} (later more : List Request) :
    i.run (later ++ more) = (i.run later).run more :=
  List.foldl_append

/-- A ledger is kept on from where it has come to. -/
lemma Inventory.ledger_append (later more : List Request) : ∀ {i : Inventory} {l : Ledger},
    i.ledger (later ++ more) l = (i.run later).ledger more (i.ledger later l) := by
  induction later with
  | nil => exact rfl
  | cons q later ih => exact ih

/-! ## Success and refusal -/

namespace Service

variable {α : Type} {x : Service α} {i j : Inventory}

lemma succeeds_ok {a : α} (h : x i = .ok a j) : x.succeeds i = true := by
  rw [succeeds, h]

lemma succeeds_error {err : ServiceError} (h : x i = .error err j) : x.succeeds i = false := by
  rw [succeeds, h]

/-- What is refused changes neither what is shared nor a bulk. -/
lemma transact_refused {e : Edit α} {err : ServiceError} (h : transact e i = .error err j) :
    j.store = i.store ∧ j.bulk = i.bulk := by
  rw [transact] at h
  cases hbulk : i.bulk with
  | some b =>
      rw [hbulk] at h
      cases h
      exact ⟨rfl, hbulk⟩
  | none =>
      rcases hrun : e.runIn i.store.begin i.supply with ⟨err' | a, t, s⟩
      · simp only [hbulk, hrun] at h
        cases h
        exact ⟨rfl, rfl⟩
      · cases hcommit : i.store.commit t with
        | error err' =>
            simp only [hbulk, hrun, hcommit] at h
            cases h
            exact ⟨rfl, rfl⟩
        | ok store =>
            simp only [hbulk, hrun, hcommit] at h
            cases h

end Service

namespace Inventory

open Service

variable {α : Type} {i j : Inventory} {id : String} {l : Ledger} {supply : Supply}

/-! ## A bulk that has changed nothing -/

/-- A bulk that has changed nothing still works on the shared graph. -/
def Tidy (i : Inventory) : Prop :=
  ∀ t created, i.bulk = some ⟨some t, created⟩ → t.dirty = false → t.graph = i.store.graph

lemma Tidy.of_free (free : i.bulk = none) : i.Tidy := fun _ _ opened => by
  cases free.symm.trans opened

/-- After a commit the graph of the bulk is shared. -/
lemma Tidy.graph_of_commit {t : Transaction} {created : List CanonicalPath} {store : Store}
    (h : i.Tidy) (opened : i.bulk = some ⟨some t, created⟩)
    (hcommit : i.store.commit t = .ok store) : store.graph = t.graph := by
  rw [Store.commit] at hcommit
  split at hcommit
  · split at hcommit
    · obtain rfl := Except.ok.inj hcommit
      rfl
    · cases hcommit
  · next hclean =>
      -- The commit has put nothing in place, and there was nothing to put in place.
      obtain rfl := Except.ok.inj hcommit
      exact (h t created opened (Bool.not_eq_true _ ▸ hclean)).symm

lemma transact_tidy (op : Operation) (h : i.Tidy) : ((transact op.edit).leaves i).Tidy := by
  cases hrun : transact op.edit i with
  | ok a j =>
      obtain ⟨-, free, -⟩ := edit_of_transact op.blind hrun
      rw [leaves_ok hrun]
      exact .of_free free
  | error err j =>
      obtain ⟨hstore, hbulk⟩ := transact_refused hrun
      rw [leaves_error hrun, Tidy, hstore, hbulk]
      exact h

lemma inBulk_tidy (op : Operation) (created : op.Answer → List CanonicalPath) (h : i.Tidy) :
    ((inBulk op.edit created).leaves i).Tidy := by
  rw [leaves, inBulk]
  rcases hbulk : i.bulk with _ | ⟨_ | ⟨base, g, dirty⟩, before⟩
  · exact h
  · exact h
  · obtain ⟨r, g', s', called, hsame, hblind⟩ := op.blind g i.supply
    simp only [hblind base dirty]
    cases r with
    | error err => exact fun _ _ opened => by cases opened
    | ok a =>
        rintro _ _ ⟨⟩ hclean
        obtain ⟨hdirty, hcalled⟩ := Bool.or_eq_false_iff.1 hclean
        exact (hsame hcalled).trans (h _ _ hbulk hdirty)

lemma openBulk_tidy (h : i.Tidy) : (openBulk.leaves i).Tidy := by
  rw [leaves, openBulk]
  cases i.bulk with
  | some b => exact h
  | none =>
      rintro _ _ ⟨⟩ -
      rfl

lemma commitBulk_tidy (h : i.Tidy) : (commitBulk.leaves i).Tidy := by
  rw [leaves, commitBulk]
  rcases hbulk : i.bulk with _ | ⟨_ | t, created⟩
  · exact h
  · exact .of_free rfl
  · dsimp only
    cases i.store.commit t <;> exact .of_free rfl

lemma dropBulk_tidy (h : i.Tidy) : (dropBulk.leaves i).Tidy := by
  rw [leaves, dropBulk]
  cases i.bulk with
  | none => exact h
  | some b => exact .of_free rfl

/-- A request leaves no bulk that has changed nothing and works on another graph. -/
lemma tidy_leaves (q : Request) (h : i.Tidy) : (q.leaves i).Tidy := by
  cases q with
  | create parent b => exact transact_tidy (.create parent b) h
  | update p u => exact transact_tidy (.update p p.kind u) h
  | delete p => exact transact_tidy (.delete p) h
  | link name source target properties =>
      exact transact_tidy (.link name source target properties) h
  | linkWith p name other direction properties =>
      cases direction with
      | outgoing => exact transact_tidy (.link name p other properties) h
      | incoming => exact transact_tidy (.link name other p properties) h
      | both => exact h
  | unlink name source target => exact transact_tidy (.unlink name source target) h
  | updateRelation id properties => exact transact_tidy (.updateRelation id properties) h
  | deleteRelation id => exact transact_tidy (.deleteRelation id) h
  | openBulk => exact openBulk_tidy h
  | bulkCreate parent b => exact inBulk_tidy (.create parent b) _ h
  | bulkLink name source target properties =>
      exact inBulk_tidy (.link name source target properties) _ h
  | commitBulk => exact commitBulk_tidy h
  | dropBulk => exact dropBulk_tidy h
  | read f =>
      rw [Request.leaves, read_leaves]
      exact h
  | peekBulk f =>
      rw [Request.leaves, peekBulk_leaves]
      exact h

/-! ## Ids -/

/-- Relationships can be traced by their ids in all graphs that can be looked at. -/
def Traceable (i : Inventory) : Prop :=
  ∀ g, i.Shows g → ∀ base dirty, Draft.Traceable ⟨⟨base, g, dirty⟩, i.supply⟩

/-- If ids are drawn only once, they can. -/
lemma From.traceable (h : i.From (.nothing, supply)) (fresh : Function.Injective supply.name) :
    i.Traceable := by
  intro g hg base dirty
  obtain ⟨hwf, hchanges⟩ := h g hg
  exact
    { readable := ⟨hwf, hchanges.sound Contents.sound_nothing, hchanges.labelled nofun,
        hchanges.roles nofun⟩
      identified := hchanges.identified fresh (Contents.identified_nothing supply)
      fresh := hchanges.supply.1 ▸ fresh }

/-- Ids that have been drawn stay so. -/
lemma Step.drawn (h : i.Step j) (hdrawn : i.supply.Drawn id) : j.supply.Drawn id := by
  obtain ⟨n, hn, hname⟩ := hdrawn
  have hlater : ∀ {c c' : Contents} {s : Supply}, Changes (c, i.supply) (c', s) → s.Drawn id :=
    fun changes => by
      obtain ⟨hsame, hmore⟩ := changes.supply
      exact ⟨n, Nat.lt_of_lt_of_le hn hmore, hsame ▸ hname⟩
  cases h with
  | write free wellFormed changes => exact hlater changes
  | writeBulk opened wellFormed changes => exact hlater changes
  | _ => exact ⟨n, hn, hname⟩

/-! ## What is noted is known -/

/-- **What is noted is known**: of the shared graph, and of the graph of an open bulk. -/
structure Records (i : Inventory) (id : String) (l : Ledger) : Prop where
  shared : i.store.graph.contents.Knows id l.shared
  bulk : ∀ t created, i.bulk = some ⟨some t, created⟩ → t.graph.contents.Knows id l.bulk
  closed : i.bulk = none → l = .both l.shared

namespace Records

lemma of_free {o : Option Relationship} (free : i.bulk = none)
    (h : i.store.graph.contents.Knows id o) : i.Records id (.both o) where
  shared := h
  bulk := fun _ _ opened => by cases free.symm.trans opened
  closed := fun _ => rfl

variable (h : i.Records id l)

include h

/-- **What an operation of its own does is noted**, if it is carried out. -/
lemma transact (op : Operation) (hi : i.Traceable) (hdrawn : i.supply.Drawn id) :
    ((transact op.edit).leaves i).Records id
      (if (Service.transact op.edit).succeeds i then l.after op else l) := by
  cases hrun : Service.transact op.edit i with
  | ok a j =>
      obtain ⟨free, free', d, hedit, hgraph⟩ := edit_of_transact op.blind hrun
      rw [leaves_ok hrun, succeeds_ok hrun, if_pos rfl, h.closed free]
      refine of_free (o := l.shared.bind op.becomes) free' ?_
      rw [hgraph]
      exact op.knows (hi _ .committed _ _) hedit hdrawn h.shared
  | error err j =>
      obtain ⟨hstore, hbulk⟩ := transact_refused hrun
      rw [leaves_error hrun, succeeds_error hrun, if_neg Bool.false_ne_true]
      exact ⟨hstore ▸ h.shared, hbulk ▸ h.bulk, hbulk ▸ h.closed⟩

/-- Where nothing becomes of a relationship, nothing is to be noted. -/
lemma transact_kept (op : Operation) (hkept : ∀ r, op.becomes r = some r) (hi : i.Traceable)
    (hdrawn : i.supply.Drawn id) : ((Service.transact op.edit).leaves i).Records id l := by
  have hnoted := h.transact op hi hdrawn
  rwa [Ledger.after_eq hkept, ite_self] at hnoted

/-- Steps of a bulk do nothing to a relationship that was there before. -/
lemma inBulk (op : Operation) (hkept : ∀ r, op.becomes r = some r)
    (created : op.Answer → List CanonicalPath) (hi : i.Traceable) (hdrawn : i.supply.Drawn id) :
    ((inBulk op.edit created).leaves i).Records id l := by
  rw [leaves, Service.inBulk]
  rcases hbulk : i.bulk with _ | ⟨_ | t, before⟩
  · exact h
  · exact h
  · cases hrun : op.edit ⟨t, i.supply⟩ with
    | error err d =>
        simp only [Edit.runIn, hrun]
        refine ⟨h.shared, fun _ _ opened => ?_, fun free => ?_⟩
        · cases opened
        · cases free
    | ok a d =>
        simp only [Edit.runIn, hrun]
        refine ⟨h.shared, ?_, fun free => ?_⟩
        · rintro _ _ ⟨⟩
          have hknown := op.knows (hi _ (.bulk hbulk) _ _) hrun hdrawn (h.bulk _ _ hbulk)
          rwa [show op.becomes = some from funext hkept, Option.bind_fun_some] at hknown
        · cases free

/-- A bulk begins with what is shared. -/
lemma openBulk : (openBulk.leaves i).Records id
    (if Service.openBulk.succeeds i then .both l.shared else l) := by
  rw [leaves, Service.succeeds, Service.openBulk]
  cases i.bulk with
  | some b => exact h
  | none =>
      refine ⟨h.shared, ?_, fun free => ?_⟩
      · rintro _ _ ⟨⟩
        exact h.shared
      · cases free

/-- When it is committed, what it knows is shared, and if that fails, it is forgotten. -/
lemma commitBulk (tidy : i.Tidy) : (commitBulk.leaves i).Records id
    (.both (if Service.commitBulk.succeeds i then l.bulk else l.shared)) := by
  rcases hbulk : i.bulk with _ | ⟨_ | t, created⟩
  · rw [leaves, Service.succeeds, Service.commitBulk, hbulk]
    exact of_free hbulk h.shared
  · rw [leaves, Service.succeeds, Service.commitBulk, hbulk]
    exact of_free rfl h.shared
  · cases hcommit : i.store.commit t with
    | error err =>
        have hrun : Service.commitBulk i =
            .error (.refused (.graph err)) { i with bulk := none } := by
          rw [Service.commitBulk, hbulk]
          simp only [hcommit]
        rw [leaves_error hrun, succeeds_error hrun]
        exact of_free rfl h.shared
    | ok store =>
        have hrun : Service.commitBulk i = .ok created { i with store, bulk := none } := by
          rw [Service.commitBulk, hbulk]
          simp only [hcommit]
        rw [leaves_ok hrun, succeeds_ok hrun, if_pos rfl]
        refine of_free rfl ?_
        rw [show store.graph = t.graph from tidy.graph_of_commit hbulk hcommit]
        exact h.bulk _ _ hbulk

/-- When it is dropped, what it knows is forgotten. -/
lemma dropBulk : (dropBulk.leaves i).Records id (.both l.shared) := by
  rw [leaves, Service.dropBulk]
  cases hbulk : i.bulk with
  | none => exact of_free hbulk h.shared
  | some b => exact of_free rfl h.shared

/-- **What is noted is known after one more request.** -/
theorem request (q : Request) (hi : i.Traceable) (tidy : i.Tidy) (hdrawn : i.supply.Drawn id) :
    (q.leaves i).Records id (q.entry i l) := by
  have hkept (op : Operation) (hstays : ∀ r, op.becomes r = some r) :=
    h.transact_kept op hstays hi hdrawn
  cases q with
  | create parent b => exact hkept (.create parent b) fun _ => rfl
  | update p u => exact hkept (.update p p.kind u) fun _ => rfl
  | delete p => exact h.transact (.delete p) hi hdrawn
  | link name source target properties =>
      exact hkept (.link name source target properties) fun _ => rfl
  | linkWith p name other direction properties =>
      cases direction with
      | outgoing => exact hkept (.link name p other properties) fun _ => rfl
      | incoming => exact hkept (.link name other p properties) fun _ => rfl
      | both => exact h
  | unlink name source target => exact h.transact (.unlink name source target) hi hdrawn
  | updateRelation id' properties => exact h.transact (.updateRelation id' properties) hi hdrawn
  | deleteRelation id' => exact h.transact (.deleteRelation id') hi hdrawn
  | openBulk => exact h.openBulk
  | bulkCreate parent b =>
      exact h.inBulk (.create parent b) (fun _ => rfl) (fun path => [path]) hi hdrawn
  | bulkLink name source target properties =>
      exact h.inBulk (.link name source target properties) (fun _ => rfl) (fun _ => []) hi
        hdrawn
  | commitBulk => exact h.commitBulk tidy
  | dropBulk => exact h.dropBulk
  | read f =>
      rw [Request.leaves, read_leaves]
      exact h
  | peekBulk f =>
      rw [Request.leaves, peekBulk_leaves]
      exact h

end Records

/-- **A ledger can be kept** of the relationship with an id: the id has been drawn, and what is
noted is known. -/
structure Keeps (i : Inventory) (supply : Supply) (id : String) (l : Ledger) : Prop where
  origin : i.From (.nothing, supply)
  fresh : Function.Injective supply.name
  tidy : i.Tidy
  drawn : i.supply.Drawn id
  records : i.Records id l

namespace Keeps

variable (h : i.Keeps supply id l)

include h

lemma traceable : i.Traceable :=
  h.origin.traceable h.fresh

/-- It is kept on with every request. -/
lemma request (q : Request) : (q.leaves i).Keeps supply id (q.entry i l) := by
  have hstep := q.step (h.origin.consistent Contents.sound_nothing)
  exact
    { origin := hstep.from h.origin
      fresh := h.fresh
      tidy := tidy_leaves q h.tidy
      drawn := hstep.drawn h.drawn
      records := h.records.request q h.traceable h.tidy h.drawn }

/-- It is kept on with an operation of its own. -/
lemma transact (op : Operation) {a : op.Answer} (hrun : transact op.edit i = .ok a j) :
    j.Keeps supply id (.both (l.shared.bind op.becomes)) := by
  have hstep : i.Step j := leaves_ok hrun ▸
    transact_steps op.decided.orderly i (h.origin.consistent Contents.sound_nothing)
  have hrecords := h.records.transact op h.traceable h.drawn
  obtain ⟨free, -⟩ := edit_of_transact op.blind hrun
  rw [leaves_ok hrun, succeeds_ok hrun, if_pos rfl, h.records.closed free] at hrecords
  exact
    { origin := hstep.from h.origin
      fresh := h.fresh
      tidy := leaves_ok hrun ▸ transact_tidy op h.tidy
      drawn := hstep.drawn h.drawn
      records := hrecords }

omit h in
/-- **It is kept on with all requests.** -/
theorem run : ∀ (requests : List Request) {i : Inventory} {l : Ledger}, i.Keeps supply id l →
    (i.run requests).Keeps supply id (i.ledger requests l)
  | [], _, _, h => h
  | q :: requests, _, _, h => run requests (h.request q)

end Keeps

end Inventory

end Estate
