import Mathlib.Logic.Function.Basic
import Mathlib.Tactic.Common
import Estate.Graph.Store

/-!
# Transactions are serializable

Any number of transactions may be open at a store at once.  Each works on the graph as it was when
it began, and a commit compares one number.  This module shows that this is enough: whatever the
order in which transactions begin, call, commit and end, the shared graph is the outcome of some of
them run one after the other.

A `System` is a store with its open transactions, together with a log of all that has happened so
far, the newest first.  `serialOrder` reads off the log what the successfully committed
transactions with mutations have called, one list of calls for each, in the order of the commits.

* `Invariant` — what holds of the store and of every open transaction after any number of steps.
  Its core is that an open transaction has been answered as if it had been alone since it began.
* `Invariant.step`, `invariant_run` — one step, and all steps.
* `Log.Records` — what it is for a log to be a record of what has been done; `Recorded.step`,
  `Recorded.run` — the log of a system is one.
* **`serializable`** — the log records all that has been done, the shared graph is the serial
  outcome at any time, and what is said of every commit in the log: when it fails, and what its
  transaction has been answered.
-/

namespace Estate

namespace Concurrent

open Function (update)

/-! ## Calls -/

/-- What may be read from a graph. -/
inductive Lookup : Type → Type 1
  | vertex (id : VertexId) : Lookup (Option Properties)
  | edge (id : EdgeId) : Lookup (Option Edge)
  | vertexIds : Lookup (List VertexId)
  | edgeIds : Lookup (List EdgeId)
  | verticesBy (key : String) (value : Json) : Lookup (List VertexId)
  | edgesBy (key : String) (value : Json) : Lookup (List EdgeId)
  | edgesOf (v : VertexId) (direction : Direction) (label : Option String) : Lookup (List EdgeId)

/-- What is read. -/
def Lookup.on {α : Type} (l : Lookup α) (g : Graph) : α :=
  match l with
  | vertex id => g.vertex? id
  | edge id => g.edge? id
  | vertexIds => g.vertices.keys
  | edgeIds => g.edges.keys
  | verticesBy key value => g.verticesBy key value
  | edgesBy key value => g.edgesBy key value
  | edgesOf v direction label => g.edgesOf v direction label

/-- What an open transaction may be asked for. -/
inductive Call : Type 1
  | read {α : Type} (l : Lookup α)
  | mutate {α : Type} (m : Mutation α)

namespace Call

/-- The type of the answer to a call. -/
def Answer : Call → Type
  | @read α _ => α
  | @mutate α _ => Except GraphError α

/-- Whether a call is a mutation, successful or not. -/
def isMutation : Call → Bool
  | read _ => false
  | mutate _ => true

/-- The answer of a graph that nobody else works on, and what is left of it. -/
def on (g : Graph) : (c : Call) → c.Answer × Graph
  | read l => (l.on g, g)
  | mutate m =>
    match m.run g with
    | .ok (a, g') => (.ok a, g')
    | .error e => (.error e, g)

/-- The answer of an open transaction, and what is left of it. -/
def within (t : Transaction) : (c : Call) → c.Answer × Transaction
  | read l => (l.on t.graph, t)
  | mutate m => t.mutate m

end Call

/-- A call with its answer. -/
structure Reply : Type 1 where
  call : Call
  answer : call.Answer

/-- The answers to some calls on a graph that nobody else works on, and what is left of it. -/
def alone (g : Graph) : List Call → List Reply × Graph
  | [] => ([], g)
  | c :: cs =>
    let rest := alone (c.on g).2 cs
    (⟨c, (c.on g).1⟩ :: rest.1, rest.2)

/-- The outcome of lists of calls, one list after the other. -/
def serially (g : Graph) (sessions : List (List Call)) : Graph :=
  sessions.foldl (fun g calls => (alone g calls).2) g

/-! ## What happens at a store -/

/-- What one does.  Transactions are numbered in the order in which they begin; rolling a
transaction back and dropping it are the same. -/
inductive Action : Type 1
  | begin
  | call (k : Nat) (c : Call)
  | commit (k : Nat)
  | abandon (k : Nat)

/-- The number of the transaction that something is done to. -/
def Action.number? : Action → Option Nat
  | begin => none
  | call k _ => some k
  | commit k => some k
  | abandon k => some k

/-- What has come of it. -/
inductive Event : Type 1
  | began (k : Nat)
  | called (k : Nat) (r : Reply)
  | committed (k : Nat) (result : Except GraphError Unit)
  | abandoned (k : Nat)

/-- All that has happened, the newest first. -/
abbrev Log := List Event

/-- A store and its open transactions. -/
structure System : Type 1 where
  store : Store
  sessions : Nat → Option Transaction := fun _ => none
  begun : Nat := 0
  log : Log := []

namespace System

/-- A store without vertices at which nothing has happened. -/
def start (vertexKeys edgeKeys : List String) : System where
  store := .empty vertexKeys edgeKeys

/-- Notes what has come of a transaction that is no longer open. -/
def close (s : System) (k : Nat) (e : Event) : System :=
  { s with sessions := update s.sessions k none, log := e :: s.log }

/-- One action.  Nothing can be done to a transaction that is not open. -/
def step (s : System) : Action → System
  | .begin => { s with
      sessions := update s.sessions s.begun (some s.store.begin)
      begun := s.begun + 1
      log := .began s.begun :: s.log }
  | .call k c =>
    match s.sessions k with
    | none => s
    | some t => { s with
        sessions := update s.sessions k (some (c.within t).2)
        log := .called k ⟨c, (c.within t).1⟩ :: s.log }
  | .commit k =>
    match s.sessions k with
    | none => s
    | some t =>
      match s.store.commit t with
      | .ok store => { s.close k (.committed k (.ok ())) with store }
      | .error e => s.close k (.committed k (.error e))
  | .abandon k =>
    match s.sessions k with
    | none => s
    | some _ => s.close k (.abandoned k)

/-- One action after the other. -/
def run (s : System) (actions : List Action) : System :=
  actions.foldl step s

end System

/-! ## Reading the log -/

namespace Log

/-- What a transaction has called, with the answers, in order. -/
def replies (k : Nat) : Log → List Reply
  | [] => []
  | .called j r :: older => if j = k then replies k older ++ [r] else replies k older
  | _ :: older => replies k older

/-- What a transaction has called, in order. -/
def calls (k : Nat) (log : Log) : List Call :=
  (log.replies k).map Reply.call

/-- Whether a transaction has called a mutation. -/
def mutates (k : Nat) (log : Log) : Bool :=
  (log.calls k).any Call.isMutation

/-- The log as it was when a transaction began. -/
def asOf (k : Nat) : Log → Log
  | [] => []
  | .began j :: older => if j = k then older else asOf k older
  | _ :: older => asOf k older

/-- The calls of the transactions that have changed the shared graph: those that have called a
mutation and have been committed, in the order of the commits. -/
def serialOrder : Log → List (List Call)
  | [] => []
  | .committed k (.ok ()) :: older =>
    if mutates k older then serialOrder older ++ [calls k older] else serialOrder older
  | _ :: older => serialOrder older

/-- Whether another transaction has changed the shared graph since a transaction began. -/
def overtaken (k : Nat) : Log → Bool
  | [] => false
  | .began j :: older => if j = k then false else overtaken k older
  | .committed j (.ok ()) :: older => (j != k && mutates j older) || overtaken k older
  | _ :: older => overtaken k older

/-- The outcome of running what has changed the shared graph one after the other. -/
def outcome (g : Graph) (log : Log) : Graph :=
  serially g log.serialOrder

/-- The number of the transaction that something has come of. -/
def number : Event → Nat
  | .began k => k
  | .called k _ => k
  | .committed k _ => k
  | .abandoned k => k

/-- The log as if there had been no such transaction. -/
def without (k : Nat) (log : Log) : Log :=
  log.filter fun e => number e != k

/-- How many transactions have begun. -/
def begun : Log → Nat
  | [] => 0
  | .began _ :: older => begun older + 1
  | _ :: older => begun older

/-- Whether a transaction has begun and not ended yet. -/
def isOpen (k : Nat) : Log → Bool
  | [] => false
  | .began j :: older => j == k || isOpen k older
  | .called _ _ :: older => isOpen k older
  | .committed j _ :: older => j != k && isOpen k older
  | .abandoned j :: older => j != k && isOpen k older

/-- **A log is a record of what has been done.**  Every transaction that begins is noted with the
next number.  Of a transaction that is open every call is noted with an answer, every commit with a
result, and the end without a commit.  What is done to one that is not open leaves no trace, and
nothing else is noted.  This is said of actions and events alone, without a store. -/
inductive Records : List Action → Log → Prop
  | nothing : Records [] []
  | begin {done : List Action} {log : Log} (h : Records done log) :
      Records (done ++ [.begin]) (.began log.begun :: log)
  | call {done : List Action} {log : Log} {k : Nat} {c : Call} (h : Records done log)
      (opened : log.isOpen k) (answer : c.Answer) :
      Records (done ++ [.call k c]) (.called k ⟨c, answer⟩ :: log)
  | commit {done : List Action} {log : Log} {k : Nat} (h : Records done log)
      (opened : log.isOpen k) (result : Except GraphError Unit) :
      Records (done ++ [.commit k]) (.committed k result :: log)
  | abandon {done : List Action} {log : Log} {k : Nat} (h : Records done log)
      (opened : log.isOpen k) : Records (done ++ [.abandon k]) (.abandoned k :: log)
  | ignored {done : List Action} {log : Log} {a : Action} {k : Nat} (h : Records done log)
      (concerns : a.number? = some k) (closed : ¬ log.isOpen k) : Records (done ++ [a]) log

end Log

/-! ## Being alone -/

lemma alone_append (g : Graph) (cs : List Call) (c : Call) :
    alone g (cs ++ [c]) =
      ((alone g cs).1 ++ [⟨c, (c.on (alone g cs).2).1⟩], (c.on (alone g cs).2).2) := by
  induction cs generalizing g with
  | nil => rfl
  | cons d cs ih =>
      simp only [List.cons_append, alone, ih]

/-- Reading leaves the graph as it is, so that every answer is about the same graph. -/
lemma alone_reads (g : Graph) {cs : List Call} (h : cs.any Call.isMutation = false) :
    ∀ r ∈ (alone g cs).1, r.answer = (r.call.on g).1 := by
  induction cs with
  | nil => simp [alone]
  | cons c cs ih =>
      rw [List.any_cons, Bool.or_eq_false_iff] at h
      have hsame : (c.on g).2 = g := by
        cases c with
        | read l => rfl
        | mutate m => cases h.1
      intro r hr
      simp only [alone, hsame, List.mem_cons] at hr
      rcases hr with rfl | hr
      · rfl
      · exact ih h.2 r hr

lemma serially_append (g : Graph) (sessions : List (List Call)) (calls : List Call) :
    serially g (sessions ++ [calls]) = (alone (serially g sessions) calls).2 := by
  simp [serially]

/-- An open transaction answers as its graph does, keeps its base, and notes a mutation. -/
lemma within_spec (t : Transaction) (c : Call) :
    (c.within t).1 = (c.on t.graph).1 ∧ (c.within t).2.graph = (c.on t.graph).2 ∧
      (c.within t).2.base = t.base ∧ (c.within t).2.dirty = (t.dirty || c.isMutation) := by
  cases c with
  | read l => exact ⟨rfl, rfl, rfl, (Bool.or_false _).symm⟩
  | mutate m =>
      simp only [Call.within, Call.on, Call.isMutation, Transaction.mutate, Bool.or_true]
      cases m.run t.graph with
      | ok r => exact ⟨rfl, rfl, rfl, rfl⟩
      | error e => exact ⟨rfl, rfl, rfl, rfl⟩

/-! ## The invariant -/

/-- What holds of an open transaction: it has been answered as if it had been alone since it began,
it remembers how many changes of the shared graph came before it, and it is overtaken exactly if
there have been more since. -/
structure Isolated (g : Graph) (log : Log) (k : Nat) (t : Transaction) : Prop where
  alone : alone ((log.asOf k).outcome g) (log.calls k) = (log.replies k, t.graph)
  base : t.base = (log.asOf k).serialOrder.length
  dirty : t.dirty = log.mutates k
  prior : (log.asOf k).serialOrder <+: log.serialOrder
  overtaken : log.overtaken k = true ↔ t.base < log.serialOrder.length

/-- What holds of a commit: it fails exactly if the transaction has called a mutation and has been
overtaken, and what the transaction has been answered is what it would have been answered alone, at
its commit if it has changed the shared graph and at its beginning if it has not. -/
structure Sound (g : Graph) (k : Nat) (result : Except GraphError Unit) (older : Log) : Prop where
  conflict_iff : result = .error .conflict ↔ older.mutates k ∧ older.overtaken k
  ok_of_ne : result ≠ .error .conflict → result = .ok ()
  serial : result = .ok () → older.mutates k →
    older.replies k = (alone (older.outcome g) (older.calls k)).1
  reads : ¬ older.mutates k → ∀ r ∈ older.replies k,
    r.answer = (r.call.on ((older.asOf k).outcome g)).1

/-- What holds of a system that has started from a graph. -/
structure Invariant (g : Graph) (s : System) : Prop where
  graph : s.store.graph = s.log.outcome g
  version : s.store.version = s.log.serialOrder.length
  unborn : ∀ k, s.begun ≤ k → s.sessions k = none ∧ s.log.replies k = []
  session : ∀ k t, s.sessions k = some t → Isolated g s.log k t
  commit : ∀ newer k result older, s.log = newer ++ .committed k result :: older →
    Sound g k result older

theorem invariant_start (vertexKeys edgeKeys : List String) :
    Invariant (.empty vertexKeys edgeKeys) (.start vertexKeys edgeKeys) where
  graph := rfl
  version := rfl
  unborn _ _ := ⟨rfl, rfl⟩
  session _ _ h := by cases h
  commit newer _ _ _ h := by
    have := congrArg List.length h
    simp [System.start] at this

section Step

variable {g : Graph} {s : System}

/-- The commits in a log with a new event are the old ones and perhaps the new one. -/
lemma commit_cons {log : Log} {e : Event}
    (hold : ∀ newer k result older, log = newer ++ .committed k result :: older →
      Sound g k result older)
    (hnew : ∀ k result, e = .committed k result → Sound g k result log) :
    ∀ newer k result older, e :: log = newer ++ .committed k result :: older →
      Sound g k result older := by
  intro newer k result older h
  cases newer with
  | nil =>
      obtain ⟨rfl, rfl⟩ := List.cons.inj h
      exact hnew k result rfl
  | cons e' newer => exact hold newer k result older (List.cons.inj h).2

/-- An open transaction does not notice an event of another one that leaves the shared graph as it
is. -/
lemma Isolated.quiet {log : Log} {k : Nat} {t : Transaction} {e : Event} (h : Isolated g log k t)
    (hreplies : Log.replies k (e :: log) = log.replies k)
    (hasOf : Log.asOf k (e :: log) = log.asOf k)
    (horder : Log.serialOrder (e :: log) = log.serialOrder)
    (hovertaken : Log.overtaken k (e :: log) = log.overtaken k) : Isolated g (e :: log) k t where
  alone := by
    rw [hasOf, Log.calls, hreplies]
    exact h.alone
  base := by
    rw [hasOf]
    exact h.base
  dirty := by
    rw [Log.mutates, Log.calls, hreplies]
    exact h.dirty
  prior := by
    rw [hasOf, horder]
    exact h.prior
  overtaken := by
    rw [hovertaken, horder]
    exact h.overtaken

/-- A call of an open transaction is answered by its own graph. -/
lemma Isolated.call {log : Log} {k : Nat} {t : Transaction} (h : Isolated g log k t) (c : Call) :
    Isolated g (.called k ⟨c, (c.within t).1⟩ :: log) k (c.within t).2 := by
  obtain ⟨hanswer, hgraph, hbase, hdirty⟩ := within_spec t c
  have hreplies : Log.replies k (.called k ⟨c, (c.within t).1⟩ :: log) =
      log.replies k ++ [⟨c, (c.within t).1⟩] := by
    simp [Log.replies]
  exact
    { alone := by
        rw [Log.calls, hreplies, List.map_append]
        show Concurrent.alone ((log.asOf k).outcome g) (log.calls k ++ [c]) = _
        rw [alone_append, h.alone, hanswer, hgraph]
      base := hbase.trans h.base
      dirty := by
        rw [hdirty, h.dirty]
        simp [Log.mutates, Log.calls, hreplies]
      prior := h.prior
      overtaken := by
        rw [hbase]
        exact h.overtaken }

/-- A transaction begins alone. -/
lemma isolated_begin (h : Invariant g s) :
    Isolated g (.began s.begun :: s.log) s.begun s.store.begin := by
  have hreplies : Log.replies s.begun (.began s.begun :: s.log) = [] :=
    (h.unborn s.begun (Nat.le_refl _)).2
  have hasOf : Log.asOf s.begun (.began s.begun :: s.log) = s.log := by simp [Log.asOf]
  exact
    { alone := by
        rw [hasOf, Log.calls, hreplies, ← h.graph]
        rfl
      base := by
        rw [hasOf]
        exact h.version
      dirty := by
        rw [Log.mutates, Log.calls, hreplies]
        rfl
      prior := by
        rw [hasOf]
        exact List.prefix_refl _
      overtaken := by
        simp [Log.overtaken, Log.serialOrder, Store.begin, h.version] }

lemma Isolated.base_le {log : Log} {k : Nat} {t : Transaction} (h : Isolated g log k t) :
    t.base ≤ log.serialOrder.length :=
  h.base ▸ h.prior.length_le

/-- Another transaction changes the shared graph. -/
lemma Isolated.overtake {log : Log} {j k : Nat} {t : Transaction} (h : Isolated g log j t)
    (hne : j ≠ k) (hmutates : log.mutates k = true) :
    Isolated g (.committed k (.ok ()) :: log) j t := by
  have horder : Log.serialOrder (.committed k (.ok ()) :: log) =
      log.serialOrder ++ [log.calls k] := by
    simp [Log.serialOrder, hmutates]
  exact
    { alone := h.alone
      base := h.base
      dirty := h.dirty
      prior := by
        rw [horder]
        exact h.prior.trans (List.prefix_append _ _)
      overtaken := by
        have hlt := Nat.lt_succ_of_le h.base_le
        simp [horder, hlt, Log.overtaken, Ne.symm hne, hmutates] }

/-- A transaction that is not overtaken works on the shared graph. -/
lemma Isolated.current {log : Log} {k : Nat} {t : Transaction} (h : Isolated g log k t)
    (hbase : log.serialOrder.length = t.base) : (log.asOf k).serialOrder = log.serialOrder :=
  h.prior.eq_of_length (h.base.symm.trans hbase.symm)

/-- What a transaction without mutations has been answered is about the graph that it began with. -/
lemma Isolated.reads {log : Log} {k : Nat} {t : Transaction} (h : Isolated g log k t)
    (hmutates : ¬ log.mutates k) :
    ∀ r ∈ log.replies k, r.answer = (r.call.on ((log.asOf k).outcome g)).1 := by
  have halone := alone_reads ((log.asOf k).outcome g) (Bool.eq_false_iff.2 hmutates)
  rw [h.alone] at halone
  exact halone

/-- The commits of a well-behaved system are sound. -/
lemma Invariant.sound (h : Invariant g s) {k : Nat} {t : Transaction}
    (hk : s.sessions k = some t) :
    (∃ store, s.store.commit t = .ok store ∧ Sound g k (.ok ()) s.log) ∨
      (s.store.commit t = .error .conflict ∧ Sound g k (.error .conflict) s.log) := by
  have hopen := h.session k t hk
  cases hdirty : t.dirty with
  | false =>
      have hmutates : ¬ s.log.mutates k := by simp [← hopen.dirty, hdirty]
      refine Or.inl ⟨s.store, by simp [Store.commit, hdirty], ?_⟩
      exact
        { conflict_iff := by simp [hmutates]
          ok_of_ne := fun _ => rfl
          serial := fun _ hm => absurd hm hmutates
          reads := hopen.reads }
  | true =>
      have hmutates : s.log.mutates k := hopen.dirty ▸ hdirty
      by_cases hversion : s.store.version = t.base
      · have hcurrent := hopen.current (h.version.symm.trans hversion)
        have hnot : ¬ s.log.overtaken k := by
          rw [hopen.overtaken, ← h.version, hversion]
          exact Nat.lt_irrefl _
        refine Or.inl ⟨_, by simp [Store.commit, hdirty, hversion]; rfl, ?_⟩
        exact
          { conflict_iff := by simp [hnot]
            ok_of_ne := fun _ => rfl
            serial := fun _ _ => by
              have halone := congrArg Prod.fst hopen.alone
              rw [Log.outcome, hcurrent] at halone
              exact halone.symm
            reads := fun hm => absurd hmutates hm }
      · have hovertaken : s.log.overtaken k := by
          rw [hopen.overtaken, ← h.version]
          exact Nat.lt_of_le_of_ne (h.version ▸ hopen.base_le) (Ne.symm hversion)
        refine Or.inr ⟨by simp [Store.commit, hdirty, hversion], ?_⟩
        exact
          { conflict_iff := by simp [hmutates, hovertaken]
            ok_of_ne := fun hne => absurd rfl hne
            serial := fun hok => by cases hok
            reads := fun hm => absurd hmutates hm }

/-- Closing a transaction without changing the shared graph. -/
lemma Invariant.close (h : Invariant g s) {k : Nat} {e : Event}
    (hreplies : ∀ j, Log.replies j (e :: s.log) = s.log.replies j)
    (hasOf : ∀ j, Log.asOf j (e :: s.log) = s.log.asOf j)
    (horder : Log.serialOrder (e :: s.log) = s.log.serialOrder)
    (hovertaken : ∀ j, j ≠ k → Log.overtaken j (e :: s.log) = s.log.overtaken j)
    (hsound : ∀ j result, e = .committed j result → Sound g j result s.log) :
    Invariant g (s.close k e) where
  graph := by
    show s.store.graph = Log.outcome g (e :: s.log)
    rw [Log.outcome, horder]
    exact h.graph
  version := by
    show s.store.version = (Log.serialOrder (e :: s.log)).length
    rw [horder]
    exact h.version
  unborn j hj := by
    refine ⟨?_, (hreplies j).trans (h.unborn j hj).2⟩
    show update s.sessions k none j = none
    rw [Function.update_apply]
    split
    · rfl
    · exact (h.unborn j hj).1
  session j t hj := by
    replace hj : update s.sessions k none j = some t := hj
    rw [Function.update_apply] at hj
    split at hj
    · cases hj
    · next hne =>
        exact (h.session j t hj).quiet (hreplies j) (hasOf j) horder (hovertaken j hne)
  commit := commit_cons h.commit hsound

/-- A commit that changes the shared graph: all that was open before is overtaken. -/
lemma Invariant.publish (h : Invariant g s) {k : Nat} {t : Transaction}
    (hk : s.sessions k = some t) (hdirty : t.dirty = true) (hversion : s.store.version = t.base)
    (hsound : Sound g k (.ok ()) s.log) :
    Invariant g { s.close k (.committed k (.ok ())) with store := ⟨t.base + 1, t.graph⟩ } := by
  have hopen := h.session k t hk
  have hmutates : s.log.mutates k = true := hopen.dirty ▸ hdirty
  have horder : Log.serialOrder (.committed k (.ok ()) :: s.log) =
      s.log.serialOrder ++ [s.log.calls k] := by
    simp [Log.serialOrder, hmutates]
  exact
    { graph := by
        show t.graph = Log.outcome g (.committed k (.ok ()) :: s.log)
        rw [Log.outcome, horder, serially_append,
          ← hopen.current (h.version.symm.trans hversion)]
        exact (congrArg Prod.snd hopen.alone).symm
      version := by
        show t.base + 1 = (Log.serialOrder (.committed k (.ok ()) :: s.log)).length
        rw [horder, List.length_append, ← h.version, hversion, List.length_singleton]
      unborn := fun j hj => by
        refine ⟨?_, (h.unborn j hj).2⟩
        show update s.sessions k none j = none
        rw [Function.update_apply]
        split
        · rfl
        · exact (h.unborn j hj).1
      session := fun j t' hj => by
        replace hj : update s.sessions k none j = some t' := hj
        rw [Function.update_apply] at hj
        split at hj
        · cases hj
        · next hne => exact (h.session j t' hj).overtake hne hmutates
      commit := commit_cons h.commit fun j result he => by
        cases he
        exact hsound }

/-- **The invariant survives every action.** -/
theorem Invariant.step (h : Invariant g s) (a : Action) : Invariant g (s.step a) := by
  cases a with
  | begin =>
      exact
        { graph := h.graph
          version := h.version
          unborn := fun j hj => by
            have hne : j ≠ s.begun := Nat.ne_of_gt hj
            exact ⟨(Function.update_of_ne hne _ _).trans (h.unborn j (Nat.le_of_succ_le hj)).1,
              (h.unborn j (Nat.le_of_succ_le hj)).2⟩
          session := fun j t hj => by
            replace hj : update s.sessions s.begun (some s.store.begin) j = some t := hj
            rw [Function.update_apply] at hj
            split at hj
            · next he =>
                obtain rfl := Option.some.inj hj
                exact he ▸ isolated_begin h
            · next hne =>
                exact (h.session j t hj).quiet rfl (if_neg (Ne.symm hne)) rfl
                  (if_neg (Ne.symm hne))
          commit := commit_cons h.commit fun _ _ he => by cases he }
  | call k c =>
      rw [System.step]
      split
      · exact h
      · next t hk =>
          exact
            { graph := h.graph
              version := h.version
              unborn := fun j hj => by
                have hne : j ≠ k := by
                  rintro rfl
                  rw [(h.unborn j hj).1] at hk
                  cases hk
                refine ⟨(Function.update_of_ne hne _ _).trans (h.unborn j hj).1, ?_⟩
                exact (if_neg (Ne.symm hne)).trans (h.unborn j hj).2
              session := fun j t' hj => by
                replace hj : update s.sessions k (some (c.within t).2) j = some t' := hj
                rw [Function.update_apply] at hj
                split at hj
                · next he =>
                    obtain rfl := Option.some.inj hj
                    exact he ▸ (h.session k t hk).call c
                · next hne =>
                    exact (h.session j t' hj).quiet (if_neg (Ne.symm hne)) rfl rfl rfl
              commit := commit_cons h.commit fun _ _ he => by cases he }
  | commit k =>
      rw [System.step]
      split
      · exact h
      next t hk =>
      rcases h.sound hk with ⟨store, hcommit, hsound⟩ | ⟨hcommit, hsound⟩
      · rw [hcommit]
        cases hdirty : t.dirty with
        | false =>
            obtain rfl : s.store = store := by simpa [Store.commit, hdirty] using hcommit
            have hmutates : s.log.mutates k = false := (h.session k t hk).dirty ▸ hdirty
            refine h.close (fun _ => rfl) (fun _ => rfl) (by simp [Log.serialOrder, hmutates])
              (fun j hj => by simp [Log.overtaken, hmutates]) fun j result he => ?_
            cases he
            exact hsound
        | true =>
            rw [Store.commit, hdirty, if_pos rfl] at hcommit
            split at hcommit
            · next hversion =>
                obtain rfl := Except.ok.inj hcommit
                exact h.publish hk hdirty hversion hsound
            · cases hcommit
      · rw [hcommit]
        refine h.close (fun _ => rfl) (fun _ => rfl) rfl (fun _ _ => rfl) fun j result he => ?_
        cases he
        exact hsound
  | abandon k =>
      rw [System.step]
      split
      · exact h
      · exact h.close (fun _ => rfl) (fun _ => rfl) rfl (fun _ _ => rfl) fun _ _ he => by cases he

end Step

/-- **The invariant holds after any number of actions.** -/
theorem invariant_run {g : Graph} {s : System} (h : Invariant g s) (actions : List Action) :
    Invariant g (s.run actions) := by
  induction actions generalizing s with
  | nil => exact h
  | cons a actions ih => exact ih (h.step a)

/-! ## The record -/

/-- What holds of a system after some actions: its log is a record of them, and the transactions
that are open are those that the log has open. -/
structure Recorded (done : List Action) (s : System) : Prop where
  records : s.log.Records done
  begun : s.begun = s.log.begun
  opened : ∀ k, s.log.isOpen k = (s.sessions k).isSome

section Record

variable {done : List Action} {s : System} {k : Nat}

lemma Recorded.isOpen (h : Recorded done s) {t : Transaction} (hk : s.sessions k = some t) :
    s.log.isOpen k := by
  rw [h.opened, hk]
  rfl

/-- What is done to a transaction that is not open leaves no trace. -/
lemma Recorded.ignore (h : Recorded done s) {a : Action} (concerns : a.number? = some k)
    (hk : s.sessions k = none) : Recorded (done ++ [a]) s where
  records := .ignored h.records concerns (by simp [h.opened, hk])
  begun := h.begun
  opened := h.opened

/-- An open transaction ends. -/
lemma Recorded.close (h : Recorded done s) {a : Action} {e : Event}
    (records : Log.Records (done ++ [a]) (e :: s.log))
    (hbegun : Log.begun (e :: s.log) = s.log.begun)
    (hopen : ∀ j, Log.isOpen j (e :: s.log) = (k != j && s.log.isOpen j)) :
    Recorded (done ++ [a]) (s.close k e) where
  records := records
  begun := h.begun.trans hbegun.symm
  opened j := by
    show Log.isOpen j (e :: s.log) = (update s.sessions k none j).isSome
    rw [hopen, h.opened, Function.update_apply]
    by_cases hj : j = k
    · simp [hj]
    · simp [hj, Ne.symm hj]

/-- **Every action is recorded.** -/
theorem Recorded.step (h : Recorded done s) (a : Action) : Recorded (done ++ [a]) (s.step a) := by
  cases a with
  | begin =>
      exact
        { records := by
            show Log.Records (done ++ [.begin]) (.began s.begun :: s.log)
            rw [h.begun]
            exact h.records.begin
          begun := congrArg (· + 1) h.begun
          opened := fun j => by
            show (s.begun == j || s.log.isOpen j) =
              (update s.sessions s.begun (some s.store.begin) j).isSome
            rw [h.opened, Function.update_apply]
            by_cases hj : j = s.begun
            · simp [hj]
            · simp [hj, Ne.symm hj] }
  | call k c =>
      rw [System.step]
      split
      · next hk => exact h.ignore rfl hk
      · next t hk =>
          exact
            { records := h.records.call (h.isOpen hk) _
              begun := h.begun
              opened := fun j => by
                show s.log.isOpen j = (update s.sessions k (some (c.within t).2) j).isSome
                rw [h.opened, Function.update_apply]
                split
                · next hj => rw [hj, hk]; rfl
                · rfl }
  | commit k =>
      rw [System.step]
      split
      · next hk => exact h.ignore rfl hk
      · next t hk =>
          have hclose (result : Except GraphError Unit) :
              Recorded (done ++ [.commit k]) (s.close k (.committed k result)) :=
            h.close (h.records.commit (h.isOpen hk) result) rfl fun _ => rfl
          split
          · exact ⟨(hclose _).records, (hclose _).begun, (hclose _).opened⟩
          · exact hclose _
  | abandon k =>
      rw [System.step]
      split
      · next hk => exact h.ignore rfl hk
      · next hk => exact h.close (h.records.abandon (h.isOpen hk)) rfl fun _ => rfl

/-- **All actions are recorded**, in order. -/
theorem Recorded.run (h : Recorded done s) (actions : List Action) :
    Recorded (done ++ actions) (s.run actions) := by
  induction actions generalizing done s with
  | nil =>
      rw [List.append_nil]
      exact h
  | cons a actions ih =>
      rw [List.append_cons]
      exact ih (h.step a)

end Record

lemma recorded_start (vertexKeys edgeKeys : List String) :
    Recorded [] (.start vertexKeys edgeKeys) :=
  ⟨.nothing, rfl, fun _ => rfl⟩

/-! ## Serializability -/

namespace Log

variable {k : Nat}

lemma replies_without {j : Nat} (hne : j ≠ k) : ∀ log : Log,
    (log.without k).replies j = log.replies j
  | [] => rfl
  | e :: older => by
      have ih := replies_without hne older
      by_cases he : number e = k
      · rw [without, List.filter_cons_of_neg (by simp [he])]
        refine ih.trans ?_
        cases e with
        | called i r =>
            have hij : i ≠ j := fun hij => hne (hij.symm.trans he)
            simp [replies, hij]
        | _ => rfl
      · rw [without, List.filter_cons_of_pos (by simp [he])]
        cases e with
        | called i r =>
            rw [without] at ih
            simp only [replies, ih]
        | _ => exact ih

/-- A transaction that has not been committed successfully does not count. -/
lemma serialOrder_without : ∀ log : Log, Event.committed k (.ok ()) ∉ log →
    (log.without k).serialOrder = log.serialOrder
  | [], _ => rfl
  | e :: older, h => by
      have ih := serialOrder_without older fun hmem => h (List.mem_cons_of_mem e hmem)
      by_cases he : number e = k
      · rw [without, List.filter_cons_of_neg (by simp [he])]
        refine ih.trans ?_
        cases e with
        | committed i result =>
            cases result with
            | ok u =>
                obtain rfl : i = k := he
                exact absurd List.mem_cons_self h
            | error cause => rfl
        | _ => rfl
      · rw [without, List.filter_cons_of_pos (by simp [he])]
        cases e with
        | committed i result =>
            cases result with
            | ok u =>
                have hsame := replies_without (k := k) (fun hik : i = k => he hik) older
                rw [without] at ih hsame
                simp only [serialOrder, mutates, calls, hsame, ih]
                rfl
            | error cause => exact ih
        | _ => exact ih

end Log

/-- **Transactions are serializable.**  Whatever is done at a store, in whatever order:

1. the log is a record of all that has been done;
2. the shared graph is the outcome of what the successfully committed transactions with mutations
   have called, one transaction after the other in the order of the commits, and its version is
   their number;
3. a transaction that has not been committed successfully might as well not have been there;
4. a commit fails, with a conflict and not otherwise, exactly if the transaction has called a
   mutation and another one has changed the shared graph since it began;
5. a transaction that changes the shared graph has been answered as if it had been alone at the
   graph that it is committed to;
6. one without mutations is committed, and has been answered about the shared graph as it was when
   it began. -/
theorem serializable (vertexKeys edgeKeys : List String) (actions : List Action) :
    let g := Graph.empty vertexKeys edgeKeys
    let s := (System.start vertexKeys edgeKeys).run actions
    s.log.Records actions ∧
      s.store.graph = s.log.outcome g ∧ s.store.version = s.log.serialOrder.length ∧
      (∀ k, Event.committed k (.ok ()) ∉ s.log → s.store.graph = (s.log.without k).outcome g) ∧
      ∀ (newer older : Log) k result, s.log = newer ++ .committed k result :: older →
        (result = .error .conflict ↔ older.mutates k ∧ older.overtaken k) ∧
        (result ≠ .error .conflict → result = .ok ()) ∧
        (result = .ok () → older.mutates k →
          older.replies k = (alone (older.outcome g) (older.calls k)).1) ∧
        (¬ older.mutates k → result = .ok () ∧
          ∀ r ∈ older.replies k, r.answer = (r.call.on ((older.asOf k).outcome g)).1) := by
  intro g s
  have hrecorded : Recorded actions s := (recorded_start vertexKeys edgeKeys).run actions
  have h : Invariant g s := invariant_run (invariant_start vertexKeys edgeKeys) actions
  refine ⟨hrecorded.records, h.graph, h.version, fun k hk => ?_,
    fun newer older k result hlog => ?_⟩
  · rw [Log.outcome, Log.serialOrder_without s.log hk]
    exact h.graph
  · have hsound := h.commit newer k result older hlog
    refine ⟨hsound.conflict_iff, hsound.ok_of_ne, hsound.serial, fun hm => ⟨?_, hsound.reads hm⟩⟩
    exact hsound.ok_of_ne fun hresult => hm (hsound.conflict_iff.1 hresult).1

/-- Of two transactions that both add a vertex, the later one to be committed is overtaken. -/
example :
    let s := (System.start [] []).run [.begin, .begin, .call 0 (.mutate (.addVertex ∅)),
      .call 1 (.mutate (.addVertex ∅)), .commit 1, .commit 0]
    s.log.overtaken 0 = true ∧ s.store.version = 1 := by
  decide

end Concurrent

end Estate
