import Mathlib.Tactic.Common
import Estate.Proofs.Refusal
import Estate.Registry.Delete
import Estate.Registry.Relation

/-!
# What edits are composed of

However much an edit does, it does it by looking at the graph, drawing ids and calling mutations.
What is true of each of these and of doing one thing after the other is true of all edits, and some
edits call mutations of some sorts only.

* `Edit.Composed` — an edit calls no other mutations than these; `Edit.create_composed`,
  `Edit.update_composed`, … — what the operations of the registry call.
* **`Edit.Composed.blind`** — a transaction remembers what it began from and whether a mutation has
  been called, but no edit sees anything of it besides its graph.  So work done in one long
  transaction can be compared with the same work done in several.
-/

namespace Estate

/-- Whether an operation of a graph adds an edge. -/
def Mutation.addsEdge {α : Type} : Mutation α → Bool
  | addEdge _ _ _ _ => true
  | _ => false

/-- Whether an operation of a graph stores something at a vertex or takes a property from it. -/
def Mutation.writesVertex {α : Type} : Mutation α → Bool
  | addVertex _ | setVertexProperty _ _ _ | removeVertexProperty _ _ => true
  | _ => false

namespace Edit

/-- An edit is put together from looks at the graph, ids that are drawn, and calls of mutations of
some sorts. -/
inductive Composed (may : (α : Type) → Mutation α → Prop) : {α : Type} → Edit α → Prop
  | pure {α : Type} (a : α) : Composed may (Pure.pure a)
  | check {α : Type} (f : Graph → Except RegistryError α) : Composed may (Edit.check f)
  | freshId : Composed may Edit.freshId
  | mutate {α : Type} (m : Mutation α) (allowed : may α m) : Composed may (Edit.mutate m)
  | bind {α β : Type} {e : Edit α} {f : α → Edit β} (first : Composed may e)
      (rest : ∀ a, Composed may (f a)) : Composed may (e >>= f)

namespace Composed

variable {may may' : (α : Type) → Mutation α → Prop} {α β : Type} {e : Edit α}

lemma mono (hmay : ∀ {α} {m : Mutation α}, may α m → may' α m) (h : Composed may e) :
    Composed may' e := by
  induction h with
  | pure a => exact .pure a
  | check f => exact .check f
  | freshId => exact .freshId
  | mutate m allowed => exact .mutate m (hmay allowed)
  | bind _ _ ihe ihf => exact ihe.bind ihf

lemma discard (h : Composed may e) : Composed may (discard e) := by
  have heq : (Functor.discard e : Edit Unit) = e >>= fun _ => Pure.pure () := by
    funext d
    show EStateM.map (fun _ => ()) e d = EStateM.bind e (fun _ => EStateM.pure ()) d
    rw [EStateM.map, EStateM.bind]
    cases e d with
    | ok a d' => rfl
    | error err d' => rfl
  rw [heq]
  exact h.bind fun _ => .pure ()

lemma forM {f : β → Edit Unit} (hf : ∀ b, Composed may (f b)) : ∀ l : List β,
    Composed may (l.forM f)
  | [] => .pure ()
  | b :: l => (hf b).bind fun _ => forM hf l

end Composed

/-! ## The operations -/

/-- Any mutation. -/
abbrev Any (α : Type) (_ : Mutation α) : Prop :=
  True

/-- Any mutation that adds no edge. -/
abbrev NoEdge (α : Type) (m : Mutation α) : Prop :=
  m.addsEdge = false

/-- Any mutation that leaves the properties of vertices alone. -/
abbrev NoRow (α : Type) (m : Mutation α) : Prop :=
  m.writesVertex = false

/-- Any mutation that does neither. -/
abbrev NoEdgeNoRow (α : Type) (m : Mutation α) : Prop :=
  m.addsEdge = false ∧ m.writesVertex = false

lemma addRelation_composed (name : String) (source target : VertexId) (properties : Properties) :
    Composed NoRow (addRelation name source target properties) :=
  .bind .freshId fun _ => .mutate _ rfl

lemma attach_composed (v : VertexId) (a : Attachment) : Composed NoRow (attach v a) := by
  rw [attach]
  cases a.direction with
  | outgoing => exact (addRelation_composed _ _ _ _).discard
  | incoming => exact (addRelation_composed _ _ _ _).discard
  | both => exact (addRelation_composed _ _ _ _).discard

lemma create_composed (parent : Option CanonicalPath) (b : Blueprint) :
    Composed Any (create parent b) :=
  .bind (.check _) fun _ =>
    .bind (.bind (.mutate _ trivial) fun v =>
      .forM (fun a => (attach_composed v a).mono fun _ => trivial) _) fun _ => .pure _

lemma update_composed (p : CanonicalPath) (kind : Kind) (u : Update) :
    Composed NoEdge (update p kind u) :=
  .bind (.check _) fun _ =>
    .bind (.forM (fun _ => (Composed.mutate _ rfl).discard) _) fun _ =>
      .forM (fun _ => .mutate _ rfl) _

lemma delete_composed (p : CanonicalPath) : Composed NoEdgeNoRow (delete p) :=
  .bind (.check _) fun _ => .bind (.forM (fun _ => .mutate _ ⟨rfl, rfl⟩) _) fun _ => .pure _

lemma link_composed (name : String) (source target : CanonicalPath) (properties : Properties) :
    Composed NoRow (link name source target properties) :=
  .bind (.check _) fun _ => .bind (addRelation_composed _ _ _ _) fun _ => .check _

lemma unlink_composed (name : String) (source target : CanonicalPath) :
    Composed NoEdgeNoRow (unlink name source target) :=
  .bind (.check _) fun _ => .mutate _ ⟨rfl, rfl⟩

lemma updateRelation_composed (id : String) (properties : Properties) :
    Composed NoEdgeNoRow (updateRelation id properties) :=
  .bind (.check _) fun _ =>
    .bind (.forM (fun _ => (Composed.mutate _ ⟨rfl, rfl⟩).discard) _) fun _ =>
      .bind (.forM (fun _ => .mutate _ ⟨rfl, rfl⟩) _) fun _ => .check _

lemma deleteRelation_composed (id : String) : Composed NoEdgeNoRow (deleteRelation id) :=
  .bind (.check _) fun _ => .mutate _ ⟨rfl, rfl⟩

/-! ## No edit sees its transaction -/

/-- **An edit is blind to its transaction**: the answer, the graph, the supply, and whether a
mutation is called depend on the graph and the supply alone. -/
def Blind {α : Type} (e : Edit α) : Prop :=
  ∀ g s, ∃ (r : Except RegistryError α) (g' : Graph) (s' : Supply) (called : Bool),
    (called = false → g' = g) ∧
      ∀ base dirty, e.runIn ⟨base, g, dirty⟩ s = (r, ⟨base, g', dirty || called⟩, s')

/-- What comes after an edit goes on with what the edit has left. -/
lemma runIn_bind_ok {α β : Type} {e : Edit α} {f : α → Edit β} {t t' : Transaction} {s s' : Supply}
    {a : α} (h : e.runIn t s = (.ok a, t', s')) : (e >>= f).runIn t s = (f a).runIn t' s' := by
  rw [runIn] at h
  split at h
  · next b d hok =>
      cases h
      rw [runIn, runIn, Work.bind_ok hok]
  · cases h

/-- Behind a refusal there is nothing. -/
lemma runIn_bind_error {α β : Type} {e : Edit α} {f : α → Edit β} {t t' : Transaction}
    {s s' : Supply} {err : RegistryError} (h : e.runIn t s = (.error err, t', s')) :
    (e >>= f).runIn t s = (.error err, t', s') := by
  rw [runIn] at h
  split at h
  · cases h
  · next err d hfailed =>
      cases h
      rw [runIn, Work.bind_error hfailed]

/-- **Whatever an edit is composed of, it is blind to its transaction.** -/
theorem Composed.blind {may : (α : Type) → Mutation α → Prop} {α : Type} {e : Edit α}
    (h : Composed may e) : e.Blind := by
  induction h with
  | pure a => exact fun g s =>
      ⟨.ok a, g, s, false, fun _ => rfl, fun base dirty => by rw [Bool.or_false]; rfl⟩
  | check f =>
      intro g s
      refine ⟨f g, g, s, false, fun _ => rfl, fun base dirty => ?_⟩
      rw [Bool.or_false, runIn, Edit.check]
      cases f g with
      | ok a => rfl
      | error err => rfl
  | freshId => exact fun g s =>
      ⟨.ok s.draw.1, g, s.draw.2, false, fun _ => rfl, fun base dirty => by
        rw [Bool.or_false]
        rfl⟩
  | mutate m =>
      intro g s
      cases hrun : m.run g with
      | ok r =>
          refine ⟨.ok r.1, r.2, s, true, nofun, fun base dirty => ?_⟩
          rw [Bool.or_true, runIn, Edit.mutate, Transaction.mutate, hrun]
      | error err =>
          refine ⟨.error (.graph err), g, s, true, nofun, fun base dirty => ?_⟩
          rw [Bool.or_true, runIn, Edit.mutate, Transaction.mutate, hrun]
  | @bind α β e f first rest ihe ihf =>
      intro g s
      obtain ⟨r, g', s', called, hsame, hrun⟩ := ihe g s
      cases r with
      | error err =>
          refine ⟨.error err, g', s', called, hsame, fun base dirty => ?_⟩
          exact runIn_bind_error (hrun base dirty)
      | ok a =>
          obtain ⟨r, g'', s'', called', hsame', hrun'⟩ := ihf a g' s'
          refine ⟨r, g'', s'', called || called', fun hnone => ?_, fun base dirty => ?_⟩
          · obtain ⟨hcalled, hcalled'⟩ := Bool.or_eq_false_iff.1 hnone
            rw [hsame' hcalled', hsame hcalled]
          · rw [runIn_bind_ok (hrun base dirty), hrun', Bool.or_assoc]

end Edit

end Estate
