import Estate.Proofs.Registry.Composed
import Estate.Proofs.Registry.Delete
import Estate.Proofs.Registry.Relation

/-!
# The operations of the registry

What the registry can be asked for inside a transaction is one of seven sorts of operation.  Each
begins by making a plan, which looks at the graph and changes nothing, and everything that can be
refused is refused there.

* `Operation` — what can be asked for; `Operation.edit`, `Operation.validate` — the whole operation,
  and its plan alone.
* **`Operation.decided`** — the plan decides whether the rest is done.
* `Draft.after` — what operations leave behind; `Draft.Consistent.after` — it is consistent.
-/

namespace Estate

/-- What may be asked for inside a transaction. -/
inductive Operation
  | create (parent : Option CanonicalPath) (b : Blueprint)
  | update (p : CanonicalPath) (kind : Kind) (u : Update)
  | delete (p : CanonicalPath)
  | link (name : String) (source target : CanonicalPath) (properties : Properties)
  | unlink (name : String) (source target : CanonicalPath)
  | updateRelation (id : String) (properties : Properties)
  | deleteRelation (id : String)

namespace Operation

/-- The type of what an operation returns. -/
def Answer : Operation → Type
  | create _ _ => CanonicalPath
  | delete _ => List CanonicalPath
  | link _ _ _ _ | updateRelation _ _ => Relationship
  | update _ _ _ | unlink _ _ _ | deleteRelation _ => Unit

/-- What an operation does. -/
def edit : (op : Operation) → Edit op.Answer
  | create parent b => .create parent b
  | update p kind u => .update p kind u
  | delete p => .delete p
  | link name source target properties => .link name source target properties
  | unlink name source target => .unlink name source target
  | updateRelation id properties => .updateRelation id properties
  | deleteRelation id => .deleteRelation id

/-- What speaks against an operation, found out by looking at the graph. -/
def validate (op : Operation) (g : Graph) : Except RegistryError Unit :=
  match op with
  | create parent b => (g.planCreation parent b).map fun _ => ()
  | update p kind u => (g.planUpdate p kind u).map fun _ => ()
  | delete p => (g.planRemoval p).map fun _ => ()
  | link name source target properties =>
      (g.planLink name source target properties).map fun _ => ()
  | unlink name source target => (g.planUnlink name source target).map fun _ => ()
  | updateRelation id properties => (g.planRelationUpdate id properties).map fun _ => ()
  | deleteRelation id => (g.planRelationRemoval id).map fun _ => ()

/-- What an operation leaves of a draft, whether it is carried out or refused. -/
def leaves (op : Operation) (d : Draft) : Draft :=
  match op.edit d with
  | .ok _ d' => d'
  | .error _ d' => d'

/-- **The plan of an operation decides whether the rest is done.** -/
theorem decided (op : Operation) : op.edit.DecidedBy op.validate := by
  cases op with
  | create parent b => exact (Edit.create_decided parent b).map _
  | update p kind u => exact (Edit.update_decided p kind u).map _
  | delete p => exact (Edit.delete_decided p).map _
  | link name source target properties =>
      exact (Edit.link_decided name source target properties).map _
  | unlink name source target => exact (Edit.unlink_decided name source target).map _
  | updateRelation id properties => exact (Edit.updateRelation_decided id properties).map _
  | deleteRelation id => exact (Edit.deleteRelation_decided id).map _

/-- No operation sees its transaction. -/
lemma blind (op : Operation) : op.edit.Blind := by
  cases op with
  | create parent b => exact (Edit.create_composed parent b).blind
  | update p kind u => exact (Edit.update_composed p kind u).blind
  | delete p => exact (Edit.delete_composed p).blind
  | link name source target properties =>
      exact (Edit.link_composed name source target properties).blind
  | unlink name source target => exact (Edit.unlink_composed name source target).blind
  | updateRelation id properties => exact (Edit.updateRelation_composed id properties).blind
  | deleteRelation id => exact (Edit.deleteRelation_composed id).blind

end Operation

namespace Draft

/-- What is left after some operations. -/
def after (d : Draft) (ops : List Operation) : Draft :=
  ops.foldl (fun d op => op.leaves d) d

lemma Consistent.leaves {d : Draft} (h : d.Consistent) (op : Operation) :
    (op.leaves d).Consistent := by
  rw [Operation.leaves]
  rcases op.decided.orderly d h with ⟨a, d', hrun, hleads⟩ | ⟨err, hrun⟩
  · rw [hrun]
    exact hleads.consistent h
  · rw [hrun]
    exact h

/-- **Operations leave a draft consistent.** -/
theorem Consistent.after (ops : List Operation) : ∀ {d : Draft}, d.Consistent →
    (d.after ops).Consistent := by
  induction ops with
  | nil => exact fun h => h
  | cons op ops ih => exact fun h => ih (h.leaves op)

end Draft

end Estate
