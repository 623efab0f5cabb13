import Estate.Config
import Estate.Paging.Pager
import Estate.Registry.Relation

/-!
# Inventories

An inventory keeps a graph and answers one operation after the other.  An operation that reads sees
the graph as it is; one that writes works in a transaction of its own, which is committed if the
operation succeeds and forgotten if it is refused.

**A bulk is one long transaction.**  While it is open every other operation finds the inventory
busy.  The first refused step ends its transaction, and all that is left to do then is to close it.

No operation waits here.  One that finds the inventory busy changes nothing and says so at once; to
wait for the bulk to be closed is to ask again then.

* `Service.read`, `Service.transact` — the two kinds of operation.
* `Service.openBulk`, `Service.inBulk`, `Service.commitBulk`, `Service.dropBulk` — bulks.
-/

namespace Estate

/-- An open bulk. -/
structure Bulk where
  /-- The transaction, which ends with the first refused step. -/
  transaction : Option Transaction
  /-- The paths of the entities created so far, in order. -/
  created : List CanonicalPath := []

/-- An inventory. -/
structure Inventory where
  config : Config
  store : Store
  supply : Supply
  bulk : Option Bulk := none

/-- An inventory without entities. -/
def Inventory.empty (config : Config) (supply : Supply) : Inventory where
  config
  store := .empty config.vertexKeys config.edgeKeys
  supply

/-- The first page of the usual size. -/
def Inventory.defaultPager (i : Inventory) : Pager :=
  .first i.config.pageSize

/-- The reasons for which an inventory does not carry an operation out. -/
inductive ServiceError
  /-- A bulk is open. -/
  | busy
  /-- No bulk is open. -/
  | noBulk
  /-- The registry refuses the operation. -/
  | refused (cause : RegistryError)

/-- An operation on an inventory. -/
abbrev Service := EStateM ServiceError Inventory

namespace Service

variable {α : Type}

/-- The result of a check that needs no look at the graph. -/
def ofCheck (r : Except RegistryError α) : Service α := fun i =>
  match r with
  | .ok a => .ok a i
  | .error e => .error (.refused e) i

/-- The settings. -/
def config : Service Config := fun i =>
  .ok i.config i

/-- An operation that only reads. -/
def read (f : Graph → Except RegistryError α) : Service α := fun i =>
  match i.bulk with
  | some _ => .error .busy i
  | none => ofCheck (f i.store.graph) i

/-- An operation that writes. -/
def transact (e : Edit α) : Service α := fun i =>
  match i.bulk with
  | some _ => .error .busy i
  | none =>
    match e.runIn i.store.begin i.supply with
    | (.error err, _, supply) => .error (.refused err) { i with supply }
    | (.ok a, t, supply) =>
      match i.store.commit t with
      | .ok store => .ok a { i with store, supply }
      | .error err => .error (.refused (.graph err)) { i with supply }

/-! ## Bulks -/

/-- Opens a bulk. -/
def openBulk : Service Unit := fun i =>
  match i.bulk with
  | some _ => .error .busy i
  | none => .ok () { i with bulk := some ⟨some i.store.begin, []⟩ }

/-- A step of the open bulk, which notes the paths that the step has created. -/
def inBulk (e : Edit α) (created : α → List CanonicalPath) : Service α := fun i =>
  match i.bulk with
  | none => .error .noBulk i
  | some ⟨none, _⟩ => .error (.refused (.misuse .bulkClosed)) i
  | some ⟨some t, before⟩ =>
    match e.runIn t i.supply with
    | (.error err, _, supply) =>
      .error (.refused err) { i with bulk := some ⟨none, before⟩, supply }
    | (.ok a, t, supply) =>
      .ok a { i with bulk := some ⟨some t, before ++ created a⟩, supply }

/-- A look at the graph of the open bulk. -/
def peekBulk (f : Graph → Except RegistryError α) : Service α := fun i =>
  match i.bulk with
  | none => .error .noBulk i
  | some ⟨none, _⟩ => .error (.refused (.misuse .bulkClosed)) i
  | some ⟨some t, _⟩ => ofCheck (f t.graph) i

/-- Closes the open bulk, makes its work visible and returns the paths that it has created. -/
def commitBulk : Service (List CanonicalPath) := fun i =>
  match i.bulk with
  | none => .error .noBulk i
  | some ⟨none, _⟩ => .error (.refused (.misuse .bulkClosed)) { i with bulk := none }
  | some ⟨some t, created⟩ =>
    match i.store.commit t with
    | .ok store => .ok created { i with store, bulk := none }
    | .error err => .error (.refused (.graph err)) { i with bulk := none }

/-- Closes the open bulk and forgets its work. -/
def dropBulk : Service Unit := fun i =>
  match i.bulk with
  | none => .error .noBulk i
  | some _ => .ok () { i with bulk := none }

end Service

end Estate
