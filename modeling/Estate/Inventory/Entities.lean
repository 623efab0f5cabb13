import Estate.Inventory.Basic
import Estate.Inventory.Selection
import Estate.Registry.Delete

/-!
# The operations of an inventory

Entities are addressed by path, or by id among the entities of one kind below a parent.
Relationships are addressed by id or by their name and ends.  Whether something is stored at an
address is found out when the address is used.

* `Siblings` — the entities of one kind directly below a parent.
* `Service.create`, `Service.entity`, `Service.update`, `Service.delete`, … — what can be done.
-/

namespace Estate

/-- Refuses a path to another kind. -/
def CanonicalPath.checkKind (p : CanonicalPath) (kind : Kind) : Except RegistryError Unit :=
  if p.kind = kind then .ok () else .error (.misuse (.notKind p kind))

/-- The entities of one kind directly below a parent, or at the root. -/
structure Siblings where
  parent : Option CanonicalPath
  kind : Kind

namespace Siblings

/-- The tenants. -/
def tenants : Siblings :=
  ⟨none, .tenant⟩

/-- The entities of a kind directly below a parent that may hold them. -/
def below (parent : CanonicalPath) (kind : Kind) : Except RegistryError Siblings := do
  parent.checkChild kind
  return ⟨some parent, kind⟩

/-- The path of the entity with an id. -/
def pathOf (s : Siblings) (id : String) : Except RegistryError CanonicalPath :=
  match s.parent with
  | some parent => (parent.extend ⟨s.kind, id⟩).mapError .path
  | none =>
    if s.kind.isRoot then ((Chain.extend [] ⟨s.kind, id⟩).bind Chain.toPath).mapError .path
    else .error (.misuse (.noParentFor s.kind id))

/-- The siblings that pass some filters. -/
def selection (s : Siblings) (filters : List Filter) : Selection :=
  let query :=
    match s.parent with
    | some parent => Query.ofPath [.withPaths [parent], .children, .withKinds [s.kind]]
    | none => Query.ofPath [.withKinds [s.kind]]
  Selection.narrowed ⟨query, .entities s.kind⟩ filters

end Siblings

namespace Selection

/-- The relationships of the entity at a path. -/
def relationsOf (p : CanonicalPath) (direction : Direction) : Selection :=
  ⟨.ofPath [.withPaths [p], .toRelationships direction], .relationships⟩

/-- The relationships that pass some filters. -/
def relations (filters : List Filter) : Selection :=
  Selection.narrowed ⟨.ofPath [.withKinds [.relationship]], .relationships⟩ filters

/-- What a traversal reaches from an origin. -/
def traversal (text : String) (origin : Option CanonicalPath) : Except RegistryError Selection :=
  match Query.compile text origin with
  | .ok query => .ok (.anything query)
  | .error e => .error (.traversal e)

end Selection

namespace Graph

/-- The entity at a path. -/
def entityAt (g : Graph) (p : CanonicalPath) : Except RegistryError Item := do
  let v ← g.require p
  match ← (Wanted.entities p.kind).read? g (.vertex v) with
  | some item => return item
  | none => throw (.notFound p)

/-- What is wanted at a path, if it is there. -/
def peek (g : Graph) (wanted : Wanted) (p : CanonicalPath) :
    Except RegistryError (Option Item) :=
  match g.locate? p with
  | some v => wanted.read? g (.vertex v)
  | none => .ok none

end Graph

namespace Service

/-! ## Reading -/

/-- One page of a selection. -/
def page (s : Selection) (p : Pager) : Service (Page Item) := do
  let limit := (← config).maxPageSize
  read (s.page Digest.md5 limit p)

/-- Everything in a selection. -/
def all (s : Selection) : Service (List Item) := do
  let limit := (← config).maxPageSize
  read (s.all Digest.md5 limit)

/-- The first of a selection by path. -/
def first? (s : Selection) : Service (Option Item) := do
  let limit := (← config).maxPageSize
  read (s.first? Digest.md5 limit)

/-- The paths of a selection. -/
def paths (s : Selection) : Service (List CanonicalPath) :=
  read fun g => .ok (s.paths Digest.md5 g)

/-- The entity at a path. -/
def entity (p : CanonicalPath) : Service Item :=
  read (·.entityAt p)

/-- Whether there is an entity at a path. -/
def contains (p : CanonicalPath) : Service Bool :=
  read fun g => .ok (g.locate? p).isSome

/-- The entity or the relationship at a path. -/
def get (p : CanonicalPath) : Service Item := do
  match (← all (.anything (.path p))).head? with
  | some item => return item
  | none => ofCheck (.error (.notFound p))

/-- The relationship with an id. -/
def relation (id : String) : Service Relationship :=
  read (·.relation id)

/-! ## Writing -/

/-- Creates an entity below a parent, or a root. -/
def create (parent : Option CanonicalPath) (b : Blueprint) : Service CanonicalPath :=
  transact (.create parent b)

/-- Updates the entity at a path. -/
def update (p : CanonicalPath) (u : Update) : Service Unit :=
  transact (.update p p.kind u)

/-- Deletes the entity at a path with everything that it contains. -/
def delete (p : CanonicalPath) : Service (List CanonicalPath) :=
  transact (.delete p)

/-- Relates one entity to another. -/
def link (name : String) (source target : CanonicalPath) (properties : Properties) :
    Service Relationship :=
  transact (.link name source target properties)

/-- Relates an entity to another, as the source or as the target. -/
def linkWith (p : CanonicalPath) (name : String) (other : CanonicalPath) (direction : Direction)
    (properties : Properties) : Service Relationship :=
  match direction with
  | .outgoing => link name p other properties
  | .incoming => link name other p properties
  | .both => ofCheck (.error (.misuse (.needsDirection name)))

/-- Takes a relationship back. -/
def unlink (name : String) (source target : CanonicalPath) : Service Unit :=
  transact (.unlink name source target)

/-- Replaces the properties of a relationship. -/
def updateRelation (id : String) (properties : Properties) : Service Relationship :=
  transact (.updateRelation id properties)

/-- Deletes a relationship by its id. -/
def deleteRelation (id : String) : Service Unit :=
  transact (.deleteRelation id)

/-! ## In a bulk -/

/-- Creates an entity in the open bulk. -/
def bulkCreate (parent : Option CanonicalPath) (b : Blueprint) : Service CanonicalPath :=
  inBulk (.create parent b) fun path => [path]

/-- Relates one entity to another in the open bulk. -/
def bulkLink (name : String) (source target : CanonicalPath) (properties : Properties) :
    Service Relationship :=
  inBulk (.link name source target properties) fun _ => []

/-- What the open bulk sees at a path. -/
def bulkPeek (wanted : Wanted) (p : CanonicalPath) : Service (Option Item) :=
  peekBulk (·.peek wanted p)

end Service

end Estate
