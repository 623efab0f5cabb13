import Estate.Path.Inference
import Estate.Registry.Blueprint
import Estate.Registry.Check
import Estate.Registry.Edit

/-!
# Creating entities

A new entity stands below its parent and is joined to what its blueprint refers to.  All that can be
refused is refused while the creation is planned; carrying a plan out adds one vertex, the edge from
the parent and one edge for every reference.

* `Blueprint.references` — what a blueprint refers to, resolved against the parent.
* `Graph.planCreation` — the plan, or the refusal.
* `Edit.create` — the whole operation.
-/

namespace Estate

open Layout

/-- A relationship that comes with a new entity. -/
structure Blueprint.Reference where
  name : WellKnown
  /-- Outgoing if the new entity is the source. -/
  direction : Direction
  other : CanonicalPath

namespace Blueprint

/-- A path text of a blueprint, resolved against the parent. -/
def resolve (text : String) (parent : CanonicalPath) (expected : Option Kind) :
    Except RegistryError CanonicalPath :=
  (CanonicalPath.resolve text (some parent) expected).mapError .path

/-- A member of a metadata pack, which has to be a type. -/
def resolveMember (text : String) (parent : CanonicalPath) :
    Except RegistryError CanonicalPath := do
  let path ← resolve text parent none
  match path.kind with
  | .resourceType | .metricType => return path
  | kind => .error (.misuse (.badMember kind path))

/-- What a blueprint refers to.  A resource and a metric are defined by their types, a resource type
owns metric types, and a metadata pack takes types in. -/
def references (b : Blueprint) (parent : CanonicalPath) :
    Except RegistryError (List Reference) :=
  match b.details with
  | .resourceType metricTypes =>
    metricTypes.mapM fun text => do
      return ⟨.owns, .outgoing, ← resolve text parent (some .metricType)⟩
  | .resource type => do
    return [⟨.defines, .incoming, ← resolve type parent (some .resourceType)⟩]
  | .metric type _ => do
    return [⟨.defines, .incoming, ← resolve type parent (some .metricType)⟩]
  | .metadataPack members =>
    members.mapM fun text => do
      return ⟨.incorporates, .outgoing, ← resolveMember text parent⟩
  | _ => .ok []

/-- The path of the new entity. -/
def path (b : Blueprint) (parent : Option CanonicalPath) : Except RegistryError CanonicalPath :=
  match parent with
  | some parent => (parent.extend b.segment).mapError .path
  | none =>
    if b.kind.isRoot then ((Chain.extend [] b.segment).bind Chain.toPath).mapError .path
    else .error (.misuse (.noParent b.kind))

/-- All that is stored at the vertex of the new entity. -/
def stored (b : Blueprint) (path : CanonicalPath) : Properties :=
  let addressed := (((b.properties ∪ b.structural).insert typeKey (.string b.kind.code)).insert
    idKey (.string b.id)).insert pathKey (.string path.text)
  match b.name with
  | some name => addressed.insert nameKey (.string name)
  | none => addressed

end Blueprint

/-! ## Planning -/

/-- A relationship between a new entity and a vertex. -/
structure Attachment where
  name : WellKnown
  /-- Outgoing if the new entity is the source. -/
  direction : Direction
  other : VertexId
  deriving DecidableEq, Repr

/-- What the creation of an entity adds to the graph. -/
structure Creation where
  path : CanonicalPath
  properties : Properties
  /-- The relationships, that from the parent first. -/
  attachments : List Attachment

namespace Graph

/-- The attachment that a reference asks for. -/
def attachment (g : Graph) (path : CanonicalPath) (r : Blueprint.Reference) :
    Except RegistryError Attachment := do
  path.checkTenant r.other
  return ⟨r.name, r.direction, ← g.require r.other⟩

/-- The attachments of a new entity.  Without a parent there are none; two references to the same
vertex count once. -/
def attachments (g : Graph) (path : CanonicalPath) (b : Blueprint)
    (parent : Option CanonicalPath) : Except RegistryError (List Attachment) :=
  match parent with
  | none => .ok []
  | some parent => do
    let owner ← g.require parent
    let references ← b.references parent
    let others ← references.mapM (g.attachment path)
    return ⟨.contains, .incoming, owner⟩ :: others.eraseDups

/-- The creation of an entity, if nothing speaks against it. -/
def planCreation (g : Graph) (parent : Option CanonicalPath) (b : Blueprint) :
    Except RegistryError Creation := do
  if b.id.isEmpty then throw (.misuse (.emptyId b.kind))
  let path ← b.path parent
  b.properties.checkNames b.kind.fieldNames
  b.structural.checkInterval path
  if (g.locate? path).isSome then throw (.entityExists path)
  return ⟨path, b.stored path, ← g.attachments path b parent⟩

end Graph

/-! ## Carrying out -/

namespace Edit

/-- Adds a relationship under an id of its own. -/
def addRelation (name : String) (source target : VertexId) (properties : Properties) :
    Edit EdgeId := do
  let id ← freshId
  mutate (.addEdge name source target (properties.insert idKey (.string id)))

/-- Adds one relationship of a new entity. -/
def attach (v : VertexId) (a : Attachment) : Edit Unit := do
  match a.direction with
  | .outgoing => discard <| addRelation a.name.name v a.other ∅
  | _ => discard <| addRelation a.name.name a.other v ∅

/-- Carries a creation out. -/
def performCreation (c : Creation) : Edit Unit := do
  let v ← mutate (.addVertex c.properties)
  c.attachments.forM (attach v)

/-- Creates an entity below a parent, or a root, and returns its path. -/
def create (parent : Option CanonicalPath) (b : Blueprint) : Edit CanonicalPath := do
  let creation ← check (·.planCreation parent b)
  performCreation creation
  return creation.path

end Edit

end Estate
