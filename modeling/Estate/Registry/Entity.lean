import Estate.Layout
import Estate.Registry.Error

/-!
# Reading entities and relationships

What is stored as vertices and edges is read back as entities and relationships.  References to
other entities are not properties: they are read from the edges at a vertex, as paths sorted by
their text.
-/

namespace Estate

open Layout

/-- The fields of a kind, as they are read. -/
inductive Entity.Details
  | plain
  | resourceType (metricTypes : List CanonicalPath)
  | metricType (unit : MetricUnit) (dataType : MetricDataType) (interval : Option Int)
  | resource (type : Option CanonicalPath)
  | metric (type : Option CanonicalPath) (interval : Option Int)
  | dataEntity (role : DataRole) (value : Json)
  | metadataPack (members : List CanonicalPath)

/-- An entity of the estate. -/
structure Entity where
  kind : Kind
  path : CanonicalPath
  name : Option String
  properties : Properties
  details : Entity.Details

/-- A named relationship from one entity to another. -/
structure Relationship where
  id : String
  name : String
  source : CanonicalPath
  target : CanonicalPath
  properties : Properties

/-- The path of a relationship. -/
def Relationship.path (r : Relationship) : CanonicalPath :=
  .relationship r.id

/-- Anything that a traversal may reach. -/
inductive Item
  | entity (e : Entity)
  | relationship (r : Relationship)

/-- The path of an entity or a relationship. -/
def Item.path : Item → CanonicalPath
  | entity e => e.path
  | relationship r => r.path

namespace Graph

/-- The paths of the entities at the other end of relationships, sorted by text. -/
def relatedPaths (g : Graph) (v : VertexId) (name : WellKnown) (direction : Direction) :
    List CanonicalPath :=
  let paths := (g.edgesOf v direction (some name.name)).filterMap fun e => do
    g.pathAt? ((← g.edge? e).otherEnd v)
  paths.mergeSort fun p q => p.text ≤ q.text

/-- The path of the type that defines the entity at a vertex. -/
def definer? (g : Graph) (v : VertexId) : Option CanonicalPath :=
  (g.relatedPaths v .defines .incoming).head?

/-- The role of the data entity at a vertex, which is told by its id if need be. -/
def dataRole (vertex : Properties) (path : CanonicalPath) : Except RegistryError DataRole :=
  match (vertex.string? roleKey).bind DataRole.ofName? <|> DataRole.ofName? path.id with
  | some role => .ok role
  | none => .error (.badState path .unknownRole)

/-- The fields of a kind that are stored at a vertex. -/
def readDetails (g : Graph) (v : VertexId) (vertex : Properties) (path : CanonicalPath) :
    Kind → Except RegistryError Entity.Details
  | .resourceType => .ok (.resourceType (g.relatedPaths v .owns .outgoing))
  | .metricType => .ok (.metricType
      (((vertex.string? unitKey).bind MetricUnit.ofName?).getD .none)
      (((vertex.string? dataTypeKey).bind MetricDataType.ofName?).getD .gauge)
      (vertex[intervalKey]?.bind Json.int64?))
  | .resource => .ok (.resource (g.definer? v))
  | .metric => .ok (.metric (g.definer? v) (vertex[intervalKey]?.bind Json.int64?))
  | .dataEntity => return .dataEntity (← dataRole vertex path) (vertex[valueKey]?.getD .null)
  | .metadataPack => .ok (.metadataPack (g.relatedPaths v .incorporates .outgoing))
  | _ => .ok .plain

/-- The entity of a kind at a vertex. -/
def readEntity (g : Graph) (v : VertexId) (vertex : Properties) (kind : Kind) :
    Except RegistryError Entity :=
  match path? vertex with
  | none => .error (.misuse (.noPath v))
  | some path => do
    let details ← g.readDetails v vertex path kind
    return ⟨kind, path, vertex.string? nameKey, userProperties vertex, details⟩

/-- The relationship at an edge. -/
def readRelationship (g : Graph) (e : EdgeId) (edge : Edge) :
    Except RegistryError Relationship :=
  match g.pathAt? edge.source, g.pathAt? edge.target with
  | some source, some target =>
    .ok ⟨(relationId? edge).getD "", edge.label, source, target, userProperties edge.properties⟩
  | _, _ => .error (.misuse (.danglingEnd e))

end Graph

/-! ## What is asked for -/

/-- What the elements that a query reaches are to be read as. -/
inductive Wanted
  | entities (kind : Kind)
  | relationships
  | anything
  deriving DecidableEq, Repr

namespace Wanted

/-- Whether an element is of the sort that is wanted. -/
def accepts (g : Graph) : Wanted → Element → Bool
  | entities kind, .vertex v => g.kindAt? v == some kind
  | entities _, .edge _ => false
  | relationships, .vertex _ => false
  | relationships, .edge _ => true
  | anything, .vertex v => (g.vertex? v).isSome
  | anything, .edge e => (g.edge? e).isSome

/-- Reads an element, if it is of the sort that is wanted. -/
def read? (g : Graph) : Wanted → Element → Except RegistryError (Option Item)
  | relationships, .vertex _ => .ok none
  | entities _, .edge _ => .ok none
  | _, .edge e =>
    match g.edge? e with
    | none => .ok none
    | some edge => return some (.relationship (← g.readRelationship e edge))
  | entities kind, .vertex v =>
    match g.vertex? v with
    | none => .ok none
    | some vertex =>
      if kind? vertex = some kind then return some (.entity (← g.readEntity v vertex kind))
      else .ok none
  | anything, .vertex v =>
    match g.vertex? v with
    | none => .ok none
    | some vertex =>
      match kind? vertex with
      | none => .ok none
      | some kind => do
        let entity ← g.readEntity v vertex kind
        return if kind.isEntity then some (.entity entity) else none

end Wanted

end Estate
