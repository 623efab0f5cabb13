import Estate.Layout

/-!
# Blueprints and updates

A blueprint says what a new entity is to be: an id, a name, properties, and the fields of its kind.
A data entity is named by its role and needs no id.  References to other entities are path texts,
which may be relative to the parent and may leave types out.

An update says what is to become of an existing entity.  What it does not mention stays.

* `Blueprint.structural`, `Update.structural` — the fields of a kind as properties.
* `Blueprint.Form.build` — a blueprint from the fields that have been filled in.
-/

namespace Estate

open Layout

/-- The fields of a kind. -/
inductive Blueprint.Details
  | tenant
  | environment
  | feed
  | operationType
  | resourceType (metricTypes : List String)
  | metricType (unit : MetricUnit) (dataType : MetricDataType) (interval : Option Int)
  | resource (type : String)
  | metric (type : String) (interval : Option Int)
  | dataEntity (role : DataRole) (value : Json)
  | metadataPack (members : List String)

/-- What a new entity is to be. -/
structure Blueprint where
  /-- The id, which the role takes the place of for a data entity. -/
  givenId : String
  name : Option String := none
  properties : Properties := ∅
  details : Blueprint.Details

/-- The property names that a kind reserves for its fields. -/
def Kind.fieldNames : Kind → List String
  | .metricType => ["unit", "dataType", "collectionInterval"]
  | .metric => ["collectionInterval"]
  | .dataEntity => ["role", "value"]
  | _ => []

/-- The interval between two collections as properties. -/
def intervalProperties (interval : Option Int) : Properties :=
  match interval with
  | some seconds => (∅ : Properties).insert intervalKey (.int seconds)
  | none => ∅

namespace Blueprint

/-- The kind of the new entity. -/
def kind (b : Blueprint) : Kind :=
  match b.details with
  | .tenant => .tenant
  | .environment => .environment
  | .feed => .feed
  | .operationType => .operationType
  | .resourceType _ => .resourceType
  | .metricType _ _ _ => .metricType
  | .resource _ => .resource
  | .metric _ _ => .metric
  | .dataEntity _ _ => .dataEntity
  | .metadataPack _ => .metadataPack

/-- The id of the new entity. -/
def id (b : Blueprint) : String :=
  match b.details with
  | .dataEntity role _ => role.name
  | _ => b.givenId

/-- The segment that the path of the new entity ends in. -/
def segment (b : Blueprint) : Segment :=
  ⟨b.kind, b.id⟩

/-- The fields of the kind as properties. -/
def structural (b : Blueprint) : Properties :=
  match b.details with
  | .metricType unit dataType interval =>
    ((intervalProperties interval).insert unitKey (.string unit.name)).insert
      dataTypeKey (.string dataType.name)
  | .metric _ interval => intervalProperties interval
  | .dataEntity role value =>
    ((∅ : Properties).insert roleKey (.string role.name)).insert valueKey value
  | _ => ∅

end Blueprint

/-! ## Filling in a blueprint -/

/-- The fields of a blueprint that have been filled in. -/
structure Blueprint.Form where
  id : Option String := none
  name : Option String := none
  properties : Properties := ∅
  metricTypes : List String := []
  unit : MetricUnit := .none
  dataType : MetricDataType := .gauge
  interval : Option Int := none
  resourceType : Option String := none
  metricType : Option String := none
  role : Option DataRole := none
  value : Json := .null
  members : List String := []

/-- The reason for which a form is no blueprint: a field that has to be filled in is not. -/
structure Blueprint.MissingField where
  field : String
  deriving DecidableEq, Repr

/-- The wording of the reason. -/
def Blueprint.MissingField.message (m : MissingField) : String :=
  "illegal argument: blueprint field '" ++ m.field ++ "' must be set"

namespace Blueprint.Form

/-- A field that has to be filled in. -/
def required {α : Type} (field : String) : Option α → Except MissingField α
  | some a => .ok a
  | none => .error ⟨field⟩

/-- The fields of a kind; relationships have no blueprint. -/
def details (f : Form) : Kind → Except MissingField Details
  | .tenant => .ok .tenant
  | .environment => .ok .environment
  | .feed => .ok .feed
  | .operationType => .ok .operationType
  | .resourceType => .ok (.resourceType f.metricTypes)
  | .metricType => .ok (.metricType f.unit f.dataType f.interval)
  | .resource => return .resource (← required "resource_type" f.resourceType)
  | .metric => return .metric (← required "metric_type" f.metricType) f.interval
  | .dataEntity => return .dataEntity (← required "role" f.role) f.value
  | .metadataPack => .ok (.metadataPack f.members)
  | .relationship => .error ⟨"kind"⟩

/-- The blueprint of a form.  Every kind but a data entity needs an id. -/
def build (f : Form) (kind : Kind) : Except MissingField Blueprint := do
  let id ←
    match kind with
    | .dataEntity => pure ""
    | _ => required "id" f.id
  return ⟨id, f.name, f.properties, ← f.details kind⟩

end Blueprint.Form

/-! ## Updates -/

/-- What is to become of an entity. -/
structure Update where
  name : Option String := none
  /-- The user's properties from now on. -/
  properties : Option Properties := none
  unit : Option MetricUnit := none
  interval : Option Int := none
  value : Option Json := none

/-- The fields of a kind that an update gives, as properties.  Fields of other kinds are not looked
at. -/
def Update.structural (u : Update) : Kind → Properties
  | .metricType =>
    match u.unit with
    | some unit => (intervalProperties u.interval).insert unitKey (.string unit.name)
    | none => intervalProperties u.interval
  | .metric => intervalProperties u.interval
  | .dataEntity =>
    match u.value with
    | some value => (∅ : Properties).insert valueKey value
    | none => ∅
  | _ => ∅

end Estate
