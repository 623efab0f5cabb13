import Estate.Interchange.Basic
import Estate.Paging.Pager
import Estate.Registry.Blueprint
import Estate.Registry.Entity

/-!
# Entities, relationships and requests as JSON

Entities and relationships are written; blueprints and updates are read.

* `Entity.toJson`, `Relationship.toJson` — one by itself.
* `Item.toJson` — one among others, under its kind.
* `Json.toBlueprint`, `Json.toUpdate` — what is to be created or changed.
-/

namespace Estate

/-! ## Entities and relationships -/

/-- The fields of a kind as JSON. -/
def Entity.Details.toFields : Entity.Details → List (String × Json)
  | plain => []
  | resourceType metricTypes => [("metric_types", .ofList .ofPath metricTypes)]
  | metricType unit dataType interval => [("unit", .string unit.name),
      ("data_type", .string dataType.name), ("collection_interval", .ofOption .int interval)]
  | resource type => [("resource_type", .ofOption .ofPath type)]
  | metric type interval => [("metric_type", .ofOption .ofPath type),
      ("collection_interval", .ofOption .int interval)]
  | dataEntity role value => [("role", .string role.name), ("value", value)]
  | metadataPack members => [("members", .ofList .ofPath members)]

/-- An entity as JSON. -/
def Entity.toJson (e : Entity) : Json :=
  .ofFields <| [("path", .ofPath e.path), ("name", .ofText? e.name),
    ("properties", .ofProperties e.properties)] ++ e.details.toFields

/-- A relationship as JSON. -/
def Relationship.toJson (r : Relationship) : Json :=
  .ofFields [("id", .string r.id), ("name", .string r.name), ("source", .ofPath r.source),
    ("target", .ofPath r.target), ("properties", .ofProperties r.properties)]

namespace Item

/-- An entity or a relationship under its kind. -/
def toJson : Item → Json
  | entity e => .tagged "Entity" (.tagged e.kind.name.capitalize e.toJson)
  | relationship r => .tagged "Relationship" r.toJson

/-- An entity or a relationship by itself. -/
def toBareJson : Item → Json
  | entity e => e.toJson
  | relationship r => r.toJson

end Item

/-! ## Blueprints and updates -/

/-- The unit that a request gives. -/
def Json.unit? (j : Json) : Option MetricUnit :=
  (j.text? "unit").bind MetricUnit.ofName?

/-- The form of a blueprint that the fields of a request fill in. -/
def Json.toForm (j : Json) : Blueprint.Form where
  id := j.text? "id"
  name := j.text? "name"
  properties := (j.properties? "properties").getD ∅
  metricTypes := j.texts "metric_types"
  unit := j.unit?.getD .none
  dataType := ((j.text? "data_type").bind MetricDataType.ofName?).getD .gauge
  interval := j.signed? "collection_interval"
  resourceType := j.text? "resource_type"
  metricType := j.text? "metric_type"
  role := (j.text? "role").bind DataRole.ofName?
  value := (j.present? "value").getD .null
  members := j.texts "members"

/-- The blueprint of a kind. -/
def Json.toBlueprint (j : Json) (kind : Kind) : Decoded Blueprint :=
  (j.toForm.build kind).mapError fun _ => .malformed

/-- An update. -/
def Json.toUpdate (j : Json) : Update where
  name := j.text? "name"
  properties := j.properties? "properties"
  unit := j.unit?
  interval := j.signed? "collection_interval"
  value := j.present? "value"

/-- The fields of a kind in a blueprint, as JSON. -/
def Blueprint.Details.toFields : Blueprint.Details → List (String × Json)
  | resourceType metricTypes => [("metric_types", .ofList .string metricTypes)]
  | metricType unit dataType interval => [("unit", .string unit.name),
      ("data_type", .string dataType.name), ("collection_interval", .ofOption .int interval)]
  | resource type => [("resource_type", .string type)]
  | metric type interval => [("metric_type", .string type),
      ("collection_interval", .ofOption .int interval)]
  | dataEntity role value => [("role", .string role.name), ("value", value)]
  | metadataPack members => [("members", .ofList .string members)]
  | _ => []

/-- A blueprint as JSON. -/
def Blueprint.toJson (b : Blueprint) : Json :=
  let id := match b.details with
    | .dataEntity _ _ => []
    | _ => [("id", Json.string b.givenId)]
  .ofFields <| id ++ [("name", .ofText? b.name), ("properties", .ofProperties b.properties)] ++
    b.details.toFields

/-! ## Pages -/

/-- A field to sort by, as JSON. -/
def SortField.toJson (f : SortField) : Json :=
  .ofFields [("field", .string f.field), ("direction", .string f.direction.name)]

/-- A field to sort by. -/
def Json.toSortField (j : Json) : Decoded SortField := do
  return ⟨← .need (j.text? "field"), ← .need ((j.text? "direction").bind SortDirection.ofName?)⟩

/-- A 64-bit word as JSON. -/
def Json.ofWord (n : UInt64) : Json :=
  .ofNat n.toNat

/-- A field that holds a 64-bit word. -/
def Json.word? (j : Json) (key : String) : Option UInt64 := do
  let n ← j.nat? key
  if n < UInt64.size then return .ofNat n else none

/-- A pager as JSON. -/
def Pager.toJson (p : Pager) : Json :=
  .ofFields [("page_index", .ofWord p.pageIndex), ("page_size", .ofOption .ofWord p.pageSize),
    ("order", .ofList SortField.toJson p.order)]

/-- A pager; its index is zero unless it is given. -/
def Json.toPager (j : Json) : Decoded Pager := do
  return ⟨(j.word? "page_index").getD 0, j.word? "page_size",
    ← (j.list "order").mapM Json.toSortField⟩

end Estate
