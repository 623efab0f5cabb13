/-!
# Kinds of things an estate holds

Every segment of a path names a thing of one of eleven kinds.  A kind has three spellings: a short
code for paths (`/t;acme/e;prod`), a name, and a plural that traversals use for collections
(`environments`, `dataEntities`).  Which kinds may directly hold which is the containment table
`Kind.children`; everything about legal paths follows from it.

* `Kind.ofCode?`, `Kind.ofName?`, `Kind.ofPlural?` read the spellings back
  (`ofCode?_code`, `ofName?_name`, `ofPlural?_plural`).
* `Kind.canContain` — the containment table as a test.
* `Direction`, `Role` — how a relationship is walked and which end an entity stands on.
* `WellKnown` names, metric units, data types and data roles are the closed vocabularies that
  blueprints use.
-/

namespace Estate

/-- The kinds of path segments, in the order in which paths are sorted. -/
inductive Kind
  | tenant
  | environment
  | feed
  | resourceType
  | metricType
  | operationType
  | resource
  | metric
  | dataEntity
  | metadataPack
  | relationship
  deriving DecidableEq, Repr, Inhabited

namespace Kind

/-- Every kind once, in order. -/
def all : List Kind :=
  [tenant, environment, feed, resourceType, metricType, operationType, resource, metric,
    dataEntity, metadataPack, relationship]

/-- The short spelling used in paths. -/
def code : Kind → String
  | tenant => "t"
  | environment => "e"
  | feed => "f"
  | resourceType => "rt"
  | metricType => "mt"
  | operationType => "ot"
  | resource => "r"
  | metric => "m"
  | dataEntity => "d"
  | metadataPack => "mp"
  | relationship => "rl"

/-- The long spelling. -/
def name : Kind → String
  | tenant => "tenant"
  | environment => "environment"
  | feed => "feed"
  | resourceType => "resourceType"
  | metricType => "metricType"
  | operationType => "operationType"
  | resource => "resource"
  | metric => "metric"
  | dataEntity => "dataEntity"
  | metadataPack => "metadataPack"
  | relationship => "relationship"

/-- The spelling of a collection. -/
def plural : Kind → String
  | tenant => "tenants"
  | environment => "environments"
  | feed => "feeds"
  | resourceType => "resourceTypes"
  | metricType => "metricTypes"
  | operationType => "operationTypes"
  | resource => "resources"
  | metric => "metrics"
  | dataEntity => "dataEntities"
  | metadataPack => "metadataPacks"
  | relationship => "relationships"

/-- The kind with this code. -/
def ofCode? (text : String) : Option Kind :=
  all.find? fun k => k.code == text

/-- The kind with this name. -/
def ofName? (text : String) : Option Kind :=
  all.find? fun k => k.name == text

/-- The kind with this plural. -/
def ofPlural? (text : String) : Option Kind :=
  all.find? fun k => k.plural == text

/-- The kind with this code or, failing that, this name. -/
def ofWord? (text : String) : Option Kind :=
  ofCode? text <|> ofName? text

/-- The kinds that a segment of this kind may directly hold. -/
def children : Kind → List Kind
  | tenant => [environment, feed, resourceType, metricType, metadataPack]
  | environment => [resource, metric]
  | feed => [resourceType, metricType, resource, metric]
  | resourceType => [operationType, dataEntity]
  | operationType => [dataEntity]
  | resource => [resource, metric, dataEntity]
  | _ => []

/-- Whether a segment of kind `child` may stand directly below one of kind `parent`. -/
def canContain (parent child : Kind) : Bool :=
  parent.children.contains child

/-- The kinds a canonical path may start with. -/
def isRoot : Kind → Bool
  | tenant => true
  | relationship => true
  | _ => false

/-- Entities are all kinds but relationships. -/
def isEntity (k : Kind) : Bool :=
  k != relationship

/-- The place of a kind in the order of path segments. -/
def rank : Kind → Nat
  | tenant => 0
  | environment => 1
  | feed => 2
  | resourceType => 3
  | metricType => 4
  | operationType => 5
  | resource => 6
  | metric => 7
  | dataEntity => 8
  | metadataPack => 9
  | relationship => 10

theorem mem_all (k : Kind) : k ∈ all := by
  cases k <;> decide

theorem ofCode?_code (k : Kind) : ofCode? k.code = some k := by
  cases k <;> decide

theorem ofName?_name (k : Kind) : ofName? k.name = some k := by
  cases k <;> decide

theorem ofPlural?_plural (k : Kind) : ofPlural? k.plural = some k := by
  cases k <;> decide

end Kind

/-! ## Relationships -/

/-- How an edge is walked, seen from the vertex where the walk stands. -/
inductive Direction
  | incoming
  | outgoing
  | both
  deriving DecidableEq, Repr, Inhabited

namespace Direction

/-- The word for a direction. -/
def name : Direction → String
  | incoming => "in"
  | outgoing => "out"
  | both => "both"

/-- The direction with this word. -/
def ofName? (text : String) : Option Direction :=
  [incoming, outgoing, both].find? fun d => d.name == text

/-- The same edges, seen from their other end. -/
def opposite : Direction → Direction
  | incoming => outgoing
  | outgoing => incoming
  | both => both

theorem ofName?_name (d : Direction) : ofName? d.name = some d := by
  cases d <;> decide

end Direction

/-- Which end of a relationship an entity stands on. -/
inductive Role
  | source
  | target
  | any
  deriving DecidableEq, Repr, Inhabited

namespace Role

/-- The word for a role. -/
def name : Role → String
  | source => "source"
  | target => "target"
  | any => "any"

/-- Where to walk from an entity in this role to reach the other end. -/
def direction : Role → Direction
  | source => .outgoing
  | target => .incoming
  | any => .both

end Role

/-- The relationship names that the registry itself draws and reads. -/
inductive WellKnown
  | contains
  | defines
  | owns
  | incorporates
  deriving DecidableEq, Repr, Inhabited

namespace WellKnown

/-- The name of the relationship. -/
def name : WellKnown → String
  | contains => "contains"
  | defines => "defines"
  | owns => "owns"
  | incorporates => "incorporates"

/-- The well-known relationship with this name. -/
def ofName? (text : String) : Option WellKnown :=
  [contains, defines, owns, incorporates].find? fun w => w.name == text

end WellKnown

/-! ## Vocabularies of blueprints -/

/-- What a metric is measured in. -/
inductive MetricUnit
  | none
  | milliseconds
  | seconds
  | minutes
  | hours
  | bytes
  | kilobytes
  | megabytes
  | gigabytes
  | percentage
  deriving DecidableEq, Repr, Inhabited

namespace MetricUnit

/-- Every unit once. -/
def all : List MetricUnit :=
  [none, milliseconds, seconds, minutes, hours, bytes, kilobytes, megabytes, gigabytes,
    percentage]

/-- The word for a unit. -/
def name : MetricUnit → String
  | none => "none"
  | milliseconds => "milliseconds"
  | seconds => "seconds"
  | minutes => "minutes"
  | hours => "hours"
  | bytes => "bytes"
  | kilobytes => "kilobytes"
  | megabytes => "megabytes"
  | gigabytes => "gigabytes"
  | percentage => "percentage"

/-- The unit with this word. -/
def ofName? (text : String) : Option MetricUnit :=
  all.find? fun u => u.name == text

theorem ofName?_name (u : MetricUnit) : ofName? u.name = some u := by
  cases u <;> decide

end MetricUnit

/-- What the samples of a metric are. -/
inductive MetricDataType
  | gauge
  | availability
  | counter
  | counterRate
  | text
  deriving DecidableEq, Repr, Inhabited

namespace MetricDataType

/-- Every data type once. -/
def all : List MetricDataType :=
  [gauge, availability, counter, counterRate, text]

/-- The word for a data type. -/
def name : MetricDataType → String
  | gauge => "gauge"
  | availability => "availability"
  | counter => "counter"
  | counterRate => "counterRate"
  | text => "string"

/-- The data type with this word. -/
def ofName? (text : String) : Option MetricDataType :=
  all.find? fun t => t.name == text

theorem ofName?_name (t : MetricDataType) : ofName? t.name = some t := by
  cases t <;> decide

end MetricDataType

/-- What a data entity means to its parent; its word is also the id of the data entity. -/
inductive DataRole
  | configuration
  | connectionConfiguration
  | returnType
  | parameterTypes
  deriving DecidableEq, Repr, Inhabited

namespace DataRole

/-- Every role once. -/
def all : List DataRole :=
  [configuration, connectionConfiguration, returnType, parameterTypes]

/-- The word for a role. -/
def name : DataRole → String
  | configuration => "configuration"
  | connectionConfiguration => "connectionConfiguration"
  | returnType => "returnType"
  | parameterTypes => "parameterTypes"

/-- The role with this word. -/
def ofName? (text : String) : Option DataRole :=
  all.find? fun r => r.name == text

theorem ofName?_name (r : DataRole) : ofName? r.name = some r := by
  cases r <;> decide

end DataRole

end Estate
