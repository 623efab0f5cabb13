import Estate.Kind
import Estate.Parse.Parser

/-!
# Traversals

A traversal is a list of steps from a start to the elements that are wanted, such as
`tenants/t1/environments/e1/resources;recursive[propertyName=os]`.  A step goes to one entity, to a
collection, along relationships, through the closure of a relationship, or to everything identical.
Steps may be narrowed by filters in brackets; which filter keys a bracket may use depends on whether
it stands behind entities or behind relationships.
-/

namespace Estate

open Parse (Spanned)

/-- What a filter in a bracket looks at. -/
inductive FilterKey
  | type
  | id
  | path
  | name
  | propertyName
  | propertyValue
  | definedBy
  | relatedBy
  | relatedTo
  | relatedWith
  | sourceType
  | targetType
  deriving DecidableEq, Repr

namespace FilterKey

/-- Every key once. -/
def all : List FilterKey :=
  [type, id, path, name, propertyName, propertyValue, definedBy, relatedBy, relatedTo, relatedWith,
    sourceType, targetType]

/-- The word for a key. -/
def word : FilterKey → String
  | type => "type"
  | id => "id"
  | path => "cp"
  | name => "name"
  | propertyName => "propertyName"
  | propertyValue => "propertyValue"
  | definedBy => "definedBy"
  | relatedBy => "relatedBy"
  | relatedTo => "relatedTo"
  | relatedWith => "relatedWith"
  | sourceType => "sourceType"
  | targetType => "targetType"

/-- The key with this word. -/
def ofWord? (text : String) : Option FilterKey :=
  all.find? fun k => k.word == text

theorem ofWord?_word (k : FilterKey) : ofWord? k.word = some k := by
  cases k <;> decide

end FilterKey

/-- What a bracket stands behind. -/
inductive FilterContext
  | entity
  | relationship
  deriving DecidableEq, Repr

/-- The keys that a bracket may use. -/
def FilterContext.keys : FilterContext → List FilterKey
  | entity => [.type, .id, .path, .name, .propertyName, .propertyValue, .definedBy, .relatedBy,
      .relatedTo, .relatedWith]
  | relationship => [.name, .type, .id, .propertyName, .propertyValue, .sourceType, .targetType]

/-- One `key=value,value` of a bracket. -/
structure FilterSpec where
  key : FilterKey
  values : List String
  deriving DecidableEq, Repr

/-- The filters behind a step, each with the place it was written at. -/
abbrev FilterSpecs := List (Spanned FilterSpec)

/-- One entity, `r;host1[…]`, or `host1[…]` whose type follows from its position. -/
structure EntityStep where
  kind : Option Kind
  id : String
  filters : FilterSpecs
  deriving DecidableEq, Repr

/-- The entities of a kind, `resources;recursive[…]/host1[…]`. -/
structure CollectionStep where
  kind : Kind
  recursive : Bool
  filters : FilterSpecs
  id : Option (Spanned String)
  idFilters : FilterSpecs
  deriving DecidableEq, Repr

/-- What is taken from the relationships a step has reached. -/
inductive Selector
  | entities (filters : FilterSpecs)
  | relationships (filters : FilterSpecs)
  deriving DecidableEq, Repr

namespace Selector

/-- The filters behind a selector. -/
def filters : Selector → FilterSpecs
  | entities filters => filters
  | relationships filters => filters

/-- What the filters of a selector stand behind. -/
def context : Selector → FilterContext
  | entities _ => .entity
  | relationships _ => .relationship

end Selector

/-- The relationships of the entities so far: `relationships;contains;out[…]/entities[…]`. -/
structure RelationshipStep where
  name : Option String
  direction : Direction
  filters : FilterSpecs
  selector : Option (Spanned Selector)
  deriving DecidableEq, Repr

/-- Everything reached by following a relationship any number of times,
`recursive;over=isParentOf;out[…]`. -/
structure RecursiveStep where
  relation : String
  direction : Direction
  filters : FilterSpecs
  deriving DecidableEq, Repr

/-- The closure of containment. -/
def RecursiveStep.contained : RecursiveStep :=
  ⟨WellKnown.contains.name, .outgoing, []⟩

/-- A step of a traversal. -/
inductive Step
  | entity (step : EntityStep)
  | collection (step : CollectionStep)
  | relationships (step : RelationshipStep)
  | recursive (step : RecursiveStep)
  | identical
  deriving DecidableEq, Repr

/-- A traversal.  An absolute one starts with a slash. -/
structure Traversal where
  absolute : Bool
  steps : List (Spanned Step)
  deriving DecidableEq, Repr

end Estate
