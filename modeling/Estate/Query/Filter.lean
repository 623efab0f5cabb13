import Estate.Json.Text
import Estate.Path.Canonical

/-!
# Filters

A filter is one step or one condition of a query.  Some filters can be read either way: a filter in
the role of a path says where to go, and one that looks things up may jump there; in the role of a
filter it only narrows what has been reached.
-/

namespace Estate

/-- Which relationships are meant: those of a name, or the one with an id. -/
inductive RelationRef
  | name (name : String)
  | id (id : String)
  deriving DecidableEq, Repr

/-- A step or a condition. -/
inductive Filter
  /-- Without another end: over matching relationships to the entities on their other side.  With
  one: only entities that such a relationship joins with the entity there. -/
  | relatedBy (relation : RelationRef) (role : Role) (otherEnd : Option CanonicalPath)
  /-- Entities with one of these ids. -/
  | withIds (ids : List String)
  /-- Entities of one of these kinds. -/
  | withKinds (kinds : List Kind)
  /-- The elements at these paths. -/
  | withPaths (paths : List CanonicalPath)
  /-- Entities whose property has one of these values, or any value if none are given. -/
  | withProperty (name : String) (values : List Json)
  /-- From entities to their relationships. -/
  | toRelationships (direction : Direction)
  /-- From relationships to the entities at their ends. -/
  | toEntities (direction : Direction)
  /-- Relationships with one of these ids. -/
  | relationIds (ids : List String)
  /-- Relationships with one of these names. -/
  | relationNames (names : List String)
  /-- Relationships whose property has one of these values, or any value if none are given. -/
  | relationProperty (name : String) (values : List Json)
  /-- Relationships that start at an entity of one of these kinds. -/
  | relationSources (kinds : List Kind)
  /-- Relationships that end at an entity of one of these kinds. -/
  | relationTargets (kinds : List Kind)
  /-- Entities that the type at this path defines. -/
  | definedBy (type : CanonicalPath)
  /-- Entities with the same identity as those reached. -/
  | identical
  /-- Everything reached by the chain in any number of rounds, none included. -/
  | recurse (chain : List Filter)
  /-- What has been reached. -/
  | noop
  deriving Repr, Inhabited

namespace Filter

/-- From parents to their direct children. -/
def children : Filter :=
  relatedBy (.name WellKnown.contains.name) .source none

/-- From children to their parent. -/
def parents : Filter :=
  relatedBy (.name WellKnown.contains.name) .target none

end Filter

/-! ## Filters as text -/

/-- A relation reference as text. -/
def RelationRef.text : RelationRef → String
  | name n => n
  | id i => "id:" ++ i

/-- Kinds as text, separated by commas. -/
def kindList (kinds : List Kind) : String :=
  ", ".intercalate (kinds.map Kind.name)

/-- Values as text, separated by bars. -/
def valueList (values : List Json) : String :=
  " | ".intercalate (values.map Json.text)

namespace Filter

mutual

/-- A filter as text. -/
def text : Filter → String
  | relatedBy relation role none => "RelatedBy(" ++ relation.text ++ ", " ++ role.name ++ ")"
  | relatedBy relation role (some otherEnd) =>
    "RelatedBy(" ++ relation.text ++ ", " ++ role.name ++ ", " ++ otherEnd.text ++ ")"
  | withIds ids => "WithIds(" ++ ", ".intercalate ids ++ ")"
  | withKinds kinds => "WithTypes(" ++ kindList kinds ++ ")"
  | withPaths paths =>
    "WithCanonicalPaths(" ++ ", ".intercalate (paths.map CanonicalPath.text) ++ ")"
  | withProperty name [] => "WithProperty(" ++ name ++ ")"
  | withProperty name (v :: vs) => "WithProperty(" ++ name ++ " = " ++ valueList (v :: vs) ++ ")"
  | toRelationships direction => "Relationships(" ++ direction.name ++ ")"
  | toEntities direction => "Entities(" ++ direction.name ++ ")"
  | relationIds ids => "RelationWithIds(" ++ ", ".intercalate ids ++ ")"
  | relationNames names => "RelationWithNames(" ++ ", ".intercalate names ++ ")"
  | relationProperty name values =>
    "RelationWithProperties(" ++ name ++ " = " ++ valueList values ++ ")"
  | relationSources kinds => "RelationWithSourceTypes(" ++ kindList kinds ++ ")"
  | relationTargets kinds => "RelationWithTargetTypes(" ++ kindList kinds ++ ")"
  | definedBy type => "DefinedBy(" ++ type.text ++ ")"
  | identical => "Identical"
  | recurse chain => "Recurse[" ++ ", ".intercalate (texts chain) ++ "]"
  | noop => "Noop"

/-- The texts of a chain of filters. -/
def texts : List Filter → List String
  | [] => []
  | f :: fs => f.text :: texts fs

end

end Filter

end Estate
