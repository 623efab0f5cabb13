import Estate.Layout

/-!
# The settings of an inventory

Every setting has a default.  By default the registry's addressing keys are indexed, which makes
looking an entity or a relationship up fast; the choice has no other effect.
-/

namespace Estate

/-- Where the graph of an inventory is kept. -/
inductive Substrate
  | memory
  deriving DecidableEq, Repr

namespace Substrate

/-- The name of a substrate. -/
def name : Substrate → String
  | memory => "memory"

/-- The substrate of a name. -/
def ofName? (text : String) : Option Substrate :=
  [memory].find? fun s => s.name == text

end Substrate

/-- The settings of an inventory. -/
structure Config where
  /-- The size of a page if none is asked for. -/
  pageSize : UInt64 := 50
  /-- The size that no page exceeds. -/
  maxPageSize : UInt64 := 1000
  /-- What is to be logged. -/
  log : String := "info"
  substrate : Substrate := .memory
  /-- The property names of entities that are indexed. -/
  vertexKeys : List String := [Layout.typeKey, Layout.idKey, Layout.pathKey]
  /-- The property names of relationships that are indexed. -/
  edgeKeys : List String := [Layout.idKey]
  deriving DecidableEq, Repr

/-- The settings if none are given. -/
def Config.usual : Config := {}

end Estate
