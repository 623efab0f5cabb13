import Estate.Interchange.Basic
import Estate.Traversal.Grammar

/-!
# Traversals and reports as JSON

Everything that was read carries the bytes that it was read from.
-/

namespace Estate

/-- A value with the bytes that it was read from, as JSON. -/
def Parse.Spanned.toJson {α : Type} (f : α → Json) (s : Parse.Spanned α) : Json :=
  let range := Json.ofFields [("start", .ofNat s.span.start), ("end", .ofNat s.span.stop)]
  .ofFields [("trace", .tagged "range" range), ("w", f s.value)]

/-- The name of a key in exchanged values. -/
def FilterKey.title : FilterKey → String
  | type => "Type"
  | id => "Id"
  | path => "Cp"
  | name => "Name"
  | propertyName => "PropertyName"
  | propertyValue => "PropertyValue"
  | definedBy => "DefinedBy"
  | relatedBy => "RelatedBy"
  | relatedTo => "RelatedTo"
  | relatedWith => "RelatedWith"
  | sourceType => "SourceType"
  | targetType => "TargetType"

/-- A condition in brackets, as JSON. -/
def FilterSpec.toJson (s : FilterSpec) : Json :=
  .ofFields [("key", .string s.key.title), ("values", .ofList .string s.values)]

/-- Conditions in brackets, as JSON. -/
def FilterSpecs.toJson (specs : FilterSpecs) : Json :=
  .ofList (Parse.Spanned.toJson FilterSpec.toJson) specs

/-- What stands after a hop to relationships, as JSON. -/
def Selector.toJson : Selector → Json
  | entities filters => .tagged "Entities" filters.toJson
  | relationships filters => .tagged "Relationships" filters.toJson

/-- A step as JSON. -/
def Step.toJson : Step → Json
  | entity s => .tagged "Entity" <| .ofFields [("segment_type", .ofOption .ofKind s.kind),
      ("id", .string s.id), ("filters", s.filters.toJson)]
  | collection s => .tagged "Collection" <| .ofFields [("segment_type", .ofKind s.kind),
      ("recursive", .bool s.recursive), ("filters", s.filters.toJson),
      ("id", .ofOption (Parse.Spanned.toJson .string) s.id), ("id_filters", s.idFilters.toJson)]
  | relationships s => .tagged "Relationships" <| .ofFields [("name", .ofText? s.name),
      ("direction", .string s.direction.name), ("filters", s.filters.toJson),
      ("selector", .ofOption (Parse.Spanned.toJson Selector.toJson) s.selector)]
  | recursive s => .tagged "Recursive" <| .ofFields [("over", .string s.relation),
      ("direction", .string s.direction.name), ("filters", s.filters.toJson)]
  | identical => .string "Identical"

/-- A traversal as JSON. -/
def Traversal.toJson (t : Traversal) : Json :=
  .ofFields [("absolute", .bool t.absolute),
    ("steps", .ofList (Parse.Spanned.toJson Step.toJson) t.steps)]

/-- A report as JSON. -/
def Parse.Report.toJson (r : Parse.Report) : Json :=
  .ofFields [("message", .string r.message), ("offset", .ofNat r.offset),
    ("token", .string r.token), ("expected", .ofList .string r.expected)]

/-- A report. -/
def Json.toReport (j : Json) : Decoded Parse.Report := do
  return ⟨← .need (j.text? "message"), ← .need (j.nat? "offset"), ← .need (j.text? "token"),
    j.texts "expected"⟩

end Estate
