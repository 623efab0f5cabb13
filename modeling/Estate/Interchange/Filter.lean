import Estate.Interchange.Basic
import Estate.Query.Basic

/-!
# Filters and queries as JSON

A filter without data is its name; every other one is an object whose only key is its name.  A query
is the tree that it is.

* `Filter.toJson`, `Json.toFilter` — filters, written and read.
* `Query.toJson` — queries, written.
* `Json.toQuery` — a query from the steps by which it is built up.
-/

namespace Estate

/-- The name of a role in exchanged values. -/
def Role.title : Role → String
  | .source => "Source"
  | .target => "Target"
  | .any => "Any"

/-- The role of a name in exchanged values. -/
def Role.ofTitle? (text : String) : Option Role :=
  [Role.source, .target, .any].find? fun r => r.title == text

/-- Which relationships are meant, as JSON. -/
def RelationRef.toJson : RelationRef → Json
  | name n => .tagged "Name" (.string n)
  | id i => .tagged "Id" (.string i)

/-- A property and its values, as JSON. -/
def propertyJson (name : String) (values : List Json) : Json :=
  .ofFields [("name", .string name), ("values", .array values)]

/-- A hop between entities and relationships, as JSON. -/
def switchJson (direction : Direction) (fromEdge : Bool) : Json :=
  .tagged "SwitchElementType" <|
    .ofFields [("direction", .string direction.name), ("from_edge", .bool fromEdge)]

namespace Filter

mutual

/-- A filter as JSON. -/
def toJson : Filter → Json
  | relatedBy relation role otherEnd => .tagged "RelatedBy" <| .ofFields [
      ("relationship", relation.toJson), ("role", .string role.title),
      ("other_end", .ofOption .ofPath otherEnd)]
  | withIds ids => .tagged "WithIds" (.ofList .string ids)
  | withKinds kinds => .tagged "WithTypes" (.ofList .ofKind kinds)
  | withPaths paths => .tagged "WithCanonicalPaths" (.ofList .ofPath paths)
  | withProperty name values => .tagged "WithProperty" (propertyJson name values)
  | toRelationships direction => switchJson direction false
  | toEntities direction => switchJson direction true
  | relationIds ids => .tagged "RelationWithIds" (.ofList .string ids)
  | relationNames names => .tagged "RelationWithNames" (.ofList .string names)
  | relationProperty name values => .tagged "RelationWithProperties" (propertyJson name values)
  | relationSources kinds => .tagged "RelationWithSourceTypes" (.ofList .ofKind kinds)
  | relationTargets kinds => .tagged "RelationWithTargetTypes" (.ofList .ofKind kinds)
  | definedBy type => .tagged "DefinedBy" (.ofPath type)
  | identical => .string "Identical"
  | recurse chain => .tagged "Recurse" (.array (allToJson chain))
  | noop => .string "Noop"

/-- Filters as JSON. -/
def allToJson : List Filter → List Json
  | [] => []
  | f :: fs => f.toJson :: allToJson fs

end

end Filter

/-- A fragment as JSON. -/
def Fragment.toJson (f : Fragment) : Json :=
  let role := match f.role with
    | .path => "Path"
    | .filter => "Filter"
  .ofFields [("role", .string role), ("filter", f.filter.toJson)]

namespace Query

mutual

/-- A query as JSON. -/
def toJson : Query → Json
  | node fragments branches => .ofFields [
      ("fragments", .ofList Fragment.toJson fragments), ("sub_trees", .array (allToJson branches))]

/-- Queries as JSON. -/
def allToJson : List Query → List Json
  | [] => []
  | q :: qs => q.toJson :: allToJson qs

end

end Query

/-! ## Reading -/

/-- Which relationships are meant. -/
def Json.toRelationRef : Json → Decoded RelationRef
  | .object [("Name", .string n)] => .ok (.name n)
  | .object [("Id", .string i)] => .ok (.id i)
  | _ => .error .malformed

/-- A filter that holds no other filters, from its name and its data. -/
def Json.toSimpleFilter (tag : String) (data : Json) : Decoded Filter := do
  match tag, data with
  | "RelatedBy", v =>
    let relation ← (← Decoded.need (v.present? "relationship")).toRelationRef
    let role ← Decoded.need ((v.text? "role").bind Role.ofTitle?)
    return .relatedBy relation role (← v.path? "other_end")
  | "WithIds", .array xs => return .withIds (xs.filterMap Json.string?)
  | "WithTypes", .array xs => return .withKinds (← xs.mapM Json.toKind)
  | "WithCanonicalPaths", .array xs => return .withPaths (← xs.mapM Json.toPath)
  | "WithProperty", v => return .withProperty (← Decoded.need (v.text? "name")) (v.list "values")
  | "SwitchElementType", v =>
    let direction ← Decoded.need ((v.text? "direction").bind Direction.ofName?)
    match v.field? "from_edge" with
    | some (.bool true) => return .toEntities direction
    | _ => return .toRelationships direction
  | "RelationWithIds", .array xs => return .relationIds (xs.filterMap Json.string?)
  | "RelationWithNames", .array xs => return .relationNames (xs.filterMap Json.string?)
  | "RelationWithProperties", v =>
    return .relationProperty (← Decoded.need (v.text? "name")) (v.list "values")
  | "RelationWithSourceTypes", .array xs => return .relationSources (← xs.mapM Json.toKind)
  | "RelationWithTargetTypes", .array xs => return .relationTargets (← xs.mapM Json.toKind)
  | "DefinedBy", v => return .definedBy (← v.toPath)
  | _, _ => throw .malformed

mutual

/-- A filter. -/
def Json.toFilter : Json → Decoded Filter
  | .string "Identical" => .ok .identical
  | .string "Noop" => .ok .noop
  | .object [("Recurse", .array chain)] => return .recurse (← Json.toFilters chain)
  | .object [(tag, data)] => Json.toSimpleFilter tag data
  | _ => .error .malformed

/-- A list of filters. -/
def Json.toFilters : List Json → Decoded (List Filter)
  | [] => .ok []
  | x :: xs => return (← x.toFilter) :: (← Json.toFilters xs)

end

mutual

/-- Carries one step of building a query out. -/
def Query.step (q : Query) : Json → Decoded Query
  | .object [("path", f)] => return q.goTo (← f.toFilter)
  | .object [("filter", f)] => return q.narrow (← f.toFilter)
  | .object [("paths", .array fs)] => return (← Json.toFilters fs).foldl Query.goTo q
  | .object [("filters", .array fs)] => return (← Json.toFilters fs).foldl Query.narrow q
  | .object [("branch", .array qs)] => return q.branch (← Json.toQueries qs)
  | _ => .error .malformed

/-- Carries steps of building a query out. -/
def Query.steps (q : Query) : List Json → Decoded Query
  | [] => .ok q
  | x :: xs => do Query.steps (← q.step x) xs

/-- Queries, each from its steps. -/
def Json.toQueries : List Json → Decoded (List Query)
  | [] => .ok []
  | .array steps :: xs => return (← Query.steps .empty steps) :: (← Json.toQueries xs)
  | _ :: _ => .error .malformed

end

/-- A query from the steps by which it is built up. -/
def Json.toQuery (steps : List Json) : Decoded Query :=
  Query.empty.steps steps

end Estate
