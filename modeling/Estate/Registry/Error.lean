import Estate.Traversal.Compile
import Estate.Graph.Basic

/-!
# Why the registry refuses an operation

Every refusal is a cause with its data; `RegistryError.message` gives the wording.  Causes that are
the caller's mistake are gathered in `Misuse` and share a heading.
-/

namespace Estate

/-- The mistakes of a caller. -/
inductive Misuse
  /-- A vertex holds no entity. -/
  | noEntity (v : VertexId)
  /-- A vertex carries no path. -/
  | noPath (v : VertexId)
  /-- An end of an edge carries no path. -/
  | danglingEnd (e : EdgeId)
  /-- A property may not have this name. -/
  | reservedProperty (key : String)
  /-- The interval between two collections is no positive number. -/
  | badInterval (path : CanonicalPath) (value : Json)
  /-- Two paths lie in different tenants. -/
  | differentTenants (a b : CanonicalPath)
  /-- A blueprint has an empty id. -/
  | emptyId (kind : Kind)
  /-- An entity that is no root is to have no parent. -/
  | noParent (kind : Kind)
  /-- An id without a parent is no path. -/
  | noParentFor (kind : Kind) (id : String)
  /-- A kind may not hold another. -/
  | cannotContain (parent child : Kind)
  /-- A metadata pack is to take in something that is no type. -/
  | badMember (kind : Kind) (path : CanonicalPath)
  /-- A relationship has no name. -/
  | unnamed
  /-- An entity is to be related to itself. -/
  | selfRelation (path : CanonicalPath)
  /-- An entity is to be contained twice. -/
  | alreadyContained (target owner : CanonicalPath)
  /-- An entity is to contain what contains it. -/
  | wouldCycle (source target : CanonicalPath)
  /-- A containment is to be taken back. -/
  | cannotDetach (source target : CanonicalPath)
  /-- A containment is to be deleted by its id. -/
  | isContainment (id : String)
  /-- A path leads to another kind than was asked for. -/
  | notKind (path : CanonicalPath) (kind : Kind)
  /-- A new relationship has to go one way. -/
  | needsDirection (name : String)
  /-- A bulk has failed before or has been committed. -/
  | bulkClosed

/-- The wording of a mistake. -/
def Misuse.message : Misuse → String
  | noEntity v => "vertex v" ++ toString v ++ " is not an entity"
  | noPath v => "vertex v" ++ toString v ++ " carries no canonical path"
  | danglingEnd e => "dangling end of edge e" ++ toString e
  | reservedProperty key => "'" ++ key ++ "' is a reserved property name"
  | badInterval path value =>
    "collection interval of '" ++ path.text ++
      "' must be a positive number of seconds, got " ++ value.text
  | differentTenants a b =>
    "'" ++ a.text ++ "' and '" ++ b.text ++ "' belong to different tenants"
  | emptyId kind => "a " ++ kind.name ++ " needs a non empty id"
  | noParent kind => "a " ++ kind.name ++ " cannot be created without a parent"
  | noParentFor kind id => kind.name ++ " '" ++ id ++ "' needs a parent"
  | cannotContain parent child => "a " ++ parent.name ++ " cannot contain a " ++ child.name
  | badMember kind path =>
    "metadata packs incorporate resource and metric types, not " ++ kind.name ++ " '" ++
      path.text ++ "'"
  | unnamed => "relationships need a name"
  | selfRelation path => "'" ++ path.text ++ "' cannot be related to itself"
  | alreadyContained target owner =>
    "'" ++ target.text ++ "' is already contained in '" ++ owner.text ++ "'"
  | wouldCycle source target =>
    "'" ++ target.text ++ "' contains '" ++ source.text ++
      "'; containing it back would form a cycle"
  | cannotDetach source target =>
    "'" ++ target.text ++ "' cannot be detached from '" ++ source.text ++
      "'; delete it instead"
  | isContainment id =>
    "relationship '" ++ id ++ "' is a containment; delete the contained entity instead"
  | notKind path kind => "'" ++ path.text ++ "' is not a " ++ kind.name
  | needsDirection name => "relationship '" ++ name ++ "' needs a direction, not both"
  | bulkClosed => "bulk operation is no longer open"

/-- The ways in which what is stored forbids an operation. -/
inductive BadState
  /-- An entity defines another one that would outlive it. -/
  | definesSurvivor (defined deleted : CanonicalPath)
  /-- The role of a data entity is unknown. -/
  | unknownRole

/-- The wording of a bad state. -/
def BadState.message : BadState → String
  | definesSurvivor defined deleted =>
    "it defines '" ++ defined.text ++ "' which would outlive the deletion of '" ++
      deleted.text ++ "'"
  | unknownRole => "data entity has no recognizable role"

/-- The reasons for which the registry refuses an operation. -/
inductive RegistryError
  | path (cause : PathError)
  | traversal (cause : CompileError)
  | graph (cause : GraphError)
  | misuse (cause : Misuse)
  | badState (path : CanonicalPath) (cause : BadState)
  | entityNotFound (kind : Option Kind) (path : String) (filters : List Filter)
  | entityExists (path : CanonicalPath)
  | relationNotFound (name : String) (source target : CanonicalPath)
  | relationIdNotFound (id : String)
  | relationExists (name : String) (source target : CanonicalPath)

namespace RegistryError

/-- Nothing is stored at a path. -/
def notFound (p : CanonicalPath) : RegistryError :=
  entityNotFound (some p.kind) p.text []

/-- A relationship between two paths, in the wording of a refusal. -/
def relationText (name : String) (source target : CanonicalPath) : String :=
  "relationship '" ++ name ++ "' from '" ++ source.text ++ "' to '" ++ target.text ++ "'"

/-- The wording of a refusal. -/
def message : RegistryError → String
  | path cause => cause.message
  | traversal cause => cause.message
  | graph cause => cause.message
  | misuse cause => "illegal argument: " ++ cause.message
  | badState p cause => "illegal state of '" ++ p.text ++ "': " ++ cause.message
  | entityNotFound kind text filters =>
    (kind.map Kind.name).getD "entity" ++ " '" ++ text ++ "' not found" ++
      if filters.isEmpty then ""
      else " (while resolving " ++ " / ".intercalate (filters.map Filter.text) ++ ")"
  | entityExists p => "entity '" ++ p.text ++ "' already exists"
  | relationNotFound name source target => relationText name source target ++ " not found"
  | relationIdNotFound id => "relationship '" ++ id ++ "' not found"
  | relationExists name source target => relationText name source target ++ " already exists"

end RegistryError

end Estate
