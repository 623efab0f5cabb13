import Estate.Registry.Error
import Estate.Layout

/-!
# What operations check

The conditions that several operations share, each with the refusal that it leads to.
-/

namespace Estate

open Layout

/-- Refuses property names that are reserved.  The fields of a kind are reserved for it. -/
def Properties.checkNames (p : Properties) (fields : List String) : Except RegistryError Unit :=
  match p.keys.find? fun key => isReserved key fields with
  | some key => .error (.misuse (.reservedProperty key))
  | none => .ok ()

/-- Refuses an interval between two collections that is no positive number of seconds. -/
def Properties.checkInterval (p : Properties) (path : CanonicalPath) : Except RegistryError Unit :=
  match p[intervalKey]? with
  | none => .ok ()
  | some interval =>
    match interval.int64? with
    | some seconds =>
      if 0 < seconds then .ok () else .error (.misuse (.badInterval path interval))
    | none => .error (.misuse (.badInterval path interval))

/-- Refuses two paths that lie in different tenants. -/
def CanonicalPath.checkTenant (p q : CanonicalPath) : Except RegistryError Unit :=
  if p.tenantId? = q.tenantId? then .ok () else .error (.misuse (.differentTenants p q))

/-- Refuses a child of a kind that may not stand directly below a path. -/
def CanonicalPath.checkChild (p : CanonicalPath) (child : Kind) : Except RegistryError Unit :=
  if p.kind.canContain child then .ok () else .error (.misuse (.cannotContain p.kind child))

namespace Graph

/-- The vertex of the entity at a path, which has to be there. -/
def require (g : Graph) (p : CanonicalPath) : Except RegistryError VertexId :=
  match g.locate? p with
  | some v => .ok v
  | none => .error (.notFound p)

/-- The path of the entity at a vertex, which has to be there. -/
def pathOf (g : Graph) (v : VertexId) : Except RegistryError CanonicalPath :=
  match g.pathAt? v with
  | some p => .ok p
  | none => .error (.misuse (.noEntity v))

/-- The first relationship of a name from one vertex to another. -/
def findEdge? (g : Graph) (name : String) (source target : VertexId) : Option EdgeId :=
  (g.edgesOf source .outgoing (some name)).find? fun e =>
    (g.edge? e).any fun edge => edge.target == target

/-- The relationship with an id, which has to be there. -/
def findRelation (g : Graph) (id : String) : Except RegistryError EdgeId :=
  match g.relationEdges id with
  | e :: _ => .ok e
  | [] => .error (.relationIdNotFound id)

/-- The relationship with an id, read from its edge. -/
def requireRelation (g : Graph) (id : String) : Except RegistryError (EdgeId × Edge) := do
  let e ← g.findRelation id
  match g.edge? e with
  | some edge => .ok (e, edge)
  | none => .error (.relationIdNotFound id)

end Graph

end Estate
