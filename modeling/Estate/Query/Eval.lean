import Estate.Query.Basic
import Estate.Query.Identity
import Estate.Query.Position

/-!
# Evaluating queries

`Query.run` applies the fragments of a query to a position one after the other, and then its
branches, whose answers it joins.  What a filter does depends on its role in two cases only.  As a
path, `withPaths` leaves the position and jumps to the paths; and from everywhere, `withKinds` and
`withIds` look elements up, relationships included.  Every other filter does the same in both roles.

* `Graph.hop`, `Graph.relatedTo` — over relationships, and by relationships.
* `Graph.keeps` — the conditions.
* `Reach.close` — the closure of a step, which ends because a round that adds nothing is the last.
-/

namespace Estate

open Layout

/-! ## Conditions -/

/-- Whether a value is one that was asked for.  A text stands for every value that is written like
it, but never for another text. -/
def Json.answers (actual wanted : Json) : Bool :=
  actual == wanted ||
    match actual, wanted with
    | .string _, .string _ => false
    | actual, .string wanted => actual.text == wanted
    | .string actual, wanted => actual == wanted.text
    | _, _ => false

/-- Whether a property is there with one of the values, or at all if none are given. -/
def holdsProperty (p : Properties) (name : String) (values : List Json) : Bool :=
  match p[name]? with
  | none => false
  | some actual => values.isEmpty || values.any actual.answers

namespace Graph

/-- Whether the type at a path defines the entity at a vertex. -/
def isDefinedBy (g : Graph) (v : VertexId) (type : CanonicalPath) : Bool :=
  match g.locate? type with
  | none => false
  | some definer =>
    (g.edgesOf v .incoming (some WellKnown.defines.name)).any fun e =>
      (g.edge? e).any fun edge => edge.source == definer

/-- Whether the entity at a vertex is of one of the kinds. -/
def hasKind (g : Graph) (v : VertexId) (kinds : List Kind) : Bool :=
  (g.kindAt? v).any kinds.contains

/-- Whether a vertex meets a condition.  Conditions on relationships let entities through. -/
def keepsVertex (g : Graph) (f : Filter) (v : VertexId) (vertex : Properties) : Bool :=
  match f with
  | .withIds ids => (id? vertex).any ids.contains
  | .withKinds kinds => (kind? vertex).any kinds.contains
  | .withPaths paths => (vertex.string? pathKey).any fun text => paths.any fun p => p.text == text
  | .withProperty name values => holdsProperty vertex name values
  | .definedBy type => g.isDefinedBy v type
  | _ => true

/-- Whether an edge meets a condition. -/
def keepsEdge (g : Graph) (f : Filter) (edge : Edge) : Bool :=
  match f with
  | .withIds ids => (relationId? edge).any ids.contains
  | .relationIds ids => (relationId? edge).any ids.contains
  | .withKinds kinds => kinds.contains .relationship
  | .withPaths paths =>
    (relationId? edge).any fun id => paths.any fun p => p.kind == .relationship && p.id == id
  | .relationNames names => names.contains edge.label
  | .withProperty name values => holdsProperty edge.properties name values
  | .relationProperty name values => holdsProperty edge.properties name values
  | .relationSources kinds => g.hasKind edge.source kinds
  | .relationTargets kinds => g.hasKind edge.target kinds
  | .definedBy _ => false
  | _ => true

/-- Whether an element meets a condition. -/
def keeps (g : Graph) (f : Filter) : Element → Bool
  | .vertex v => (g.vertex? v).any (g.keepsVertex f v)
  | .edge e => (g.edge? e).any (g.keepsEdge f)

/-! ## Steps -/

/-- The relationships at a vertex that are meant. -/
def relationsAt (g : Graph) (relation : RelationRef) (role : Role) (v : VertexId) : List Edge :=
  match relation with
  | .name name => (g.edgesOf v role.direction (some name)).filterMap g.edge?
  | .id id =>
    ((g.edgesOf v role.direction none).filterMap g.edge?).filter fun edge =>
      relationId? edge == some id

/-- Over relationships to the entities at their other end. -/
def hop (g : Graph) (relation : RelationRef) (role : Role) (r : Reach) : Reach :=
  .ofVertices <| r.vertices.toList.flatMap fun v =>
    (g.relationsAt relation role v).map (·.otherEnd v)

/-- The entities that such a relationship joins with the entity at a path. -/
def relatedTo (g : Graph) (relation : RelationRef) (role : Role) (other : CanonicalPath)
    (r : Reach) : Reach :=
  match g.locate? other with
  | none => {}
  | some target => {
      vertices := r.vertices.filter fun v =>
        (g.relationsAt relation role v).any fun edge => edge.otherEnd v == target }

/-- The relationships of entities. -/
def toRelationships (g : Graph) (direction : Direction) (r : Reach) : Reach :=
  .ofEdges <| r.vertices.toList.flatMap fun v => g.edgesOf v direction none

/-- The entities at the ends of relationships. -/
def toEntities (g : Graph) (direction : Direction) (r : Reach) : Reach :=
  .ofVertices <| (r.edges.toList.filterMap g.edge?).flatMap fun edge =>
    match direction with
    | .outgoing => [edge.target]
    | .incoming => [edge.source]
    | .both => [edge.source, edge.target]

/-- The elements at paths. -/
def atPaths (g : Graph) (paths : List CanonicalPath) : Reach :=
  paths.foldl (fun r p =>
    r.union <|
      match p.kind with
      | .relationship => .ofEdges (g.relationEdges p.id)
      | _ => .ofVertices (g.locate? p).toList) {}

/-- The elements of some kinds. -/
def ofKinds (g : Graph) (kinds : List Kind) : Reach :=
  kinds.foldl (fun r k =>
    r.union <|
      match k with
      | .relationship => .ofEdges g.edges.keys
      | k => .ofVertices (g.verticesBy typeKey (.string k.code))) {}

/-- The elements with some ids. -/
def ofIds (g : Graph) (ids : List String) : Reach :=
  ids.foldl (fun r id =>
    r.union {
      vertices := .ofList (g.verticesBy idKey (.string id))
      edges := .ofList (g.edgesBy idKey (.string id)) }) {}

/-- The entities that are identical with some of those reached. -/
def identicalTo (digest : String → String) (g : Graph) (r : Reach) : Reach :=
  let typed := r.vertices.toList.filterMap fun v =>
    ((g.vertex? v).bind fun vertex => vertex.string? typeKey).map fun code => (code, v)
  let (hashes, memo) := g.identityHashes digest ∅ (typed.map (·.2))
  let wanted := typed.filterMap fun (code, v) => (hashes.lookup v).map fun hash => (code, hash)
  let codes : Std.ExtTreeSet String compare := .ofList (wanted.map (·.1))
  let candidates := codes.toList.flatMap fun code =>
    (g.verticesBy typeKey (.string code)).map fun v => (code, v)
  let (hashes, _) := g.identityHashes digest memo (candidates.map (·.2))
  .ofVertices <| candidates.filterMap fun (code, v) =>
    (hashes.lookup v).bind fun hash => if wanted.contains (code, hash) then some v else none

end Graph

/-- The closure of a step: what has been found, and what the step leads to from it any number of
times.  Every round starts from what the round before found anew; the first number bounds the
rounds. -/
def Reach.close (step : Reach → Reach) : Nat → Reach → Reach → Reach
  | 0, found, _ => found
  | rounds + 1, found, fresh =>
    if fresh.isEmpty then found
    else
      let next := (step fresh).diff found
      Reach.close step rounds (found.union next) next

/-! ## Filters, fragments, queries -/

mutual

/-- Where a filter leads from a position. -/
def Filter.apply (digest : String → String) (g : Graph) (role : FragmentRole) :
    Filter → Position → Position
  | .relatedBy relation end_ none, p => .among (g.hop relation end_ (p.reach g))
  | .relatedBy relation end_ (some other), p => .among (g.relatedTo relation end_ other (p.reach g))
  | .toRelationships direction, p => .among (g.toRelationships direction (p.reach g))
  | .toEntities direction, p => .among (g.toEntities direction (p.reach g))
  | .identical, p => .among (g.identicalTo digest (p.reach g))
  | .noop, p => p
  | .recurse chain, p =>
    match p with
    | .everywhere => .everywhere
    | .among r =>
      .among <| Reach.close (fun fresh => (applyChain digest g role chain (.among fresh)).reach g)
        (g.vertices.size + g.edges.size + 1) r r
  | .withPaths paths, p =>
    match role with
    | .path => .among (g.atPaths paths)
    | .filter => .among ((p.reach g).filter (g.keeps (.withPaths paths)))
  | .withKinds kinds, p =>
    match role, p with
    | .path, .everywhere => .among (g.ofKinds kinds)
    | _, p => .among ((p.reach g).filter (g.keeps (.withKinds kinds)))
  | .withIds ids, p =>
    match role, p with
    | .path, .everywhere => .among (g.ofIds ids)
    | _, p => .among ((p.reach g).filter (g.keeps (.withIds ids)))
  | f, p => .among ((p.reach g).filter (g.keeps f))

/-- Where a chain of filters leads from a position. -/
def applyChain (digest : String → String) (g : Graph) (role : FragmentRole) :
    List Filter → Position → Position
  | [], p => p
  | f :: fs, p => applyChain digest g role fs (f.apply digest g role p)

end

/-- Where a fragment leads from a position. -/
def Fragment.apply (digest : String → String) (g : Graph) (f : Fragment) (p : Position) :
    Position :=
  f.filter.apply digest g f.role p

namespace Query

mutual

/-- Where a query leads from a position. -/
def run (digest : String → String) (g : Graph) : Query → Position → Position
  | node fragments branches, p =>
    let p := fragments.foldl (fun p f => f.apply digest g p) p
    match branches with
    | [] => p
    | [only] => only.run digest g p
    | several => runAll digest g several p

/-- Where several queries lead from a position, taken together. -/
def runAll (digest : String → String) (g : Graph) : List Query → Position → Position
  | [], _ => .among {}
  | q :: qs, p => (q.run digest g p).union (runAll digest g qs p)

end

/-- The elements that a query leads to. -/
def elements (digest : String → String) (g : Graph) (q : Query) : Reach :=
  (q.run digest g .everywhere).reach g

end Query

end Estate
