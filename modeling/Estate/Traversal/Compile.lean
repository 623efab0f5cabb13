import Estate.Path.Inference
import Estate.Query.Basic
import Estate.Traversal.Grammar

/-!
# Queries from traversals

A traversal becomes a query without branches.  It is compiled step by step, and every step knows
where it stands: at the start, at entities of a kind that it may know, or at relationships.
From entities a step to an entity or a collection first goes to the children; from relationships one
has to select their ends before going on.

The filters of a bracket follow the step as conditions.  Property names are paired with property
values by their order, and so are `relatedBy` with `relatedTo` and `relatedWith`.

* `Traversal.compile` — the query of a traversal.
* `Query.compile`, `Query.compileAt` — the query of a traversal text.
-/

namespace Estate

/-! ## What can be wrong with a traversal -/

/-- What a step leads to, in the wording of a complaint. -/
inductive StepNoun
  | entity
  | collection
  | recursion
  | relationshipHop
  | identical
  deriving DecidableEq, Repr

/-- The wording of a step. -/
def StepNoun.text : StepNoun → String
  | entity => "an entity"
  | collection => "a collection"
  | recursion => "a recursive step"
  | relationshipHop => "a relationship hop"
  | identical => "'identical'"

/-- The filters that come in pairs. -/
inductive Pairing
  | propertyName
  | propertyValue
  | related
  deriving DecidableEq, Repr

/-- The wording of a filter that lacks its partner. -/
def Pairing.text : Pairing → String
  | propertyName => "propertyName"
  | propertyValue => "propertyValue"
  | related => "relatedBy/relatedTo/relatedWith"

/-- The reasons for which a traversal has no query. -/
inductive CompileError
  /-- The text is no traversal. -/
  | unreadable (errors : Parse.Errors)
  /-- A step needs entities but stands behind relationships. -/
  | needsEntities (step : StepNoun) (offset : Nat)
  /-- The value of a filter is no path. -/
  | badPath (value : String) (offset : Nat) (cause : PathError)
  /-- The value of a filter is no kind. -/
  | unknownKind (value : String) (offset : Nat)
  /-- A filter lacks its partner. -/
  | unmatched (pairing : Pairing) (offset : Nat)
  deriving DecidableEq, Repr

/-- The wording of a refusal. -/
def CompileError.message : CompileError → String
  | unreadable errors => errors.message
  | needsEntities step offset =>
    "illegal argument: " ++ step.text ++ " at offset " ++ toString offset ++
      " cannot follow a relationship hop; select 'entities' first"
  | badPath value offset cause =>
    "illegal argument: '" ++ value ++ "' at offset " ++ toString offset ++
      " is not a usable path: " ++ cause.message
  | unknownKind value offset =>
    "illegal argument: unknown type '" ++ value ++ "' at offset " ++ toString offset
  | unmatched pairing offset =>
    "illegal argument: unmatched " ++ pairing.text ++ " at offset " ++ toString offset

/-! ## Brackets -/

namespace FilterSpec

/-- The kinds that the values of a filter name. -/
def kinds (offset : Nat) (values : List String) : Except CompileError (List Kind) :=
  values.mapM fun v =>
    match Kind.ofWord? v with
    | some k => .ok k
    | none => .error (.unknownKind v offset)

/-- The paths that the values of a filter name. -/
def paths (origin : Option CanonicalPath) (offset : Nat) (values : List String) :
    Except CompileError (List CanonicalPath) :=
  values.mapM fun v => (CanonicalPath.resolve v origin none).mapError (.badPath v offset)

end FilterSpec

/-- What a bracket amounts to before its pairs are matched. -/
structure BracketParts where
  /-- The conditions that stand alone. -/
  filters : List Filter := []
  /-- The property names of every specification that gives some, with its place. -/
  names : List (List String × Nat) := []
  /-- The property values of every specification that gives some, with its place. -/
  values : List (List String × Nat) := []
  /-- The names of relationships to be matched with an end. -/
  relations : List (String × Nat) := []
  /-- The ends to be matched with the name of a relationship. -/
  ends : List (Role × CanonicalPath × Nat) := []

namespace BracketParts

/-- Takes in one specification of a bracket. -/
def add (origin : Option CanonicalPath) (context : FilterContext) (parts : BracketParts)
    (spec : Parse.Spanned FilterSpec) : Except CompileError BracketParts := do
  let offset := spec.span.start
  let values := spec.value.values
  let condition (f : Filter) : BracketParts := { parts with filters := parts.filters ++ [f] }
  match spec.value.key, context with
  | .propertyName, _ => pure { parts with names := parts.names ++ [(values, offset)] }
  | .propertyValue, _ => pure { parts with values := parts.values ++ [(values, offset)] }
  | .type, .entity => return condition (.withKinds (← FilterSpec.kinds offset values))
  | .id, .entity => pure (condition (.withIds values))
  | .id, .relationship => pure (condition (.relationIds values))
  | .path, _ => return condition (.withPaths (← FilterSpec.paths origin offset values))
  | .name, .entity => pure (condition (.withProperty "name" (values.map Json.string)))
  | .name, .relationship => pure (condition (.relationNames values))
  | .type, .relationship => pure (condition (.relationNames values))
  | .definedBy, _ => do
    let types ← FilterSpec.paths origin offset values
    pure { parts with filters := parts.filters ++ types.map Filter.definedBy }
  | .relatedBy, _ =>
    pure { parts with relations := parts.relations ++ values.map fun v => (v, offset) }
  | .relatedTo, _ => do
    let ends ← FilterSpec.paths origin offset values
    pure { parts with ends := parts.ends ++ ends.map fun p => (.source, p, offset) }
  | .relatedWith, _ => do
    let ends ← FilterSpec.paths origin offset values
    pure { parts with ends := parts.ends ++ ends.map fun p => (.any, p, offset) }
  | .sourceType, _ => return condition (.relationSources (← FilterSpec.kinds offset values))
  | .targetType, _ => return condition (.relationTargets (← FilterSpec.kinds offset values))

end BracketParts

/-- The condition that a property has one of these values. -/
def FilterContext.property (context : FilterContext) (name : String) (values : List Json) :
    Filter :=
  match context with
  | .entity => .withProperty name values
  | .relationship => .relationProperty name values

/-- Matches property names with property values.  Without any values a name only asks for the
property to be there; otherwise every specification of values belongs to one single name. -/
def matchProperties (context : FilterContext) (names values : List (List String × Nat)) :
    Except CompileError (List Filter) :=
  if values.isEmpty then
    .ok (names.flatMap fun (ns, _) => ns.map fun n => context.property n [])
  else pairUp names values
where
  /-- Matches the specifications one by one. -/
  pairUp : List (List String × Nat) → List (List String × Nat) → Except CompileError (List Filter)
    | names, values =>
      if names.length < values.length then
        .error (.unmatched .propertyValue (((values.drop names.length).head?.map (·.2)).getD 0))
      else if values.length < names.length then
        .error (.unmatched .propertyName (((names.drop values.length).head?.map (·.2)).getD 0))
      else
        (names.zip values).mapM fun
          | (([name], _), (vs, _)) => .ok (context.property name (vs.map Json.string))
          | ((_, offset), _) => .error (.unmatched .propertyName offset)

/-- Matches the names of relationships with their ends. -/
def matchRelations (relations : List (String × Nat)) (ends : List (Role × CanonicalPath × Nat)) :
    Except CompileError (List Filter) :=
  match relations, ends with
  | [], [] => .ok []
  | (name, _) :: relations, (role, otherEnd, _) :: ends => do
    return .relatedBy (.name name) role (some otherEnd) :: (← matchRelations relations ends)
  | (_, offset) :: _, [] => .error (.unmatched .related offset)
  | [], (_, _, offset) :: _ => .error (.unmatched .related offset)

/-- The conditions of the brackets behind a step. -/
def compileFilters (origin : Option CanonicalPath) (context : FilterContext)
    (specs : FilterSpecs) : Except CompileError (List Fragment) := do
  let parts ← specs.foldlM (BracketParts.add origin context) {}
  let properties ← matchProperties context parts.names parts.values
  let relations ← matchRelations parts.relations parts.ends
  return (parts.filters ++ properties ++ relations).map (⟨.filter, ·⟩)

/-! ## Steps -/

/-- Where a step stands. -/
inductive Standing
  /-- Nothing has been selected; the next step looks things up. -/
  | start
  /-- At entities, of one kind if it is known. -/
  | entities (kind : Option Kind)
  /-- At relationships that were entered in a direction. -/
  | relationships
  deriving DecidableEq, Repr

namespace Standing

/-- Refuses a step that needs entities behind relationships. -/
def needEntities (s : Standing) (step : StepNoun) (offset : Nat) : Except CompileError Unit :=
  match s with
  | relationships => .error (.needsEntities step offset)
  | _ => .ok ()

/-- The hop to the children, which there is only from entities. -/
def hop : Standing → List Fragment
  | entities _ => [⟨.path, .children⟩]
  | _ => []

/-- The kind of an entity whose kind was not written. -/
def inferredKind : Standing → Option Kind
  | start => some .tenant
  | entities (some parent) =>
    match parent.children with
    | [only] => some only
    | _ => none
  | _ => none

end Standing

/-- The closure over relationships of a name. -/
def closureOver (name : String) (direction : Direction) : Filter :=
  let role : Role :=
    match direction with
    | .outgoing => .source
    | .incoming => .target
    | .both => .any
  .recurse [.relatedBy (.name name) role none]

/-- The fragments of a step and where it leads to. -/
def compileStep (origin : Option CanonicalPath) (standing : Standing)
    (step : Parse.Spanned Step) : Except CompileError (List Fragment × Standing) := do
  let offset := step.span.start
  match step.value with
  | .entity e => do
    standing.needEntities .entity offset
    let kind := e.kind <|> standing.inferredKind
    let filters ← compileFilters origin .entity e.filters
    let typed : List Fragment := (kind.map fun k => ⟨.path, .withKinds [k]⟩).toList
    pure (standing.hop ++ typed ++ [⟨.path, .withIds [e.id]⟩] ++ filters, .entities kind)
  | .collection c => do
    if c.recursive then standing.needEntities .recursion offset
    standing.needEntities .collection offset
    let way : List Fragment :=
      if c.recursive then [⟨.path, closureOver RecursiveStep.contained.relation .outgoing⟩]
      else standing.hop
    let filters ← compileFilters origin .entity c.filters
    let single ←
      match c.id with
      | none => pure []
      | some id => do
        let idFilters ← compileFilters origin .entity c.idFilters
        pure (⟨.path, .withIds [id.value]⟩ :: idFilters)
    pure (way ++ ⟨.path, .withKinds [c.kind]⟩ :: filters ++ single, .entities (some c.kind))
  | .recursive r => do
    standing.needEntities .recursion offset
    let filters ← compileFilters origin .entity r.filters
    pure (⟨.path, closureOver r.relation r.direction⟩ :: filters, .entities none)
  | .relationships r => do
    standing.needEntities .relationshipHop offset
    let named : List Fragment := (r.name.map fun n => ⟨.path, .relationNames [n]⟩).toList
    let filters ← compileFilters origin .relationship r.filters
    let way := ⟨.path, .toRelationships r.direction⟩ :: named ++ filters
    match r.selector with
    | none => pure (way, .relationships)
    | some selector => do
      let filters ← compileFilters origin selector.value.context selector.value.filters
      match selector.value with
      | .entities _ =>
        pure (way ++ ⟨.path, .toEntities r.direction⟩ :: filters, .entities none)
      | .relationships _ => pure (way ++ filters, .relationships)
  | .identical => do
    standing.needEntities .identical offset
    pure ([⟨.path, .identical⟩], standing)

/-- The fragments of the steps of a traversal. -/
def compileSteps (origin : Option CanonicalPath) :
    Standing → List (Parse.Spanned Step) → Except CompileError (List Fragment)
  | _, [] => .ok []
  | standing, step :: steps => do
    let (fragments, standing) ← compileStep origin standing step
    return fragments ++ (← compileSteps origin standing steps)

/-- The query of a traversal.  A relative traversal starts at the origin, if there is one. -/
def Traversal.compile (t : Traversal) (origin : Option CanonicalPath) :
    Except CompileError Query := do
  let (jump, standing) : List Fragment × Standing :=
    match t.absolute, origin with
    | false, some p => ([⟨.path, .withPaths [p]⟩], .entities (some p.kind))
    | _, _ => ([], .start)
  return .node (jump ++ (← compileSteps origin standing t.steps)) []

namespace Query

/-- The query of a traversal text. -/
def compile (text : String) (origin : Option CanonicalPath) : Except CompileError Query := do
  let t ← (Traversal.parse text).mapError .unreadable
  t.compile origin

/-- The query of a traversal text that starts at a byte offset. -/
def compileAt (text : String) (offset : Nat) (origin : Option CanonicalPath) :
    Except CompileError Query := do
  let t ← (Traversal.parseAt text offset).mapError .unreadable
  t.compile origin

end Query

end Estate
