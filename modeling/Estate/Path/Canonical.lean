import Estate.Parse.Failure
import Estate.Path.Segment

/-!
# Canonical paths

A canonical path is the address of one thing in the estate: a non-empty chain of segments such as
`/t;acme/e;prod/r;host1`.  A path is *legal* when it starts with a tenant or a relationship, every
later segment may stand below the one before it, and no id is empty.

* `CanonicalPath.extend` adds one segment and refuses every illegal step; a path that grew from
  nothing through it is legal.
* `CanonicalPath.up?` — the path of the parent.
* `CanonicalPath.isParentOf`, `CanonicalPath.isAncestorOf` — the order of containment.
* `PathError` — everything that can be wrong with a path, and its wording.
-/

namespace Estate

/-- The address of an entity or of a relationship. -/
structure CanonicalPath where
  segments : List Segment
  ne_nil : segments ≠ [] := by simp
  deriving DecidableEq, Repr

namespace CanonicalPath

/-- The path of a tenant.  The id is taken as it is. -/
def tenant (id : String) : CanonicalPath where
  segments := [⟨.tenant, id⟩]

/-- The path of a relationship.  The id is taken as it is. -/
def relationship (id : String) : CanonicalPath where
  segments := [⟨.relationship, id⟩]

/-- The segment a path ends in. -/
def last (p : CanonicalPath) : Segment :=
  p.segments.getLast p.ne_nil

/-- The segment a path starts with. -/
def root (p : CanonicalPath) : Segment :=
  p.segments.head p.ne_nil

/-- The kind of the thing a path leads to. -/
def kind (p : CanonicalPath) : Kind :=
  p.last.kind

/-- The id of the thing a path leads to. -/
def id (p : CanonicalPath) : String :=
  p.last.id

/-- The number of segments. -/
def length (p : CanonicalPath) : Nat :=
  p.segments.length

/-- The tenant a path lies in; a relationship lies in none. -/
def tenantId? (p : CanonicalPath) : Option String :=
  match p.root.kind with
  | .tenant => some p.root.id
  | _ => none

/-- The path of these segments, unless there are none. -/
def ofSegments? (segments : List Segment) : Option CanonicalPath :=
  match segments with
  | [] => none
  | s :: ss => some { segments := s :: ss }

/-- The path one level up, which a path of one segment does not have. -/
def up? (p : CanonicalPath) : Option CanonicalPath :=
  ofSegments? p.segments.dropLast

/-- Whether `q` lies directly below `p`. -/
def isParentOf (p q : CanonicalPath) : Bool :=
  q.up? == some p

/-- Whether `q` lies somewhere below `p`. -/
def isAncestorOf (p q : CanonicalPath) : Bool :=
  p.segments.length < q.segments.length && p.segments.isPrefixOf q.segments

/-- A path as text: every segment with a slash before it. -/
def text (p : CanonicalPath) : String :=
  String.join (p.segments.map fun s => "/" ++ s.text)

/-- Paths are sorted segment by segment; a path comes before those below it. -/
def order (p q : CanonicalPath) : Ordering :=
  go p.segments q.segments
where
  /-- The order of two chains of segments. -/
  go : List Segment → List Segment → Ordering
    | [], [] => .eq
    | [], _ :: _ => .lt
    | _ :: _, [] => .gt
    | s :: ss, t :: ts => (s.order t).then (go ss ts)

end CanonicalPath

/-! ## What can be wrong with a path -/

/-- The reasons for which a path is refused. -/
inductive PathError
  /-- The text cannot be read. -/
  | unreadable (errors : Parse.Errors)
  /-- No kind has this code or name. -/
  | unknownKind (word : String)
  /-- A segment has an empty id. -/
  | emptyId (kind : Kind)
  /-- A path starts with a kind that is no root. -/
  | badRoot (kind : Kind)
  /-- A segment stands below one that may not hold it. -/
  | misplaced (parent child : Kind) (id : String)
  /-- A canonical path has no segments. -/
  | empty
  /-- A canonical path does not start with a slash. -/
  | notAbsolute (text : String)
  /-- A segment of a canonical path has no type. -/
  | untyped (id text : String)
  /-- A canonical path climbs. -/
  | climbs (text : String)
  /-- A relative path starts with a slash. -/
  | notRelative (text : String)
  /-- A segment of a relative path has no type. -/
  | relativeUntyped (id text : String)
  /-- A relative path climbs after its first segment. -/
  | lateClimb
  /-- A partially typed text climbs where it may not. -/
  | lateClimbIn (text : String)
  /-- A relative text has nothing to start from. -/
  | noOrigin (text : String)
  /-- A relative path climbs above the root. -/
  | aboveRoot (levels : Nat) (origin : CanonicalPath)
  /-- Two paths have no first segment in common. -/
  | unrelated (path origin : CanonicalPath)
  /-- A text leads to a thing of another kind than was asked for. -/
  | wrongKind (text : String) (path : CanonicalPath) (expected : Kind)
  /-- No kind fits an untyped segment. -/
  | noKindFits (id : String)
  /-- Several kinds fit an untyped segment. -/
  | ambiguous (id : String) (kinds : List Kind)
  deriving DecidableEq, Repr

namespace PathError

/-- The reason in words, without the heading that most of them share. -/
def reason : PathError → String
  | unreadable errors => errors.message
  | unknownKind word => "unknown segment type '" ++ word ++ "'"
  | emptyId kind => kind.name ++ " segment must have a non-empty id"
  | badRoot kind => "a canonical path cannot start with a " ++ kind.name ++ " segment"
  | misplaced parent child id =>
    parent.name ++ " cannot contain " ++ child.name ++ " ('" ++ id ++ "')"
  | empty => "empty canonical path"
  | notAbsolute text => "canonical path '" ++ text ++ "' must start with '/'"
  | untyped id text => "segment '" ++ id ++ "' of canonical path '" ++ text ++ "' has no type"
  | climbs text => "canonical path '" ++ text ++ "' cannot contain '..'"
  | notRelative text => "relative path '" ++ text ++ "' cannot start with '/'"
  | relativeUntyped id text =>
    "segment '" ++ id ++ "' of relative path '" ++ text ++ "' has no type"
  | lateClimb => "'..' may only lead a relative path"
  | lateClimbIn text => "'..' may only lead a relative path: '" ++ text ++ "'"
  | noOrigin text => "relative path '" ++ text ++ "' cannot be resolved without an origin"
  | aboveRoot levels origin =>
    "cannot go " ++ toString levels ++ " level(s) up from '" ++ origin.text ++ "'"
  | unrelated path origin =>
    "'" ++ path.text ++ "' and '" ++ origin.text ++ "' do not share a root"
  | wrongKind text path expected =>
    "'" ++ text ++ "' resolves to '" ++ path.text ++ "' which is not a " ++ expected.name
  | noKindFits id => "no segment type fits segment '" ++ id ++ "'"
  | ambiguous id kinds =>
    "segment '" ++ id ++ "' is ambiguous; it could be any of: " ++
      ", ".intercalate (kinds.map Kind.name)

/-- The wording of a refusal. -/
def message : PathError → String
  | unreadable errors => errors.message
  | e => "illegal argument: " ++ e.reason

end PathError

/-- The kind with this code or name. -/
def Kind.parse (word : String) : Except PathError Kind :=
  match Kind.ofWord? word with
  | some kind => .ok kind
  | none => .error (.unknownKind word)

/-! ## Growing paths -/

/-- Refuses a segment with an empty id, a first segment that is no root, and a later segment that
may not stand below the one before it. -/
def Segment.check (above : Option Kind) (s : Segment) : Except PathError Unit :=
  if s.id.isEmpty then .error (.emptyId s.kind)
  else
    match above with
    | none => if s.kind.isRoot then .ok () else .error (.badRoot s.kind)
    | some parent =>
      if parent.canContain s.kind then .ok () else .error (.misplaced parent s.kind s.id)

/-- A chain of segments that is being grown into a path; it may still be empty. -/
abbrev Chain := List Segment

namespace Chain

/-- The kind that the next segment stands below. -/
def lastKind? (c : Chain) : Option Kind :=
  c.getLast?.map (·.kind)

/-- Adds a segment, refusing every illegal step. -/
def extend (c : Chain) (s : Segment) : Except PathError Chain := do
  s.check c.lastKind?
  pure (c ++ [s])

/-- Adds segments one after the other. -/
def extendAll : Chain → List Segment → Except PathError Chain
  | c, [] => .ok c
  | c, s :: ss => do (← c.extend s).extendAll ss

/-- The path of a chain. -/
def toPath (c : Chain) : Except PathError CanonicalPath :=
  match CanonicalPath.ofSegments? c with
  | some p => .ok p
  | none => .error .empty

end Chain

namespace CanonicalPath

/-- Adds a segment to a path. -/
def extend (p : CanonicalPath) (s : Segment) : Except PathError CanonicalPath := do
  (← Chain.extend p.segments s).toPath

end CanonicalPath

end Estate
