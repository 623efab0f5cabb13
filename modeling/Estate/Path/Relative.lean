import Estate.Path.Raw

/-!
# Relative paths

A relative path climbs some levels from an origin and then descends: `../../rt;URL`, or `.` for the
origin itself.

* `RelativePath.applyTo` — the canonical path that a relative path leads to from an origin.
* `CanonicalPath.relativeTo` — the relative path between two canonical paths, which descends only
  below their longest common chain.
-/

namespace Estate

/-- Some levels up, then down along segments. -/
structure RelativePath where
  ups : Nat := 0
  segments : List Segment := []
  deriving DecidableEq, Repr

namespace RelativePath

/-- Whether a relative path stays where it is. -/
def isEmpty (r : RelativePath) : Bool :=
  r.ups == 0 && r.segments.isEmpty

/-- A relative path as text. -/
def text (r : RelativePath) : String :=
  if r.isEmpty then "."
  else "/".intercalate (List.replicate r.ups ".." ++ r.segments.map Segment.text)

/-- One level further up; only a path that has not descended yet can climb. -/
def climb (r : RelativePath) : Except PathError RelativePath :=
  if r.segments.isEmpty then .ok { r with ups := r.ups + 1 } else .error .lateClimb

/-- One segment further down.  What the first segment stands below is not known yet. -/
def extend (r : RelativePath) (s : Segment) : Except PathError RelativePath := do
  if s.id.isEmpty then .error (.emptyId s.kind)
  match r.segments.getLast? with
  | some above => s.check above.kind
  | none => pure ()
  pure { r with segments := r.segments ++ [s] }

/-- Continues a relative path by the steps of a path text, all of which have to be typed. -/
def addSteps (text : String) : RelativePath → List RawStep → Except PathError RelativePath
  | r, [] => .ok r
  | r, .up :: steps => do addSteps text (← r.climb) steps
  | r, .down (some kind) id :: steps => do addSteps text (← r.extend ⟨kind, id⟩) steps
  | _, .down none id :: _ => .error (.relativeUntyped id text)

/-- Reads a relative path, in which every segment has its type. -/
def parse (text : String) : Except PathError RelativePath :=
  match RawPath.parse text with
  | .error errors => .error (.unreadable errors)
  | .ok raw =>
    if raw.absolute then .error (.notRelative text) else addSteps text {} raw.steps

end RelativePath

namespace CanonicalPath

/-- The path some levels up; at least the root has to be left. -/
def climb (origin : CanonicalPath) (levels : Nat) : Except PathError CanonicalPath :=
  match ofSegments? (origin.segments.take (origin.length - levels)) with
  | some p => .ok p
  | none => .error (.aboveRoot levels origin)

/-- The whole of a path as a way down from nowhere. -/
def toRelative (p : CanonicalPath) : RelativePath :=
  ⟨0, p.segments⟩

/-- The number of segments that two chains start with alike. -/
def commonLength : List Segment → List Segment → Nat
  | s :: ss, t :: ts => if s = t then commonLength ss ts + 1 else 0
  | _, _ => 0

/-- The way from `origin` to `p`, which there is only when they start alike. -/
def relativeTo (p origin : CanonicalPath) : Except PathError RelativePath :=
  match commonLength p.segments origin.segments with
  | 0 => .error (.unrelated p origin)
  | n + 1 => .ok ⟨origin.length - (n + 1), p.segments.drop (n + 1)⟩

end CanonicalPath

namespace RelativePath

/-- Follows a relative path from `origin`. -/
def applyTo (r : RelativePath) (origin : CanonicalPath) : Except PathError CanonicalPath := do
  let base ← origin.climb r.ups
  (← Chain.extendAll base.segments r.segments).toPath

end RelativePath

end Estate
