import Estate.Path.Relative

/-!
# Path texts with missing types

A person may leave the types of segments out: below `/t;acme/e;prod` the text `../x/r;host1` can
only mean an environment or a feed `x`.  Missing types are inferred from the containment table, the
kind the path starts below, and the kind that is expected at its end.

Two passes narrow the candidates: `forward` keeps the kinds that some legal beginning leads to,
`backward` those that some legal ending follows from.  `choose` then fixes one kind after the other.
Every position has to be left with one kind, but for one rule of preference: **between an
environment and a feed, an environment is meant**.
-/

namespace Estate

/-- Whether a label allows a kind; a missing one allows all. -/
def admits (label : Option Kind) (k : Kind) : Bool :=
  label.all (· == k)

/-- The kinds of every position that some choice before them leads to. -/
def forward (fits : Kind → Bool) : List (Option Kind) → List (List Kind)
  | [] => []
  | a :: rest =>
    let here := Kind.all.filter fun k => admits a k && fits k
    here :: forward (fun k => here.any (·.canContain k)) rest

/-- The kinds of every position from which some choice leads to an expected end. -/
def backward (expected : Option Kind) : List (Option Kind) → List (List Kind)
  | [] => []
  | a :: rest =>
    let later := backward expected rest
    let fits : Kind → Bool :=
      match later with
      | [] => fun k => admits expected k
      | next :: _ => fun k => next.any fun c => k.canContain c
    (Kind.all.filter fun k => admits a k && fits k) :: later

/-- The kind that a list of candidates settles on. -/
def settle (id : String) : List Kind → Except PathError Kind
  | [k] => .ok k
  | [.environment, .feed] => .ok .environment
  | [] => .error (.noKindFits id)
  | kinds => .error (.ambiguous id kinds)

/-- Fixes the kinds from left to right.  `above` is the kind chosen before. -/
def choose : Option Kind → List (String × List Kind × List Kind) →
    Except PathError (List Segment)
  | _, [] => .ok []
  | above, (id, before, after) :: rest => do
    let kind ← settle id <| before.filter fun k =>
      after.contains k && above.all fun parent => parent.canContain k
    return ⟨kind, id⟩ :: (← choose (some kind) rest)

/-- Infers the kinds of segments that stand below a kind, or at the start of a path. -/
def inferSegments (above expected : Option Kind) (segments : List (Option Kind × String)) :
    Except PathError (List Segment) :=
  let labels := segments.map (·.1)
  let starts : Kind → Bool :=
    match above with
    | none => Kind.isRoot
    | some parent => parent.canContain
  choose none <|
    (segments.map (·.2)).zip ((forward starts labels).zip (backward expected labels))

/-- Splits the steps of a path text into the levels that it climbs and the segments that follow.
Only a relative text may climb, and only at its start. -/
def splitClimb (text : String) (absolute : Bool) :
    List RawStep → Except PathError (Nat × List (Option Kind × String))
  | [] => .ok (0, [])
  | .up :: steps =>
    if absolute then .error (.lateClimbIn text)
    else do
      let (ups, segments) ← splitClimb text absolute steps
      return (ups + 1, segments)
  | .down kind id :: steps => do
    return (0, (kind, id) :: (← descend steps))
where
  /-- The segments of steps that no longer climb. -/
  descend : List RawStep → Except PathError (List (Option Kind × String))
    | [] => .ok []
    | .up :: _ => .error (.lateClimbIn text)
    | .down kind id :: steps => do return (kind, id) :: (← descend steps)

/-- Where the segments of a text start from: nowhere if it is absolute, and some levels above the
origin otherwise. -/
def inferenceBase (text : String) (absolute : Bool) (ups : Nat) (origin : Option CanonicalPath) :
    Except PathError (Option CanonicalPath) :=
  if absolute then .ok none
  else
    match origin with
    | none => .error (.noOrigin text)
    | some origin => some <$> origin.climb ups

/-- Reads a path text in which types may be missing.  A relative text starts from `origin`; the
result has to be of the kind `expected`, if one is given. -/
def CanonicalPath.resolve (text : String) (origin : Option CanonicalPath)
    (expected : Option Kind) : Except PathError CanonicalPath := do
  let raw ←
    match RawPath.parse text with
    | .ok raw => .ok raw
    | .error errors => .error (.unreadable errors)
  let (ups, segments) ← splitClimb text raw.absolute raw.steps
  let base ← inferenceBase text raw.absolute ups origin
  if segments.isEmpty then
    match base with
    | none => .error .empty
    | some path =>
      match expected with
      | none => .ok path
      | some kind => if path.kind = kind then .ok path else .error (.wrongKind text path kind)
  else
    let inferred ← inferSegments (base.map (·.kind)) expected segments
    (← Chain.extendAll ((base.map (·.segments)).getD []) inferred).toPath

end Estate
