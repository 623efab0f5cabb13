import Estate.Path.Canonical
import Estate.Parse.Token

/-!
# Path texts as they are written

Before anything is known about types and origins, a path text is an optional leading slash and a
list of steps with slashes between them.  A step is `..`, or an id that may have a type before it
(`r;host1`, `resource;host1`, `host1`).  The texts `.`, `/` and the empty text have no steps.
-/

namespace Estate

open Parse

/-- One step of a path text. -/
inductive RawStep
  | up
  | down (kind : Option Kind) (id : String)
  deriving DecidableEq, Repr

/-- A path text taken apart. -/
structure RawPath where
  absolute : Bool
  steps : List RawStep
  deriving DecidableEq, Repr

namespace RawPath

/-- The words that name a kind: every code and every name. -/
def kindWords : List String :=
  Kind.all.flatMap fun k => [k.code, k.name]

/-- The kind that the word at this place names. -/
def kindWord : Parser Kind := do
  let word ← keyword kindWords
  match Kind.ofWord? word with
  | some kind => pure kind
  | none => Parser.expected "segment type"

/-- An id in a path text. -/
def segmentId : Parser String :=
  escapedText ['/', ';'] "id"

/-- Whether `..` stands at this place as a step of its own, and what follows it. -/
def climb? (c : Cursor) : Option Cursor :=
  match c.rest with
  | ['.', '.'] => some ⟨c.offset + 2, []⟩
  | '.' :: '.' :: '/' :: rest => some ⟨c.offset + 2, '/' :: rest⟩
  | _ => none

/-- An id, with a type before it or without one. -/
def down : Parser RawStep := do
  let kind ← Parser.optional do
    let kind ← kindWord
    char ';'
    pure kind
  let id ← segmentId
  pure (.down kind id)

/-- One step of a path text. -/
def step : Parser RawStep := fun c =>
  match climb? c with
  | some rest => .done .up rest
  | none => down c

/-- A whole path text. -/
def path : Parser RawPath := fun c =>
  if c.rest = ['.'] then .done ⟨false, []⟩ ⟨c.offset + 1, []⟩
  else
    let (absolute, c) :=
      match c.rest with
      | '/' :: rest => (true, (⟨c.offset + 1, rest⟩ : Cursor))
      | _ => (false, c)
    if c.atEnd then .done ⟨absolute, []⟩ c
    else (Parser.sepToEnd (char '/') step c).map (⟨absolute, ·⟩)

/-- Takes a path text apart. -/
def parse (text : String) : Except Errors RawPath :=
  (path (.start text)).toExcept text

end RawPath

namespace CanonicalPath

/-- Grows a chain by the steps of a path text, all of which have to be typed. -/
def addSteps (text : String) : Chain → List RawStep → Except PathError Chain
  | c, [] => .ok c
  | c, .down (some kind) id :: steps => do addSteps text (← c.extend ⟨kind, id⟩) steps
  | _, .down none id :: _ => .error (.untyped id text)
  | _, .up :: _ => .error (.climbs text)

/-- Reads a canonical path, in which every segment has its type. -/
def parse (text : String) : Except PathError CanonicalPath :=
  match RawPath.parse text with
  | .error errors => .error (.unreadable errors)
  | .ok raw =>
    if raw.absolute then do (← addSteps text [] raw.steps).toPath
    else .error (.notAbsolute text)

end CanonicalPath

end Estate
