import Estate.Yaml.Character

/-!
# Places in a YAML text

A place is told by its line and its column, because indentation and the end of a line have a
meaning.

* `Place.gap` — the next place at which there is something to read.
* `isMarker` — whether the mark of a document stands at a place.
-/

namespace Estate.Yaml

/-- A place in a text, with what is left of the text there. -/
structure Place where
  line : Nat
  column : Nat
  rest : List Char

namespace Place

/-- The start of a text.  A byte order mark takes a column and means nothing. -/
def start (cs : List Char) : Place :=
  match cs with
  | [] => ⟨0, 0, []⟩
  | c :: rest => if c.toNat == 0xFEFF then ⟨0, 1, rest⟩ else ⟨0, 0, cs⟩

/-- The place a number of characters later on the same line. -/
def skip (p : Place) (n : Nat) : Place :=
  ⟨p.line, p.column + n, p.rest.drop n⟩

/-- The place after the characters of a class. -/
def skipWhile (p : Place) (holds : Char → Bool) : Place :=
  p.skip (p.rest.takeWhile holds).length

/-- The place after a comment, if there is one, and the spaces before it, unless something else
follows on the line. -/
def skipComment? (p : Place) : Option Place :=
  let p := p.skipWhile isSpace
  let p := if p.rest.head? == some '#' then p.skipWhile (!isBreak ·) else p
  if endsLine p.rest then some p else none

/-- The place after a line break, if there is one. -/
def skipBreak (p : Place) : Place :=
  match p.rest with
  | [] => p
  | c :: rest => if isBreak c then ⟨p.line + 1, 0, rest⟩ else p

/-- The next place at which there is something to read: after spaces, line breaks and comments.
Tabs are passed on this line if `tabs` says so, and on later lines inside flow collections;
`comment` says whether a comment has begun. -/
def gap (inFlow tabs comment : Bool) (line column : Nat) : List Char → Place
  | [] => ⟨line, column, []⟩
  | c :: cs =>
    if isBreak c then gap inFlow inFlow false (line + 1) 0 cs
    else if comment || c == '#' then gap inFlow tabs true line (column + 1) cs
    else if c == ' ' || (tabs && c == '\t') then gap inFlow tabs false line (column + 1) cs
    else ⟨line, column, c :: cs⟩

end Place

/-- Whether the mark that begins or ends a document stands in a column. -/
def isMarker (column : Nat) (cs : List Char) : Bool :=
  column == 0 &&
    match cs with
    | '-' :: '-' :: '-' :: rest => endsToken rest
    | '.' :: '.' :: '.' :: rest => endsToken rest
    | _ => false

end Estate.Yaml
