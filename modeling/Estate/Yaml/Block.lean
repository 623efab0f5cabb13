import Estate.Yaml.Folding
import Estate.Yaml.Place

/-!
# Block scalars

A block scalar is a number of lines that are indented alike, after a header that says how it is
read.  A literal one keeps its line breaks; a folded one folds them between lines that begin with no
space.

* `BlockHeader.read` — the header.
* `blockScalar?` — the text, from after the indicator that opens it.
-/

namespace Estate.Yaml

/-- What becomes of the line breaks at the end: none is kept, the first one, or all of them. -/
inductive Chomping
  | strip
  | clip
  | keep
  deriving DecidableEq, Repr

/-- How a block scalar is read: how many columns it is indented by, if that is said, and how it
ends. -/
structure BlockHeader where
  indent : Option Nat := none
  chomping : Chomping := .clip
  deriving DecidableEq, Repr

namespace BlockHeader

/-- The chomping that an indicator asks for. -/
def chomping? : Char → Option Chomping
  | '+' => some .keep
  | '-' => some .strip
  | _ => none

/-- The indentation that a digit asks for. -/
def indent? (c : Char) : Option Nat :=
  if '1' ≤ c ∧ c ≤ '9' then some (c.toNat - 48) else none

/-- The header at a place and how many characters it has.  The two indicators may come in either
order. -/
def read (cs : List Char) : BlockHeader × Nat :=
  let first := cs.head?
  let second := (cs.drop 1).head?
  match first.bind chomping?, first.bind indent? with
  | some chomping, _ =>
    let indent := second.bind indent?
    (⟨indent, chomping⟩, if indent.isSome then 2 else 1)
  | none, some n =>
    let chomping := second.bind chomping?
    (⟨some n, chomping.getD .clip⟩, if chomping.isSome then 2 else 1)
  | none, none => ({}, 0)

end BlockHeader

/-- The line breaks before the next line that is not empty, the place of that line after its
indentation, and the largest column that a line has been indented to.  Without an `indent` all
spaces are indentation.  No tab takes part in it. -/
def blockBreaks (indent : Option Nat) (line column deepest : Nat) :
    List Char → Option (List Char × Nat × Place)
  | [] => some ([], max deepest column, ⟨line, column, []⟩)
  | c :: rest =>
    let indents := indent.all (column < ·)
    if c == ' ' && indents then blockBreaks indent line (column + 1) deepest rest
    else if c == '\t' && indents then none
    else if isBreak c then do
      let (breaks, deepest, place) ← blockBreaks indent (line + 1) 0 (max deepest column) rest
      return (c :: breaks, deepest, place)
    else some ([], max deepest column, ⟨line, column, c :: rest⟩)

/-- How the lines of a block scalar end that have been read. -/
structure BlockEnd where
  /-- The line break after the last of them. -/
  lastBreak : Option Char := none
  /-- The line breaks after that. -/
  breaks : List Char := []
  /-- Whether the last of them begins with a space. -/
  spaced : Bool := false

namespace BlockEnd

/-- What the line breaks stand for before a line that begins with a character. -/
def joint (folded : Bool) (e : BlockEnd) (c : Char) : List Char :=
  if folded && !e.spaced && !isSpace c then foldBreaks e.lastBreak e.breaks
  else e.lastBreak.toList ++ e.breaks

/-- The line breaks that are kept at the end. -/
def chomped (e : BlockEnd) : Chomping → List Char
  | .strip => []
  | .clip => e.lastBreak.toList
  | .keep => e.lastBreak.toList ++ e.breaks

end BlockEnd

/-- The text of the lines of a block scalar from a place on, of which `bound` are read at most, how
they end, and the place after them. -/
def blockLines? (folded : Bool) (indent : Nat) :
    Nat → BlockEnd → Place → Option (List Char × BlockEnd × Place)
  | 0, _, _ => none
  | bound + 1, e, p =>
    match p.rest with
    | [] => some ([], e, p)
    | c :: _ =>
      if p.column ≠ indent then some ([], e, p)
      else do
        let content := p.rest.takeWhile (!isBreak ·)
        let stop := p.skip content.length
        let next := stop.skipBreak
        let (breaks, _, p) ← blockBreaks (some indent) next.line next.column 0 next.rest
        let (text, last, p) ←
          blockLines? folded indent bound ⟨stop.rest.head?, breaks, isSpace c⟩ p
        return (e.joint folded c ++ content ++ text, last, p)

/-- The text of a block scalar and the place after it.  Without a number in its header it is
indented as far as its first line that is not empty, and by at least `least` columns; a number
counts from the column of the collection around it. -/
def blockScalar? (folded : Bool) (least : Nat) (p : Place) : Option (List Char × Place) := do
  let (header, length) := BlockHeader.read p.rest
  let p := (← (p.skip length).skipComment?).skipBreak
  let indent := header.indent.map (least - 1 + ·)
  let (breaks, deepest, p) ← blockBreaks indent p.line p.column 0 p.rest
  let indent := indent.getD (max deepest (max least 1))
  let (text, last, p) ← blockLines? folded indent (p.rest.length + 1) { breaks } p
  return (text ++ last.chomped header.chomping, p)

end Estate.Yaml
