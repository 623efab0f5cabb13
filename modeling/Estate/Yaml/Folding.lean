import Estate.Yaml.Character

/-!
# Folding lines

A scalar in quotes or without them may be written on several lines.  A line break between two of
them is a space; of several line breaks the first is lost.  Only a line feed is folded: the other
line breaks stand for themselves.  Spaces around line breaks mean nothing.

* `Pause` — what has been read since the last character that stays.
* `foldBreaks` — what line breaks stand for.
-/

namespace Estate.Yaml

/-- What line breaks stand for, of which the first one may be written so that it means nothing. -/
def foldBreaks (first : Option Char) (more : List Char) : List Char :=
  match first with
  | some '\n' => if more.isEmpty then [' '] else more
  | first => first.toList ++ more

/-- The spaces and line breaks since the last character of a scalar that stays. -/
inductive Pause
  /-- Spaces within a line. -/
  | spaces (cs : List Char)
  /-- Line breaks. -/
  | breaks (first : Option Char) (more : List Char)
  deriving DecidableEq, Repr

namespace Pause

/-- Nothing has been read since. -/
def empty : Pause :=
  spaces []

/-- One more space or line break. -/
def add (p : Pause) (c : Char) : Pause :=
  match p with
  | spaces cs => if isBreak c then breaks (some c) [] else spaces (cs ++ [c])
  | breaks first more => if isBreak c then breaks first (more ++ [c]) else p

/-- Whether a line has ended. -/
def crossesLine : Pause → Bool
  | spaces _ => false
  | breaks _ _ => true

/-- What a pause stands for between two characters. -/
def text : Pause → List Char
  | spaces cs => cs
  | breaks first more => foldBreaks first more

end Pause

end Estate.Yaml
