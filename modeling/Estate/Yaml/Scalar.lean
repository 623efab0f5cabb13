import Estate.Yaml.Folding
import Estate.Yaml.Place

/-!
# Scalars within lines

Scalars in double quotes, in single quotes and without quotes.  All three may go on at the next
line.  Each reader starts at a line and a column and gives the text and the place after it.

* `doubleQuoted`, `singleQuoted` — from after the opening quote to after the closing one.
* `plain` — up to what ends a scalar without quotes.
-/

namespace Estate.Yaml

/-! ## Escapes -/

/-- The character of a hexadecimal number. -/
def hexChar? (digits : List Char) : Option Char := do
  let n ← digits.foldlM (fun n c => (hexDigit? c).map (n * 16 + ·)) 0
  if n.isValidChar then some (Char.ofNat n) else none

/-- The character that a backslash and a letter stand for. -/
def escaped? : Char → Option Char
  | '0' => some (Char.ofNat 0)
  | 'a' => some (Char.ofNat 7)
  | 'b' => some (Char.ofNat 8)
  | 't' => some '\t'
  | '\t' => some '\t'
  | 'n' => some '\n'
  | 'v' => some (Char.ofNat 11)
  | 'f' => some (Char.ofNat 12)
  | 'r' => some '\r'
  | 'e' => some (Char.ofNat 27)
  | ' ' => some ' '
  | '"' => some '"'
  | '/' => some '/'
  | '\\' => some '\\'
  | 'N' => some (Char.ofNat 0x85)
  | '_' => some (Char.ofNat 0xA0)
  | 'L' => some (Char.ofNat 0x2028)
  | 'P' => some (Char.ofNat 0x2029)
  | _ => none

/-! ## Quotes

No mark of a document stands inside quotes. -/

/-- The text up to a closing double quote.  A line break after a backslash means nothing. -/
def doubleQuoted (line column : Nat) (p : Pause) : List Char → Option (List Char × Place)
  | [] => none
  | '"' :: rest => some (p.text, ⟨line, column + 1, rest⟩)
  | '\\' :: 'x' :: a :: b :: rest => do
    let c ← hexChar? [a, b]
    let (cs, place) ← doubleQuoted line (column + 4) .empty rest
    return (p.text ++ c :: cs, place)
  | '\\' :: 'u' :: a :: b :: c :: d :: rest => do
    let c ← hexChar? [a, b, c, d]
    let (cs, place) ← doubleQuoted line (column + 6) .empty rest
    return (p.text ++ c :: cs, place)
  | '\\' :: 'U' :: a :: b :: c :: d :: e :: f :: g :: h :: rest => do
    let c ← hexChar? [a, b, c, d, e, f, g, h]
    let (cs, place) ← doubleQuoted line (column + 10) .empty rest
    return (p.text ++ c :: cs, place)
  | '\\' :: c :: rest =>
    if isBreak c then do
      let (cs, place) ← doubleQuoted (line + 1) 0 (.breaks none []) rest
      return (p.text ++ cs, place)
    else do
      let c ← escaped? c
      let (cs, place) ← doubleQuoted line (column + 2) .empty rest
      return (p.text ++ c :: cs, place)
  | c :: rest =>
    if isBreak c then doubleQuoted (line + 1) 0 (p.add c) rest
    else if isSpace c then doubleQuoted line (column + 1) (p.add c) rest
    else if isMarker column (c :: rest) then none
    else do
      let (cs, place) ← doubleQuoted line (column + 1) .empty rest
      return (p.text ++ c :: cs, place)

/-- The text up to a closing single quote.  Two single quotes stand for one. -/
def singleQuoted (line column : Nat) (p : Pause) : List Char → Option (List Char × Place)
  | [] => none
  | '\'' :: '\'' :: rest => do
    let (cs, place) ← singleQuoted line (column + 2) .empty rest
    return (p.text ++ '\'' :: cs, place)
  | '\'' :: rest => some (p.text, ⟨line, column + 1, rest⟩)
  | c :: rest =>
    if isBreak c then singleQuoted (line + 1) 0 (p.add c) rest
    else if isSpace c then singleQuoted line (column + 1) (p.add c) rest
    else if isMarker column (c :: rest) then none
    else do
      let (cs, place) ← singleQuoted line (column + 1) .empty rest
      return (p.text ++ c :: cs, place)

/-! ## No quotes -/

/-- Whether a scalar without quotes ends at these characters of a line. -/
def endsPlain (inFlow : Bool) : List Char → Bool
  | ':' :: rest => endsToken rest
  | c :: _ => inFlow && isFlowIndicator c
  | [] => true

/-- Whether a colon stands where none may: inside a flow collection right before an indicator. -/
def strayColon (inFlow : Bool) : List Char → Bool
  | ':' :: c :: _ => inFlow && (isFlowIndicator c || c == '?')
  | _ => false

/-- The text of a scalar without quotes, and whether a line has ended between it and the place after
it.  It goes on at a line that is indented by at least `indent` columns, inside a flow collection at
every line; no tab takes part in that indentation.  A comment and the mark of a document end it. -/
def plain (inFlow : Bool) (indent line column : Nat) (p : Pause) :
    List Char → Option (List Char × Bool × Place)
  | [] => some ([], p.crossesLine, ⟨line, column, []⟩)
  | c :: rest =>
    if isBreak c then plain inFlow indent (line + 1) 0 (p.add c) rest
    else if isSpace c then
      if c == '\t' && p.crossesLine && column < indent then none
      else plain inFlow indent line (column + 1) (p.add c) rest
    else if (p.crossesLine && !inFlow && column < indent) || isMarker column (c :: rest) ||
        (c == '#' && p != .empty) then
      some ([], p.crossesLine, ⟨line, column, c :: rest⟩)
    else if strayColon inFlow (c :: rest) then none
    else if endsPlain inFlow (c :: rest) then
      some ([], p.crossesLine, ⟨line, column, c :: rest⟩)
    else do
      let (cs, crosses, place) ← plain inFlow indent line (column + 1) .empty rest
      return (p.text ++ c :: cs, crosses, place)

end Estate.Yaml
