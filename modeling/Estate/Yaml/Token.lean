import Estate.Yaml.Basic
import Estate.Yaml.Block
import Estate.Yaml.Scalar

/-!
# The tokens of a YAML text

A text is cut into tokens.  Block collections are told by indentation, so tokens without characters
of their own open and close them.  A key needs no mark in front of it: it is known by the colon
after it, and a token is put in front of it then.

* `Token` — the tokens.
* `Outline` — what is known at a place: which collections are open, and where a key may have begun.
* `Token.ofText?` — the tokens of a text.
-/

namespace Estate.Yaml

/-- A token. -/
inductive Token
  | directive (d : Directive)
  | documentStart
  | documentEnd
  /-- A block sequence opens. -/
  | sequenceStart
  /-- A block mapping opens. -/
  | mappingStart
  /-- A block collection closes. -/
  | blockEnd
  | flowSequenceStart
  | flowSequenceEnd
  | flowMappingStart
  | flowMappingEnd
  /-- The hyphen before an item of a block sequence. -/
  | item
  /-- The comma between the entries of a flow collection. -/
  | comma
  /-- A key follows. -/
  | key
  /-- A value follows. -/
  | value
  | reference (name : String)
  | anchor (name : String)
  | tag (handle : String) (suffix : Tag)
  | scalar (style : Style) (text : String)
  deriving DecidableEq, Repr

/-- A place where a key may have begun. -/
structure KeyStart where
  line : Nat
  column : Nat
  /-- How many tokens stand before it. -/
  index : Nat
  /-- Whether nothing but a key can stand there. -/
  required : Bool
  deriving DecidableEq, Repr

/-- What is left of the start of a key at a later place, unless a key had to end before.  A key fits
one line and at most 1024 characters. -/
def KeyStart.remains? (k : KeyStart) (p : Place) : Option (Option KeyStart) :=
  if k.line = p.line ∧ p.column ≤ k.column + 1024 then some (some k)
  else if k.required then none
  else some none

/-- What is known of a text at a place. -/
structure Outline where
  place : Place
  /-- The tokens so far. -/
  tokens : Array Token := #[]
  /-- The columns of the open block collections, the innermost first. -/
  columns : List Nat := []
  /-- Where a key may have begun in the innermost collection. -/
  keyStart : Option KeyStart := none
  /-- Where a key may have begun around each open flow collection, the innermost first. -/
  outerKeys : List (Option KeyStart) := []
  /-- Whether a key may begin here. -/
  keyAllowed : Bool := true

namespace Outline

/-- Whether a flow collection is open. -/
def inFlow (o : Outline) : Bool :=
  !o.outerKeys.isEmpty

/-- The column that lines inside the innermost block collection reach at least. -/
def leastColumn (o : Outline) : Nat :=
  match o.columns with
  | [] => 0
  | column :: _ => column + 1

/-! ## Tokens and keys -/

/-- Adds a token that takes a number of characters. -/
def push (o : Outline) (t : Token) (length : Nat) : Outline :=
  { o with tokens := o.tokens.push t, place := o.place.skip length }

/-- Adds a token that ends at a place. -/
def pushTo (o : Outline) (t : Token) (place : Place) : Outline :=
  { o with tokens := o.tokens.push t, place }

/-- Gives up the key that may have begun, unless there has to be one. -/
def dropKey? (o : Outline) : Option Outline :=
  if o.keyStart.any (·.required) then none else some { o with keyStart := none }

/-- Notes that a key may begin here.  There has to be one in the column of a block collection. -/
def noteKey? (o : Outline) : Option Outline :=
  if o.keyAllowed then do
    let o ← o.dropKey?
    let required := !o.inFlow && o.columns.head? == some o.place.column
    return { o with
      keyStart := some ⟨o.place.line, o.place.column, o.tokens.size, required⟩ }
  else some o

/-! ## Block collections -/

/-- Opens a block collection in a column unless one is open there.  Its token is put in front of all
but `index` tokens. -/
def openBlock (o : Outline) (column index : Nat) (t : Token) : Outline :=
  if o.inFlow || column < o.leastColumn then o
  else { o with
    columns := column :: o.columns
    tokens := o.tokens.insertIdxIfInBounds index t }

/-- Closes the block collections from a column on. -/
def closeBlocks (o : Outline) (column : Nat) : Outline :=
  if o.inFlow then o
  else
    let closed := (o.columns.takeWhile (column ≤ ·)).length
    { o with
      columns := o.columns.drop closed
      tokens := o.tokens ++ Array.replicate closed .blockEnd }

/-! ## One token -/

/-- The mark of a document. -/
def readMarker? (o : Outline) (t : Token) : Option Outline := do
  let o ← (o.closeBlocks 0).dropKey?
  return { o with keyAllowed := false }.push t 3

/-- A directive. -/
def readDirective? (o : Outline) : Option Outline := do
  let o ← (o.closeBlocks 0).dropKey?
  let (d, place) ← Directive.read? o.place
  return { o with keyAllowed := false }.pushTo (.directive d) place

/-- The start of a flow collection, which may be a key. -/
def openFlow? (o : Outline) (t : Token) : Option Outline := do
  let o ← o.noteKey?
  return { o with
    outerKeys := o.keyStart :: o.outerKeys, keyStart := none, keyAllowed := true }.push t 1

/-- The end of a flow collection. -/
def closeFlow? (o : Outline) (t : Token) : Option Outline := do
  let o ← o.dropKey?
  let o :=
    match o.outerKeys with
    | [] => o
    | keyStart :: outerKeys => { o with keyStart, outerKeys }
  return { o with keyAllowed := false }.push t 1

/-- A comma. -/
def readComma? (o : Outline) : Option Outline := do
  let o ← o.dropKey?
  return { o with keyAllowed := true }.push .comma 1

/-- The hyphen before an item. -/
def readItem? (o : Outline) : Option Outline :=
  if !o.inFlow && !o.keyAllowed then none
  else do
    let o ← (o.openBlock o.place.column o.tokens.size .sequenceStart).dropKey?
    return { o with keyAllowed := true }.push .item 1

/-- The question mark before a key. -/
def readKey? (o : Outline) : Option Outline :=
  if !o.inFlow && !o.keyAllowed then none
  else do
    let o ← (o.openBlock o.place.column o.tokens.size .mappingStart).dropKey?
    return { o with keyAllowed := !o.inFlow }.push .key 1

/-- The colon before a value.  If a key may have begun there was one. -/
def readValue? (o : Outline) : Option Outline :=
  match o.keyStart with
  | some k =>
    let o := { o with
      tokens := o.tokens.insertIdxIfInBounds k.index .key, keyStart := none, keyAllowed := false }
    some ((o.openBlock k.column k.index .mappingStart).push .value 1)
  | none =>
    if !o.inFlow && !o.keyAllowed then none
    else
      let o := o.openBlock o.place.column o.tokens.size .mappingStart
      some ({ o with keyAllowed := !o.inFlow }.push .value 1)

/-- The name of an anchor, from after its indicator, and how many characters it has. -/
def anchorName? (cs : List Char) : Option (String × Nat) :=
  let name := cs.takeWhile isNameChar
  let next := cs.drop name.length
  let ends := next.head?.any ['?', ':', ',', ']', '\x7d', '%', '@', '\x60'].contains
  if name.isEmpty || !(endsToken next || ends) then none
  else some (String.ofList name, name.length)

/-- An anchor or a reference to one. -/
def readName? (o : Outline) (token : String → Token) : Option Outline := do
  let o ← o.noteKey?
  let (name, length) ← anchorName? (o.place.rest.drop 1)
  return { o with keyAllowed := false }.push (token name) (length + 1)

/-- A tag. -/
def readTag? (o : Outline) : Option Outline := do
  let o ← o.noteKey?
  let (handle, suffix, place) ← tagToken? o.inFlow o.place
  return { o with keyAllowed := false }.pushTo (.tag handle suffix) place

/-- A block scalar, after which a key may begin. -/
def readBlockScalar? (o : Outline) (style : Style) : Option Outline := do
  let o ← o.dropKey?
  let (text, place) ← blockScalar? (style == .folded) o.leastColumn (o.place.skip 1)
  return { o with keyAllowed := true }.pushTo (.scalar style (String.ofList text)) place

/-- A scalar in quotes. -/
def readQuoted? (o : Outline) (double : Bool) : Option Outline := do
  let o ← o.noteKey?
  let p := o.place.skip 1
  let (text, place) ←
    if double then doubleQuoted p.line p.column .empty p.rest
    else singleQuoted p.line p.column .empty p.rest
  return { o with keyAllowed := false }.pushTo (.scalar .quoted (String.ofList text)) place

/-- A scalar without quotes.  A key may begin after it on another line. -/
def readPlain? (o : Outline) : Option Outline := do
  let o ← o.noteKey?
  let p := o.place
  let (text, crosses, place) ← plain o.inFlow o.leastColumn p.line p.column .empty p.rest
  return { o with keyAllowed := crosses }.pushTo (.scalar .plain (String.ofList text)) place

/-- The token that begins at the place. -/
def read? (o : Outline) : Option Outline :=
  match o.place.rest with
  | [] => none
  | c :: rest =>
    let stands := o.inFlow || endsToken rest
    if isMarker o.place.column (c :: rest) then
      o.readMarker? (if c == '-' then .documentStart else .documentEnd)
    else if c == '-' && endsToken rest then o.readItem?
    else if c == '?' && stands then o.readKey?
    else if c == ':' && stands then o.readValue?
    else
      match c with
      | '%' => if o.place.column = 0 then o.readDirective? else none
      | '[' => o.openFlow? .flowSequenceStart
      | ']' => o.closeFlow? .flowSequenceEnd
      | '\x7b' => o.openFlow? .flowMappingStart
      | '\x7d' => o.closeFlow? .flowMappingEnd
      | ',' => o.readComma?
      | '*' => o.readName? .reference
      | '&' => o.readName? .anchor
      | '!' => o.readTag?
      | '|' => if o.inFlow then none else o.readBlockScalar? .literal
      | '>' => if o.inFlow then none else o.readBlockScalar? .folded
      | '\'' => o.readQuoted? false
      | '"' => o.readQuoted? true
      | '@' | '\x60' | '\t' => none
      | _ => o.readPlain?

/-! ## All tokens -/

/-- Moves on to where the next token begins.  Keys that cannot end there are given up, and block
collections that do not reach it are closed. -/
def settle? (o : Outline) : Option Outline := do
  let p := o.place
  let tabs := o.inFlow || !o.keyAllowed
  let place := Place.gap o.inFlow tabs false p.line p.column p.rest
  let remains? (k : Option KeyStart) : Option (Option KeyStart) :=
    match k with
    | none => some none
    | some k => k.remains? place
  let keyStart ← remains? o.keyStart
  let outerKeys ← o.outerKeys.mapM remains?
  let keyAllowed := o.keyAllowed || (!o.inFlow && p.line < place.line)
  return { o with place, keyStart, outerKeys, keyAllowed }.closeBlocks (place.column + 1)

/-- All tokens up to the end of the text, of which `bound` are read at most. -/
def readAll? : Nat → Outline → Option (List Token)
  | 0, _ => none
  | bound + 1, o => do
    let o ← o.settle?
    if o.place.rest.isEmpty then return (← (o.closeBlocks 0).dropKey?).tokens.toList
    else readAll? bound (← o.read?)

end Outline

/-- The tokens of a text. -/
def Token.ofText? (s : String) : Option (List Token) :=
  if s.toList.all isAllowed then
    let text := normalize s.toList
    Outline.readAll? (text.length + 1) { place := Place.start text }
  else none

end Estate.Yaml
