import Estate.Yaml.Token

/-!
# Reading YAML

The value of a text that is one document, from its tokens.  A collection that leaves a value out
holds nothing there.

* `Yaml.ofTokens?` — the value of a document, or nothing at all if there is no document.
* `Yaml.parse?` — the value of a text.
-/

namespace Estate.Yaml

/-! ## Tokens that are left -/

/-- The tokens that are left to read, and the anchors of the names so far. -/
structure Tokens where
  rest : List Token
  names : List (String × Nat) := []

/-- What reads a value from tokens. -/
abbrev Reader (α : Type) :=
  StateT Tokens Option α

namespace Reader

/-- The next token. -/
def next : Reader (Option Token) := do
  return (← get).rest.head?

/-- Passes over the next token. -/
def pass : Reader Unit :=
  modify fun t => { t with rest := t.rest.drop 1 }

/-- Passes over the next token if it is the one that is wanted, and says whether it is. -/
def accept (wanted : Token) : Reader Bool := do
  if (← next) = some wanted then
    pass
    return true
  else return false

/-- The next token is one of these. -/
def isAt (tokens : List Token) : Reader Bool := do
  return (← next).any tokens.contains

/-- A new anchor for a name. -/
def newAnchor (name : String) : Reader Nat := do
  let t ← get
  let anchor := t.names.length
  set { t with names := (name, anchor) :: t.names.filter (·.1 != name) }
  return anchor

/-- The anchor of a name that has one. -/
def anchorOf (name : String) : Reader Nat := do
  match (← get).names.lookup name with
  | some anchor => return anchor
  | none => failure

/-- An anchor, if there is one. -/
def anchor? : Reader (Option Nat) := do
  match ← next with
  | some (.anchor name) =>
    pass
    return some (← newAnchor name)
  | _ => return none

/-- A tag, if there is one. -/
def tag? (known : List Shorthand) : Reader (Option Tag) := do
  match ← next with
  | some (.tag handle suffix) =>
    pass
    return some (← Shorthand.tag? known handle suffix)
  | _ => return none

/-- The properties of a value, in either order. -/
def properties (known : List Shorthand) : Reader Properties := do
  match ← anchor? with
  | some anchor => return ⟨some anchor, ← tag? known⟩
  | none =>
    let tag ← tag? known
    if tag.isSome then return ⟨← anchor?, tag⟩ else return {}

end Reader

/-- A value that is left out.  Without properties there is no such value. -/
def absent? (p : Properties) : Option Yaml :=
  if p.anchor.isSome || p.tag.isSome then some (scalar p .plain "") else none

/-- A scalar with its properties.  The bare exclamation mark means nothing in front of one. -/
def tagged (p : Properties) (style : Style) (text : String) : Yaml :=
  scalar (if p.tag = some (Tag.ofString "!") then { p with tag := none } else p) style text

/-! ## Values

Every call takes one off the number that bounds how many calls may be nested. -/

section Values

variable (known : List Shorthand)

open Reader

mutual

/-- A value.  It may be a block collection if `block` says so, and a block sequence in the column of
the mapping around it if `loose` does. -/
def value (block loose : Bool) : Nat → Reader Yaml
  | 0 => failure
  | bound + 1 => do
    match ← next with
    | some (.reference name) =>
      pass
      return reference (← anchorOf name)
    | _ =>
      let p ← properties known
      match ← next with
      | some (.scalar style text) =>
        pass
        return tagged p style text
      | some .flowSequenceStart =>
        pass
        return sequence p (← flowItems true bound)
      | some .flowMappingStart =>
        pass
        return mapping p (← flowEntries true bound)
      | some .sequenceStart =>
        if block then
          pass
          return sequence p (← blockItems bound)
        else absent? p
      | some .mappingStart =>
        if block then
          pass
          return mapping p (← blockEntries bound)
        else absent? p
      | some .item =>
        if loose then return sequence p (← looseItems bound) else absent? p
      | _ => absent? p

/-- A value, or nothing if one of the tokens stands there that may follow it. -/
def valueBefore (block loose : Bool) (ends : List Token) : Nat → Reader Yaml
  | 0 => failure
  | bound + 1 => do
    if ← isAt ends then return nothing else value block loose bound

/-- A value after its mark, or nothing if there is no mark. -/
def markedValue (block loose : Bool) (ends : List Token) : Nat → Reader Yaml
  | 0 => failure
  | bound + 1 => do
    if ← accept .value then valueBefore block loose ends bound else return nothing

/-- The items of a flow sequence, up to the bracket that closes it, or after an item from the comma
on.  A key among them makes a mapping of one entry. -/
def flowItems (first : Bool) : Nat → Reader (List Yaml)
  | 0 => failure
  | bound + 1 => do
    if ← accept .flowSequenceEnd then return []
    let separated ← if first then pure true else accept .comma
    if !separated then failure
    else if ← accept .flowSequenceEnd then return []
    else
      let item ← if ← accept .key then flowPair bound else value false false bound
      return item :: (← flowItems false bound)

/-- A mapping of one entry in a flow sequence.  Where the key is left out, the token in its place is
passed over. -/
def flowPair : Nat → Reader Yaml
  | 0 => failure
  | bound + 1 => do
    let missing ← isAt [.value, .comma, .flowSequenceEnd]
    let key ← if missing then pass *> pure nothing else value false false bound
    let value ← markedValue false false [.comma, .flowSequenceEnd] bound
    return mapping {} [(key, value)]

/-- The entries of a flow mapping, up to the brace that closes it, or after an entry from the comma
on. -/
def flowEntries (first : Bool) : Nat → Reader (List (Yaml × Yaml))
  | 0 => failure
  | bound + 1 => do
    if ← accept .flowMappingEnd then return []
    let separated ← if first then pure true else accept .comma
    if !separated then failure
    else if ← accept .flowMappingEnd then return []
    else if ← accept .key then
      let key ← valueBefore false false [.value, .comma, .flowMappingEnd] bound
      let value ← markedValue false false [.comma, .flowMappingEnd] bound
      return (key, value) :: (← flowEntries false bound)
    else
      let key ← value false false bound
      return (key, nothing) :: (← flowEntries false bound)

/-- The items of a block sequence, up to its end. -/
def blockItems : Nat → Reader (List Yaml)
  | 0 => failure
  | bound + 1 => do
    if ← accept .blockEnd then return []
    else if ← accept .item then
      let item ← valueBefore true false [.item, .blockEnd] bound
      return item :: (← blockItems bound)
    else failure

/-- The items of a block sequence in the column of the mapping around it. -/
def looseItems : Nat → Reader (List Yaml)
  | 0 => failure
  | bound + 1 => do
    if ← accept .item then
      let item ← valueBefore true false [.item, .key, .value, .blockEnd] bound
      return item :: (← looseItems bound)
    else return []

/-- The entries of a block mapping, up to its end. -/
def blockEntries : Nat → Reader (List (Yaml × Yaml))
  | 0 => failure
  | bound + 1 => do
    if ← accept .blockEnd then return []
    else if ← accept .key then
      let key ← valueBefore true true [.key, .value, .blockEnd] bound
      let value ← markedValue true true [.key, .value, .blockEnd] bound
      return (key, value) :: (← blockEntries bound)
    else failure

end

end Values

/-! ## Documents -/

/-- Whether a version of the format is read. -/
def isKnownVersion (major minor : Nat) : Bool :=
  major == 1 && (minor == 1 || minor == 2)

/-- The handles that directives define and the tokens after them.  There is one version at most, and
no handle is defined twice. -/
def directives? (versioned : Bool) (defined : List Shorthand) :
    List Token → Option (List Shorthand × List Token)
  | .directive (.version major minor) :: rest =>
    if versioned || !isKnownVersion major minor then none else directives? true defined rest
  | .directive (.shorthand s) :: rest =>
    if defined.any (·.handle == s.handle) then none
    else directives? versioned (defined ++ [s]) rest
  | rest => some (defined, rest)

/-- Whether the content of a document that has been marked is left out. -/
def isMissing : List Token → Bool
  | [] => true
  | t :: _ =>
    match t with
    | .directive _ | .documentStart | .documentEnd => true
    | _ => false

/-- The value at the start of tokens and the tokens after it. -/
def content? (known : List Shorthand) (tokens : List Token) : Option (Yaml × List Token) := do
  let (y, t) ← value (known ++ Shorthand.usual) true false (4 * tokens.length + 4) ⟨tokens, []⟩
  return (y, t.rest)

/-- The value of the first document and the tokens after it.  Directives need the mark that begins a
document; without them it may be left out. -/
def first? (tokens : List Token) : Option (Yaml × List Token) := do
  match ← directives? false [] tokens with
  | (known, .documentStart :: rest) =>
    if isMissing rest then return (nothing, rest) else content? known rest
  | (known, rest) => if rest.length < tokens.length then none else content? known rest

/-- The value of tokens that are one document at most. -/
def ofTokens? (tokens : List Token) : Option Yaml :=
  if tokens.isEmpty then some nothing
  else do
    let (y, rest) ← first? tokens
    if rest.all (· == .documentEnd) then some y else none

/-- The value of a text that is one document at most. -/
def parse? (s : String) : Option Yaml := do
  ofTokens? (← Token.ofText? s)

end Estate.Yaml
