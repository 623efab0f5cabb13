import Estate.Yaml.Place

/-!
# Tags

A tag names the type of a value.  It is written out between angle brackets, or as a handle and a
suffix, where the handle stands for the beginning of a tag; the bare exclamation mark is a tag of
its own.  A percent sign and two digits stand for an octet, so a tag is a list of octets; what comes
after an octet of zero is lost.

* `uriOctets?` — what the characters of a tag stand for.
* `tagToken?` — a tag in front of a value.
* `Shorthand.usual` — the handles that need no directive.
-/

namespace Estate.Yaml

/-- A tag, as the octets of its name. -/
abbrev Tag :=
  List UInt8

/-- The tag of a name. -/
def Tag.ofString (s : String) : Tag :=
  s.toUTF8.toList

/-- Whether a character may stand in a tag.  Three more may if the tag is written out. -/
def isUriChar (verbatim : Bool) (c : Char) : Bool :=
  isNameChar c || [';', '/', '?', ':', '@', '&', '=', '+', '$', '.', '%', '!', '~', '*', '\'', '(',
    ')'].contains c || (verbatim && [',', '[', ']'].contains c)

/-- How many octets follow the first one of a character. -/
def octetsAfter? (n : Nat) : Option Nat :=
  if n < 0x80 then some 0
  else if 0xC0 ≤ n ∧ n < 0xE0 then some 1
  else if 0xE0 ≤ n ∧ n < 0xF0 then some 2
  else if 0xF0 ≤ n ∧ n < 0xF8 then some 3
  else none

/-- The octets of the characters of a tag, of which `more` belong to a character that has begun. -/
def uriOctets? (more : Nat) : List Char → Option (List UInt8)
  | [] => if more = 0 then some [] else none
  | '%' :: a :: b :: rest => do
    let n := 16 * (← hexDigit? a) + (← hexDigit? b)
    let more ←
      if more = 0 then octetsAfter? n
      else if 0x80 ≤ n ∧ n < 0xC0 then some (more - 1) else none
    return .ofNat n :: (← uriOctets? more rest)
  | c :: rest =>
    if c = '%' ∨ more ≠ 0 then none else do return .ofNat c.toNat :: (← uriOctets? 0 rest)

/-- The tag that characters stand for. -/
def uri? (cs : List Char) : Option Tag :=
  (uriOctets? 0 cs).map (·.takeWhile (· != 0))

/-! ## Handles -/

/-- What a handle stands for. -/
structure Shorthand where
  handle : String
  tag : Tag
  deriving DecidableEq, Repr

namespace Shorthand

/-- The handles that need no directive. -/
def usual : List Shorthand :=
  [⟨"!", Tag.ofString "!"⟩, ⟨"!!", Tag.ofString "tag:yaml.org,2002:"⟩]

/-- The tag of a handle and a suffix.  Without a handle the suffix is the tag. -/
def tag? (known : List Shorthand) (handle : String) (suffix : Tag) : Option Tag :=
  if handle.isEmpty then some suffix
  else (known.find? (·.handle == handle)).map (·.tag ++ suffix)

end Shorthand

/-- The characters of a handle: an exclamation mark, and a name with a further one if they stand
there. -/
def handleOf (cs : List Char) : List Char :=
  let name := (cs.drop 1).takeWhile isNameChar
  match cs.drop (name.length + 1) with
  | '!' :: _ => cs.take (name.length + 2)
  | _ => cs.take 1

/-- A tag in front of a value, as a handle and a suffix, from the exclamation mark on. -/
def writtenTag? (p : Place) : Option (String × Tag × Place) :=
  match p.rest with
  | _ :: '<' :: rest => do
    let word := rest.takeWhile (isUriChar true)
    let p := p.skip (word.length + 2)
    if word.isEmpty || p.rest.head? != some '>' then none
    else return ("", ← uri? word, p.skip 1)
  | cs => do
    let handle := handleOf cs
    let word := (cs.drop handle.length).takeWhile (isUriChar false)
    let suffix ← uri? word
    let p := p.skip (handle.length + word.length)
    if handle.length = 1 then
      if suffix.isEmpty then return ("", Tag.ofString "!", p) else return ("!", suffix, p)
    else if word.isEmpty then none
    else return (String.ofList handle, suffix, p)

/-- A tag in front of a value, after which a blank follows, or a comma inside a flow collection. -/
def tagToken? (inFlow : Bool) (p : Place) : Option (String × Tag × Place) := do
  let (handle, suffix, p) ← writtenTag? p
  let ends := endsToken p.rest || (inFlow && p.rest.head? == some ',')
  if ends then some (handle, suffix, p) else none

/-! ## Directives -/

/-- A directive: the version of the format, or what a handle stands for. -/
inductive Directive
  | version (major minor : Nat)
  | shorthand (s : Shorthand)
  deriving DecidableEq, Repr

namespace Directive

/-- A part of a version: at most nine digits. -/
def number? (p : Place) : Option (Nat × Place) :=
  let digits := p.rest.takeWhile Char.isDigit
  if digits.isEmpty || 9 < digits.length then none
  else some (digits.foldl (fun n c => n * 10 + (c.toNat - 48)) 0, p.skip digits.length)

/-- The version of a directive. -/
def version? (p : Place) : Option (Directive × Place) := do
  let (major, p) ← number? p
  if p.rest.head? != some '.' then none
  else
    let (minor, p) ← number? (p.skip 1)
    return (version major minor, p)

/-- The handle of a directive and what it stands for. -/
def shorthand? (p : Place) : Option (Directive × Place) := do
  let handle := handleOf p.rest
  let next := p.skip handle.length
  let p := next.skipWhile isSpace
  let word := p.rest.takeWhile (isUriChar true)
  if handle.head? != some '!' || next.column == p.column || word.isEmpty then none
  else
    let p := p.skip word.length
    let tag ← uri? word
    if endsToken p.rest then some (shorthand ⟨String.ofList handle, tag⟩, p) else none

/-- A directive, from the percent sign to the end of its line. -/
def read? (p : Place) : Option (Directive × Place) := do
  let name := (p.rest.drop 1).takeWhile isNameChar
  let p := p.skip (name.length + 1)
  if !endsToken p.rest then none
  else
    let p := p.skipWhile isSpace
    let (directive, p) ←
      if name = ['Y', 'A', 'M', 'L'] then version? p
      else if name = ['T', 'A', 'G'] then shorthand? p
      else none
    return (directive, (← p.skipComment?).skipBreak)

end Directive

end Estate.Yaml
