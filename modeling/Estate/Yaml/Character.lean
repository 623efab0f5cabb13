/-!
# The characters of YAML

The classes of characters that YAML texts are cut by.  A line ends at a line feed, at a carriage
return, at both together, or at one of three further Unicode characters.  All of them mean a line
feed but U+2028 and U+2029, which stand for themselves where a line break is kept.

* `normalize` — a text whose lines are broken by line feeds, U+2028 and U+2029 only.
-/

namespace Estate.Yaml

/-- Whether a character ends a line of a normalized text. -/
def isBreak (c : Char) : Bool :=
  c == '\n' || c.toNat == 0x2028 || c.toNat == 0x2029

/-- Whether a character separates tokens within a line. -/
def isSpace (c : Char) : Bool :=
  c == ' ' || c == '\t'

/-- Whether a line ends here. -/
def endsLine : List Char → Bool
  | [] => true
  | c :: _ => isBreak c

/-- Whether a token ends here. -/
def endsToken : List Char → Bool
  | [] => true
  | c :: _ => isSpace c || isBreak c

/-- The characters of which names are made: of anchors, of handles of tags and of directives. -/
def isNameChar (c : Char) : Bool :=
  c.isAlphanum || c == '-' || c == '_'

/-- The characters that have a meaning of their own inside flow collections. -/
def isFlowIndicator (c : Char) : Bool :=
  [',', '[', ']', '\x7b', '\x7d'].contains c

/-- The value of a hexadecimal digit. -/
def hexDigit? (c : Char) : Option Nat :=
  if c.isDigit then some (c.toNat - 48)
  else if 'a' ≤ c ∧ c ≤ 'f' then some (c.toNat - 87)
  else if 'A' ≤ c ∧ c ≤ 'F' then some (c.toNat - 55)
  else none

/-- Whether a character may stand in a text at all. -/
def isAllowed (c : Char) : Bool :=
  c == '\t' || c == '\n' || c == '\r' || (' ' ≤ c && c ≤ '~') || c.toNat == 0x85 ||
    (0xA0 ≤ c.toNat && c.toNat ≤ 0xFFFD) || 0x10000 ≤ c.toNat

/-- A text whose line breaks of one meaning are all the same. -/
def normalize : List Char → List Char
  | [] => []
  | '\r' :: '\n' :: cs => '\n' :: normalize cs
  | c :: cs => (if c == '\r' || c.toNat == 0x85 then '\n' else c) :: normalize cs

/-- A normalized text has no carriage returns. -/
theorem not_mem_normalize (cs : List Char) : '\r' ∉ normalize cs := by
  fun_induction normalize cs with
  | case1 => simp
  | case2 cs ih => simp [ih]
  | case3 c cs _ ih => grind

end Estate.Yaml
