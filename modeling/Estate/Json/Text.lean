import Estate.Json.Value
import Estate.Number.Shortest

/-!
# JSON values as compact text

The text has no spaces.  Strings escape the quote, the backslash and control characters and nothing
else.  A floating point number has the fewest digits that read back and always shows that it is one:
positionally from `1e-5` up to below `1e16`, with a fraction even when it is zero, and otherwise
with an exponent, which has a sign.
-/

namespace Estate

/-! ## Strings -/

/-- The hexadecimal digit of a number below sixteen. -/
def hexDigit (n : Nat) : Char :=
  if n < 10 then Char.ofNat (48 + n) else Char.ofNat (87 + n)

/-- How a character stands inside a quoted text. -/
def escapeJsonChar (c : Char) : List Char :=
  if c = '"' then ['\\', '"']
  else if c = '\\' then ['\\', '\\']
  else if c = '\n' then ['\\', 'n']
  else if c = '\r' then ['\\', 'r']
  else if c = '\t' then ['\\', 't']
  else if c = Char.ofNat 8 then ['\\', 'b']
  else if c = Char.ofNat 12 then ['\\', 'f']
  else if c.toNat < 32 then
    ['\\', 'u', '0', '0', hexDigit (c.toNat / 16), hexDigit (c.toNat % 16)]
  else [c]

/-- A text in quotes. -/
def quoteJson (s : String) : String :=
  String.ofList ('"' :: s.toList.flatMap escapeJsonChar ++ ['"'])

/-! ## Numbers -/

namespace Decimal

/-- A decimal in the notation for floating point numbers. -/
def text (d : Decimal) : String :=
  let digits := digitsOf d.coefficient
  let n := digits.length
  let point : Int := n + d.exponent
  let body : List Char :=
    if 0 ≤ d.exponent ∧ point ≤ 16 then
      digits ++ List.replicate d.exponent.toNat '0' ++ ['.', '0']
    else if 0 < point ∧ point ≤ 16 then
      digits.take point.toNat ++ '.' :: digits.drop point.toNat
    else if -5 < point ∧ point ≤ 0 then
      ['0', '.'] ++ List.replicate (-point).toNat '0' ++ digits
    else
      let mantissa := if n = 1 then digits else digits.take 1 ++ '.' :: digits.drop 1
      let sign := if 0 < point then ['+'] else []
      mantissa ++ 'e' :: sign ++ (toString (point - 1)).toList
  String.ofList body

end Decimal

/-- A floating point number as text. -/
def Binary64.text (x : Binary64) : String :=
  (if x.negative then "-" else "") ++ x.shortest.text

/-- A number as text. -/
def Number.text : Number → String
  | integer n => toString n
  | float x => x.text

/-! ## Values -/

namespace Json

mutual

/-- A value as compact text. -/
def text : Json → String
  | null => "null"
  | bool true => "true"
  | bool false => "false"
  | number n => n.text
  | string s => quoteJson s
  | array items => "[" ++ ",".intercalate (itemTexts items) ++ "]"
  | object fields => "\x7b" ++ ",".intercalate (fieldTexts fields) ++ "\x7d"

/-- The texts of the items of an array. -/
def itemTexts : List Json → List String
  | [] => []
  | x :: xs => x.text :: itemTexts xs

/-- The texts of the fields of an object. -/
def fieldTexts : List (String × Json) → List String
  | [] => []
  | (k, x) :: fs => (quoteJson k ++ ":" ++ x.text) :: fieldTexts fs

end

/-- A value as it is shown among others: a string as it is, everything else as compact text. -/
def plainText : Json → String
  | string s => s
  | j => j.text

end Json

end Estate
