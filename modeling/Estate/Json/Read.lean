import Estate.Json.Text

/-!
# Reading JSON

The reader takes white space between tokens, keeps the last of several fields with one name, and
tells integers of at most 64 bits from all other numbers, which become floating point numbers.

* `Json.parse?` — the value of a text.
-/

namespace Estate

namespace Json.Read

/-- What is left after white space. -/
def skipBlanks (cs : List Char) : List Char :=
  cs.dropWhile fun c => c == ' ' || c == '\n' || c == '\r' || c == '\t'

/-! ## Strings -/

/-- The value of a hexadecimal digit. -/
def hexValue? (c : Char) : Option Nat :=
  if c.isDigit then some (c.toNat - 48)
  else if 'a' ≤ c ∧ c ≤ 'f' then some (c.toNat - 87)
  else if 'A' ≤ c ∧ c ≤ 'F' then some (c.toNat - 55)
  else none

/-- The number that four hexadecimal digits stand for. -/
def hexQuad? (a b c d : Char) : Option Nat := do
  return ((← hexValue? a) * 16 + (← hexValue? b)) * 256 + (← hexValue? c) * 16 + (← hexValue? d)

/-- The character that a backslash and a letter stand for. -/
def escaped? (c : Char) : Option Char :=
  if c = '"' ∨ c = '\\' ∨ c = '/' then some c
  else if c = 'n' then some '\n'
  else if c = 'r' then some '\r'
  else if c = 't' then some '\t'
  else if c = 'b' then some (Char.ofNat 8)
  else if c = 'f' then some (Char.ofNat 12)
  else none

/-- The code points up to the closing quote, and what comes after it.  An escape may stand for one
half of a code point. -/
def codePoints : List Char → Option (List Nat × List Char)
  | [] => none
  | '"' :: rest => some ([], rest)
  | '\\' :: 'u' :: a :: b :: c :: d :: rest => do
    let n ← hexQuad? a b c d
    let (ns, rest) ← codePoints rest
    return (n :: ns, rest)
  | '\\' :: c :: rest => do
    let c ← escaped? c
    let (ns, rest) ← codePoints rest
    return (c.toNat :: ns, rest)
  | c :: rest => do
    let (ns, rest) ← codePoints rest
    return (c.toNat :: ns, rest)

/-- The characters of code points, of which some may be in two halves. -/
def joinHalves : List Nat → List Char
  | [] => []
  | [n] => [Char.ofNat n]
  | m :: n :: rest =>
    if 0xD800 ≤ m ∧ m < 0xDC00 ∧ 0xDC00 ≤ n ∧ n < 0xE000 then
      Char.ofNat (0x10000 + (m - 0xD800) * 0x400 + (n - 0xDC00)) :: joinHalves rest
    else Char.ofNat m :: joinHalves (n :: rest)

/-- The text up to the closing quote, and what comes after it. -/
def quoted (cs : List Char) : Option (String × List Char) := do
  let (ns, rest) ← codePoints cs
  return (String.ofList (joinHalves ns), rest)

/-! ## Numbers -/

/-- The number that decimal digits stand for. -/
def digitsValue (cs : List Char) : Nat :=
  cs.foldl (fun n c => n * 10 + (c.toNat - 48)) 0

/-- The digits at the start, of which there has to be one. -/
def digits? (cs : List Char) : Option (List Char × List Char) :=
  match cs.takeWhile Char.isDigit with
  | [] => none
  | ds => some (ds, cs.dropWhile Char.isDigit)

/-- The digits after a point, if there is one. -/
def fraction? : List Char → Option (Option (List Char) × List Char)
  | '.' :: rest => do
    let (ds, rest) ← digits? rest
    return (some ds, rest)
  | cs => some (none, cs)

/-- The exponent, if there is one. -/
def exponent? : List Char → Option (Option Int × List Char)
  | c :: rest =>
    if c = 'e' ∨ c = 'E' then do
      let (sign, rest) :=
        match rest with
        | '-' :: rest => ((-1 : Int), rest)
        | '+' :: rest => (1, rest)
        | rest => (1, rest)
      let (ds, rest) ← digits? rest
      return (some (sign * digitsValue ds), rest)
    else some (none, c :: rest)
  | [] => some (none, [])

/-- A number with its sign taken off. -/
def magnitude? (negative : Bool) (cs : List Char) : Option (Number × List Char) := do
  let (whole, cs) ← digits? cs
  let (fraction, cs) ← fraction? cs
  let (exponent, cs) ← exponent? cs
  let n := digitsValue whole
  let fits := if negative then n ≤ UInt64.size / 2 ∧ n ≠ 0 else n < UInt64.size
  if fraction.isNone ∧ exponent.isNone ∧ fits then
    return (.integer (if negative then -(n : Int) else n), cs)
  else
    let places := fraction.getD []
    let d : Decimal := ⟨digitsValue (whole ++ places), exponent.getD 0 - places.length⟩
    let (num, den) := d.ratio
    return (.float (← Binary64.ofRatio? negative num den), cs)

/-- A number. -/
def number? : List Char → Option (Number × List Char)
  | '-' :: rest => magnitude? true rest
  | cs => magnitude? false cs

/-! ## Values

Every call takes one off the number that bounds how many calls may be nested; the length of the text
is enough. -/

mutual

/-- A value. -/
def value : Nat → List Char → Option (Json × List Char)
  | 0, _ => none
  | bound + 1, cs =>
    match skipBlanks cs with
    | 'n' :: 'u' :: 'l' :: 'l' :: rest => some (.null, rest)
    | 't' :: 'r' :: 'u' :: 'e' :: rest => some (.bool true, rest)
    | 'f' :: 'a' :: 'l' :: 's' :: 'e' :: rest => some (.bool false, rest)
    | '"' :: rest => do
      let (s, rest) ← quoted rest
      return (.string s, rest)
    | '[' :: rest =>
      match skipBlanks rest with
      | ']' :: rest => some (.array [], rest)
      | rest => do
        let (xs, rest) ← items bound rest
        return (.array xs, rest)
    | '\x7b' :: rest =>
      match skipBlanks rest with
      | '\x7d' :: rest => some (.object [], rest)
      | rest => do
        let (fields, rest) ← fields bound rest
        return (.ofFields fields, rest)
    | rest => do
      let (n, rest) ← number? rest
      return (.number n, rest)

/-- The items of an array, up to the bracket that closes it. -/
def items : Nat → List Char → Option (List Json × List Char)
  | 0, _ => none
  | bound + 1, cs => do
    let (x, cs) ← value bound cs
    match skipBlanks cs with
    | ']' :: rest => return ([x], rest)
    | ',' :: rest =>
      let (xs, rest) ← items bound rest
      return (x :: xs, rest)
    | _ => none

/-- The fields of an object, up to the brace that closes it. -/
def fields : Nat → List Char → Option (List (String × Json) × List Char)
  | 0, _ => none
  | bound + 1, cs =>
    match skipBlanks cs with
    | '"' :: rest => do
      let (key, rest) ← quoted rest
      match skipBlanks rest with
      | ':' :: rest =>
        let (x, rest) ← value bound rest
        match skipBlanks rest with
        | '\x7d' :: rest => return ([(key, x)], rest)
        | ',' :: rest =>
          let (others, rest) ← fields bound rest
          return ((key, x) :: others, rest)
        | _ => none
      | _ => none
    | _ => none

end

end Json.Read

/-- The value that a text stands for. -/
def Json.parse? (text : String) : Option Json := do
  let cs := text.toList
  let (j, rest) ← Json.Read.value (2 * cs.length + 1) cs
  if (Json.Read.skipBlanks rest).isEmpty then some j else none

end Estate
