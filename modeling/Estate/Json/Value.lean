import Estate.Number.Binary64

/-!
# JSON values

The values of properties.  Integers and floating point numbers are told apart: `2` and `2.0` are
different values.  Objects keep their fields sorted by key, each key once.

* `Json.ofFields` sorts fields into an object; of two fields with one key the later one counts.
* `Json.same` — equality of values.  Floating point numbers are equal when their values are, so that
  the two zeros are the same value.
-/

namespace Estate

/-- A number, as it was written: an integer, or a number with a fraction or an exponent. -/
inductive Number
  | integer (n : Int)
  | float (x : Binary64)
  deriving DecidableEq, Repr, Inhabited

namespace Number

/-- The nearest floating point number. -/
def toBinary64 : Number → Binary64
  | integer n => .ofInt n
  | float x => x

/-- Equality of numbers; an integer never equals a floating point number. -/
def same : Number → Number → Bool
  | integer m, integer n => m == n
  | float x, float y => x.same y
  | _, _ => false

end Number

/-- A JSON value. -/
inductive Json
  | null
  | bool (b : Bool)
  | number (n : Number)
  | string (s : String)
  | array (items : List Json)
  | object (fields : List (String × Json))
  deriving Repr, Inhabited

namespace Json

/-- An integer. -/
def int (n : Int) : Json :=
  number (.integer n)

/-- Puts a field into a list of fields that is sorted by key, in place of one with the same key. -/
def putField (key : String) (value : Json) : List (String × Json) → List (String × Json)
  | [] => [(key, value)]
  | (k, v) :: rest =>
    match compare key k with
    | .lt => (key, value) :: (k, v) :: rest
    | .eq => (key, value) :: rest
    | .gt => (k, v) :: putField key value rest

/-- The object with these fields. -/
def ofFields (fields : List (String × Json)) : Json :=
  object (fields.foldl (fun sorted field => putField field.1 field.2 sorted) [])

/-- The field of an object. -/
def field? (j : Json) (key : String) : Option Json :=
  match j with
  | object fields => (fields.find? fun field => field.1 == key).map (·.2)
  | _ => none

/-- The text of a string value. -/
def string? : Json → Option String
  | string s => some s
  | _ => none

/-- The whole number of a value that holds one of 64 bits with a sign. -/
def int64? : Json → Option Int
  | number (.integer n) =>
    if Int64.minValue.toInt ≤ n ∧ n ≤ Int64.maxValue.toInt then some n else none
  | _ => none

mutual

/-- Equality of values. -/
def same : Json → Json → Bool
  | null, null => true
  | bool a, bool b => a == b
  | number m, number n => m.same n
  | string s, string t => s == t
  | array xs, array ys => sameItems xs ys
  | object fs, object gs => sameFields fs gs
  | _, _ => false

/-- Equality of lists of values. -/
def sameItems : List Json → List Json → Bool
  | [], [] => true
  | x :: xs, y :: ys => x.same y && sameItems xs ys
  | _, _ => false

/-- Equality of lists of fields. -/
def sameFields : List (String × Json) → List (String × Json) → Bool
  | [], [] => true
  | (k, x) :: fs, (l, y) :: gs => k == l && x.same y && sameFields fs gs
  | _, _ => false

end

instance : BEq Json :=
  ⟨same⟩

end Json

end Estate
