import Estate.Graph.Element
import Estate.Path.Raw

/-!
# Values in exchanged JSON

What is exchanged with other programs is JSON: an absent value is `null` or left out, paths are
texts, and enumerations are their names.

* `Json.present?` — a field that is there and not `null`.
* `DecodeError` — why a value cannot be read.
-/

namespace Estate

/-- The reasons for which an exchanged value is refused. -/
inductive DecodeError
  /-- The value is not of the form that is expected. -/
  | malformed
  /-- A path in it cannot be read. -/
  | path (cause : PathError)

/-- The result of reading an exchanged value. -/
abbrev Decoded := Except DecodeError

/-- A part that has to be there. -/
def Decoded.need {α : Type} : Option α → Decoded α
  | some a => .ok a
  | none => .error .malformed

namespace Json

/-! ## Writing -/

/-- A value that may be absent. -/
def ofOption {α : Type} (f : α → Json) (a : Option α) : Json :=
  (a.map f).getD null

/-- A text that may be absent. -/
def ofText? (s : Option String) : Json :=
  ofOption string s

/-- A list of values. -/
def ofList {α : Type} (f : α → Json) (as : List α) : Json :=
  array (as.map f)

/-- A natural number. -/
def ofNat (n : Nat) : Json :=
  int n

/-- A value under one key. -/
def tagged (key : String) (value : Json) : Json :=
  object [(key, value)]

/-- A path. -/
def ofPath (p : CanonicalPath) : Json :=
  string p.text

/-- A kind. -/
def ofKind (k : Kind) : Json :=
  string k.name

/-- A property map. -/
def ofProperties (p : Properties) : Json :=
  ofFields p.toList

/-! ## Reading -/

/-- A field that is there and not `null`. -/
def present? (j : Json) (key : String) : Option Json :=
  match j.field? key with
  | some null => none
  | value => value

/-- A field that holds a text. -/
def text? (j : Json) (key : String) : Option String := do
  (← j.present? key).string?

/-- A field that holds an integer of 64 bits with a sign. -/
def signed? (j : Json) (key : String) : Option Int := do
  (← j.present? key).int64?

/-- A field that holds a natural number. -/
def nat? (j : Json) (key : String) : Option Nat :=
  match j.present? key with
  | some (.number (.integer n)) => if 0 ≤ n then some n.toNat else none
  | _ => none

/-- A field that holds a list. -/
def list? (j : Json) (key : String) : Option (List Json) :=
  match j.present? key with
  | some (.array items) => some items
  | _ => none

/-- The items of a field that holds a list; none if it is absent. -/
def list (j : Json) (key : String) : List Json :=
  (j.list? key).getD []

/-- The texts of a field that holds a list of them. -/
def texts (j : Json) (key : String) : List String :=
  (j.list key).filterMap string?

/-- A field that holds a property map. -/
def properties? (j : Json) (key : String) : Option Properties :=
  match j.present? key with
  | some (.object fields) => some (.ofList fields)
  | _ => none

/-- A path. -/
def toPath (j : Json) : Decoded CanonicalPath :=
  match j with
  | string s => (CanonicalPath.parse s).mapError .path
  | _ => .error .malformed

/-- A field that holds a path, if it is there. -/
def path? (j : Json) (key : String) : Decoded (Option CanonicalPath) :=
  match j.present? key with
  | none => .ok none
  | some value => some <$> value.toPath

/-- A kind. -/
def toKind (j : Json) : Decoded Kind :=
  .need (j.string?.bind Kind.ofName?)

end Json

end Estate
