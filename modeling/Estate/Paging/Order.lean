import Estate.Json.Text

/-!
# Sorting by several fields

A listing is sorted by a list of fields: the first decides, and each later one breaks the ties of
those before it.  The keys of an element are values or missing.

* `Json.compareKeys` — missing keys come last; numbers are compared by value, texts by their
  characters, and all other pairs by their compact text.
* `compareRows` — key by key, each in its direction.
* `sortRows` — sorts and keeps the order of ties.
-/

namespace Estate

/-- Whether small or large keys come first. -/
inductive SortDirection
  | ascending
  | descending
  deriving DecidableEq, Repr

namespace SortDirection

/-- The name of a direction. -/
def name : SortDirection → String
  | ascending => "ascending"
  | descending => "descending"

/-- The direction of a name. -/
def ofName? (text : String) : Option SortDirection :=
  [ascending, descending].find? fun d => d.name == text

end SortDirection

/-- A field to sort by. -/
structure SortField where
  field : String
  direction : SortDirection
  deriving DecidableEq, Repr

/-- The value that an element is sorted by, if it has one. -/
abbrev SortKey := Option Json

/-- The order of two keys. -/
def SortKey.order : SortKey → SortKey → Ordering
  | none, none => .eq
  | none, some _ => .gt
  | some _, none => .lt
  | some (.number m), some (.number n) => m.toBinary64.order n.toBinary64
  | some (.string s), some (.string t) => compare s t
  | some a, some b => compare a.text b.text

/-- The order of two keys in a direction. -/
def SortDirection.order (d : SortDirection) (a b : SortKey) : Ordering :=
  match d with
  | ascending => a.order b
  | descending => b.order a

/-- The order of two rows of keys.  Fields for which a row has no key are not looked at. -/
def compareRows : List SortField → List SortKey → List SortKey → Ordering
  | f :: fs, a :: as, b :: bs => (f.direction.order a b).then (compareRows fs as bs)
  | _, _, _ => .eq

/-- Sorts elements by their keys.  Elements with equal keys stay in the order they were in. -/
def sortRows {α : Type} (fields : List SortField) (keys : α → List SortKey) (elements : List α) :
    List α :=
  let rows := elements.map fun a => (keys a, a)
  (rows.mergeSort fun r s => compareRows fields r.1 s.1 != .gt).map (·.2)

end Estate
