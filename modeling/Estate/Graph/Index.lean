import Estate.Graph.Element

/-!
# Indexes

An index answers which elements have a value for a key without looking at all of them.  It covers
some keys only.  Below a key, the numbers of the elements are filed under the text of the value; a
text under which nothing is filed has no entry.
-/

namespace Estate

/-- Numbers of elements, filed under a key and the text of a value. -/
structure Index where
  files : Std.ExtTreeMap String (Std.ExtTreeMap String IdSet compare) compare

namespace Index

/-- An index that covers these keys, with nothing filed. -/
def ofKeys (keys : List String) : Index :=
  ⟨keys.foldl (fun files key => files.insert key ∅) ∅⟩

/-- Whether an index covers a key. -/
def covers (i : Index) (key : String) : Bool :=
  i.files.contains key

/-- Files an element, if the key is covered. -/
def add (i : Index) (id : Nat) (key : String) (value : Json) : Index :=
  ⟨i.files.modify key fun texts =>
    texts.alter value.plainText fun ids => some ((ids.getD ∅).insert id)⟩

/-- Takes an element out again. -/
def remove (i : Index) (id : Nat) (key : String) (value : Json) : Index :=
  ⟨i.files.modify key fun texts =>
    texts.alter value.plainText fun ids =>
      (ids.map (·.erase id)).filter fun left => !left.isEmpty⟩

/-- Files an element under all its properties. -/
def addAll (i : Index) (id : Nat) (properties : Properties) : Index :=
  properties.foldl (fun i key value => i.add id key value) i

/-- Takes an element out under all its properties. -/
def removeAll (i : Index) (id : Nat) (properties : Properties) : Index :=
  properties.foldl (fun i key value => i.remove id key value) i

/-- Files an element under a new value instead of an old one. -/
def replace (i : Index) (id : Nat) (key : String) (old : Option Json) (value : Json) : Index :=
  match old with
  | some old => (i.remove id key old).add id key value
  | none => i.add id key value

/-- The elements filed under a value, unless the key is not covered. -/
def lookup? (i : Index) (key : String) (value : Json) : Option IdSet :=
  i.files[key]?.map fun texts => texts.getD value.plainText ∅

end Index

end Estate
