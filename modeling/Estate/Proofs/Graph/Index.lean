import Mathlib.Logic.Function.Basic
import Mathlib.Tactic.Common
import Estate.Graph.Index

/-!
# What an index holds

An index says again what the property maps of a graph say.  `Index.Files` states this against an
arbitrary relation: below every covered key the file of a text holds exactly the elements that the
relation gives, and no file is empty.  Filing an element enlarges the relation by one entry and
taking it out shrinks it by one, so that what the composed operations do follows by folding over a
property map.

* `Index.Files.add`, `Index.Files.remove` — one value.
* `Index.Files.addAll`, `Index.Files.removeAll` — a whole property map.
* `Index.Files.replace` — a new value in place of an old one.
* **`Index.Files.insertRow`, `Index.Files.eraseRow`, `Index.Files.setCell`,
  `Index.Files.eraseCell`** — the same for an index that files exactly what a table of property
  maps holds: it follows every change of the table.
-/

namespace Estate

lemma IdSet.mem_insert_iff {ids : IdSet} {a b : Nat} : a ∈ ids.insert b ↔ a = b ∨ a ∈ ids := by
  rw [Std.ExtTreeSet.mem_insert, Std.compare_eq_iff_eq, eq_comm]

lemma IdSet.mem_erase_iff {ids : IdSet} {a b : Nat} : a ∈ ids.erase b ↔ a ∈ ids ∧ a ≠ b := by
  rw [Std.ExtTreeSet.mem_erase, ne_eq, Std.compare_eq_iff_eq, eq_comm (a := b), and_comm]

namespace Index

/-- Which elements are filed: an element, a key, and the text of a value. -/
abbrev Entries := Nat → String → String → Prop

/-- The files below a key. -/
abbrev Texts := Std.ExtTreeMap String IdSet compare

/-- Below every covered key, exactly the given elements are filed, and no file is empty. -/
structure Files (i : Index) (R : Entries) : Prop where
  mem_iff : ∀ {key : String} {texts : Texts}, i.files[key]? = some texts →
    ∀ text id, id ∈ texts.getD text ∅ ↔ R id key text
  ne_empty : ∀ {key : String} {texts : Texts}, i.files[key]? = some texts →
    ∀ (text : String) (ids : IdSet), texts[text]? = some ids → ids ≠ ∅

/-- The one entry of a value. -/
def entry (id : Nat) (key : String) (value : Json) : Entries := fun id' key' text =>
  id' = id ∧ key' = key ∧ text = value.plainText

/-- The entries of a property map. -/
def entriesOf (id : Nat) (properties : Properties) : Entries := fun id' key text =>
  id' = id ∧ ∃ value, properties[key]? = some value ∧ value.plainText = text

variable {i : Index} {R : Entries}

lemma Files.congr {R' : Entries} (h : i.Files R)
    (hR : ∀ id key text, R id key text ↔ R' id key text) : i.Files R' where
  mem_iff hk text id := (h.mem_iff hk text id).trans (hR id _ text)
  ne_empty := h.ne_empty

/-- Nothing is filed to begin with. -/
lemma files_ofKeys (keys : List String) : (ofKeys keys).Files fun _ _ _ => False := by
  have hempty : ∀ (keys : List String) (files : Std.ExtTreeMap String Texts compare),
      (∀ (key : String) (texts : Texts), files[key]? = some texts → texts = ∅) →
      ∀ (key : String) (texts : Texts),
        (keys.foldl (fun files key => files.insert key ∅) files)[key]? = some texts →
          texts = ∅ := by
    intro keys
    induction keys with
    | nil => exact fun files h => h
    | cons k keys ih =>
        intro files h
        refine ih _ fun key texts hk => ?_
        rw [Std.ExtTreeMap.getElem?_insert] at hk
        split at hk
        · exact (Option.some.inj hk).symm
        · exact h key texts hk
  have hnil : ∀ (key : String) (texts : Texts),
      (ofKeys keys).files[key]? = some texts → texts = ∅ := hempty keys ∅ (by simp)
  exact
    { mem_iff := fun hk text id => by simp [hnil _ _ hk]
      ne_empty := fun hk text ids h => by simp [hnil _ _ hk] at h }

/-! ## One value -/

/-- A change below one key, which leaves the files of the other keys alone. -/
lemma files_modify {f : Texts → Texts} {key key' : String} {texts : Texts}
    (h : (i.files.modify key f)[key']? = some texts) :
    ∃ old, i.files[key']? = some old ∧ texts = if key' = key then f old else old := by
  simp only [Std.ExtTreeMap.getElem?_modify, Std.compare_eq_iff_eq] at h
  split at h
  · next he =>
      subst he
      obtain ⟨old, hold, rfl⟩ := Option.map_eq_some_iff.1 h
      exact ⟨old, hold, by simp⟩
  · next hne => exact ⟨texts, h, by rw [if_neg (Ne.symm hne)]⟩

/-- Filing an element adds its entry. -/
lemma Files.add (h : i.Files R) (id : Nat) (key : String) (value : Json) :
    (i.add id key value).Files fun id' key' text =>
      R id' key' text ∨ entry id key value id' key' text := by
  constructor
  · intro key' texts hk text id'
    obtain ⟨old, hold, rfl⟩ := files_modify hk
    rw [← h.mem_iff hold]
    by_cases he : key' = key
    · by_cases ht : text = value.plainText
      · subst he ht
        simp only [if_true, Std.ExtTreeMap.getD_eq_getD_getElem?,
          Std.ExtTreeMap.getElem?_alter_self, Option.getD_some, IdSet.mem_insert_iff, entry,
          and_true]
        exact or_comm
      · simp [Std.ExtTreeMap.getD_alter, he, ht, Ne.symm ht, entry]
    · simp [he, entry]
  · intro key' texts hk text ids hids
    obtain ⟨old, hold, rfl⟩ := files_modify hk
    split at hids
    · rw [Std.ExtTreeMap.getElem?_alter] at hids
      split at hids
      · obtain rfl := Option.some.inj hids
        exact Std.ExtTreeSet.insert_ne_empty
      · exact h.ne_empty hold text ids hids
    · exact h.ne_empty hold text ids hids

/-- What is left of a file is the file without the element, whether or not it is kept. -/
lemma mem_filter_erase (ids : Option IdSet) (id id' : Nat) :
    id' ∈ ((ids.map (·.erase id)).filter fun left => !left.isEmpty).getD ∅ ↔
      id' ∈ ids.getD ∅ ∧ id' ≠ id := by
  cases ids with
  | none => simp
  | some ids =>
      by_cases hleft : (ids.erase id).isEmpty
      · have hno : id' ∉ ids.erase id := by
          rw [Std.ExtTreeSet.isEmpty_iff.1 hleft]
          exact Std.ExtTreeSet.not_mem_empty
        rw [IdSet.mem_erase_iff] at hno
        simpa [Option.filter, hleft] using hno
      · have hfilter : ((some ids).map (·.erase id)).filter (fun left => !left.isEmpty) =
            some (ids.erase id) := by
          simp [Option.filter, hleft]
        rw [hfilter]
        exact IdSet.mem_erase_iff

/-- Taking an element out removes its entry, and the file with it if nothing else is in it. -/
lemma Files.remove (h : i.Files R) (id : Nat) (key : String) (value : Json) :
    (i.remove id key value).Files fun id' key' text =>
      R id' key' text ∧ ¬ entry id key value id' key' text := by
  constructor
  · intro key' texts hk text id'
    obtain ⟨old, hold, rfl⟩ := files_modify hk
    rw [← h.mem_iff hold]
    by_cases he : key' = key
    · by_cases ht : text = value.plainText
      · subst he ht
        simp only [if_true, Std.ExtTreeMap.getD_eq_getD_getElem?,
          Std.ExtTreeMap.getElem?_alter_self, entry, and_true]
        exact mem_filter_erase _ id id'
      · simp [Std.ExtTreeMap.getD_alter, he, ht, Ne.symm ht, entry]
    · simp [he, entry]
  · intro key' texts hk text ids hids
    obtain ⟨old, hold, rfl⟩ := files_modify hk
    split at hids
    · rw [Std.ExtTreeMap.getElem?_alter] at hids
      split at hids
      · obtain ⟨-, hleft⟩ := Option.filter_eq_some_iff.1 hids
        rintro rfl
        simp at hleft
      · exact h.ne_empty hold text ids hids
    · exact h.ne_empty hold text ids hids

/-! ## Property maps -/

lemma mem_entriesOf_iff {id : Nat} {properties : Properties} {id' : Nat} {key text : String} :
    entriesOf id properties id' key text ↔
      ∃ kv ∈ properties.toList, entry id kv.1 kv.2 id' key text := by
  constructor
  · rintro ⟨rfl, value, hvalue, rfl⟩
    exact ⟨(key, value), Std.ExtTreeMap.mem_toList_iff_getElem?_eq_some.2 hvalue, rfl, rfl, rfl⟩
  · rintro ⟨⟨k, value⟩, hmem, rfl, rfl, rfl⟩
    exact ⟨rfl, value, Std.ExtTreeMap.mem_toList_iff_getElem?_eq_some.1 hmem, rfl⟩

/-- Filing an element under a property map adds the entries of the map. -/
lemma Files.addAll (h : i.Files R) (id : Nat) (properties : Properties) :
    (i.addAll id properties).Files fun id' key text =>
      R id' key text ∨ entriesOf id properties id' key text := by
  have hlist : ∀ (l : List (String × Json)) (i : Index) (R : Entries), i.Files R →
      (l.foldl (fun i kv => i.add id kv.1 kv.2) i).Files fun id' key text =>
        R id' key text ∨ ∃ kv ∈ l, entry id kv.1 kv.2 id' key text := by
    intro l
    induction l with
    | nil => exact fun i R h => h.congr fun _ _ _ => by simp
    | cons kv l ih =>
        intro i R h
        refine (ih _ _ (h.add id kv.1 kv.2)).congr fun _ _ _ => ?_
        simp [or_assoc]
  rw [Index.addAll, Std.ExtTreeMap.foldl_eq_foldl_toList]
  exact (hlist _ i R h).congr fun _ _ _ => or_congr Iff.rfl mem_entriesOf_iff.symm

/-- Taking an element out under a property map removes the entries of the map. -/
lemma Files.removeAll (h : i.Files R) (id : Nat) (properties : Properties) :
    (i.removeAll id properties).Files fun id' key text =>
      R id' key text ∧ ¬ entriesOf id properties id' key text := by
  have hlist : ∀ (l : List (String × Json)) (i : Index) (R : Entries), i.Files R →
      (l.foldl (fun i kv => i.remove id kv.1 kv.2) i).Files fun id' key text =>
        R id' key text ∧ ¬ ∃ kv ∈ l, entry id kv.1 kv.2 id' key text := by
    intro l
    induction l with
    | nil => exact fun i R h => h.congr fun _ _ _ => by simp
    | cons kv l ih =>
        intro i R h
        refine (ih _ _ (h.remove id kv.1 kv.2)).congr fun _ _ _ => ?_
        simp [and_assoc]
  rw [Index.removeAll, Std.ExtTreeMap.foldl_eq_foldl_toList]
  exact (hlist _ i R h).congr fun _ _ _ => and_congr Iff.rfl (not_congr mem_entriesOf_iff.symm)

/-- Filing an element under a new value instead of an old one exchanges the two entries. -/
lemma Files.replace (h : i.Files R) (id : Nat) (key : String) (old : Option Json) (value : Json) :
    (i.replace id key old value).Files fun id' key' text =>
      (R id' key' text ∧ ¬ ∃ v, old = some v ∧ entry id key v id' key' text) ∨
        entry id key value id' key' text := by
  cases old with
  | none => exact (h.add id key value).congr fun _ _ _ => by simp
  | some old => exact ((h.remove id key old).add id key value).congr fun _ _ _ => by simp

/-! ## Tables -/

/-- What a table of property maps holds. -/
def tableEntries (table : Nat → Option Properties) : Entries := fun id key text =>
  ∃ properties, table id = some properties ∧
    ∃ value, properties[key]? = some value ∧ value.plainText = text

variable {table : Nat → Option Properties} {id : Nat} {properties : Properties}

lemma tableEntries_update (row : Option Properties) (id' : Nat) (key text : String) :
    tableEntries (Function.update table id row) id' key text ↔
      if id' = id then ∃ properties, row = some properties ∧
        entriesOf id properties id' key text
      else tableEntries table id' key text := by
  by_cases he : id' = id
  · subst he
    simp [tableEntries, entriesOf]
  · simp [tableEntries, he]

/-- **A new row** is filed as a whole. -/
lemma Files.insertRow (h : i.Files (tableEntries table)) (hfree : table id = none) :
    (i.addAll id properties).Files
      (tableEntries (Function.update table id (some properties))) := by
  refine (h.addAll id properties).congr fun id' key text => ?_
  rw [tableEntries_update]
  by_cases he : id' = id
  · subst he
    simp [tableEntries, hfree]
  · simp [he, entriesOf]

/-- **A row that goes** is taken out as a whole. -/
lemma Files.eraseRow (h : i.Files (tableEntries table)) (hrow : table id = some properties) :
    (i.removeAll id properties).Files (tableEntries (Function.update table id none)) := by
  refine (h.removeAll id properties).congr fun id' key text => ?_
  rw [tableEntries_update]
  by_cases he : id' = id
  · subst he
    simp [tableEntries, entriesOf, hrow]
  · simp [he, entriesOf]

/-- **A property that is given** is filed in place of its old value, even if the texts of the two
values are the same. -/
lemma Files.setCell (h : i.Files (tableEntries table)) (hrow : table id = some properties)
    (key : String) (value : Json) :
    (i.replace id key properties[key]? value).Files
      (tableEntries (Function.update table id (some (properties.insert key value)))) := by
  refine (h.replace id key properties[key]? value).congr fun id' key' text => ?_
  rw [tableEntries_update]
  by_cases he : id' = id
  · subst he
    by_cases hk : key' = key
    · subst hk
      -- The old text and the new one may be the same: taking out comes before filing.
      cases hold : properties[key']? with
      | none => simp [tableEntries, entriesOf, entry, hrow, hold, eq_comm]
      | some old => simp [tableEntries, entriesOf, entry, hrow, hold, eq_comm]
    · simp [tableEntries, entriesOf, entry, hrow, hk, Std.ExtTreeMap.getElem?_insert,
        Ne.symm hk]
  · simp [he, entry]

/-- **A property that goes** is taken out. -/
lemma Files.eraseCell (h : i.Files (tableEntries table)) (hrow : table id = some properties)
    {key : String} {old : Json} (hold : properties[key]? = some old) :
    (i.remove id key old).Files
      (tableEntries (Function.update table id (some (properties.erase key)))) := by
  refine (h.remove id key old).congr fun id' key' text => ?_
  rw [tableEntries_update]
  by_cases he : id' = id
  · subst he
    by_cases hk : key' = key
    · subst hk
      simp [tableEntries, entriesOf, entry, hrow, hold, eq_comm]
    · simp [tableEntries, entriesOf, entry, hrow, hk, Std.ExtTreeMap.getElem?_erase, Ne.symm hk]
  · simp [he, entry]

end Index

end Estate
