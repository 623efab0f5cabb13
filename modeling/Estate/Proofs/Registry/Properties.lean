import Estate.Registry.Update
import Mathlib.Tactic.Common

/-!
# The user's part of what is stored

In one property map there are an address, the fields of a kind, a name and the properties that a
user has given.  The user's part is what is left when the keys of the registry and the name are
taken out, and names that have been checked are never among those keys.  Of the fields of a kind
only the interval between two collections is checked.

* `Properties.checkNames_eq_ok_iff` — which names pass.
* `GoodInterval`, `Properties.checkInterval_cases` — which intervals do.
* `Properties.getElem?_user` — what the user's part has under a key.
* **`Properties.user_eq`** — when the user's part is the properties that have been given.
-/

namespace Estate

open Layout

/-! ## Keys -/

lemma isInternal_of_addressing {key : String} (h : key ∈ addressing) : isInternal key = true := by
  simp only [addressing, List.mem_cons, List.not_mem_nil, or_false] at h
  rcases h with rfl | rfl | rfl <;> decide

lemma not_mem_addressing {key : String} (h : isInternal key = false) : key ∉ addressing := by
  intro hkey
  rw [isInternal_of_addressing hkey] at h
  cases h

/-- A key that is the user's to give. -/
structure IsUserKey (key : String) : Prop where
  external : isInternal key = false
  ne_name : key ≠ nameKey

namespace Properties

variable {row given : Properties} {key : String} {fields : List String}

lemma getElem?_insert_of_ne {key' : String} {value : Json} (hne : key ≠ key') :
    (row.insert key value)[key']? = row[key']? := by
  rw [Std.ExtTreeMap.getElem?_insert, if_neg (by rwa [Std.compare_eq_iff_eq])]

lemma getElem?_erase_of_ne {key' : String} (hne : key ≠ key') :
    (row.erase key)[key']? = row[key']? := by
  rw [Std.ExtTreeMap.getElem?_erase, if_neg (by rwa [Std.compare_eq_iff_eq])]

lemma checkNames_eq_ok_iff :
    given.checkNames fields = .ok () ↔ ∀ key ∈ given, isReserved key fields = false := by
  rw [checkNames]
  split
  · next key hfound =>
      have hreserved := List.find?_some hfound
      have hkey := Std.ExtTreeMap.mem_keys.1 (List.mem_of_find?_eq_some hfound)
      constructor
      · intro h
        cases h
      · intro h
        rw [h key hkey] at hreserved
        cases hreserved
  · next hnone =>
      refine ⟨fun _ key hkey => ?_, fun _ => rfl⟩
      exact Bool.not_eq_true _ ▸ List.find?_eq_none.1 hnone key (Std.ExtTreeMap.mem_keys.2 hkey)

/-- A name that does not pass is reserved. -/
lemma checkNames_error {err : RegistryError} (h : given.checkNames fields = .error err) :
    ∃ key ∈ given, isReserved key fields ∧ err = .misuse (.reservedProperty key) := by
  rw [checkNames] at h
  split at h
  · next key hfound =>
      obtain rfl := Except.error.inj h
      exact ⟨key, Std.ExtTreeMap.mem_keys.1 (List.mem_of_find?_eq_some hfound),
        List.find?_some (p := fun key => isReserved key fields) hfound, rfl⟩
  · cases h

/-- Names that are not reserved are the user's. -/
lemma isUserKey_of_checkNames (h : given.checkNames fields = .ok ()) (hkey : key ∈ given) :
    IsUserKey key := by
  have hfree := checkNames_eq_ok_iff.1 h key hkey
  simp only [isReserved, Bool.or_eq_false_iff] at hfree
  refine ⟨hfree.1.1, ?_⟩
  rintro rfl
  exact absurd hfree.1.2 (by decide)

/-- What the user's part has under a key. -/
lemma getElem?_user {value : Json} :
    (userProperties row)[key]? = some value ↔ row[key]? = some value ∧ IsUserKey key := by
  rw [userProperties, Std.ExtTreeMap.getElem?_filter', Option.filter_eq_some_iff]
  refine and_congr_right fun _ => ?_
  simp only [Bool.and_eq_true, Bool.not_eq_true', bne_iff_ne]
  exact ⟨fun ⟨hexternal, hne⟩ => ⟨hexternal, hne⟩, fun ⟨hexternal, hne⟩ => ⟨hexternal, hne⟩⟩

/-- **The user's part is what has been given**, if it is found under the keys of the user. -/
lemma user_eq (hgiven : ∀ key ∈ given, IsUserKey key)
    (hrow : ∀ key, IsUserKey key → row[key]? = given[key]?) : userProperties row = given := by
  refine Std.ExtTreeMap.ext_getElem? fun key => Option.ext fun value => ?_
  rw [getElem?_user]
  constructor
  · rintro ⟨hvalue, hkey⟩
    rwa [← hrow key hkey]
  · intro hvalue
    have hkey : IsUserKey key := hgiven key <| by
      rw [← Std.ExtTreeMap.isSome_getElem?_iff_mem, hvalue, Option.isSome_some]
    exact ⟨(hrow key hkey).trans hvalue, hkey⟩

end Properties

/-! ## The interval between two collections -/

/-- A number of seconds that is positive and fits into 64 bits. -/
def GoodSeconds (seconds : Int) : Prop :=
  0 < seconds ∧ seconds ≤ Int64.maxValue.toInt

/-- An interval is good if it is left out, too. -/
def GoodInterval (interval : Option Int) : Prop :=
  ∀ seconds, interval = some seconds → GoodSeconds seconds

/-- Good numbers are read back. -/
lemma GoodSeconds.int64?_eq {seconds : Int} (h : GoodSeconds seconds) :
    (Json.int seconds).int64? = some seconds :=
  if_pos ⟨Int.le_trans (by decide) (Int.le_of_lt h.1), h.2⟩

lemma getElem?_intervalProperties (interval : Option Int) :
    (intervalProperties interval)[intervalKey]? = interval.map .int := by
  cases interval with
  | none => exact Std.ExtTreeMap.getElem?_empty
  | some seconds => exact Std.ExtTreeMap.getElem?_insert_self

lemma getElem?_intervalProperties_of_ne (interval : Option Int) {key : String}
    (hne : key ≠ intervalKey) : (intervalProperties interval)[key]? = none := by
  cases interval with
  | none => exact Std.ExtTreeMap.getElem?_empty
  | some seconds =>
      rw [intervalProperties, Properties.getElem?_insert_of_ne (Ne.symm hne)]
      exact Std.ExtTreeMap.getElem?_empty

/-- **Good intervals pass**, and a bad one is refused for what it is. -/
lemma Properties.checkInterval_cases {row : Properties} {p : CanonicalPath} {interval : Option Int}
    (hrow : row[intervalKey]? = interval.map .int) :
    (row.checkInterval p = .ok () ∧ GoodInterval interval) ∨
      ∃ seconds, interval = some seconds ∧ ¬ GoodSeconds seconds ∧
        row.checkInterval p = .error (.misuse (.badInterval p (.int seconds))) := by
  cases interval with
  | none =>
      refine Or.inl ⟨?_, fun seconds hsome => ?_⟩
      · rw [checkInterval, hrow]
        rfl
      · cases hsome
  | some seconds =>
      rw [checkInterval, hrow, Option.map_some]
      by_cases hgood : GoodSeconds seconds
      · refine Or.inl ⟨?_, fun s hs => Option.some.inj hs ▸ hgood⟩
        simp only [hgood.int64?_eq, if_pos hgood.1]
      · refine Or.inr ⟨seconds, rfl, hgood, ?_⟩
        dsimp only
        split
        · next s hs =>
            obtain ⟨hrange, hs⟩ := Option.ite_none_right_eq_some.1 hs
            obtain rfl := Option.some.inj hs
            exact if_neg fun hpos => hgood ⟨hpos, hrange.2⟩
        · rfl

end Estate
