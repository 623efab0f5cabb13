import Mathlib.Data.List.Basic
import Mathlib.Tactic.Common

/-!
# Texts in the order of their bytes

Texts are compared character by character.  That is the order of their bytes in UTF-8: of two
characters the earlier one has the earlier encoding, and no encoding is the head of another one.

* `utf8` — the bytes of a text.
* **`utf8_lt`** — what comes first among texts comes first among their bytes.
-/

namespace Estate.Text

/-- The bytes of a text in UTF-8. -/
def utf8 (s : String) : List UInt8 :=
  s.toList.flatMap String.utf8EncodeChar

/-- Bytes are compared one by one. -/
lemma byte_cons_lt {m n : Nat} {xs ys : List UInt8} (hm : m < 256) (hn : n < 256) :
    UInt8.ofNat m :: xs < UInt8.ofNat n :: ys ↔ m < n ∨ m = n ∧ xs < ys := by
  rw [List.cons_lt_cons_iff, UInt8.lt_iff_toNat_lt, ← UInt8.toNat_inj, UInt8.toNat_ofNat_of_lt' hm,
    UInt8.toNat_ofNat_of_lt' hn]

/-- The bytes of an earlier character come first, whatever follows them. -/
lemma utf8EncodeChar_append_lt {c d : Char} (h : c < d) (xs ys : List UInt8) :
    String.utf8EncodeChar c ++ xs < String.utf8EncodeChar d ++ ys := by
  have hval : c.val.toNat < d.val.toNat := h
  have hbound : d.val.toNat < 0x110000 := by
    rcases d.valid with h | h <;> omega
  rw [String.utf8EncodeChar, String.utf8EncodeChar]
  generalize c.val.toNat = m at hval
  generalize d.val.toNat = n at hval hbound
  -- The first byte tells how many there are; after that it is a matter of digits to the base 64.
  have hsquare (n : Nat) : n / 4096 = n / 64 / 64 := (Nat.div_div_eq_div_mul n 64 64).symm
  have hcube (n : Nat) : n / 262144 = n / 64 / 64 / 64 := by
    rw [← hsquare, Nat.div_div_eq_div_mul]
  split_ifs <;>
    simp (disch := omega) only [List.cons_append, List.nil_append, byte_cons_lt, hsquare, hcube] <;>
      omega

/-- **What comes first among texts comes first among their bytes.** -/
theorem utf8_lt {s t : String} (h : s < t) : utf8 s < utf8 t := by
  have hlist (cs ds : List Char) (h : cs < ds) :
      cs.flatMap String.utf8EncodeChar < ds.flatMap String.utf8EncodeChar := by
    induction ds generalizing cs with
    | nil => exact absurd h (List.not_lt_nil cs)
    | cons d ds ih =>
        cases cs with
        | nil =>
            obtain ⟨b, bs, hb⟩ := List.exists_cons_of_ne_nil (@String.utf8EncodeChar_ne_nil d)
            rw [List.flatMap_nil, List.flatMap_cons, hb]
            exact List.nil_lt_cons _ _
        | cons c cs =>
            rw [List.flatMap_cons, List.flatMap_cons]
            rcases List.cons_lt_cons_iff.1 h with hfirst | ⟨rfl, hrest⟩
            · exact utf8EncodeChar_append_lt hfirst _ _
            · exact List.append_left_lt (ih cs hrest)
  exact hlist s.toList t.toList h

end Estate.Text
