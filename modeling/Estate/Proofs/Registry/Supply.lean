import Mathlib.Logic.Function.Basic
import Mathlib.Tactic.Common
import Estate.Registry.Supply

/-!
# The counting supply does not repeat itself

An id of `Supply.counting` ends in hexadecimal digits, and the zeros in front of them do not change
the number that they write.

* **`Supply.counting_injective`** — different numbers have different ids.
-/

namespace Estate

namespace Supply

/-- The value of a hexadecimal digit. -/
def digitValue (c : Char) : Nat :=
  if c.isDigit then c.toNat - '0'.toNat else c.toNat - 'a'.toNat + 10

/-- The number that hexadecimal digits write. -/
def value (cs : List Char) : Nat :=
  cs.foldl (fun n c => 16 * n + digitValue c) 0

lemma digitValue_digitChar : ∀ d < 16, digitValue d.digitChar = d := by
  decide

/-- Digits write the number that they are the digits of. -/
lemma value_toDigits (n : Nat) : value (Nat.toDigits 16 n) = n := by
  induction n using Nat.strongRecOn with
  | ind n ih =>
      rw [Nat.toDigits_eq_if (by decide)]
      split
      · next h =>
          rw [value, List.foldl_cons, List.foldl_nil, digitValue_digitChar n h, Nat.mul_zero,
            Nat.zero_add]
      · next h =>
          have hless : n / 16 < n := Nat.div_lt_self (by omega) (by decide)
          rw [value, List.foldl_append, ← value, ih _ hless, List.foldl_cons, List.foldl_nil,
            digitValue_digitChar _ (Nat.mod_lt n (by decide)), Nat.div_add_mod]

lemma value_zeros (k : Nat) (cs : List Char) : value (List.replicate k '0' ++ cs) = value cs := by
  induction k with
  | zero => rw [List.replicate_zero, List.nil_append]
  | succ k ih =>
      rw [List.replicate_succ, List.cons_append, value, List.foldl_cons]
      exact ih

lemma counted_injective : Function.Injective counted := by
  intro m n h
  have hdigits := congrArg String.toList h
  simp only [counted, String.toList_append, String.toList_ofList, List.append_cancel_left_eq]
    at hdigits
  have hvalue := congrArg value hdigits
  rwa [value_zeros, value_zeros, value_toDigits, value_toDigits] at hvalue

/-- **Different numbers have different ids.** -/
theorem counting_injective : Function.Injective counting.name := fun _ _ h =>
  Nat.succ.inj (counted_injective h)

end Supply

end Estate
