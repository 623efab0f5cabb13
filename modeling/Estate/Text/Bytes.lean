/-!
# Texts measured in bytes

Positions in reports and in parsed traversals count bytes of the UTF-8 encoding, while texts are
taken apart character by character.  This module relates the two.

* `byteLength` — the length of a text in bytes; `byteLength_append` splits it along the text.
* `dropBytes?` — what is left of a text after a number of bytes, unless the cut falls inside a
  character or beyond the end; `dropBytes?_append` says that it undoes a prefix.
-/

namespace Estate.Text

/-- The number of bytes of the UTF-8 encoding of a text. -/
def byteLength : List Char → Nat
  | [] => 0
  | c :: cs => c.utf8Size + byteLength cs

@[simp] theorem byteLength_append (as bs : List Char) :
    byteLength (as ++ bs) = byteLength as + byteLength bs := by
  induction as with
  | nil => simp [byteLength]
  | cons c cs ih => simp [byteLength, ih, Nat.add_assoc]

/-- The text after its first `n` bytes.  There is none when `n` falls inside a character or
beyond the end. -/
def dropBytes? : List Char → Nat → Option (List Char)
  | cs, 0 => some cs
  | [], _ + 1 => none
  | c :: cs, n + 1 =>
    if c.utf8Size ≤ n + 1 then dropBytes? cs (n + 1 - c.utf8Size) else none

/-- Cutting off the bytes of a prefix leaves what follows it. -/
theorem dropBytes?_append (as bs : List Char) :
    dropBytes? (as ++ bs) (byteLength as) = some bs := by
  induction as with
  | nil => cases bs <;> simp [byteLength, dropBytes?]
  | cons c cs ih =>
    have hc : 0 < c.utf8Size := c.utf8Size_pos
    obtain ⟨n, hn⟩ : ∃ n, c.utf8Size + byteLength cs = n + 1 :=
      ⟨c.utf8Size + byteLength cs - 1, by omega⟩
    have hle : c.utf8Size ≤ n + 1 := by omega
    have hsub : n + 1 - c.utf8Size = byteLength cs := by omega
    simp [byteLength, hn, dropBytes?, hle, hsub, ih]

end Estate.Text
