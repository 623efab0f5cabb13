import Estate.Json.Read
import Estate.Proofs.Paging.Order

/-!
# What the compact text of a value tells

Texts of values follow each other in arrays and objects, so a text has to tell where it ends: a
quoted text ends at the first quote that is not escaped, and a number at the first character that is
no part of one.  The first character of a text tells what sort of value it stands for.

* `append_inj_of_span` — two parts of which only the first has characters of some kind.
* `Json.Read.codePoints_escape` — a quoted text is read back.
* `Json.Whole` — values without floating point numbers.
* `Json.Whole.text_append_inj` — two of them that are written alike are the same, whatever comes
  behind.
* **`Json.Whole.text_inj`**, `Json.Whole.same_iff` — of these values, those that have the same text
  and those that are equal are the same.
* `Json.Comparable.plainText_eq_iff` — so are those that are shown alike, if strings are compared
  with strings only.
-/

namespace Estate

/-- Of a list that goes from characters of one kind to another one, both parts can be told. -/
lemma append_inj_of_span {p : Char → Bool} {x y xs ys : List Char} (hx : ∀ c ∈ x, p c)
    (hy : ∀ c ∈ y, p c) (hxs : ∀ c ∈ xs.head?, p c = false) (hys : ∀ c ∈ ys.head?, p c = false)
    (h : x ++ xs = y ++ ys) : x = y ∧ xs = ys := by
  have hread : ∀ {z zs : List Char}, (∀ c ∈ z, p c) → (∀ c ∈ zs.head?, p c = false) →
      (z ++ zs).takeWhile p = z := fun {z zs} hz hzs => by
    rw [List.takeWhile_append_of_pos hz]
    cases zs with
    | nil => exact List.append_nil z
    | cons c cs => simp [hzs c rfl]
  obtain rfl : x = y := by rw [← hread hx hxs, h, hread hy hys]
  exact ⟨rfl, List.append_cancel_left h⟩

namespace Json

/-! ## Quoted texts -/

namespace Read

lemma hexValue?_hexDigit : ∀ n < 16, hexValue? (hexDigit n) = some n := by
  decide

/-- What stands for a character in a quoted text is read as that character. -/
lemma codePoints_escapeJsonChar (c : Char) (cs : List Char) :
    codePoints (escapeJsonChar c ++ cs) = (codePoints cs).map fun r => (c.toNat :: r.1, r.2) := by
  unfold escapeJsonChar
  split_ifs with hquote hslash hn hr ht hb hf hcontrol
  iterate 7
    subst c
    simp [codePoints, escaped?, Option.map_eq_bind]
  · have hquad : hexQuad? '0' '0' (hexDigit (c.toNat / 16)) (hexDigit (c.toNat % 16)) =
        some c.toNat := by
      rw [hexQuad?, hexValue?_hexDigit _ (by omega), hexValue?_hexDigit _ (by omega)]
      exact congrArg some (by omega : (0 * 16 + 0) * 256 + c.toNat / 16 * 16 + c.toNat % 16 = c.toNat)
    simp [codePoints, hquad, Option.map_eq_bind]
  · rw [List.cons_append, List.nil_append, codePoints.eq_def]
    split <;> simp_all [Option.map_eq_bind]

/-- **A quoted text is read back**, up to its closing quote. -/
lemma codePoints_escape (cs rest : List Char) :
    codePoints (cs.flatMap escapeJsonChar ++ '"' :: rest) = some (cs.map Char.toNat, rest) := by
  induction cs with
  | nil => simp [codePoints]
  | cons c cs ih =>
      rw [List.flatMap_cons, List.append_assoc, codePoints_escapeJsonChar, ih]
      rfl

end Read

lemma toList_quoteJson (s : String) (rest : List Char) :
    (quoteJson s).toList ++ rest = '"' :: (s.toList.flatMap escapeJsonChar ++ '"' :: rest) := by
  simp [quoteJson]

lemma quoteJson_append_inj {s t : String} {xs ys : List Char}
    (h : (quoteJson s).toList ++ xs = (quoteJson t).toList ++ ys) : s = t ∧ xs = ys := by
  rw [toList_quoteJson, toList_quoteJson] at h
  have hread := congrArg Read.codePoints (List.cons.inj h).2
  rw [Read.codePoints_escape, Read.codePoints_escape, Option.some.injEq, Prod.mk.injEq] at hread
  have hchars : s.toList = t.toList :=
    List.map_injective_iff.2 (fun _ _ => Char.toNat_inj.1) hread.1
  exact ⟨String.toList_injective hchars, hread.2⟩

/-! ## Integers -/

lemma digitsOf_injective : Function.Injective digitsOf := fun m n h => by
  rw [← Nat.ofDigitChars_toDigits (b := 10) (n := m) (by decide) (by decide), ← digitsOf, h,
    digitsOf, Nat.ofDigitChars_toDigits (by decide) (by decide)]

lemma toList_toString_int (n : Int) :
    (toString n).toList = if n < 0 then '-' :: digitsOf n.natAbs else digitsOf n.natAbs := by
  cases n with
  | ofNat m => exact Nat.toList_repr
  | negSucc m =>
      rw [if_pos (Int.negSucc_lt_zero m)]
      exact String.toList_append.trans (congrArg _ Nat.toList_repr)

lemma minus_ne_digit {n : Nat} {cs : List Char} : '-' :: cs ≠ digitsOf n := fun h => by
  obtain ⟨c, cs', hdigits, hc⟩ := digitsOf_head n
  obtain rfl := (List.cons.inj (h.trans hdigits)).1
  exact absurd hc (by decide)

lemma toString_int_injective : Function.Injective (toString : Int → String) := fun m n h => by
  have htext := congrArg String.toList h
  rw [toList_toString_int, toList_toString_int] at htext
  split_ifs at htext with hm hn hn
  · have habs := digitsOf_injective (List.cons.inj htext).2
    omega
  · exact absurd htext minus_ne_digit
  · exact absurd htext.symm minus_ne_digit
  · have habs := digitsOf_injective htext
    omega

/-- The characters that integers are written with. -/
def inInteger (c : Char) : Bool :=
  c == '-' || c.isDigit

lemma inInteger_of_mem {n : Int} {c : Char} (hc : c ∈ (toString n).toList) : inInteger c := by
  have hdigits : ∀ {c : Char}, c ∈ digitsOf n.natAbs → c.isDigit := fun hc =>
    Nat.isDigit_of_mem_toDigits (by decide) (by decide) hc
  rw [toList_toString_int] at hc
  rw [inInteger, Bool.or_eq_true, beq_iff_eq]
  split at hc
  · exact (List.mem_cons.1 hc).imp_right hdigits
  · exact .inr (hdigits hc)

/-! ## Items with commas between them -/

/-- What may come behind a value: nothing, or a comma or a bracket. -/
def Ends (cs : List Char) : Prop :=
  ∀ c ∈ cs.head?, c = ',' ∨ c = ']' ∨ c = '\x7d'

lemma ends_nil : Ends [] :=
  nofun

lemma Ends.not_inInteger {cs : List Char} (h : Ends cs) : ∀ c ∈ cs.head?, inInteger c = false := by
  intro c hc
  rcases h c hc with rfl | rfl | rfl <;> decide

section Commas

variable {α : Type} {write : α → List Char} {close : Char} {items items' : List α}

/-- Items, each with a comma before it. -/
def commas (write : α → List Char) (items : List α) : List Char :=
  items.flatMap fun item => ',' :: write item

/-- Items with a comma between each two. -/
def listed (write : α → List Char) : List α → List Char
  | [] => []
  | item :: items => write item ++ commas write items

lemma toList_intercalate (write : α → String) (items : List α) :
    (",".intercalate (items.map write)).toList = listed (String.toList ∘ write) items := by
  rw [String.toList_intercalate]
  cases items with
  | nil => rfl
  | cons item items =>
      induction items generalizing item with
      | nil => simp [listed, commas]
      | cons next items ih =>
          have hnext := ih next
          simp only [List.map_cons] at hnext ⊢
          rw [List.intercalate_cons_cons, hnext]
          simp [listed, commas]

/-- Items that can be told from what comes behind them. -/
def Told (write : α → List Char) (items items' : List α) : Prop :=
  ∀ item ∈ items, ∀ item' ∈ items', ∀ {xs ys}, Ends xs → Ends ys →
    write item ++ xs = write item' ++ ys → item = item' ∧ xs = ys

lemma Ends.commas {xs : List Char} (h : Ends xs) : Ends (commas write items ++ xs) := by
  cases items with
  | nil => exact h
  | cons item items => exact fun c hc => .inl (Option.some.inj hc).symm

variable (hclose : close = ']' ∨ close = '\x7d')
include hclose

lemma ends_close (xs : List Char) : Ends (close :: xs) := fun c hc => by
  obtain rfl := Option.some.inj hc
  exact .inr hclose

lemma commas_append_inj {xs ys : List Char} (htold : Told write items items')
    (h : commas write items ++ close :: xs = commas write items' ++ close :: ys) :
    items = items' ∧ xs = ys := by
  have hcomma : close ≠ ',' := by
    rcases hclose with rfl | rfl <;> decide
  induction items generalizing items' with
  | nil =>
      cases items' with
      | nil => exact ⟨rfl, (List.cons.inj h).2⟩
      | cons item' items' => exact absurd (List.cons.inj h).1 hcomma
  | cons item items ih =>
      cases items' with
      | nil => exact absurd (List.cons.inj h).1.symm hcomma
      | cons item' items' =>
          have hitem : write item ++ (commas write items ++ close :: xs) =
              write item' ++ (commas write items' ++ close :: ys) := by
            simpa [commas] using h
          obtain ⟨rfl, hrest⟩ := htold item List.mem_cons_self item' List.mem_cons_self
            (ends_close hclose xs).commas (ends_close hclose ys).commas hitem
          obtain ⟨rfl, hends⟩ := ih (fun i hi i' hi' => htold i (List.mem_cons_of_mem _ hi) i'
            (List.mem_cons_of_mem _ hi')) hrest
          exact ⟨rfl, hends⟩

/-- Of a list up to its closing bracket, the items can be told. -/
lemma listed_append_inj {xs ys : List Char} (htold : Told write items items')
    (hopens : ∀ item cs ds, write item ++ cs ≠ close :: ds)
    (h : listed write items ++ close :: xs = listed write items' ++ close :: ys) :
    items = items' ∧ xs = ys := by
  cases items with
  | nil =>
      cases items' with
      | nil => exact ⟨rfl, (List.cons.inj h).2⟩
      | cons item' items' =>
          exact absurd ((List.append_assoc _ _ _).symm.trans h.symm) (hopens item' _ _)
  | cons item items =>
      cases items' with
      | nil => exact absurd ((List.append_assoc _ _ _).symm.trans h) (hopens item _ _)
      | cons item' items' =>
          rw [listed, listed, List.append_assoc, List.append_assoc] at h
          obtain ⟨rfl, hrest⟩ := htold item List.mem_cons_self item' List.mem_cons_self
            (ends_close hclose xs).commas (ends_close hclose ys).commas h
          obtain ⟨rfl, hends⟩ := commas_append_inj hclose (fun i hi i' hi' =>
            htold i (List.mem_cons_of_mem _ hi) i' (List.mem_cons_of_mem _ hi')) hrest
          exact ⟨rfl, hends⟩

end Commas

/-! ## Values -/

/-- What the first character of a text tells: the sort of the value, unless it is a number. -/
def mark : Json → Option Char
  | null => some 'n'
  | bool true => some 't'
  | bool false => some 'f'
  | number _ => none
  | string _ => some '"'
  | array _ => some '['
  | object _ => some '\x7b'

/-- What a character tells that a text starts with. -/
def markOf (c : Char) : Option Char :=
  if '-' ≤ c ∧ c ≤ '9' then none else some c

lemma text_mark (j : Json) : ∃ c cs, j.text.toList = c :: cs ∧ markOf c = j.mark := by
  cases j with
  | null => exact ⟨'n', _, rfl, rfl⟩
  | bool b => cases b <;> exact ⟨_, _, rfl, rfl⟩
  | number n =>
      obtain ⟨c, cs, htext, hc⟩ := n.text_head
      exact ⟨c, cs, htext, if_pos hc⟩
  | string s => exact ⟨'"', _, by rw [text, quoteJson, String.toList_ofList]; rfl, rfl⟩
  | array items =>
      exact ⟨'[', _, by rw [text, String.toList_append, String.toList_append]; rfl, rfl⟩
  | object fields =>
      exact ⟨'\x7b', _, by rw [text, String.toList_append, String.toList_append]; rfl, rfl⟩

lemma mark_eq_of_text {j k : Json} {xs ys : List Char}
    (h : j.text.toList ++ xs = k.text.toList ++ ys) : j.mark = k.mark := by
  obtain ⟨c, cs, hj, hc⟩ := j.text_mark
  obtain ⟨d, ds, hk, hd⟩ := k.text_mark
  rw [hj, hk] at h
  rw [← hc, ← hd, (List.cons.inj h).1]

/-- No text starts with a closing bracket. -/
lemma text_append_ne (j : Json) {close : Char} (hclose : close = ']' ∨ close = '\x7d')
    (xs ys : List Char) : j.text.toList ++ xs ≠ close :: ys := fun h => by
  obtain ⟨c, cs, hj, hc⟩ := j.text_mark
  rw [hj] at h
  obtain rfl := (List.cons.inj h).1
  rcases hclose with rfl | rfl <;> cases j with
    | bool b => cases b <;> revert hc <;> decide
    | _ => revert hc; simp [mark, markOf]

lemma itemTexts_eq (items : List Json) : itemTexts items = items.map text := by
  induction items with
  | nil => rfl
  | cons item items ih => rw [itemTexts, ih, List.map_cons]

/-- The text of a field. -/
def fieldText (field : String × Json) : String :=
  quoteJson field.1 ++ ":" ++ field.2.text

lemma fieldTexts_eq (fields : List (String × Json)) : fieldTexts fields = fields.map fieldText := by
  induction fields with
  | nil => rfl
  | cons field fields ih => rw [fieldTexts, ih, List.map_cons, fieldText]

lemma toList_array (items : List Json) (xs : List Char) :
    (array items).text.toList ++ xs =
      '[' :: (listed (String.toList ∘ text) items ++ ']' :: xs) := by
  rw [text, itemTexts_eq, String.toList_append, String.toList_append, toList_intercalate]
  simp

lemma toList_object (fields : List (String × Json)) (xs : List Char) :
    (object fields).text.toList ++ xs =
      '\x7b' :: (listed (String.toList ∘ fieldText) fields ++ '\x7d' :: xs) := by
  rw [text, fieldTexts_eq, String.toList_append, String.toList_append, toList_intercalate]
  simp

lemma toList_fieldText (field : String × Json) (xs : List Char) :
    (fieldText field).toList ++ xs =
      (quoteJson field.1).toList ++ ':' :: (field.2.text.toList ++ xs) := by
  simp [fieldText]

/-- **A value without floating point numbers.** -/
inductive Whole : Json → Prop
  | null : Whole null
  | bool (b : Bool) : Whole (bool b)
  | integer (n : Int) : Whole (number (.integer n))
  | string (s : String) : Whole (string s)
  | array {items : List Json} (h : ∀ item ∈ items, Whole item) : Whole (array items)
  | object {fields : List (String × Json)} (h : ∀ field ∈ fields, Whole field.2) :
      Whole (object fields)

namespace Whole

/-- **A value can be told from what comes behind its text.** -/
theorem text_append_inj {j k : Json} (hj : j.Whole) (hk : k.Whole) {xs ys : List Char}
    (hxs : Ends xs) (hys : Ends ys) (h : j.text.toList ++ xs = k.text.toList ++ ys) :
    j = k ∧ xs = ys := by
  have hmark := mark_eq_of_text h
  induction hj generalizing k xs ys with
  | null =>
      cases hk with
      | null => exact ⟨rfl, List.append_cancel_left h⟩
      | bool b => cases b <;> cases hmark
      | _ => cases hmark
  | bool b =>
      cases hk with
      | bool b' =>
          obtain rfl : b = b' := by
            cases b <;> cases b' <;> first | rfl | cases hmark
          exact ⟨rfl, List.append_cancel_left h⟩
      | _ => cases b <;> cases hmark
  | integer n =>
      cases hk with
      | integer n' =>
          obtain ⟨htext, hrest⟩ := append_inj_of_span (fun _ => inInteger_of_mem)
            (fun _ => inInteger_of_mem) hxs.not_inInteger hys.not_inInteger h
          rw [toString_int_injective (String.toList_injective htext)]
          exact ⟨rfl, hrest⟩
      | bool b => cases b <;> cases hmark
      | _ => cases hmark
  | string s =>
      cases hk with
      | string s' =>
          obtain ⟨rfl, hrest⟩ := quoteJson_append_inj h
          exact ⟨rfl, hrest⟩
      | bool b => cases b <;> cases hmark
      | _ => cases hmark
  | array hitems ih =>
      cases hk with
      | array hitems' =>
          rw [toList_array, toList_array] at h
          obtain ⟨rfl, hrest⟩ := listed_append_inj (.inl rfl)
            (fun item hitem item' hitem' xs ys hxs hys hwrite =>
              ih item hitem (hitems' item' hitem') hxs hys hwrite (mark_eq_of_text hwrite))
            (fun item => item.text_append_ne (.inl rfl)) (List.cons.inj h).2
          exact ⟨rfl, hrest⟩
      | bool b => cases b <;> cases hmark
      | _ => cases hmark
  | object hfields ih =>
      cases hk with
      | object hfields' =>
          rw [toList_object, toList_object] at h
          have htold : Told (String.toList ∘ fieldText) _ _ :=
            fun field hfield field' hfield' xs ys hxs hys hwrite => by
              simp only [Function.comp_apply, toList_fieldText] at hwrite
              obtain ⟨hkey, hrest⟩ := quoteJson_append_inj hwrite
              have hvalue := (List.cons.inj hrest).2
              obtain ⟨hvalue, hrest⟩ := ih field hfield (hfields' field' hfield') hxs hys hvalue
                (mark_eq_of_text hvalue)
              exact ⟨Prod.ext hkey hvalue, hrest⟩
          have hopens : ∀ field cs ds, (String.toList ∘ fieldText) field ++ cs ≠ '\x7d' :: ds := by
            intro field cs ds
            simp [toList_fieldText, toList_quoteJson]
          obtain ⟨rfl, hrest⟩ := listed_append_inj (.inr rfl) htold hopens (List.cons.inj h).2
          exact ⟨rfl, hrest⟩
      | bool b => cases b <;> cases hmark
      | _ => cases hmark

/-- **Of values without floating point numbers, those with the same text are the same.** -/
theorem text_inj {j k : Json} (hj : j.Whole) (hk : k.Whole) (h : j.text = k.text) : j = k :=
  (hj.text_append_inj hk ends_nil ends_nil (by rw [h])).1

/-- **A value without floating point numbers equals itself only.** -/
theorem same_iff {j : Json} (hj : j.Whole) (k : Json) : (j == k) = true ↔ j = k := by
  show j.same k = true ↔ j = k
  induction hj generalizing k with
  | null => cases k <;> simp [same]
  | bool b => cases k <;> simp [same]
  | integer n =>
      cases k with
      | number m => cases m <;> simp [same, Number.same]
      | _ => simp [same]
  | string s => cases k <;> simp [same]
  | @array items hitems ih =>
      cases k with
      | array items' =>
          rw [same, array.injEq]
          clear hitems
          induction items generalizing items' with
          | nil => cases items' <;> simp [sameItems]
          | cons item items ihs =>
              cases items' with
              | nil => simp [sameItems]
              | cons item' items' =>
                  rw [sameItems, Bool.and_eq_true, ih item List.mem_cons_self,
                    ihs fun i hi => ih i (List.mem_cons_of_mem _ hi), List.cons.injEq]
      | _ => simp [same]
  | @object fields hfields ih =>
      cases k with
      | object fields' =>
          rw [same, object.injEq]
          clear hfields
          induction fields generalizing fields' with
          | nil => cases fields' <;> simp [sameFields]
          | cons field fields ihs =>
              cases fields' with
              | nil => simp [sameFields]
              | cons field' fields' =>
                  rw [sameFields, Bool.and_eq_true, Bool.and_eq_true, beq_iff_eq,
                    ih field List.mem_cons_self, ihs fun i hi => ih i (List.mem_cons_of_mem _ hi),
                    List.cons.injEq, Prod.ext_iff]
      | _ => simp [same]

end Whole

/-! ## Values among others -/

/-- **Two values that can be told apart by the text that is shown of them**: floating point numbers
occur in neither, and both are strings or neither is one. -/
structure Comparable (j k : Json) : Prop where
  left : j.Whole
  right : k.Whole
  strings : j.string?.isSome = k.string?.isSome

/-- **The text tells values that can be told apart by it.** -/
theorem Comparable.plainText_eq_iff {j k : Json} (h : j.Comparable k) :
    j.plainText = k.plainText ↔ (j == k) = true := by
  obtain ⟨hj, hk, hstrings⟩ := h
  rw [hj.same_iff]
  refine ⟨fun htext => ?_, fun heq => by rw [heq]⟩
  cases j with
  | string s =>
      cases k with
      | string t => exact congrArg string htext
      | _ => cases hstrings
  | _ =>
      cases k with
      | string t => cases hstrings
      | _ => exact hj.text_inj hk htext

end Json

end Estate
