import Mathlib.Data.List.Sort
import Mathlib.Data.Vector.Basic
import Mathlib.Tactic.Common
import Estate.Paging.Order
import Estate.Proofs.Paging.Ties

/-!
# Sorting is consistent

Keys of different sorts are compared by their texts, and those of one sort by something else.  That
makes one order of all keys because a text tells the sort by its first character: a quote comes
before a sign and the digits, and these before what any other value starts with.

* `SortKey.order_eq` — keys are compared by their sorts, then as numbers, then as words.
* `Row.order_cons` — rows are compared field by field, which is an order up to ties.
* **`sorting_is_consistent`** — both orders are orders up to ties, and a listing that is sorted
  depends on the arrangement it was sorted from for its ties only.
-/

namespace Estate

open Std (TransCmp OrientedCmp ReflCmp)

/-! ## What texts start with -/

/-- A text that starts with a smaller character comes first. -/
lemma compare_of_head_lt {s t : String} {c d : Char} {cs ds : List Char} (hs : s.toList = c :: cs)
    (ht : t.toList = d :: ds) (h : c < d) : compare s t = .lt := by
  refine compareOfLessAndEq_eq_lt.2 ?_
  show s.toList < t.toList
  rw [hs, ht, List.cons_lt_cons_iff]
  exact Or.inl h

/-- The characters that numbers start with. -/
def StartsNumber (c : Char) : Prop :=
  '-' ≤ c ∧ c ≤ '9'

lemma startsNumber_of_isDigit {c : Char} (h : c.isDigit) : StartsNumber c := by
  rw [Char.isDigit, Bool.and_eq_true, decide_eq_true_iff, decide_eq_true_iff] at h
  exact ⟨Char.le_trans (by decide) h.1, h.2⟩

lemma digitsOf_head (n : Nat) : ∃ c cs, digitsOf n = c :: cs ∧ c.isDigit := by
  obtain ⟨c, cs, h⟩ := List.exists_cons_of_ne_nil (Nat.toDigits_ne_nil (n := n) (b := 10))
  exact ⟨c, cs, h, Nat.isDigit_of_mem_toDigits (by decide) (by decide) (h ▸ List.mem_cons_self)⟩

lemma Decimal.text_head (d : Decimal) : ∃ c cs, d.text.toList = c :: cs ∧ c.isDigit := by
  obtain ⟨c, cs, hdigits, hc⟩ := digitsOf_head d.coefficient
  rw [text, hdigits]
  simp only [String.toList_ofList, List.length_cons]
  split_ifs with hwhole hpoint
  · exact ⟨c, _, rfl, hc⟩
  · -- At least one digit stands before the point.
    obtain ⟨n, hn⟩ : ∃ n, (((cs.length + 1 : Nat) : Int) + d.exponent).toNat = n + 1 :=
      Nat.exists_eq_succ_of_ne_zero (by omega)
    exact ⟨c, _, by rw [hn]; rfl, hc⟩
  · exact ⟨'0', _, rfl, rfl⟩
  all_goals exact ⟨c, _, rfl, hc⟩

lemma Number.text_head (n : Number) : ∃ c cs, n.text.toList = c :: cs ∧ StartsNumber c := by
  cases n with
  | integer n =>
      cases n with
      | ofNat m =>
          obtain ⟨c, cs, hdigits, hc⟩ := digitsOf_head m
          exact ⟨c, cs, Nat.toList_repr.trans hdigits, startsNumber_of_isDigit hc⟩
      | negSucc m =>
          exact ⟨'-', _, String.toList_append, by decide, by decide⟩
  | float x =>
      obtain ⟨c, cs, htext, hc⟩ := x.shortest.text_head
      rw [text, Binary64.text, String.toList_append, htext]
      split
      · exact ⟨'-', _, rfl, by decide, by decide⟩
      · exact ⟨c, cs, rfl, startsNumber_of_isDigit hc⟩

namespace Json

/-- Texts come before numbers, and numbers before everything else. -/
def rank : Json → Nat
  | string _ => 0
  | number _ => 1
  | _ => 2

lemma rank_le (j : Json) : j.rank ≤ 2 := by
  cases j <;> simp [rank]

lemma text_head_of_other {j : Json} (h : j.rank = 2) :
    ∃ c cs, j.text.toList = c :: cs ∧ '9' < c := by
  cases j with
  | string s => cases h
  | number n => cases h
  | null => exact ⟨_, _, rfl, by decide⟩
  | bool b => cases b <;> exact ⟨_, _, rfl, by decide⟩
  | array items =>
      rw [text, String.toList_append, String.toList_append]
      exact ⟨_, _, rfl, by decide⟩
  | object fields =>
      rw [text, String.toList_append, String.toList_append]
      exact ⟨_, _, rfl, by decide⟩

/-- **A value of a sort that comes first has a text that comes first.** -/
lemma compare_text_of_rank_lt {x y : Json} (h : x.rank < y.rank) : compare x.text y.text = .lt := by
  cases x with
  | string s =>
      have hquote : (string s).text.toList = '"' :: (s.toList.flatMap escapeJsonChar ++ ['"']) := by
        rw [text, quoteJson, String.toList_ofList]
        rfl
      by_cases hy : y.rank = 2
      · obtain ⟨c, cs, htext, hc⟩ := text_head_of_other hy
        exact compare_of_head_lt hquote htext (Char.lt_trans (a := '"') (b := '9') (by decide) hc)
      · cases y with
        | string t => exact absurd h (Nat.lt_irrefl 0)
        | number n =>
            obtain ⟨c, cs, htext, hc, -⟩ := n.text_head
            exact compare_of_head_lt hquote htext (Std.lt_of_lt_of_le (b := '-') (by decide) hc)
        | _ => exact absurd rfl hy
  | number m =>
      obtain ⟨c, cs, htext, -, hc⟩ := m.text_head
      have hy : y.rank = 2 := Nat.le_antisymm y.rank_le h
      obtain ⟨d, ds, htext', hd⟩ := text_head_of_other hy
      exact compare_of_head_lt htext htext' (Std.lt_of_le_of_lt hc hd)
  | _ => exact absurd h (Nat.not_lt.2 y.rank_le)

end Json

namespace SortKey

/-- The sorts of keys in their order. -/
def rank : SortKey → Nat
  | some j => j.rank
  | none => 3

/-- What numbers are compared by. -/
def units : SortKey → Int
  | some (.number n) => n.toBinary64.units
  | _ => 0

/-- What keys of one sort are compared by, unless they are numbers. -/
def word : SortKey → String
  | some (.string s) => s
  | some (.number _) => ""
  | some j => j.text
  | none => ""

/-- Values of different sorts are compared by their texts. -/
lemma order_of_rank_ne {x y : Json} (h : x.rank ≠ y.rank) :
    order (some x) (some y) = compare x.text y.text := by
  cases x with
  | string s =>
      cases y with
      | string t => exact absurd rfl h
      | _ => rfl
  | number m =>
      cases y with
      | number n => exact absurd rfl h
      | _ => rfl
  | _ => cases y <;> rfl

lemma order_of_rank_lt {a b : SortKey} (h : a.rank < b.rank) :
    a.order b = .lt ∧ b.order a = .gt := by
  cases a with
  | none =>
      cases b with
      | none => exact absurd h (Nat.lt_irrefl 3)
      | some y => exact absurd h (Nat.not_lt.2 (Nat.le_succ_of_le y.rank_le))
  | some x =>
      cases b with
      | none => exact ⟨rfl, rfl⟩
      | some y =>
          have hlt := Json.compare_text_of_rank_lt h
          rw [order_of_rank_ne (Nat.ne_of_lt h), order_of_rank_ne (Nat.ne_of_gt h)]
          exact ⟨hlt, OrientedCmp.gt_of_lt hlt⟩

lemma order_of_rank_eq {a b : SortKey} (h : a.rank = b.rank) :
    a.order b = (compareOn units a b).then (compareOn word a b) := by
  rcases a with - | x <;> rcases b with - | y
  · rfl
  · exact absurd h.symm (Nat.ne_of_lt (Nat.lt_succ_of_le y.rank_le))
  · exact absurd h (Nat.ne_of_lt (Nat.lt_succ_of_le x.rank_le))
  · cases x with
    | string s =>
        cases y with
        | string t => rfl
        | _ => cases h
    | number m =>
        cases y with
        | number n => exact Ordering.then_eq.symm
        | _ => cases h
    | _ =>
        cases y with
        | string t => cases h
        | number n => cases h
        | _ => rfl

/-- **Keys are compared by their sorts**, then as numbers, then as words. -/
lemma order_eq (a b : SortKey) : a.order b =
    compareLex (compareOn rank) (compareLex (compareOn units) (compareOn word)) a b := by
  show _ = (compare a.rank b.rank).then ((compareOn units a b).then (compareOn word a b))
  rcases Nat.lt_trichotomy a.rank b.rank with h | h | h
  · rw [(order_of_rank_lt h).1, Nat.compare_eq_lt.2 h]
    rfl
  · rw [order_of_rank_eq h, Nat.compare_eq_eq.2 h]
    rfl
  · rw [(order_of_rank_lt h).2, Nat.compare_eq_gt.2 h]
    rfl

instance : TransCmp SortKey.order := by
  rw [funext fun a => funext fun b => order_eq a b]
  infer_instance

end SortKey

instance (d : SortDirection) : TransCmp d.order := by
  cases d with
  | ascending => exact inferInstanceAs (TransCmp SortKey.order)
  | descending => exact inferInstanceAs (TransCmp fun a b => SortKey.order b a)

/-! ## Rows -/

/-- Rows that have a key for each of some fields. -/
abbrev Row (fields : List SortField) : Type :=
  List.Vector SortKey fields.length

namespace Row

/-- The order of rows that have all their keys. -/
def order (fields : List SortField) (r s : Row fields) : Ordering :=
  compareRows fields r.toList s.toList

/-- Rows are compared field by field. -/
lemma order_cons (f : SortField) (fs : List SortField) :
    order (f :: fs) = compareLex (fun r s => f.direction.order r.head s.head)
      fun r s => order fs r.tail s.tail := by
  funext ⟨r, hr⟩ ⟨s, hs⟩
  obtain ⟨a, as, rfl⟩ := List.exists_cons_of_length_eq_add_one hr
  obtain ⟨b, bs, rfl⟩ := List.exists_cons_of_length_eq_add_one hs
  rfl

/-- **The order of rows** is an order up to ties. -/
instance (fields : List SortField) : TransCmp (order fields) := by
  induction fields with
  | nil => exact { eq_swap := rfl, isLE_trans := fun _ _ => rfl }
  | cons f fs ih =>
      have hfirst : TransCmp fun r s : Row (f :: fs) => f.direction.order r.head s.head :=
        transCmp_comap _ List.Vector.head
      have hrest : TransCmp fun r s : Row (f :: fs) => order fs r.tail s.tail :=
        transCmp_comap (order fs) fun r : Row (f :: fs) => r.tail
      rw [order_cons]
      infer_instance

end Row

section Sorting

variable {α : Type} (fields : List SortField)

/-- Sorting by keys that are noted beforehand is sorting by keys. -/
lemma sortRows_eq (keys : α → List SortKey) (elements : List α) :
    sortRows fields keys elements =
      elements.mergeSort fun a b => compareRows fields (keys a) (keys b) != .gt := by
  have hmap := List.map_mergeSort (f := fun a => (keys a, a)) (l := elements)
    (r := fun a b => compareRows fields (keys a) (keys b) != .gt)
    (s := fun r s => compareRows fields r.1 s.1 != .gt) fun _ _ _ _ => rfl
  rw [sortRows, ← hmap, List.map_map]
  exact List.map_id _

variable (keys : α → Row fields)

/-- **What has been sorted is sorted**, and it is the same listing in another order. -/
theorem sorts_sortRows (elements : List α) :
    Sorts (fun a b => Row.order fields (keys a) (keys b)) elements
      (sortRows fields (fun a => (keys a).toList) elements) := by
  have horder : TransCmp fun a b => Row.order fields (keys a) (keys b) := transCmp_comap _ keys
  rw [sortRows_eq]
  exact sorts_mergeSort elements

/-- Elements whose keys are all the same stay in the order they were in. -/
lemma sortRows_of_tied {elements : List α} (h : ∀ a ∈ elements, ∀ b ∈ elements, keys a = keys b) :
    sortRows fields (fun a => (keys a).toList) elements = elements := by
  rw [sortRows_eq]
  refine List.mergeSort_of_pairwise (List.pairwise_of_forall_mem_list fun a ha b hb => ?_)
  have htied : Row.order fields (keys b) (keys b) = .eq := ReflCmp.compare_self
  rw [h a ha b hb]
  exact congrArg (· != .gt) htied

end Sorting

/-- **Sorting is well defined.**  Keys are ordered up to ties, and so are the rows of any fields.
What is sorted by them is the only sorted list that leaves ties as they stood, so two arrangements
of the same elements are sorted to lists that are tied place by place, and to one list if the ties
stand in one order. -/
theorem sorting_is_consistent :
    OrdersUpToTies SortKey.order ∧
      ∀ fields : List SortField,
        OrdersUpToTies (fun r s : Row fields => compareRows fields r.toList s.toList) ∧
        ∀ (α : Type) (keys : α → Row fields),
          let order := fun a b => compareRows fields (keys a).toList (keys b).toList
          let sort := sortRows fields fun a => (keys a).toList
          (∀ elements sorted, Sorts order elements sorted ↔ sorted = sort elements) ∧
          (∀ elements elements', elements.Perm elements' →
            List.Forall₂ (fun a b => order a b = .eq) (sort elements) (sort elements')) ∧
          ∀ elements elements',
            (∀ a, elements.filter (order a · == .eq) = elements'.filter (order a · == .eq)) →
              sort elements = sort elements' := by
  refine ⟨.of_transCmp _, fun fields => ⟨.of_transCmp (Row.order fields), fun α keys => ?_⟩⟩
  intro order sort
  have horder : TransCmp order := transCmp_comap (Row.order fields) keys
  have hsort (elements : List α) : Sorts order elements (sort elements) :=
    sorts_sortRows fields keys elements
  refine ⟨fun elements sorted => ⟨fun h => h.eq (hsort elements) fun _ => rfl, ?_⟩, ?_, ?_⟩
  · rintro rfl
    exact hsort elements
  · exact fun elements elements' => (hsort elements).tied (hsort elements')
  · exact fun elements elements' => (hsort elements).eq (hsort elements')

/-- Two numbers and a text that their texts would order otherwise. -/
def mixedSizes : Fin 3 → Row [⟨"size", .ascending⟩]
  | 0 => ⟨[some (.number (.integer 9))], rfl⟩
  | 1 => ⟨[some (.string "9x")], rfl⟩
  | 2 => ⟨[some (.number (.integer 10))], rfl⟩

theorem mixedSizes_sorted :
    let sort := sortRows [⟨"size", .ascending⟩] fun a => (mixedSizes a).toList
    sort [0, 1, 2] = sort [2, 0, 1] ∧
      List.Forall₂ (fun a b => compareRows [⟨"size", .ascending⟩] (mixedSizes a).toList
        (mixedSizes b).toList = .eq) (sort [0, 1, 2]) (sort [2, 0, 1]) := by
  obtain ⟨-, htied, heq⟩ := (sorting_is_consistent.2 [⟨"size", .ascending⟩]).2 (Fin 3) mixedSizes
  exact ⟨heq [0, 1, 2] [2, 0, 1] (by decide +kernel), htied [0, 1, 2] [2, 0, 1] (by decide)⟩

/-- Missing values come last, and so first if large ones do. -/
example :
    let order := fun d => compareRows [⟨"name", .ascending⟩, ⟨"size", d⟩]
      [some (.string "b"), none] [some (.string "b"), some (.bool true)]
    order .ascending = .gt ∧ order .descending = .lt := by
  decide

end Estate
