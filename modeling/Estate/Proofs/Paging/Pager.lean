import Mathlib.Data.List.Basic
import Mathlib.Data.List.Forall2
import Mathlib.Tactic.Common
import Estate.Paging.Pager

/-!
# Pages cover a listing

A page is cut out of a listing by the position at which it begins and the one at which it ends.
Positions are words, so that a product that does not fit is clipped; as long as the listing itself
is not longer than words can count, every page that begins at a clipped position is empty, and the
other ones lie side by side.

* `Pager.turnTo` — the same pager at another page.
* `Pager.slice_of_size` — a page is some elements after some others.
* `Pager.Tiles` — pages side by side that make up a listing.
* **`Pager.covers`** — the pages of a pager that has room do; `Pager.covers_clamped` — so do those
  of a clamped pager, whatever size was asked for.
-/

namespace Estate

namespace Pager

variable {α : Type} {p : Pager} {size limit : UInt64} {listing : List α}

/-- The same pager at another page. -/
def turnTo (p : Pager) (index : UInt64) : Pager :=
  { p with pageIndex := index }

/-- A clamped pager has room on its pages. -/
lemma clamped_pageSize_ne : (p.clamped limit).pageSize ≠ some 0 := by
  intro hzero
  obtain ⟨size, -, hsize⟩ := Option.map_eq_some_iff.1 hzero
  have hone : 1 ≤ (max 1 (min size (max limit 1))).toNat := by
    rw [UInt64.toNat_max]
    exact Nat.le_max_left _ _
  rw [hsize] at hone
  exact absurd hone (by decide)

/-- The last page is before the `n`-th if `n` pages hold everything. -/
lemma lastPageIndex_lt_iff (hsize : p.pageSize = some size) (hpos : 0 < size.toNat) {n total : Nat}
    (hn : 0 < n) : p.lastPageIndex total < n ↔ total ≤ n * size.toNat := by
  have hroom : 0 < size := UInt64.lt_iff_toNat_lt.2 hpos
  simp only [lastPageIndex, hsize]
  split_ifs with hsome
  · rw [Nat.div_lt_iff_lt_mul hpos]
    omega
  · have hnone : total = 0 := by
      by_contra hne
      exact hsome ⟨Nat.pos_of_ne_zero hne, hroom⟩
    exact iff_of_true hn (hnone ▸ Nat.zero_le _)

/-! ## One page -/

/-- Clipping a position is not noticed in a listing that words can count. -/
lemma min_ofNatClamp {total : Nat} (hfits : total < UInt64.size) (n : Nat) :
    min (UInt64.ofNatClamp n).toNat total = min n total := by
  rcases Nat.lt_or_ge n UInt64.size with h | h
  · rw [UInt64.toNat_ofNatClamp_of_lt h]
  · rw [UInt64.toNat_ofNatClamp_of_le h]
    omega

/-- **A page is a number of elements after those of the pages before it.** -/
lemma slice_of_size (hsize : p.pageSize = some size) (hfits : listing.length < UInt64.size) :
    p.slice listing = (listing.drop (p.pageIndex.toNat * size.toNat)).take size.toNat := by
  simp only [slice, window, start, hsize, min_ofNatClamp hfits, List.extract_eq_take_drop]
  generalize p.pageIndex.toNat * size.toNat = n
  rcases Nat.le_total n listing.length with h | h
  · rw [Nat.min_eq_left h, List.take_eq_take_iff, List.length_drop]
    omega
  · rw [Nat.min_eq_right h, List.drop_of_length_le h, List.drop_length, List.take_nil,
      List.take_nil]

/-- Without a size, the first page is the whole listing. -/
lemma slice_of_unlimited (hsize : p.pageSize = none) (hindex : p.pageIndex = 0) :
    p.slice listing = listing := by
  simp [slice, window, hsize, hindex]

/-- Pages of listings that correspond correspond. -/
lemma forall₂_slice {β : Type} {R : α → β → Prop} {listing' : List β}
    (h : List.Forall₂ R listing listing') (p : Pager) :
    List.Forall₂ R (p.slice listing) (p.slice listing') := by
  simp only [slice, List.extract_eq_take_drop, h.length_eq]
  exact List.forall₂_take _ (List.forall₂_drop _ h)

/-- Pages side by side. -/
lemma flatMap_drop_take (listing : List α) (size n : Nat) :
    (List.range n).flatMap (fun k => (listing.drop (k * size)).take size) =
      listing.take (n * size) := by
  induction n with
  | zero => simp
  | succ n ih =>
      rw [List.range_succ, List.flatMap_append, ih, List.flatMap_singleton, Nat.succ_mul,
        List.take_add]

/-! ## All pages -/

/-- **Pages lie side by side and make up a listing.** -/
structure Tiles (pages : UInt64 → List α) (last : Nat) (listing : List α) : Prop where
  /-- The last page can be asked for. -/
  fits : last < UInt64.size
  /-- Up to the last page nothing is missing and nothing is there twice. -/
  whole : (List.range (last + 1)).flatMap (fun k => pages (.ofNat k)) = listing
  /-- No page is empty before the listing is over. -/
  filled : listing ≠ [] → ∀ k : UInt64, k.toNat ≤ last → pages k ≠ []
  /-- After the last page there is nothing. -/
  later : ∀ k : UInt64, last < k.toNat → pages k = []

/-- The pages of a pager make up a listing. -/
abbrev Covers (p : Pager) (listing : List α) : Prop :=
  Tiles (fun k => (p.turnTo k).slice listing) (p.lastPageIndex listing.length) listing

/-- Without a size, there is one page. -/
lemma covers_unlimited (hsize : p.pageSize = none) : p.Covers listing := by
  have hlast : p.lastPageIndex listing.length = 0 := by rw [lastPageIndex, hsize]
  have hfirst : (p.turnTo 0).slice listing = listing := slice_of_unlimited hsize rfl
  rw [Covers, hlast]
  refine ⟨by decide, ?_, fun hne k hk => ?_, fun k hk => ?_⟩
  · exact (List.flatMap_singleton _ _).trans hfirst
  · obtain rfl : k = 0 := UInt64.toNat_inj.1 (Nat.le_zero.1 hk)
    rwa [hfirst]
  · have hne : k ≠ 0 := fun hzero => Nat.not_lt_zero _ (hzero ▸ hk)
    simp [slice, window, turnTo, hsize, hne]

/-- With a size that leaves room, the listing is divided. -/
lemma covers_limited (hsize : p.pageSize = some size) (hpos : 0 < size.toNat)
    (hfits : listing.length < UInt64.size) : p.Covers listing := by
  have hpage : ∀ k, (p.turnTo k).slice listing =
      (listing.drop (k.toNat * size.toNat)).take size.toNat :=
    fun k => slice_of_size (p := p.turnTo k) hsize hfits
  have hword : p.lastPageIndex listing.length < UInt64.size :=
    (lastPageIndex_lt_iff hsize hpos (by decide)).2
      (Nat.le_trans (Nat.le_of_lt hfits) (Nat.le_mul_of_pos_right _ hpos))
  refine ⟨hword, ?_, fun hne k hk => ?_, fun k hk => ?_⟩
  · have hpages : ∀ k ∈ List.range (p.lastPageIndex listing.length + 1),
        (p.turnTo (.ofNat k)).slice listing = (listing.drop (k * size.toNat)).take size.toNat := by
      intro k hk
      rw [hpage, UInt64.toNat_ofNat_of_lt'
        (Nat.lt_of_le_of_lt (Nat.lt_succ_iff.1 (List.mem_range.1 hk)) hword)]
    rw [List.flatMap_congr hpages, flatMap_drop_take, List.take_of_length_le]
    exact (lastPageIndex_lt_iff hsize hpos (Nat.succ_pos _)).1 (Nat.lt_succ_self _)
  · have hbefore : k.toNat * size.toNat < listing.length := by
      rcases Nat.eq_zero_or_pos k.toNat with hzero | hlater
      · rw [hzero, Nat.zero_mul]
        exact List.length_pos_iff.2 hne
      · exact Nat.not_le.1 fun hle =>
          Nat.not_lt.2 hk ((lastPageIndex_lt_iff hsize hpos hlater).2 hle)
    rw [hpage, ← List.length_pos_iff, List.length_take, List.length_drop]
    omega
  · rw [hpage, List.drop_of_length_le, List.take_nil]
    exact (lastPageIndex_lt_iff hsize hpos (Nat.zero_lt_of_lt hk)).1 hk

/-- **Pages cover their listing**, if they have room and words can count the listing. -/
theorem covers (hsize : p.pageSize ≠ some 0) (hfits : listing.length < UInt64.size) :
    p.Covers listing := by
  cases hp : p.pageSize with
  | none => exact covers_unlimited hp
  | some size =>
      refine covers_limited hp (Nat.pos_of_ne_zero fun hzero => hsize ?_) hfits
      obtain rfl : size = 0 := UInt64.toNat_inj.1 hzero
      exact hp

/-- **So do the pages of a clamped pager**, whatever size was asked for. -/
theorem covers_clamped (p : Pager) (limit : UInt64) (hfits : listing.length < UInt64.size) :
    (p.clamped limit).Covers listing :=
  covers clamped_pageSize_ne hfits

/-- Seven elements on pages of three. -/
example :
    let page := fun k => ((Pager.first 3).turnTo k).slice (List.range 7)
    page 0 = [0, 1, 2] ∧ page 2 = [6] ∧ page 3 = [] ∧ (Pager.first 3).lastPageIndex 7 = 2 := by
  decide

end Pager

end Estate
