import Mathlib.Tactic.Common
import Estate.Proofs.Paging.Pager

/-!
# Positions of pages as words

Page indexes, page sizes, positions and totals are words.  A product or a sum that does not fit a
word is clipped, and no window shows it: what lies beyond the largest word lies beyond every total.
So the windows of the pages of a listing lie side by side even where the listing is as long as words
can count.

* `Pager.wordWindow`, `Pager.wordLastPageIndex` — windows and the last page, computed on words.
* `Pager.window_of_size` — the same window without any clipping.
* `Pager.turn?` — turning to the next page, some times over.
* **`Pager.windows_tile`** — a window always lies inside its listing; the windows of pages that have
  room lie side by side, and all pages up to the last one can be turned to.
-/

namespace Estate

namespace Pager

variable {p : Pager} {size total : UInt64}

/-- The positions at which the page begins and ends, computed on words. -/
def wordWindow (p : Pager) (total : UInt64) : UInt64 × UInt64 :=
  match p.pageSize with
  | none => if p.pageIndex = 0 then (0, total) else (total, total)
  | some size =>
    let start := min p.start total
    (start, min (.ofNatClamp (start.toNat + size.toNat)) total)

/-- The index of the last page, computed on words. -/
def wordLastPageIndex (p : Pager) (total : UInt64) : UInt64 :=
  match p.pageSize with
  | none => 0
  | some size => if 0 < total ∧ 0 < size then (total - 1) / size else 0

/-- Turning to the next page so many times, as long as there is one. -/
def turn? (p : Pager) : Nat → Option Pager
  | 0 => some p
  | n + 1 => (p.turn? n).bind next?

/-- **A window lies inside its listing.**  Computed on words it is what it would be without any
limit to them. -/
structure WindowFits (p : Pager) (total : UInt64) : Prop where
  words : p.window total.toNat = ((p.wordWindow total).1.toNat, (p.wordWindow total).2.toNat)
  unclipped : ∀ size ∈ p.pageSize, p.window total.toNat =
    (min (p.pageIndex.toNat * size.toNat) total.toNat,
      min ((p.pageIndex.toNat + 1) * size.toNat) total.toNat)
  ordered : (p.window total.toNat).1 ≤ (p.window total.toNat).2
  inside : (p.window total.toNat).2 ≤ total.toNat

/-- **Windows lie side by side**, from the start of a listing to its end. -/
structure WindowsTile (p : Pager) (total : UInt64) : Prop where
  words : p.lastPageIndex total.toNat = (p.wordLastPageIndex total).toNat
  first : ((p.turnTo 0).window total.toNat).1 = 0
  joined : ∀ k < p.wordLastPageIndex total,
    ((p.turnTo k).window total.toNat).2 = ((p.turnTo (k + 1)).window total.toNat).1
  last : ((p.turnTo (p.wordLastPageIndex total)).window total.toNat).2 = total.toNat
  /-- No page up to the last one is empty, unless the listing is. -/
  filled : 0 < total → ∀ k ≤ p.wordLastPageIndex total,
    ((p.turnTo k).window total.toNat).1 < ((p.turnTo k).window total.toNat).2
  /-- All pages behind the last one are empty. -/
  later : ∀ k, p.wordLastPageIndex total < k →
    ((p.turnTo k).window total.toNat).1 = ((p.turnTo k).window total.toNat).2
  /-- Turning pages from the first one on leads to all of them. -/
  reached : ∀ n ≤ (p.wordLastPageIndex total).toNat,
    (p.turnTo 0).turn? n = some (p.turnTo (.ofNat n))

/-! ## One window -/

/-- **No clipping is noticed** in a listing that words can count. -/
lemma window_of_size (hsize : p.pageSize = some size) (total : UInt64) :
    p.window total.toNat = (min (p.pageIndex.toNat * size.toNat) total.toNat,
      min ((p.pageIndex.toNat + 1) * size.toNat) total.toNat) := by
  simp only [window, start, hsize, min_ofNatClamp total.toNat_lt, Nat.succ_mul]
  generalize p.pageIndex.toNat * size.toNat = n
  rw [Prod.mk.injEq]
  omega

lemma window_words (p : Pager) (total : UInt64) :
    p.window total.toNat = ((p.wordWindow total).1.toNat, (p.wordWindow total).2.toNat) := by
  rw [window, wordWindow]
  cases p.pageSize with
  | none => split_ifs <;> rfl
  | some size =>
      simp only [UInt64.toNat_min, min_ofNatClamp total.toNat_lt]

lemma windowFits (p : Pager) (total : UInt64) : p.WindowFits total := by
  have hunclipped := fun size (hsize : size ∈ p.pageSize) => window_of_size hsize total
  refine ⟨window_words p total, hunclipped, ?_, ?_⟩
  · cases hsize : p.pageSize with
    | none =>
        rw [window, hsize]
        split_ifs
        · exact Nat.zero_le _
        · exact Nat.le_refl _
    | some size =>
        rw [hunclipped size hsize, Nat.succ_mul]
        show min _ _ ≤ min _ _
        omega
  · cases hsize : p.pageSize with
    | none =>
        rw [window, hsize]
        split_ifs <;> exact Nat.le_refl _
    | some size =>
        rw [hunclipped size hsize]
        exact Nat.min_le_right _ _

/-! ## All windows -/

lemma lastPageIndex_words (p : Pager) (total : UInt64) :
    p.lastPageIndex total.toNat = (p.wordLastPageIndex total).toNat := by
  rw [lastPageIndex, wordLastPageIndex]
  cases p.pageSize with
  | none => rfl
  | some size =>
      have hsome : 0 < total.toNat ↔ 0 < total := (UInt64.lt_iff_toNat_lt (a := 0)).symm
      simp only [hsome]
      split_ifs with h
      · have hone : (total - 1).toNat = total.toNat - 1 :=
          UInt64.toNat_sub_of_le _ _ (UInt64.le_iff_toNat_le.2 (hsome.2 h.1))
        rw [UInt64.toNat_div, hone]
      · rfl

/-- The page before the last one can be turned. -/
lemma next?_turnTo {n : Nat} (hn : n + 1 < UInt64.size) :
    (p.turnTo (.ofNat n)).next? = some (p.turnTo (.ofNat (n + 1))) := by
  have hindex : (p.turnTo (.ofNat n)).pageIndex.toNat = n :=
    UInt64.toNat_ofNat_of_lt' (Nat.lt_of_succ_lt hn)
  rw [next?, hindex, if_pos hn]
  refine congrArg (fun index => some (p.turnTo index)) (UInt64.toNat_inj.1 ?_)
  rw [UInt64.toNat_add, hindex, UInt64.toNat_ofNat_of_lt' hn]
  exact Nat.mod_eq_of_lt hn

lemma turn?_turnTo {n : Nat} (hn : n < UInt64.size) :
    (p.turnTo 0).turn? n = some (p.turnTo (.ofNat n)) := by
  induction n with
  | zero => rfl
  | succ n ih =>
      rw [turn?, ih (Nat.lt_of_succ_lt hn)]
      exact next?_turnTo hn

/-- With room on its pages, a listing is divided by them. -/
lemma windowsTile (hsize : p.pageSize = some size) (hroom : 1 ≤ size) (total : UInt64) :
    p.WindowsTile total := by
  have hpos : 0 < size.toNat := UInt64.le_iff_toNat_le.1 hroom
  have hwindow : ∀ k, (p.turnTo k).window total.toNat =
      (min (k.toNat * size.toNat) total.toNat, min ((k.toNat + 1) * size.toNat) total.toNat) :=
    fun k => window_of_size (p := p.turnTo k) hsize total
  -- Where the pages behind the last one begin, and no other, there is nothing left.
  have hbehind : ∀ n, 0 < n →
      ((p.wordLastPageIndex total).toNat < n ↔ total.toNat ≤ n * size.toNat) := fun n hn => by
    rw [← lastPageIndex_words]
    exact lastPageIndex_lt_iff hsize hpos hn
  refine ⟨lastPageIndex_words p total, ?_, fun k hk => ?_, ?_, fun hsome k hk => ?_,
    fun k hk => ?_, fun n hn => turn?_turnTo (Nat.lt_of_le_of_lt hn (UInt64.toNat_lt _))⟩
  · rw [hwindow]
    exact (congrArg (min · _) (Nat.zero_mul _)).trans (Nat.zero_min _)
  · have hnext : (k + 1).toNat = k.toNat + 1 := by
      have hfits := (p.wordLastPageIndex total).toNat_lt
      have hlt := UInt64.lt_iff_toNat_lt.1 hk
      rw [UInt64.toNat_add]
      exact Nat.mod_eq_of_lt (Nat.lt_of_le_of_lt hlt hfits)
    rw [hwindow, hwindow, hnext]
  · rw [hwindow]
    exact Nat.min_eq_right ((hbehind _ (Nat.succ_pos _)).1 (Nat.lt_succ_self _))
  · have hbegins : k.toNat * size.toNat < total.toNat := by
      rcases Nat.eq_zero_or_pos k.toNat with hzero | hlater
      · rw [hzero, Nat.zero_mul]
        exact UInt64.lt_iff_toNat_lt.1 hsome
      · exact Nat.lt_of_not_le fun hle =>
          Nat.not_lt.2 (UInt64.le_iff_toNat_le.1 hk) ((hbehind k.toNat hlater).2 hle)
    rw [hwindow, Nat.succ_mul]
    show min _ _ < min _ _
    omega
  · have hlt := UInt64.lt_iff_toNat_lt.1 hk
    have hends : total.toNat ≤ k.toNat * size.toNat :=
      (hbehind _ (Nat.zero_lt_of_lt hlt)).1 hlt
    rw [hwindow, Nat.succ_mul]
    show min _ _ = min _ _
    omega

/-- **Windows are safe, and those of pages that have room lie side by side**, up to the largest
sizes and totals that words can count.  Without any limit to words every window would be the same;
it never leaves its listing; from the first page to the last one nothing is left out and nothing
comes twice, all later pages are empty, and no index on the way there is too large. -/
theorem windows_tile :
    (∀ (p : Pager) (total : UInt64), p.WindowFits total) ∧
      ∀ (p : Pager) (size total : UInt64), p.pageSize = some size → 1 ≤ size →
        p.WindowsTile total :=
  ⟨windowFits, fun _ _ total hsize hroom => windowsTile hsize hroom total⟩

/-- The longest listing on pages of half its length: the last of three pages holds one element, and
where the fourth one would begin is no word. -/
theorem longestListing_tiled :
    let p : Pager := { pageIndex := 3, pageSize := some 0x7FFFFFFFFFFFFFFF }
    let total : UInt64 := 0xFFFFFFFFFFFFFFFF
    p.pageSize = some 0x7FFFFFFFFFFFFFFF ∧ 1 ≤ (0x7FFFFFFFFFFFFFFF : UInt64) ∧
      p.WindowFits total ∧ p.WindowsTile total ∧ p.wordLastPageIndex total = 2 ∧
      p.window total.toNat = (total.toNat, total.toNat) ∧
      (p.turnTo 2).window total.toNat = (total.toNat - 1, total.toNat) := by
  intro p total
  exact ⟨rfl, by decide, windows_tile.1 p total, windows_tile.2 p _ total rfl (by decide),
    by decide, by decide, by decide⟩

end Pager

end Estate
