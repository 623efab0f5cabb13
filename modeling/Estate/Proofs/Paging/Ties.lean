import Mathlib.Data.List.Sort
import Mathlib.Tactic.Common

/-!
# Orders up to ties, and sorting by them

A comparison that is total, transitive and blind to ties leaves little to the one who sorts: the
sorted list holds at each place the same thing up to a tie, whatever the arrangement it was sorted
from, and if ties are left as they were it is one list.

* `OrdersUpToTies` — such a comparison.
* `Sorts` — a list is another one sorted, and its ties are left as they were.
* **`Sorts.tied`** — the sorted lists of two arrangements are tied place by place.
* `Sorts.eq` — there is one sorted list for each arrangement of the ties.
* `sorts_mergeSort` — merge sort finds it.
-/

namespace Estate

open Std (TransCmp OrientedCmp ReflCmp)

variable {α : Type}

/-- A comparison orders things, of which some are tied. -/
structure OrdersUpToTies (cmp : α → α → Ordering) : Prop where
  refl (a : α) : cmp a a = .eq
  swap (a b : α) : cmp b a = (cmp a b).swap
  total (a b : α) : cmp a b ≠ .gt ∨ cmp b a ≠ .gt
  trans {a b c : α} : cmp a b ≠ .gt → cmp b c ≠ .gt → cmp a c ≠ .gt
  congr {a b : α} : cmp a b = .eq → ∀ c, cmp a c = cmp b c ∧ cmp c a = cmp c b

/-- A list is another one sorted, and what is tied in it stands as it stood. -/
structure Sorts (cmp : α → α → Ordering) (before after : List α) : Prop where
  perm : after.Perm before
  sorted : after.Pairwise fun a b => cmp a b ≠ .gt
  stable (a : α) : after.filter (cmp a · == .eq) = before.filter (cmp a · == .eq)

variable {cmp : α → α → Ordering} [TransCmp cmp]

lemma not_gt_of_gt {a b : α} (h : cmp a b = .gt) : cmp b a ≠ .gt := by
  rw [(OrientedCmp.eq_swap : cmp b a = (cmp a b).swap), h]
  decide

lemma not_gt_trans {a b c : α} (hab : cmp a b ≠ .gt) (hbc : cmp b c ≠ .gt) : cmp a c ≠ .gt := by
  rw [ne_eq, ← Ordering.isLE_iff_ne_gt] at hab hbc ⊢
  exact TransCmp.isLE_trans hab hbc

lemma tied_of_not_gt {a b : α} (hab : cmp a b ≠ .gt) (hba : cmp b a ≠ .gt) : cmp a b = .eq := by
  rw [ne_eq, ← Ordering.isLE_iff_ne_gt] at hab hba
  exact OrientedCmp.isLE_antisymm hab hba

lemma tied_self (a : α) : (cmp a a == .eq) = true :=
  beq_iff_eq.2 ReflCmp.compare_self

lemma OrdersUpToTies.of_transCmp (cmp : α → α → Ordering) [TransCmp cmp] : OrdersUpToTies cmp where
  refl _ := ReflCmp.compare_self
  swap _ _ := OrientedCmp.eq_swap
  total _ _ := or_iff_not_imp_left.2 fun h => not_gt_of_gt (not_not.1 h)
  trans := not_gt_trans
  congr h _ := ⟨TransCmp.congr_left h, TransCmp.congr_right h⟩

/-- Comparing by what is noted of things is an order if comparing the notes is. -/
lemma transCmp_comap {β : Type} (cmp : α → α → Ordering) [TransCmp cmp] (f : β → α) :
    TransCmp fun a b => cmp (f a) (f b) where
  eq_swap := OrientedCmp.eq_swap
  isLE_trans := TransCmp.isLE_trans

/-! ## Sorted lists -/

section Sorted

variable {l m : List α}

/-- What comes first in a sorted list comes before all that is tied to something in it. -/
lemma head_not_gt {a b : α} (hsorted : (a :: l).Pairwise fun a b => cmp a b ≠ .gt)
    (hb : (a :: l).countP (cmp b · == .eq) ≠ 0) : cmp a b ≠ .gt := by
  obtain ⟨c, hc, htied⟩ := List.countP_pos_iff.1 (Nat.pos_of_ne_zero hb)
  rw [← TransCmp.congr_right (OrientedCmp.eq_symm (eq_of_beq htied))]
  rcases List.mem_cons.1 hc with rfl | hc
  · rw [(ReflCmp.compare_self : cmp c c = .eq)]
    decide
  · exact List.rel_of_pairwise_cons hsorted hc

/-- **Sorted lists with equally many ties** to each thing are tied place by place. -/
lemma tied_of_countP (hl : l.Pairwise fun a b => cmp a b ≠ .gt)
    (hm : m.Pairwise fun a b => cmp a b ≠ .gt)
    (hcount : ∀ a, l.countP (cmp a · == .eq) = m.countP (cmp a · == .eq)) :
    List.Forall₂ (fun a b => cmp a b = .eq) l m := by
  have hself (a : α) (l : List α) : (a :: l).countP (cmp a · == .eq) ≠ 0 :=
    Nat.pos_iff_ne_zero.1 (List.countP_pos_iff.2 ⟨a, List.mem_cons_self, tied_self a⟩)
  induction l generalizing m with
  | nil =>
      cases m with
      | nil => exact .nil
      | cons b m => exact absurd (hcount b).symm (hself b m)
  | cons a l ih =>
      cases m with
      | nil => exact absurd (hcount a) (hself a l)
      | cons b m =>
          have hab : cmp a b = .eq :=
            tied_of_not_gt (head_not_gt hl (hcount b ▸ hself b m))
              (head_not_gt hm (hcount a ▸ hself a l))
          refine .cons hab (ih hl.of_cons hm.of_cons fun c => ?_)
          have h := hcount c
          rw [List.countP_cons, List.countP_cons, TransCmp.congr_right hab] at h
          exact Nat.add_right_cancel h

/-- Lists that are tied place by place are the same if what is tied stands in one order. -/
lemma eq_of_tied (h : List.Forall₂ (fun a b => cmp a b = .eq) l m)
    (hties : ∀ a, l.filter (cmp a · == .eq) = m.filter (cmp a · == .eq)) : l = m := by
  induction h with
  | nil => rfl
  | @cons a b l m hab _ ih =>
      have hfirst : a :: l.filter (cmp a · == .eq) = b :: m.filter (cmp a · == .eq) := by
        rw [← List.filter_cons_of_pos (p := (cmp a · == .eq)) (tied_self a),
          ← List.filter_cons_of_pos (p := (cmp a · == .eq)) (beq_iff_eq.2 hab)]
        exact hties a
      obtain rfl := (List.cons.inj hfirst).1
      refine congrArg _ (ih fun c => ?_)
      have h := hties c
      rw [List.filter_cons, List.filter_cons] at h
      split_ifs at h
      · exact (List.cons.inj h).2
      · exact h

end Sorted

namespace Sorts

variable {l l' m m' : List α}

/-- **Arrangements matter for ties only**: sorted, they are tied place by place. -/
theorem tied (h : Sorts cmp l m) (h' : Sorts cmp l' m') (hperm : l.Perm l') :
    List.Forall₂ (fun a b => cmp a b = .eq) m m' :=
  tied_of_countP h.sorted h'.sorted fun _ => ((h.perm.trans hperm).trans h'.perm.symm).countP_eq _

/-- **Arrangements with their ties in one order** are the same when they are sorted. -/
theorem eq (h : Sorts cmp l m) (h' : Sorts cmp l' m')
    (hties : ∀ a, l.filter (cmp a · == .eq) = l'.filter (cmp a · == .eq)) : m = m' := by
  have hsame (a : α) : m.filter (cmp a · == .eq) = m'.filter (cmp a · == .eq) := by
    rw [h.stable, h'.stable, hties]
  refine eq_of_tied (tied_of_countP h.sorted h'.sorted fun a => ?_) hsame
  rw [List.countP_eq_length_filter, List.countP_eq_length_filter, hsame]

end Sorts

/-- **Merge sort sorts.** -/
theorem sorts_mergeSort (l : List α) : Sorts cmp l (l.mergeSort (cmp · · != .gt)) := by
  have htrans (a b c : α) (hab : cmp a b != .gt) (hbc : cmp b c != .gt) : cmp a c != .gt :=
    bne_iff_ne.2 (not_gt_trans (bne_iff_ne.1 hab) (bne_iff_ne.1 hbc))
  have htotal (a b : α) : (cmp a b != .gt || cmp b a != .gt) = true := by
    rw [Bool.or_eq_true, bne_iff_ne, bne_iff_ne]
    exact (OrdersUpToTies.of_transCmp cmp).total a b
  have hperm : (l.mergeSort (cmp · · != .gt)).Perm l := List.mergeSort_perm _ _
  refine ⟨hperm, (List.pairwise_mergeSort htrans htotal l).imp bne_iff_ne.1, fun a => ?_⟩
  -- What is tied is in order as it stands, so it is found again, and there is no more of it.
  have htied : (l.filter (cmp a · == .eq)).Pairwise (cmp · · != .gt) := by
    refine List.pairwise_of_forall_mem_list fun b hb c hc => ?_
    have hab := eq_of_beq (List.mem_filter.1 hb).2
    have hac := eq_of_beq (List.mem_filter.1 hc).2
    rw [← TransCmp.congr_left hab, hac]
    rfl
  have hsub := (List.sublist_mergeSort htrans htotal htied List.filter_sublist).filter
    (cmp a · == .eq)
  simp only [List.filter_filter, Bool.and_self] at hsub
  exact (hsub.eq_of_length (hperm.filter _).length_eq.symm).symm

end Estate
