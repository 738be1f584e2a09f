import Mathlib.Data.List.Forall2
import Mathlib.Data.List.Sort
import Mathlib.Order.Basic
import Mathlib.Tactic.Common

/-!
Items of a sorted list by their place. The item at a place is at most a bound exactly if
enough items are, so it does not depend on the order of the list and grows with the items.
-/

namespace OrderStatistic

variable {α : Type} [LinearOrder α]

theorem pairwise_mergeSort (l : List α) : (l.mergeSort (· ≤ ·)).Pairwise (· ≤ ·) := by
  have htrans : ∀ a b c : α, decide (a ≤ b) = true → decide (b ≤ c) = true → decide (a ≤ c) = true := by
    intro a b c hab hbc
    exact decide_eq_true ((of_decide_eq_true hab).trans (of_decide_eq_true hbc))
  have htotal : ∀ a b : α, (decide (a ≤ b) || decide (b ≤ a)) = true := by
    intro a b
    rcases le_total a b with h | h
    · rw [decide_eq_true h, Bool.true_or]
    · rw [decide_eq_true h, Bool.or_true]
  exact (List.pairwise_mergeSort htrans htotal l).imp of_decide_eq_true

/-- Sorting forgets the order. -/
theorem mergeSort_congr {l l' : List α} (h : l.Perm l') :
    l.mergeSort (· ≤ ·) = l'.mergeSort (· ≤ ·) := by
  have hperm := (List.mergeSort_perm l (· ≤ ·)).trans (h.trans (List.mergeSort_perm l' (· ≤ ·)).symm)
  apply hperm.eq_of_pairwise _ (pairwise_mergeSort l) (pairwise_mergeSort l')
  intro a b _ _ hab hba
  exact le_antisymm hab hba

/-- The item at a place of a sorted list is at most a bound if more items than its place are. -/
theorem getD_le_iff {s : List α} (hs : s.Pairwise (· ≤ ·)) {k : ℕ} (hk : k < s.length) (d x : α) :
    s.getD k d ≤ x ↔ k < s.countP (· ≤ x) := by
  induction s generalizing k with
  | nil => cases hk
  | cons a s ih =>
      obtain ⟨hhead, htail⟩ := List.pairwise_cons.mp hs
      rw [List.countP_cons]
      by_cases ha : a ≤ x
      · rw [if_pos (decide_eq_true ha)]
        cases k with
        | zero => exact iff_of_true ha (Nat.succ_pos _)
        | succ k =>
            rw [List.getD_cons_succ, ih htail (Nat.lt_of_succ_lt_succ hk), Nat.add_lt_add_iff_right]
      · have hnone : s.countP (· ≤ x) = 0 := by
          rw [List.countP_eq_zero]
          intro b hb hbx
          exact ha ((hhead b hb).trans (of_decide_eq_true hbx))
        rw [if_neg (by rw [decide_eq_true_iff]; exact ha), hnone]
        refine iff_of_false ?_ (Nat.not_lt_zero k)
        cases k with
        | zero => exact ha
        | succ k =>
            rw [List.getD_cons_succ, ih htail (Nat.lt_of_succ_lt_succ hk), hnone]
            exact Nat.not_lt_zero k

theorem countP_le_of_forall₂ {l l' : List α} (h : List.Forall₂ (· ≤ ·) l l') (x : α) :
    l'.countP (· ≤ x) ≤ l.countP (· ≤ x) := by
  induction h with
  | nil => exact le_rfl
  | @cons a b l l' hab _ ih =>
      rw [List.countP_cons, List.countP_cons]
      by_cases hb : b ≤ x
      · rw [if_pos (decide_eq_true hb), if_pos (decide_eq_true (hab.trans hb))]
        exact Nat.add_le_add_right ih 1
      · rw [if_neg (by rw [decide_eq_true_iff]; exact hb)]
        exact ih.trans (Nat.le_add_right _ _)

/-- The items at a place grow with the items of the lists. -/
theorem mergeSort_getD_le {l l' : List α} (h : List.Forall₂ (· ≤ ·) l l') {k : ℕ} (hk : k < l.length)
    (d : α) : (l.mergeSort (· ≤ ·)).getD k d ≤ (l'.mergeSort (· ≤ ·)).getD k d := by
  have hlength := h.length_eq
  have hk' : k < (l'.mergeSort (· ≤ ·)).length := by
    rw [List.length_mergeSort]
    omega
  rw [getD_le_iff (pairwise_mergeSort l) (by rwa [List.length_mergeSort])]
  have hcount := (getD_le_iff (pairwise_mergeSort l') hk' d _).mp le_rfl
  rw [(List.mergeSort_perm l' _).countP_eq] at hcount
  rw [(List.mergeSort_perm l _).countP_eq]
  exact hcount.trans_le (countP_le_of_forall₂ h _)

end OrderStatistic
