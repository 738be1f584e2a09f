import Mathlib.Data.List.Chain
import Mathlib.Data.List.Range
import Mathlib.Data.List.Sort
import Mathlib.Tactic.Common

/-!
Sets of numbers as lists of inclusive ranges. A strictly increasing list is grouped
into its maximal runs and a list of ranges is expanded; the two are inverse to each
other where the ranges are in order with a gap between them, and these lists of
ranges are equal when they have the same numbers.
-/

namespace Runs

/-- The numbers of a range from its first to its last. -/
def expandRange (r : ℕ × ℕ) : List ℕ := List.range' r.1 (r.2 + 1 - r.1)

def expand (rs : List (ℕ × ℕ)) : List ℕ := rs.flatMap expandRange

/-- The runs of a list, the first of which has begun. -/
def groupFrom (start previous : ℕ) : List ℕ → List (ℕ × ℕ)
  | [] => [(start, previous)]
  | value :: values =>
      if value = previous + 1 then groupFrom start value values
      else (start, previous) :: groupFrom value value values

def group : List ℕ → List (ℕ × ℕ)
  | [] => []
  | value :: values => groupFrom value value values

/-- Ranges in order; between two of them at least `gap` numbers are left out. -/
structure Spaced (gap : ℕ) (rs : List (ℕ × ℕ)) : Prop where
  nonempty : ∀ r ∈ rs, r.1 ≤ r.2
  chain : rs.IsChain fun r s => r.2 + gap < s.1

@[simp] theorem mem_expandRange {r : ℕ × ℕ} {n : ℕ} : n ∈ expandRange r ↔ r.1 ≤ n ∧ n ≤ r.2 := by
  simp only [expandRange, List.mem_range'_1]
  omega

@[simp] theorem mem_expand {rs : List (ℕ × ℕ)} {n : ℕ} :
    n ∈ expand rs ↔ ∃ r ∈ rs, r.1 ≤ n ∧ n ≤ r.2 := by
  simp [expand]

@[simp] theorem expand_nil : expand [] = [] := rfl

@[simp] theorem expand_cons (r : ℕ × ℕ) (rs : List (ℕ × ℕ)) :
    expand (r :: rs) = expandRange r ++ expand rs := by
  simp [expand]

@[simp] theorem expandRange_length (r : ℕ × ℕ) : (expandRange r).length = r.2 + 1 - r.1 := by
  simp [expandRange]

namespace Spaced

variable {gap : ℕ} {r : ℕ × ℕ} {rs : List (ℕ × ℕ)}

theorem nil : Spaced gap [] := ⟨by simp, .nil⟩

theorem tail (h : Spaced gap (r :: rs)) : Spaced gap rs :=
  ⟨fun s hs => h.nonempty s (List.mem_cons_of_mem r hs), h.chain.tail⟩

/-- A range lies before all that follow it. -/
theorem before (h : Spaced gap (r :: rs)) : ∀ s ∈ rs, r.2 + gap < s.1 := by
  induction rs generalizing r with
  | nil => simp
  | cons s rs ih =>
      have hrs : r.2 + gap < s.1 := (List.isChain_cons_cons.mp h.chain).1
      have hs : s.1 ≤ s.2 := h.nonempty s (by simp)
      intro t ht
      rcases List.mem_cons.mp ht with rfl | ht
      · exact hrs
      · have hst := ih h.tail t ht
        omega

theorem cons (hr : r.1 ≤ r.2) (hhead : ∀ s ∈ rs.head?, r.2 + gap < s.1) (h : Spaced gap rs) :
    Spaced gap (r :: rs) := by
  refine ⟨?_, ?_⟩
  · intro s hs
    rcases List.mem_cons.mp hs with rfl | hs
    · exact hr
    · exact h.nonempty s hs
  · cases rs with
    | nil => exact .singleton r
    | cons s rs => exact List.isChain_cons_cons.mpr ⟨hhead s rfl, h.chain⟩

theorem mono {gap' : ℕ} (h : Spaced gap rs) (hle : gap' ≤ gap) : Spaced gap' rs :=
  ⟨h.nonempty, h.chain.imp fun r s hrs => by omega⟩

end Spaced

/-- Ranges in order have their numbers in order. -/
theorem expand_sorted {gap : ℕ} {rs : List (ℕ × ℕ)} (h : Spaced gap rs) :
    (expand rs).Pairwise (· < ·) := by
  induction rs with
  | nil => exact .nil
  | cons r rs ih =>
      rw [expand_cons, List.pairwise_append]
      refine ⟨List.pairwise_lt_range', ih h.tail, ?_⟩
      intro n hn m hm
      obtain ⟨s, hs, hsm, -⟩ := mem_expand.mp hm
      have hbefore := h.before s hs
      have hnr := (mem_expandRange.mp hn).2
      omega

/-! ### Grouping -/

theorem expand_groupFrom {start previous : ℕ} (h : start ≤ previous) (values : List ℕ) :
    expand (groupFrom start previous values) = expandRange (start, previous) ++ values := by
  induction values generalizing start previous with
  | nil => simp [groupFrom]
  | cons value values ih =>
      rw [groupFrom]
      split
      · rename_i hvalue
        subst hvalue
        have hlength : previous + 1 + 1 - start = (previous + 1 - start) + 1 := by omega
        have hlast : start + (previous + 1 - start) = previous + 1 := by omega
        rw [ih (by omega), expandRange, expandRange, hlength, List.range'_1_concat, hlast]
        simp
      · rw [expand_cons, ih le_rfl]
        simp [expandRange]

/-- A list that is grouped is expanded again. -/
theorem expand_group (values : List ℕ) : expand (group values) = values := by
  cases values with
  | nil => rfl
  | cons value values =>
      rw [group, expand_groupFrom le_rfl]
      simp [expandRange]

/-- The first run keeps its start. -/
theorem head_groupFrom (start previous : ℕ) (values : List ℕ) :
    ∃ last rest, groupFrom start previous values = (start, last) :: rest := by
  induction values generalizing previous with
  | nil => exact ⟨previous, [], rfl⟩
  | cons value values ih =>
      rw [groupFrom]
      split
      · exact ih value
      · exact ⟨previous, _, rfl⟩

theorem spaced_groupFrom {start previous : ℕ} {values : List ℕ} (h : start ≤ previous)
    (hvalues : (previous :: values).Pairwise (· < ·)) : Spaced 1 (groupFrom start previous values) := by
  induction values generalizing start previous with
  | nil => exact Spaced.nil.cons h (by simp)
  | cons value values ih =>
      have hlt : previous < value := (List.pairwise_cons.mp hvalues).1 value (by simp)
      have hrest : (value :: values).Pairwise (· < ·) := (List.pairwise_cons.mp hvalues).2
      rw [groupFrom]
      split
      · exact ih (by omega) hrest
      · obtain ⟨last, rest, hhead⟩ := head_groupFrom value value values
        refine (ih le_rfl hrest).cons h ?_
        rw [hhead]
        rintro s hs
        cases hs
        show previous + 1 < value
        omega

/-- The runs of a strictly increasing list are maximal: a number is missing between them. -/
theorem spaced_group {values : List ℕ} (h : values.Pairwise (· < ·)) : Spaced 1 (group values) := by
  cases values with
  | nil => exact .nil
  | cons value values => exact spaced_groupFrom le_rfl h

theorem groupFrom_range' (start previous count : ℕ) (values : List ℕ) :
    groupFrom start previous (List.range' (previous + 1) count ++ values) =
      groupFrom start (previous + count) values := by
  induction count generalizing previous with
  | zero => rfl
  | succ count ih =>
      rw [List.range'_succ, List.cons_append, groupFrom, if_pos rfl, ih]
      congr 1
      omega

/-- Ranges with a gap between them are the maximal runs of their numbers. -/
theorem group_expand {rs : List (ℕ × ℕ)} (h : Spaced 1 rs) : group (expand rs) = rs := by
  have hfrom : ∀ r rest, Spaced 1 (r :: rest) → group (expand (r :: rest)) = r :: group (expand rest) := by
    intro r rest hspaced
    have hr : r.1 ≤ r.2 := hspaced.nonempty r (by simp)
    have hrange : expandRange r = r.1 :: List.range' (r.1 + 1) (r.2 - r.1) := by
      have hlength : r.2 + 1 - r.1 = (r.2 - r.1) + 1 := by omega
      rw [expandRange, hlength, List.range'_succ]
    have hlast : r.1 + (r.2 - r.1) = r.2 := by omega
    rw [expand_cons, hrange, List.cons_append, group, groupFrom_range', hlast]
    cases hvalues : expand rest with
    | nil => rfl
    | cons value values =>
        have hmem : value ∈ expand rest := by rw [hvalues]; exact List.mem_cons_self
        obtain ⟨s, hs, hsv, -⟩ := mem_expand.mp hmem
        have hbefore := hspaced.before s hs
        rw [groupFrom, if_neg (by omega)]
        rfl
  induction rs with
  | nil => rfl
  | cons r rs ih => rw [hfrom r rs h, ih h.tail]

/-- Such lists of ranges are determined by their numbers. -/
theorem eq_of_mem_iff {rs rs' : List (ℕ × ℕ)} (h : Spaced 1 rs) (h' : Spaced 1 rs')
    (hsame : ∀ n, n ∈ expand rs ↔ n ∈ expand rs') : rs = rs' := by
  have hsorted := expand_sorted h
  have hsorted' := expand_sorted h'
  have hperm : (expand rs).Perm (expand rs') :=
    (List.perm_ext_iff_of_nodup (hsorted.imp fun hlt => hlt.ne) (hsorted'.imp fun hlt => hlt.ne)).mpr
      hsame
  have hexpand : expand rs = expand rs' :=
    hperm.eq_of_pairwise (fun a b _ _ hab hba => absurd hab (lt_asymm hba)) hsorted hsorted'
  rw [← group_expand h, ← group_expand h', hexpand]

end Runs
