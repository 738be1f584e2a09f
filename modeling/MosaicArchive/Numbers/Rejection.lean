import Mathlib.Data.Finset.Card
import Mathlib.Data.Finset.Range
import Mathlib.Tactic.Common
import Mathlib.Tactic.Linarith

/-!
Rejection sampling from a stream of words. Words below a limit are accepted and reduced to
their residues; with the largest multiple of the bound as the limit, each residue comes from
the same number of words.
-/

namespace Rejection

/-- The residues of accepted words, from an index of the stream on, until there are enough of
them; `none` where the stream ends before. -/
def draw (words : ℕ → ℕ) (limit bound count : ℕ) : ℕ → ℕ → List ℕ → Option (List ℕ)
  | 0, _, _ => none
  | length + 1, index, result =>
      if words index < limit then
        if (result ++ [words index % bound]).length = count then some (result ++ [words index % bound])
        else draw words limit bound count length (index + 1) (result ++ [words index % bound])
      else draw words limit bound count length (index + 1) result

/-- The accepted words of a stretch of the stream. -/
def accepted (words : ℕ → ℕ) (limit index length : ℕ) : List ℕ :=
  ((List.range' index length).map words).filter (· < limit)

variable {words : ℕ → ℕ} {limit bound count : ℕ}

theorem accepted_succ_pos {index length : ℕ} (h : words index < limit) :
    accepted words limit index (length + 1) = words index :: accepted words limit (index + 1) length := by
  rw [accepted, List.range'_succ, List.map_cons, List.filter_cons_of_pos (by simpa using h)]
  rfl

theorem accepted_succ_neg {index length : ℕ} (h : ¬ words index < limit) :
    accepted words limit index (length + 1) = accepted words limit (index + 1) length := by
  rw [accepted, List.range'_succ, List.map_cons, List.filter_cons_of_neg (by simpa using h)]
  rfl

theorem draw_eq (length index : ℕ) {result : List ℕ} (h : result.length < count) :
    draw words limit bound count length index result =
      if count ≤ result.length + (accepted words limit index length).length then
        some (result ++ ((accepted words limit index length).take (count - result.length)).map (· % bound))
      else none := by
  induction length generalizing index result with
  | zero =>
      have hnone : ¬ count ≤ result.length + (accepted words limit index 0).length := by
        show ¬ count ≤ result.length + 0
        omega
      rw [draw, if_neg hnone]
  | succ length ih =>
      rw [draw]
      by_cases haccept : words index < limit
      · have hlength : (result ++ [words index % bound]).length = result.length + 1 := by
          rw [List.length_append, List.length_singleton]
        rw [if_pos haccept, hlength, accepted_succ_pos haccept, List.length_cons]
        by_cases hdone : result.length + 1 = count
        · have henough : count ≤ result.length + ((accepted words limit (index + 1) length).length + 1) := by
            omega
          have hone : count - result.length = 1 := by omega
          rw [if_pos hdone, if_pos henough, hone, List.take_succ_cons, List.take_zero]
          rfl
        · obtain ⟨missing, hmissing⟩ : ∃ missing, count - result.length = missing + 1 :=
            Nat.exists_eq_succ_of_ne_zero (by omega)
          have hrest : count - (result.length + 1) = missing := by omega
          rw [if_neg hdone, ih (index + 1) (by omega), hlength, hmissing, hrest, List.take_succ_cons,
            List.map_cons, List.append_assoc, List.singleton_append, Nat.add_right_comm, Nat.add_assoc]
      · rw [if_neg haccept, ih (index + 1) h, accepted_succ_neg haccept]

/-- Drawing gives the residues of the first accepted words, or fails where there are too few. -/
theorem draw_start {length : ℕ} (h : 0 < count) : draw words limit bound count length 0 [] =
    if count ≤ (accepted words limit 0 length).length then
      some (((accepted words limit 0 length).take count).map (· % bound))
    else none := by
  have hdraw := @draw_eq words limit bound count length 0 [] h
  rwa [List.length_nil, Nat.zero_add, Nat.sub_zero, List.nil_append] at hdraw

/-- Each residue comes from the same number of words below the largest multiple of the bound. -/
theorem card_residue (range : ℕ) {residue : ℕ} (h : residue < bound) :
    ((Finset.range (range - range % bound)).filter fun word => word % bound = residue).card =
      range / bound := by
  have hlimit : range - range % bound = bound * (range / bound) := by
    have hdiv := Nat.div_add_mod range bound
    omega
  have himage : (Finset.range (range - range % bound)).filter (fun word => word % bound = residue) =
      (Finset.range (range / bound)).image fun k => residue + bound * k := by
    ext word
    rw [Finset.mem_filter, Finset.mem_image, Finset.mem_range, hlimit]
    constructor
    · rintro ⟨hlt, rfl⟩
      refine ⟨word / bound, ?_, Nat.mod_add_div word bound⟩
      rw [Finset.mem_range]
      exact Nat.div_lt_of_lt_mul hlt
    · rintro ⟨k, hk, rfl⟩
      rw [Finset.mem_range] at hk
      refine ⟨?_, ?_⟩
      · have hstep : bound * k + bound ≤ bound * (range / bound) := by
          rw [← Nat.mul_succ]
          exact Nat.mul_le_mul_left bound hk
        omega
      · rw [Nat.add_mul_mod_self_left, Nat.mod_eq_of_lt h]
  rw [himage, Finset.card_image_of_injective, Finset.card_range]
  intro a b hab
  exact Nat.eq_of_mul_eq_mul_left (Nat.zero_lt_of_lt h) (Nat.add_left_cancel hab)

end Rejection
