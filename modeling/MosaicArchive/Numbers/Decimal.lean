import Mathlib.Data.List.Induction
import Mathlib.Data.Nat.Notation

/-!
Decimal numerals. A numeral is canonical when it has digits and no zero in front
of others; exactly these are written for a number, and each is the one written for
the number it denotes.
-/

namespace Decimal

/-- A numeral as numbers are written. -/
structure Canonical (digits : List Char) : Prop where
  nonempty : digits ≠ []
  isDigit : ∀ c ∈ digits, c.isDigit = true
  leading : digits = ['0'] ∨ digits.head? ≠ some '0'

theorem digitChar_of_isDigit {c : Char} (h : c.isDigit = true) :
    c.toNat - '0'.toNat < 10 ∧ (c.toNat - '0'.toNat).digitChar = c := by
  rw [Char.isDigit_iff_toNat] at h
  have hzero : '0'.toNat = 48 := rfl
  have hnine : '9'.toNat = 57 := rfl
  rw [hzero, hnine] at h
  rw [hzero]
  refine ⟨by omega, ?_⟩
  apply Char.toNat_inj.mp
  have hvalue := @Nat.toNat_digitChar_of_lt_ten (c.toNat - 48) (by omega)
  omega

theorem head?_append_of_ne_nil {front : List Char} (h : front ≠ []) (back : List Char) :
    (front ++ back).head? = front.head? := by
  cases front with
  | nil => exact absurd rfl h
  | cons c front => rfl

theorem head_toDigits_ne_zero {n : ℕ} (hn : 0 < n) : (Nat.toDigits 10 n).head? ≠ some '0' := by
  induction n using Nat.strongRecOn with
  | ind n ih =>
      by_cases hsmall : n < 10
      · rw [Nat.toDigits_of_lt_base hsmall]
        simp only [List.head?_cons, ne_eq, Option.some.injEq, Nat.digitChar_eq_zero]
        omega
      · rw [Nat.toDigits_of_base_le (by omega) (by omega),
          head?_append_of_ne_nil Nat.toDigits_ne_nil]
        exact ih (n / 10) (by omega) (by omega)

theorem canonical_toDigits (n : ℕ) : Canonical (Nat.toDigits 10 n) := by
  refine ⟨Nat.toDigits_ne_nil, fun c hc => Nat.isDigit_of_mem_toDigits (by omega) (by omega) hc, ?_⟩
  rcases Nat.eq_zero_or_pos n with rfl | hn
  · exact Or.inl (Nat.toDigits_zero 10)
  · exact Or.inr (head_toDigits_ne_zero hn)

/-- A canonical numeral is the one written for its value. -/
theorem toDigits_ofDigitChars {digits : List Char} (h : Canonical digits) :
    Nat.toDigits 10 (Nat.ofDigitChars 10 digits 0) = digits := by
  induction digits using List.reverseRecOn with
  | nil => exact absurd rfl h.nonempty
  | append_singleton front c ih =>
      obtain ⟨hlt, hchar⟩ := digitChar_of_isDigit (h.isDigit c (by simp))
      rw [Nat.ofDigitChars_append, Nat.ofDigitChars_cons, Nat.ofDigitChars_nil]
      by_cases hfront : front = []
      · subst hfront
        rw [Nat.ofDigitChars_nil, Nat.mul_zero, Nat.zero_add, Nat.toDigits_of_lt_base hlt, hchar]
        rfl
      · have hhead : front.head? ≠ some '0' := by
          rcases h.leading with hzero | hhead
          · have hlength := congrArg List.length hzero
            have hpos := List.length_pos_iff.mpr hfront
            simp only [List.length_append, List.length_singleton] at hlength
            omega
          · rwa [head?_append_of_ne_nil hfront] at hhead
        have hvalue := ih ⟨hfront, fun d hd => h.isDigit d (by simp [hd]), Or.inr hhead⟩
        have hpos : 0 < Nat.ofDigitChars 10 front 0 := by
          rcases Nat.eq_zero_or_pos (Nat.ofDigitChars 10 front 0) with hzero | hpos
          · rw [hzero, Nat.toDigits_zero] at hvalue
            rw [← hvalue] at hhead
            exact absurd rfl hhead
          · exact hpos
        rw [← Nat.toDigits_append_toDigits (by omega) hpos hlt, hvalue,
          Nat.toDigits_of_lt_base hlt, hchar]

theorem canonical_iff {digits : List Char} :
    Canonical digits ↔ ∃ n, digits = Nat.toDigits 10 n := by
  constructor
  · intro h
    exact ⟨_, (toDigits_ofDigitChars h).symm⟩
  · rintro ⟨n, rfl⟩
    exact canonical_toDigits n

end Decimal
