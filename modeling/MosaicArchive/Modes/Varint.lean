import MosaicArchive.Modes.Decoding

/-!
The varints of the LZ_RANS mode (`mosaic_archive/modes/lz_rans.py`): seven bits a
byte, the lowest first, and at most five bytes.
-/

namespace MosaicArchive.Modes

open FixedWidth
open Manifest (PyError)

/-- `_encode_varint` -/
def encodeVarint (value : ℕ) : Bytes :=
  if 0x80 ≤ value then UInt8.ofNat (value % 0x80 + 0x80) :: encodeVarint (value / 0x80)
  else [UInt8.ofNat value]

/-- The inner loop of `_decode_varints`, over the bytes not read yet. -/
def decodeVarint : Bytes → (shift value : ℕ) → Except PyError (ℕ × Bytes)
  | [], _, _ => .error (.archiveFormat "LZ_RANS varint stream is malformed")
  | byte :: rest, shift, value =>
      if 28 < shift then .error (.archiveFormat "LZ_RANS varint stream is malformed")
      else
        let value := value ||| (byte.toNat % 0x80) <<< shift
        if byte < 0x80 then .ok (value, rest) else decodeVarint rest (shift + 7) value

/-- `_decode_varints` -/
def decodeVarints : ℕ → Bytes → Except PyError (List ℕ)
  | 0, data =>
      if data ≠ [] then .error (.archiveFormat "LZ_RANS varint stream has trailing values")
      else .ok []
  | count + 1, data => do
      let (value, rest) ← decodeVarint data 0 0
      let values ← decodeVarints count rest
      .ok (value :: values)

theorem encodeVarint_of_lt {value : ℕ} (h : value < 0x80) :
    encodeVarint value = [UInt8.ofNat value] := by
  rw [encodeVarint, if_neg (Nat.not_le.mpr h)]

theorem encodeVarint_of_ge {value : ℕ} (h : 0x80 ≤ value) :
    encodeVarint value = UInt8.ofNat (value % 0x80 + 0x80) :: encodeVarint (value / 0x80) := by
  rw [encodeVarint, if_pos h]

/-- A positive number takes no more bytes than it counts. -/
theorem encodeVarint_length_le {value : ℕ} (h : 1 ≤ value) : (encodeVarint value).length ≤ value := by
  induction value using Nat.strong_induction_on with
  | _ value ih =>
      by_cases hsmall : value < 0x80
      · rw [encodeVarint_of_lt hsmall]
        exact h
      · have hrest := ih (value / 0x80) (by omega) (by omega)
        rw [encodeVarint_of_ge (Nat.not_lt.mp hsmall), List.length_cons]
        omega

theorem encodeVarint_length_of_lt {k value : ℕ} (h : value < 0x80 ^ (k + 1)) :
    (encodeVarint value).length ≤ k + 1 := by
  induction k generalizing value with
  | zero =>
      rw [encodeVarint_of_lt (by simpa using h)]
      exact le_rfl
  | succ k ih =>
      by_cases hsmall : value < 0x80
      · rw [encodeVarint_of_lt hsmall]
        exact Nat.succ_le_succ (Nat.zero_le _)
      · rw [encodeVarint_of_ge (Nat.not_lt.mp hsmall), List.length_cons]
        apply Nat.succ_le_succ
        apply ih
        apply Nat.div_lt_of_lt_mul
        rw [pow_succ] at h
        omega

/-- The bits of a byte lie above those read before it. -/
theorem or_shiftLeft {value shift bits : ℕ} (h : value < 2 ^ shift) :
    value ||| bits <<< shift = value + bits * 2 ^ shift := by
  rw [Nat.or_comm, ← Nat.shiftLeft_add_eq_or_of_lt h, Nat.shiftLeft_eq, Nat.add_comm]

theorem decodeVarint_last {shift value n : ℕ} (hshift : shift ≤ 28) (hvalue : value < 2 ^ shift)
    (hn : n < 0x80) (rest : Bytes) :
    decodeVarint (UInt8.ofNat n :: rest) shift value = .ok (value + n * 2 ^ shift, rest) := by
  have hbyte : (UInt8.ofNat n).toNat = n := by
    rw [UInt8.toNat_ofNat', Nat.mod_eq_of_lt (by omega)]
  have hlast : UInt8.ofNat n < 0x80 := by
    rw [UInt8.lt_iff_toNat_lt, hbyte]
    exact hn
  rw [decodeVarint, if_neg (Nat.not_lt.mpr hshift)]
  simp only [if_pos hlast, hbyte, Nat.mod_eq_of_lt hn, or_shiftLeft hvalue]

theorem decodeVarint_more {shift value bits : ℕ} (hshift : shift ≤ 28) (hvalue : value < 2 ^ shift)
    (hbits : bits < 0x80) (rest : Bytes) :
    decodeVarint (UInt8.ofNat (bits + 0x80) :: rest) shift value =
      decodeVarint rest (shift + 7) (value + bits * 2 ^ shift) := by
  have hbyte : (UInt8.ofNat (bits + 0x80)).toNat = bits + 0x80 := by
    rw [UInt8.toNat_ofNat', Nat.mod_eq_of_lt (by omega)]
  have hmore : ¬ UInt8.ofNat (bits + 0x80) < 0x80 := by
    rw [UInt8.lt_iff_toNat_lt, hbyte]
    exact Nat.not_lt.mpr (Nat.le_add_left _ _)
  have hlow : (bits + 0x80) % 0x80 = bits := by omega
  rw [decodeVarint, if_neg (Nat.not_lt.mpr hshift)]
  simp only [if_neg hmore, hbyte, hlow, or_shiftLeft hvalue]

/-- With `k + 1` bytes still allowed, a number of as many bytes is read back. -/
theorem decodeVarint_encodeVarint {k shift value n : ℕ} (hshift : shift + 7 * k ≤ 28)
    (hvalue : value < 2 ^ shift) (hn : n < 0x80 ^ (k + 1)) (rest : Bytes) :
    decodeVarint (encodeVarint n ++ rest) shift value = .ok (value + n * 2 ^ shift, rest) := by
  have hroom : shift ≤ 28 := by omega
  induction k generalizing shift value n with
  | zero =>
      have hsmall : n < 0x80 := by simpa using hn
      rw [encodeVarint_of_lt hsmall, List.singleton_append, decodeVarint_last hroom hvalue hsmall]
  | succ k ih =>
      by_cases hsmall : n < 0x80
      · rw [encodeVarint_of_lt hsmall, List.singleton_append, decodeVarint_last hroom hvalue hsmall]
      · have hpow : 2 ^ (shift + 7) = 2 ^ shift * 0x80 := pow_add 2 shift 7
        have hmul : n % 0x80 * 2 ^ shift ≤ 0x7f * 2 ^ shift := Nat.mul_le_mul_right _ (by omega)
        have hrest : n / 0x80 < 0x80 ^ (k + 1) := by
          apply Nat.div_lt_of_lt_mul
          rw [pow_succ] at hn
          omega
        rw [encodeVarint_of_ge (Nat.not_lt.mp hsmall), List.cons_append,
          decodeVarint_more hroom hvalue (Nat.mod_lt _ (by norm_num)),
          ih (by omega) (by omega) hrest (by omega), hpow]
        congr 2
        calc value + n % 0x80 * 2 ^ shift + n / 0x80 * (2 ^ shift * 0x80)
            = value + (0x80 * (n / 0x80) + n % 0x80) * 2 ^ shift := by ring
          _ = value + n * 2 ^ shift := by rw [Nat.div_add_mod]

/-- Numbers of at most five bytes are read back from their stream. -/
theorem decodeVarints_flatMap {values : List ℕ} (h : ∀ value ∈ values, value < 0x80 ^ 5) :
    decodeVarints values.length (values.flatMap encodeVarint) = .ok values := by
  induction values with
  | nil => rfl
  | cons value values ih =>
      obtain ⟨hvalue, hvalues⟩ := List.forall_mem_cons.mp h
      have hfirst := @decodeVarint_encodeVarint 4 0 0 value (by norm_num) (by norm_num) hvalue
        (values.flatMap encodeVarint)
      rw [zero_add, pow_zero, mul_one] at hfirst
      simp only [List.length_cons, List.flatMap_cons, decodeVarints, hfirst, ih hvalues, bind,
        Except.bind]

/-! ### Any stream -/

theorem decodeVarint_error {data : Bytes} {shift value : ℕ} {e : PyError}
    (h : decodeVarint data shift value = .error e) : IsFormatError e := by
  induction data generalizing shift value with
  | nil => exact Except.error.inj h ▸ isFormatError _
  | cons byte rest ih =>
      simp only [decodeVarint] at h
      split_ifs at h
      · exact Except.error.inj h ▸ isFormatError _
      · exact ih h

theorem decodeVarints_outcome (count : ℕ) (data : Bytes) :
    Iteration.Outcome (fun values : List ℕ => values.length = count) IsFormatError
      (decodeVarints count data) := by
  induction count generalizing data with
  | zero =>
      simp only [decodeVarints]
      split_ifs
      · exact isFormatError _
      · rfl
  | succ count ih =>
      rcases hfirst : decodeVarint data 0 0 with e | ⟨value, rest⟩
      · simp only [decodeVarints, hfirst, bind, Except.bind]
        exact decodeVarint_error hfirst
      · have hrest := ih rest
        rcases hvalues : decodeVarints count rest with e | values
        · rw [hvalues] at hrest
          simp only [decodeVarints, hfirst, hvalues, bind, Except.bind]
          exact hrest
        · rw [hvalues] at hrest
          simp only [decodeVarints, hfirst, hvalues, bind, Except.bind]
          exact congrArg (· + 1) (show values.length = count from hrest)

end MosaicArchive.Modes
