import MosaicArchive.Bytes.Parser
import MosaicArchive.Modes.Varint
import Mathlib.Data.Int.Bitwise

/-!
The integers of the compact metadata (`mosaic_archive/solid_archive_v2.py`): varints of at
most 64 bits, and signed ones folded onto them. The decoders accept the shortest encoding
only, so each accepts exactly what its encoder writes.
-/

namespace MosaicArchive.Solid

open FixedWidth ByteParser
open Manifest (PyError)
open Modes (encodeVarint encodeVarint_of_lt encodeVarint_of_ge or_shiftLeft)

/-- `_MAX_COMPACT_UINT` -/
def maxCompactUint : ℕ := 2 ^ 64 - 1

/-- `_encode_compact_uint`; its loop is that of the varints of the LZ_RANS mode. -/
def encodeCompactUint (value : ℕ) : Except PyError Bytes := do
  Except.raiseIf (maxCompactUint < value) (.value "compact metadata integer is outside uint64")
  .ok (encodeVarint value)

/-- The loop of `_decode_compact_uint`, over the bytes not read yet. -/
def decodeCompactUintLoop (maximum : ℕ) (invalid : PyError) :
    Bytes → (shift value : ℕ) → Except PyError (ℕ × Bytes)
  | [], _, _ => .error invalid
  | byte :: rest, shift, value =>
      if 63 < shift then .error invalid
      else
        let component := byte.toNat % 0x80
        if shift = 63 ∧ 1 < component then .error invalid
        else
          let value := value ||| component <<< shift
          if byte < 0x80 then
            -- a last byte of zero would not be the shortest encoding
            if (0 < shift ∧ component = 0) ∨ maximum < value then .error invalid
            else .ok (value, rest)
          else decodeCompactUintLoop maximum invalid rest (shift + 7) value

def decodeCompactUint (maximum : ℕ) (description : String) : ByteParser PyError ℕ := fun input =>
  decodeCompactUintLoop maximum (.archiveFormat ("MSR2 compact " ++ description ++ " is invalid"))
    input 0 0

/-- `(value << 1) ^ (value >> 63)` -/
def zigzag (value : ℤ) : ℤ := Int.xor (value * 2) (value / 2 ^ 63)

/-- `(encoded >> 1) ^ -(encoded & 1)` -/
def unzigzag (encoded : ℕ) : ℤ := Int.xor (encoded / 2 : ℕ) (-(encoded % 2 : ℕ))

def encodeCompactSint (value : ℤ) : Except PyError Bytes := do
  Except.raiseIf (¬ (-2 ^ 63 ≤ value ∧ value < 2 ^ 63))
    (.value "compact metadata integer is outside int64")
  encodeCompactUint (zigzag value).toNat

def decodeCompactSint (description : String) : ByteParser PyError ℤ := do
  let encoded ← decodeCompactUint maxCompactUint description
  pure (unzigzag encoded)

/-! ### Unsigned integers -/

theorem encodeCompactUint_eq_ok {value : ℕ} {b : Bytes} :
    encodeCompactUint value = .ok b ↔ value < 2 ^ 64 ∧ b = encodeVarint value := by
  have hlimit : ¬ maxCompactUint < value ↔ value < 2 ^ 64 := by
    rw [maxCompactUint]
    omega
  simp only [encodeCompactUint, Except.bind_eq_ok_iff, Except.raiseIf_eq_ok, hlimit, exists_and_left,
    exists_const, Except.ok.injEq]
  exact and_congr_right fun _ => eq_comm

theorem toNat_ofNat_of_lt {n : ℕ} (h : n < 0x100) : (UInt8.ofNat n).toNat = n := by
  rw [UInt8.toNat_ofNat', Nat.mod_eq_of_lt (by omega)]

/-- The first byte tells whether the number ends with it. -/
theorem cons_eq_encodeVarint {byte : UInt8} {rest tail : Bytes} {m : ℕ} :
    byte :: rest = encodeVarint m ++ tail ↔
      (byte < 0x80 ∧ m = byte.toNat ∧ rest = tail) ∨
        (¬ byte < 0x80 ∧ 0 < m / 0x80 ∧ m % 0x80 = byte.toNat % 0x80 ∧
          rest = encodeVarint (m / 0x80) ++ tail) := by
  have hbyte := byte.toNat_lt
  have hback : UInt8.ofNat byte.toNat = byte := UInt8.ofNat_toNat
  rw [UInt8.lt_iff_toNat_lt]
  show _ ↔ (byte.toNat < 128 ∧ _) ∨ (¬ byte.toNat < 128 ∧ _)
  by_cases hsmall : m < 0x80
  · rw [encodeVarint_of_lt hsmall, List.singleton_append, List.cons.injEq]
    constructor
    · rintro ⟨rfl, rfl⟩
      rw [toNat_ofNat_of_lt (by omega)]
      exact Or.inl ⟨hsmall, rfl, rfl⟩
    · rintro (⟨-, rfl, rfl⟩ | ⟨-, hpos, -⟩)
      · exact ⟨hback.symm, rfl⟩
      · omega
  · rw [encodeVarint_of_ge (Nat.not_lt.mp hsmall), List.cons_append, List.cons.injEq]
    constructor
    · rintro ⟨rfl, rfl⟩
      rw [toNat_ofNat_of_lt (by omega)]
      exact Or.inr ⟨by omega, by omega, by omega, rfl⟩
    · rintro (⟨hlt, rfl, -⟩ | ⟨hge, -, hmod, rfl⟩)
      · omega
      · refine ⟨?_, rfl⟩
        rw [← hback]
        congr 1
        omega

/-- From a shift on, the loop accepts the encodings of what the bits above it are. -/
theorem decodeCompactUintLoop_eq_ok {maximum shift acc n : ℕ} {invalid : PyError}
    {input rest : Bytes} (hshift : shift ≤ 70 ∧ shift % 7 = 0) (hacc : acc < 2 ^ shift) :
    decodeCompactUintLoop maximum invalid input shift acc = .ok (n, rest) ↔
      ∃ m, n = acc + m * 2 ^ shift ∧ n ≤ maximum ∧ n < 2 ^ 64 ∧ (0 < shift → 0 < m) ∧
        input = encodeVarint m ++ rest := by
  induction input generalizing shift acc with
  | nil =>
      rw [decodeCompactUintLoop]
      constructor
      · intro h
        cases h
      · rintro ⟨m, -, -, -, -, hinput⟩
        have hempty := (List.append_eq_nil_iff.mp hinput.symm).1
        rw [Modes.encodeVarint] at hempty
        split at hempty
        · cases hempty
        · cases hempty
  | cons byte input ih =>
      have hbyte := byte.toNat_lt
      have hsmall : byte < 0x80 ↔ byte.toNat < 0x80 := UInt8.lt_iff_toNat_lt
      rw [decodeCompactUintLoop]
      split
      · rename_i hover
        have hpow : 2 ^ 70 ≤ 2 ^ shift := Nat.pow_le_pow_right (by norm_num) (by omega)
        constructor
        · intro h
          cases h
        · rintro ⟨m, rfl, -, hlt, hpos, -⟩
          have hle : 1 * 2 ^ shift ≤ m * 2 ^ shift := Nat.mul_le_mul_right _ (hpos (by omega))
          omega
      · rename_i hroom
        have hnext : 2 ^ (shift + 7) = 2 ^ shift * 128 := pow_add 2 shift 7
        have hbound : shift ≠ 63 → 2 ^ shift ≤ 2 ^ 56 := fun hne =>
          Nat.pow_le_pow_right (by norm_num) (by omega)
        have hcomponent : byte.toNat % 0x80 * 2 ^ shift ≤ 127 * 2 ^ shift :=
          Nat.mul_le_mul_right _ (by omega)
        dsimp only
        rw [or_shiftLeft hacc]
        simp only [cons_eq_encodeVarint]
        by_cases hlast : byte < 0x80
        · have hwhole : byte.toNat % 0x80 = byte.toNat := Nat.mod_eq_of_lt (hsmall.mp hlast)
          rw [hwhole] at hcomponent ⊢
          rw [if_pos hlast]
          constructor
          · intro h
            split_ifs at h with hover hbad
            obtain ⟨rfl, rfl⟩ := Prod.mk.inj (Except.ok.inj h)
            refine ⟨byte.toNat, rfl, by omega, ?_, by omega, Or.inl ⟨hlast, rfl, rfl⟩⟩
            by_cases hend : shift = 63
            · subst hend
              omega
            · have hle := hbound hend
              omega
          · rintro ⟨m, rfl, hmax, hlt, hpos, (⟨-, rfl, rfl⟩ | ⟨hmore, -⟩)⟩
            · rw [if_neg, if_neg]
              · omega
              · rintro ⟨rfl, hover⟩
                omega
            · exact absurd hlast hmore
        · rw [if_neg hlast]
          have hrest := @ih (shift + 7) (acc + byte.toNat % 0x80 * 2 ^ shift) (by omega) (by omega)
          constructor
          · intro h
            split_ifs at h with hover
            obtain ⟨m, rfl, hmax, hlt, hpos, rfl⟩ := hrest.mp h
            have hm := hpos (by omega)
            have hdiv : (m * 0x80 + byte.toNat % 0x80) / 0x80 = m := by omega
            refine ⟨m * 0x80 + byte.toNat % 0x80, ?_, hmax, hlt, by omega,
              Or.inr ⟨hlast, by omega, by omega, by rw [hdiv]⟩⟩
            rw [hnext]
            ring
          · rintro ⟨m, rfl, hmax, hlt, hpos, (⟨hlt', -⟩ | ⟨-, hdiv, hmod, rfl⟩)⟩
            · exact absurd hlt' hlast
            · have hsplit : acc + m * 2 ^ shift =
                  acc + byte.toNat % 0x80 * 2 ^ shift + m / 0x80 * 2 ^ (shift + 7) := by
                rw [← hmod, hnext]
                calc acc + m * 2 ^ shift
                    = acc + (0x80 * (m / 0x80) + m % 0x80) * 2 ^ shift := by rw [Nat.div_add_mod]
                  _ = acc + m % 0x80 * 2 ^ shift + m / 0x80 * (2 ^ shift * 128) := by ring
              rw [if_neg]
              · exact hrest.mpr ⟨m / 0x80, hsplit, hmax, hlt, fun _ => hdiv, rfl⟩
              · rintro ⟨rfl, -⟩
                omega

/-- The decoder accepts the encodings of the numbers up to its maximum. -/
theorem accepts_decodeCompactUint {maximum value : ℕ} {description : String} {input rest : Bytes} :
    (decodeCompactUint maximum description).Accepts input value rest ↔
      value ≤ maximum ∧ ∃ b, encodeCompactUint value = .ok b ∧ input = b ++ rest := by
  unfold Accepts decodeCompactUint
  rw [decodeCompactUintLoop_eq_ok (by omega) (by norm_num)]
  simp only [encodeCompactUint_eq_ok]
  constructor
  · rintro ⟨m, rfl, hmax, hlt, -, rfl⟩
    rw [pow_zero, Nat.mul_one, Nat.zero_add] at *
    exact ⟨hmax, _, ⟨hlt, rfl⟩, rfl⟩
  · rintro ⟨hmax, _, ⟨hlt, rfl⟩, rfl⟩
    exact ⟨value, by omega, hmax, hlt, fun h => absurd h (lt_irrefl 0), rfl⟩

/-! ### Signed integers -/

theorem zigzag_of_nonneg {value : ℤ} (hlow : 0 ≤ value) (hhigh : value < 2 ^ 63) :
    zigzag value = 2 * value := by
  obtain ⟨n, rfl⟩ := Int.eq_ofNat_of_zero_le hlow
  have hsign : (n : ℤ) / 2 ^ 63 = (0 : ℕ) := by omega
  have hdouble : (n : ℤ) * 2 = (n * 2 : ℕ) := by omega
  rw [zigzag, hsign, hdouble]
  show ((n * 2 ^^^ 0 : ℕ) : ℤ) = _
  rw [Nat.xor_zero]
  omega

theorem zigzag_of_neg {value : ℤ} (hlow : -2 ^ 63 ≤ value) (hhigh : value < 0) :
    zigzag value = -2 * value - 1 := by
  obtain ⟨n, hn⟩ := Int.eq_ofNat_of_zero_le (show 0 ≤ -2 * value - 1 by omega)
  have hsign : value / 2 ^ 63 = Int.negSucc 0 := by omega
  have hdouble : value * 2 = Int.negSucc n := by omega
  rw [zigzag, hsign, hdouble, hn]
  show ((n ^^^ 0 : ℕ) : ℤ) = _
  rw [Nat.xor_zero]

theorem unzigzag_eq (encoded : ℕ) :
    unzigzag encoded =
      if encoded % 2 = 0 then ((encoded / 2 : ℕ) : ℤ) else -((encoded / 2 : ℕ) : ℤ) - 1 := by
  rw [unzigzag]
  rcases Nat.mod_two_eq_zero_or_one encoded with heven | hodd
  · rw [heven, if_pos rfl]
    show ((encoded / 2 ^^^ 0 : ℕ) : ℤ) = _
    rw [Nat.xor_zero]
  · rw [hodd, if_neg (by norm_num)]
    show Int.negSucc (encoded / 2 ^^^ 0) = _
    rw [Nat.xor_zero]
    omega

theorem unzigzag_zigzag {value : ℤ} (h : -2 ^ 63 ≤ value ∧ value < 2 ^ 63) :
    (zigzag value).toNat < 2 ^ 64 ∧ unzigzag (zigzag value).toNat = value := by
  rw [unzigzag_eq]
  rcases lt_or_ge value 0 with hneg | hpos
  · rw [zigzag_of_neg h.1 hneg]
    split <;> omega
  · rw [zigzag_of_nonneg hpos h.2]
    split <;> omega

theorem zigzag_unzigzag {encoded : ℕ} (h : encoded < 2 ^ 64) :
    (-2 ^ 63 ≤ unzigzag encoded ∧ unzigzag encoded < 2 ^ 63) ∧
      (zigzag (unzigzag encoded)).toNat = encoded := by
  rw [unzigzag_eq]
  split
  · rw [zigzag_of_nonneg (by omega) (by omega)]
    omega
  · rw [zigzag_of_neg (by omega) (by omega)]
    omega

/-- The decoder accepts the encodings of the signed numbers. -/
theorem accepts_decodeCompactSint {value : ℤ} {description : String} {input rest : Bytes} :
    (decodeCompactSint description).Accepts input value rest ↔
      ∃ b, encodeCompactSint value = .ok b ∧ input = b ++ rest := by
  simp only [decodeCompactSint, accepts_bind, accepts_pure, accepts_decodeCompactUint, encodeCompactSint,
    Except.bind_eq_ok_iff, Except.raiseIf_eq_ok, not_not, encodeCompactUint_eq_ok, maxCompactUint]
  constructor
  · rintro ⟨encoded, _, ⟨-, _, ⟨hlt, rfl⟩, rfl⟩, rfl, rfl⟩
    obtain ⟨hrange, hback⟩ := zigzag_unzigzag hlt
    exact ⟨_, ⟨(), hrange, by rwa [hback], by rw [hback]⟩, rfl⟩
  · rintro ⟨_, ⟨⟨⟩, hrange, hlt, rfl⟩, rfl⟩
    obtain ⟨-, hback⟩ := unzigzag_zigzag hrange
    exact ⟨_, _, ⟨by omega, _, ⟨hlt, rfl⟩, rfl⟩, hback.symm, rfl⟩

end MosaicArchive.Solid
