import MosaicArchive.Solid.Metadata

/-!
The lanes of the unique chunks, packed four to a byte: they are the digits to the base four
of the number whose digits to the base 256 the bytes are. So each assignment is packed in
one way, and the bytes with zero padding whose digits are lanes are accepted.
-/

namespace MosaicArchive.Solid

open FixedWidth
open Manifest (PyError)

/-! ### Lanes and their bits -/

theorem four_pow_eq_two_pow (j : ℕ) : (4 : ℕ) ^ j = 2 ^ (j * 2) := by
  rw [Nat.mul_comm, pow_mul]
  norm_num

/-- Where the bits of a lane are still clear, setting them adds them. -/
theorem toNat_or_lane {acc lane : UInt8} {j : ℕ} (hj : j < 4) (hacc : acc.toNat < 4 ^ j)
    (hlane : lane.toNat < 3) :
    (acc ||| lane <<< UInt8.ofNat (j * 2)).toNat = acc.toNat + lane.toNat * 4 ^ j := by
  have hpow := four_pow_eq_two_pow j
  have hshift : (lane <<< UInt8.ofNat (j * 2)).toNat = lane.toNat <<< (j * 2) := by
    have hj' : (UInt8.ofNat (j * 2)).toNat % 8 = j * 2 := by
      rw [toNat_ofNat_of_lt (by omega), Nat.mod_eq_of_lt (by omega)]
    rw [UInt8.toNat_shiftLeft, hj', Nat.shiftLeft_eq, ← hpow]
    have hle : 4 ^ j ≤ 4 ^ 3 := Nat.pow_le_pow_right (by norm_num) (by omega)
    have hmul : lane.toNat * 4 ^ j ≤ 2 * 4 ^ j := Nat.mul_le_mul_right _ (by omega)
    apply Nat.mod_eq_of_lt
    omega
  rw [UInt8.toNat_or, hshift, Nat.or_comm, ← Nat.shiftLeft_add_eq_or_of_lt (by rwa [← hpow]),
    Nat.shiftLeft_eq, hpow, Nat.add_comm]

theorem toNat_laneAt_getD {packed : Bytes} {index : ℕ} :
    (laneAt packed index).toNat = (packed.getD (index / 4) 0).toNat / 4 ^ (index % 4) % 4 := by
  have hj : (UInt8.ofNat (index % 4 * 2)).toNat % 8 = index % 4 * 2 := by
    rw [toNat_ofNat_of_lt (by omega), Nat.mod_eq_of_lt (by omega)]
  rw [laneAt, UInt8.toNat_and, UInt8.toNat_shiftRight, hj, four_pow_eq_two_pow, Nat.shiftRight_eq_div_pow]
  exact Nat.and_two_pow_sub_one_eq_mod _ 2

/-! ### Packed lanes as a number -/

/-- The number whose digits the bytes are, the lowest first. -/
def bytesNat (b : Bytes) : ℕ := Nat.ofDigits 256 (b.map UInt8.toNat)

/-- The number whose digits to the base four the lanes are. -/
def lanesNat (lanes : Bytes) : ℕ := Nat.ofDigits 4 (lanes.map UInt8.toNat)

theorem bytesNat_cons (byte : UInt8) (b : Bytes) :
    bytesNat (byte :: b) = byte.toNat + 256 * bytesNat b := by
  rw [bytesNat, List.map_cons, Nat.ofDigits_cons]
  rfl

theorem lanesNat_cons (lane : UInt8) (lanes : Bytes) :
    lanesNat (lane :: lanes) = lane.toNat + 4 * lanesNat lanes := by
  rw [lanesNat, List.map_cons, Nat.ofDigits_cons]
  rfl

theorem bytesNat_replicate (n : ℕ) : bytesNat (List.replicate n 0) = 0 := by
  induction n with
  | zero => rfl
  | succ n ih => rw [List.replicate_succ, bytesNat_cons, ih]; rfl

theorem bytesNat_lt (b : Bytes) : bytesNat b < 256 ^ b.length := by
  induction b with
  | nil => exact Nat.one_pos
  | cons byte b ih =>
      have hbyte := byte.toNat_lt
      rw [bytesNat_cons, List.length_cons, pow_succ]
      omega

theorem bytesNat_inj {b b' : Bytes} (hlen : b.length = b'.length) (h : bytesNat b = bytesNat b') :
    b = b' := by
  induction b generalizing b' with
  | nil => exact (List.eq_nil_of_length_eq_zero hlen.symm).symm
  | cons byte b ih =>
      cases b' with
      | nil => cases hlen
      | cons byte' b' =>
          rw [bytesNat_cons, bytesNat_cons] at h
          have hbyte := byte.toNat_lt
          have hbyte' := byte'.toNat_lt
          have hfirst : byte = byte' := UInt8.toNat_inj.mp (by omega)
          rw [hfirst, ih (Nat.succ.inj hlen) (by omega)]

theorem toNat_getD (b : Bytes) (k : ℕ) : (b.getD k 0).toNat = bytesNat b / 256 ^ k % 256 := by
  induction b generalizing k with
  | nil =>
      rw [List.getD_nil]
      show 0 = 0 / 256 ^ k % 256
      rw [Nat.zero_div]
  | cons byte b ih =>
      have hbyte := byte.toNat_lt
      cases k with
      | zero =>
          rw [List.getD_cons_zero, bytesNat_cons, pow_zero, Nat.div_one]
          omega
      | succ k =>
          have hdiv : (byte.toNat + 256 * bytesNat b) / 256 = bytesNat b := by omega
          rw [List.getD_cons_succ, ih, bytesNat_cons, pow_succ', ← Nat.div_div_eq_div_mul, hdiv]

theorem bytesNat_modify {b : Bytes} {k d : ℕ} {f : UInt8 → UInt8} (hk : k < b.length)
    (hf : (f (b.getD k 0)).toNat = (b.getD k 0).toNat + d) :
    bytesNat (b.modify k f) = bytesNat b + d * 256 ^ k := by
  induction b generalizing k with
  | nil => exact absurd hk (Nat.not_lt_zero k)
  | cons byte b ih =>
      cases k with
      | zero =>
          rw [List.getD_cons_zero] at hf
          rw [List.modify_zero_cons, bytesNat_cons, bytesNat_cons, hf, pow_zero]
          omega
      | succ k =>
          rw [List.getD_cons_succ] at hf
          rw [List.modify_succ_cons, bytesNat_cons, bytesNat_cons,
            ih (Nat.lt_of_succ_lt_succ hk) hf, pow_succ]
          ring

theorem four_pow_eq (index : ℕ) : (4 : ℕ) ^ index = 256 ^ (index / 4) * 4 ^ (index % 4) := by
  conv_lhs => rw [← Nat.div_add_mod index 4, pow_add, pow_mul]
  norm_num

/-- A lane is a digit to the base four. -/
theorem toNat_laneAt (packed : Bytes) (index : ℕ) :
    (laneAt packed index).toNat = bytesNat packed / 4 ^ index % 4 := by
  have hdvd : 256 = 4 ^ (index % 4) * 4 ^ (4 - index % 4) := by
    rw [← pow_add, Nat.add_sub_cancel' (by omega)]
    norm_num
  have hfour : 4 ∣ 4 ^ (4 - index % 4) := dvd_pow_self 4 (by omega)
  rw [toNat_laneAt_getD, toNat_getD, four_pow_eq index, ← Nat.div_div_eq_div_mul]
  generalize bytesNat packed / 256 ^ (index / 4) = n
  rw [hdvd, Nat.mod_mul_right_div_self, Nat.mod_mod_of_dvd _ hfour]

/-- The loop adds the lanes as digits where it stands. -/
theorem packLanes_eq_ok {index : ℕ} {lanes packed out : Bytes} (hlow : bytesNat packed < 4 ^ index)
    (hroom : index + lanes.length ≤ 4 * packed.length) :
    packLanes index lanes packed = .ok out ↔ (∀ lane ∈ lanes, lane.toNat < laneCount) ∧
      out.length = packed.length ∧ bytesNat out = bytesNat packed + lanesNat lanes * 4 ^ index := by
  induction lanes generalizing index packed with
  | nil =>
      rw [packLanes, Except.ok.injEq]
      constructor
      · rintro rfl
        exact ⟨List.forall_mem_nil _, rfl, by rw [lanesNat, List.map_nil, Nat.ofDigits_nil]; omega⟩
      · rintro ⟨-, hlen, hsame⟩
        rw [lanesNat, List.map_nil, Nat.ofDigits_nil, Nat.zero_mul, Nat.add_zero] at hsame
        exact bytesNat_inj hlen.symm hsame.symm
  | cons lane lanes ih =>
      rw [List.length_cons] at hroom
      rw [packLanes, Except.bind_eq_ok_iff]
      simp only [Except.raiseIf_eq_ok, exists_const, Nat.not_le]
      rw [List.forall_mem_cons, and_assoc]
      apply and_congr_right
      intro hlane
      have hacc : (packed.getD (index / 4) 0).toNat < 4 ^ (index % 4) := by
        rw [toNat_getD]
        rw [four_pow_eq] at hlow
        exact (Nat.mod_le _ _).trans_lt (Nat.div_lt_of_lt_mul hlow)
      have hadd := bytesNat_modify (f := (· ||| lane <<< UInt8.ofNat (index % 4 * 2)))
        (show index / 4 < packed.length by omega)
        (toNat_or_lane (Nat.mod_lt _ (by norm_num)) hacc hlane)
      rw [Nat.mul_assoc, Nat.mul_comm (4 ^ (index % 4)), ← four_pow_eq] at hadd
      have hnext : (4 : ℕ) ^ (index + 1) = 4 * 4 ^ index := pow_succ' 4 index
      have hdigit : lane.toNat * 4 ^ index ≤ 2 * 4 ^ index :=
        Nat.mul_le_mul_right _ (Nat.le_of_lt_succ hlane)
      rw [ih (by rw [hadd]; omega) (by rw [List.length_modify]; omega), List.length_modify, hadd,
        lanesNat_cons, hnext]
      have hsum : bytesNat packed + lane.toNat * 4 ^ index + lanesNat lanes * (4 * 4 ^ index) =
          bytesNat packed + (lane.toNat + 4 * lanesNat lanes) * 4 ^ index := by ring
      rw [hsum]

theorem lanesNat_lt {lanes : Bytes} (h : ∀ lane ∈ lanes, lane.toNat < 4) :
    lanesNat lanes < 4 ^ lanes.length := by
  have hlt := @Nat.ofDigits_lt_base_pow_length 4 (lanes.map UInt8.toNat) (by norm_num)
    (by simpa using h)
  rwa [List.length_map] at hlt

/-- Packing lanes finds the bytes of the same number. -/
theorem packAssignments_eq_ok {lanes packed : Bytes} :
    packAssignments lanes = .ok packed ↔ (∀ lane ∈ lanes, lane.toNat < laneCount) ∧
      packed.length = (lanes.length + 3) / 4 ∧ bytesNat packed = lanesNat lanes := by
  have hzero := bytesNat_replicate ((lanes.length + 3) / 4)
  rw [packAssignments, packLanes_eq_ok, hzero, List.length_replicate, pow_zero, Nat.zero_add,
    Nat.mul_one]
  · rw [hzero]
    exact Nat.one_pos
  · rw [List.length_replicate]
    omega

theorem lanesNat_map_laneAt (n : ℕ) (packed : Bytes) :
    lanesNat ((List.range n).map (laneAt packed)) = bytesNat packed % 4 ^ n := by
  induction n with
  | zero => rw [pow_zero, Nat.mod_one]; rfl
  | succ n ih =>
      rw [lanesNat] at ih
      rw [lanesNat, List.range_succ, List.map_append, List.map_append, Nat.ofDigits_append, ih,
        List.map_singleton, List.map_singleton, Nat.ofDigits_singleton, toNat_laneAt, List.length_map,
        List.length_map, List.length_range, Nat.mod_pow_succ]

/-- The digits of a number that fits are its lanes. -/
theorem map_laneAt_eq_iff {n : ℕ} {packed lanes : Bytes} (hfits : bytesNat packed < 4 ^ n) :
    (List.range n).map (laneAt packed) = lanes ↔
      lanes.length = n ∧ (∀ lane ∈ lanes, lane.toNat < 4) ∧ bytesNat packed = lanesNat lanes := by
  have hlanes : lanesNat ((List.range n).map (laneAt packed)) = bytesNat packed := by
    rw [lanesNat_map_laneAt, Nat.mod_eq_of_lt hfits]
  have hdigits : ∀ lane ∈ (List.range n).map (laneAt packed), lane.toNat < 4 := by
    intro lane hlane
    obtain ⟨index, -, rfl⟩ := List.mem_map.mp hlane
    rw [toNat_laneAt]
    exact Nat.mod_lt _ (by norm_num)
  have hlength : ((List.range n).map (laneAt packed)).length = n := by
    rw [List.length_map, List.length_range]
  constructor
  · rintro rfl
    exact ⟨hlength, hdigits, hlanes.symm⟩
  · rintro ⟨hlen, hall, hsame⟩
    have hinj := @Nat.ofDigits_inj_of_len_eq 4 (by norm_num)
      (((List.range n).map (laneAt packed)).map UInt8.toNat) (lanes.map UInt8.toNat)
      (by rw [List.length_map, hlength, List.length_map, hlen]) (by simpa using hdigits)
      (by simpa using hall) (hlanes.trans hsame)
    exact (List.map_injective_iff.mpr fun _ _ h => UInt8.toNat_inj.mp h) hinj

/-- The padding is zero exactly if the number fits. -/
theorem padding_iff {n : ℕ} {packed : Bytes} (hlen : packed.length = (n + 3) / 4) :
    ¬ (n % 4 ≠ 0 ∧ packed ≠ [] ∧ packed.getLastD 0 >>> UInt8.ofNat (n % 4 * 2) ≠ 0) ↔
      bytesNat packed < 4 ^ n := by
  have hlt := bytesNat_lt packed
  have hsplit := four_pow_eq n
  by_cases hwhole : n % 4 = 0
  · have hdiv : (n + 3) / 4 = n / 4 := by omega
    rw [hwhole, pow_zero, Nat.mul_one] at hsplit
    rw [hlen, hdiv, ← hsplit] at hlt
    exact iff_of_true (fun h => h.1 hwhole) hlt
  · have hdiv : (n + 3) / 4 = n / 4 + 1 := by omega
    have hne : packed ≠ [] := by
      apply List.ne_nil_of_length_pos
      omega
    have hlast : packed.getLastD 0 = packed.getD (n / 4) 0 := by
      rw [List.getLastD_eq_getLast?, List.getLast?_eq_getElem?, List.getD_eq_getElem?_getD, hlen, hdiv,
        Nat.add_sub_cancel]
    have htop : bytesNat packed / 256 ^ (n / 4) < 256 := by
      rw [hlen, hdiv, pow_succ] at hlt
      exact Nat.div_lt_of_lt_mul hlt
    have hj : (UInt8.ofNat (n % 4 * 2)).toNat % 8 = n % 4 * 2 := by
      rw [toNat_ofNat_of_lt (by omega), Nat.mod_eq_of_lt (by omega)]
    have hshift : (packed.getLastD 0 >>> UInt8.ofNat (n % 4 * 2)).toNat = bytesNat packed / 4 ^ n := by
      rw [UInt8.toNat_shiftRight, hj, Nat.shiftRight_eq_div_pow, hlast, toNat_getD, Nat.mod_eq_of_lt htop,
        hsplit, Nat.div_div_eq_div_mul, four_pow_eq_two_pow]
    have hzero : packed.getLastD 0 >>> UInt8.ofNat (n % 4 * 2) = 0 ↔ bytesNat packed / 4 ^ n = 0 := by
      rw [← hshift]
      exact UInt8.toNat_inj.symm
    rw [← Nat.div_eq_zero_iff_lt (Nat.pow_pos (by norm_num)), ← hzero]
    simp only [ne_eq, hwhole, not_false_eq_true, hne, true_and, not_not]

/-- The packed lanes are accepted where packing finds them. -/
theorem unpackAssignments_eq_ok {n : ℕ} {packed lanes : Bytes} (hlen : packed.length = (n + 3) / 4) :
    unpackAssignments n packed = .ok lanes ↔ lanes.length = n ∧ packAssignments lanes = .ok packed := by
  rw [unpackAssignments, Except.bind_eq_ok_iff]
  simp only [Except.raiseIf_eq_ok, Except.bind_eq_ok_iff, Except.ok.injEq, exists_const, padding_iff hlen,
    packAssignments_eq_ok]
  constructor
  · rintro ⟨hfits, hlanes, rfl⟩
    obtain ⟨hn, -, hsame⟩ := (map_laneAt_eq_iff hfits).mp rfl
    refine ⟨hn, ?_, by rw [hn, hlen], hsame⟩
    intro lane hlane
    by_contra hbad
    exact hlanes ⟨lane, hlane, Nat.not_lt.mp hbad⟩
  · rintro ⟨rfl, hall, -, hsame⟩
    have hfour : ∀ lane ∈ lanes, lane.toNat < 4 := fun lane hlane =>
      (hall lane hlane).trans (by decide)
    have hfits : bytesNat packed < 4 ^ lanes.length := by
      rw [hsame]
      exact lanesNat_lt hfour
    have hmap := (map_laneAt_eq_iff hfits).mpr ⟨rfl, hfour, hsame⟩
    refine ⟨hfits, ?_, hmap⟩
    rw [hmap]
    rintro ⟨lane, hlane, hbad⟩
    exact Nat.not_lt.mpr hbad (hall lane hlane)

end MosaicArchive.Solid
