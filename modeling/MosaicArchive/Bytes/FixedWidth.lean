import Mathlib.Tactic

/-!
Fixed-width integers as byte strings. Both byte orders are one development:
the big-endian encoding is the reversed little-endian one, so every law is
proved on the little-endian side and transported by `List.reverse`.
-/

namespace FixedWidth

/-- A byte string. -/
abbrev Bytes := List UInt8

/-- The `w` little-endian bytes of `n`; higher bits are dropped, as a
narrowing integer cast drops them. -/
def leBytes : ℕ → ℕ → Bytes
  | 0, _ => []
  | w + 1, n => UInt8.ofNat (n % 256) :: leBytes w (n / 256)

/-- The natural number with the given little-endian bytes. -/
def leNat : Bytes → ℕ
  | [] => 0
  | b :: bs => b.toNat + 256 * leNat bs

/-- The `w` big-endian bytes of `n`. -/
def beBytes (w n : ℕ) : Bytes := (leBytes w n).reverse

/-- The natural number with the given big-endian bytes. -/
def beNat (b : Bytes) : ℕ := leNat b.reverse

@[simp] theorem leBytes_length (w n : ℕ) : (leBytes w n).length = w := by
  induction w generalizing n with
  | zero => rfl
  | succ w ih => simp [leBytes, ih]

@[simp] theorem beBytes_length (w n : ℕ) : (beBytes w n).length = w := by
  simp [beBytes]

theorem leNat_lt (b : Bytes) : leNat b < 256 ^ b.length := by
  induction b with
  | nil => simp [leNat]
  | cons x xs ih =>
      have hx : x.toNat < 256 := x.toNat_lt
      simp only [leNat, List.length_cons, pow_succ]
      omega

theorem beNat_lt (b : Bytes) : beNat b < 256 ^ b.length := by
  simpa [beNat] using leNat_lt b.reverse

theorem leNat_leBytes (w n : ℕ) : leNat (leBytes w n) = n % 256 ^ w := by
  induction w generalizing n with
  | zero => simp [leBytes, leNat, Nat.mod_one]
  | succ w ih =>
      have hbyte : (UInt8.ofNat (n % 256)).toNat = n % 256 := by
        simp [UInt8.toNat_ofNat']
      rw [leBytes, leNat, ih, hbyte, pow_succ', Nat.mod_mul]

theorem leNat_leBytes_of_lt {w n : ℕ} (h : n < 256 ^ w) : leNat (leBytes w n) = n := by
  rw [leNat_leBytes, Nat.mod_eq_of_lt h]

theorem leBytes_leNat (b : Bytes) : leBytes b.length (leNat b) = b := by
  induction b with
  | nil => rfl
  | cons x xs ih =>
      have hx : x.toNat < 256 := x.toNat_lt
      have hmod : (x.toNat + 256 * leNat xs) % 256 = x.toNat := by omega
      have hdiv : (x.toNat + 256 * leNat xs) / 256 = leNat xs := by omega
      rw [List.length_cons, leNat, leBytes, hmod, hdiv, ih, UInt8.ofNat_toNat]

theorem beNat_beBytes (w n : ℕ) : beNat (beBytes w n) = n % 256 ^ w := by
  simp [beNat, beBytes, leNat_leBytes]

theorem beNat_beBytes_of_lt {w n : ℕ} (h : n < 256 ^ w) : beNat (beBytes w n) = n := by
  rw [beNat_beBytes, Nat.mod_eq_of_lt h]

theorem beBytes_beNat (b : Bytes) : beBytes b.length (beNat b) = b := by
  have h := leBytes_leNat b.reverse
  rw [List.length_reverse] at h
  rw [beBytes, beNat, h, List.reverse_reverse]

theorem beBytes_inj {w m n : ℕ} (hm : m < 256 ^ w) (hn : n < 256 ^ w)
    (h : beBytes w m = beBytes w n) : m = n := by
  have heq := congrArg beNat h
  rwa [beNat_beBytes_of_lt hm, beNat_beBytes_of_lt hn] at heq

theorem leBytes_succ_of_lt {w n : ℕ} (h : n < 256 ^ w) : leBytes (w + 1) n = leBytes w n ++ [0] := by
  induction w generalizing n with
  | zero =>
      obtain rfl : n = 0 := by omega
      rfl
  | succ w ih =>
      rw [leBytes, ih, leBytes, List.cons_append]
      rw [pow_succ] at h
      exact Nat.div_lt_of_lt_mul (by rwa [Nat.mul_comm])

/-- A field that is wider than its number starts with a zero. -/
theorem beBytes_succ_of_lt {w n : ℕ} (h : n < 256 ^ w) : beBytes (w + 1) n = 0 :: beBytes w n := by
  rw [beBytes, leBytes_succ_of_lt h, List.reverse_append]
  rfl

/-- Two byte strings of one length with one value are the same string. -/
theorem beNat_inj {a b : Bytes} (hlen : a.length = b.length) (h : beNat a = beNat b) :
    a = b := by
  rw [← beBytes_beNat a, ← beBytes_beNat b, hlen, h]

/-! ### Slices

Parsers of fixed layouts read `bytes[i..j]`. On a concatenation of fields of
known lengths the two lemmas below walk a slice down to the field it names. -/

/-- The bytes from position `i` up to, not including, position `j`. -/
def slice (b : Bytes) (i j : ℕ) : Bytes := (b.drop i).take (j - i)

theorem slice_length {b : Bytes} {i j : ℕ} (hij : i ≤ j) (hj : j ≤ b.length) :
    (slice b i j).length = j - i := by
  simp only [slice, List.length_take, List.length_drop]
  omega

theorem slice_append_right {a b : Bytes} {i j : ℕ} (h : a.length ≤ i) :
    slice (a ++ b) i j = slice b (i - a.length) (j - a.length) := by
  rw [slice, List.drop_append, List.drop_eq_nil_of_le h, List.nil_append, slice]
  congr 1
  omega

theorem slice_append_left {a b : Bytes} {i j : ℕ} (h : j ≤ a.length) :
    slice (a ++ b) i j = slice a i j := by
  rcases Nat.lt_or_ge i j with hij | hij
  · rw [slice, List.drop_append_of_le_length (by omega), slice,
      List.take_append_of_le_length (by simp; omega)]
  · simp [slice, Nat.sub_eq_zero_of_le hij]

theorem slice_full {a : Bytes} {j : ℕ} (h : a.length = j) : slice a 0 j = a := by
  subst h
  simp [slice]

theorem slice_append_slice {b : Bytes} {i j k : ℕ} (hij : i ≤ j) (hjk : j ≤ k) :
    slice b i j ++ slice b j k = slice b i k := by
  have hdrop : b.drop j = (b.drop i).drop (j - i) := by
    rw [List.drop_drop]
    congr 1
    omega
  rw [slice, slice, slice, hdrop, ← List.take_add]
  congr 1
  omega

/-- A byte string splits at any position. -/
theorem slice_split (b : Bytes) (i : ℕ) : slice b 0 i ++ b.drop i = b := by
  simp [slice]

theorem slice_append_drop (b : Bytes) {i j : ℕ} (h : i ≤ j) :
    slice b i j ++ b.drop j = b.drop i := by
  unfold slice
  have hj : b.drop j = (b.drop i).drop (j - i) := by
    rw [List.drop_drop]
    congr 1
    omega
  rw [hj, List.take_append_drop]

/-- A field of a record is the slice between the fields before and after it. -/
theorem slice_field (before : List Bytes) (field : Bytes) (after : List Bytes) {i j : ℕ}
    (hi : before.flatten.length = i) (hj : i + field.length = j) :
    slice (before ++ field :: after).flatten i j = field := by
  rw [List.flatten_append, slice_append_right hi.le, List.flatten_cons,
    slice_append_left (by omega), hi, Nat.sub_self]
  exact slice_full (by omega)

end FixedWidth
