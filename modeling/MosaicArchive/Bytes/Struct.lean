import MosaicArchive.Bytes.FixedWidth

/-!
Packed big-endian records without padding. A layout is a list of fields; a
record is a tuple of values, one for each field. Packing fails where an integer
does not fit its field, and cuts or zero-fills a byte field to its length, so it
inverts unpacking exactly on the `Exact` records.
-/

namespace Struct

open FixedWidth

/-! ### Signed integers -/

/-- The two's complement bytes of an integer; `none` where it is out of range. -/
def packInt64 (z : ℤ) : Option Bytes :=
  if -2 ^ 63 ≤ z ∧ z < 2 ^ 63 then some (beBytes 8 (z % 2 ^ 64).toNat) else none

def unpackInt64 (b : Bytes) : ℤ :=
  if beNat b < 2 ^ 63 then (beNat b : ℤ) else (beNat b : ℤ) - 2 ^ 64

theorem packInt64_length {z : ℤ} {b : Bytes} (h : packInt64 z = some b) : b.length = 8 := by
  simp only [packInt64, Option.ite_none_right_eq_some, Option.some.injEq] at h
  rw [← h.2, beBytes_length]

theorem unpackInt64_range {b : Bytes} (h : b.length = 8) :
    -2 ^ 63 ≤ unpackInt64 b ∧ unpackInt64 b < 2 ^ 63 := by
  have hlt := beNat_lt b
  rw [h] at hlt
  unfold unpackInt64
  split <;> omega

theorem packInt64_unpackInt64 {b : Bytes} (h : b.length = 8) :
    packInt64 (unpackInt64 b) = some b := by
  have hlt := beNat_lt b
  rw [h] at hlt
  have hback : beBytes 8 (beNat b) = b := by
    rw [← h]
    exact beBytes_beNat b
  have hmod : (unpackInt64 b % 2 ^ 64).toNat = beNat b := by
    unfold unpackInt64
    split <;> omega
  rw [packInt64, if_pos (unpackInt64_range h), hmod, hback]

theorem unpackInt64_packInt64 {z : ℤ} (h : -2 ^ 63 ≤ z ∧ z < 2 ^ 63) :
    ∃ b, packInt64 z = some b ∧ unpackInt64 b = z := by
  refine ⟨_, if_pos h, ?_⟩
  have hlt : (z % 2 ^ 64).toNat < 256 ^ 8 := by
    show (z % 2 ^ 64).toNat < 2 ^ 64
    omega
  unfold unpackInt64
  rw [beNat_beBytes_of_lt hlt]
  split <;> omega

/-! ### Fields -/

inductive Field where
  /-- An unsigned integer of the given number of bytes. -/
  | uint (width : ℕ)
  /-- A signed integer of eight bytes. -/
  | int64
  /-- A byte string of the given length. -/
  | bytes (length : ℕ)

namespace Field

@[reducible] def Value : Field → Type
  | uint _ => ℕ
  | int64 => ℤ
  | bytes _ => Bytes

def size : Field → ℕ
  | uint width => width
  | int64 => 8
  | bytes length => length

/-- The bytes of a value; `none` where the integer is out of range. -/
def pack : (f : Field) → f.Value → Option Bytes
  | uint width, n => if n < 256 ^ width then some (beBytes width n) else none
  | int64, z => packInt64 z
  | bytes length, b => some ((b ++ List.replicate length 0).take length)

def unpack : (f : Field) → Bytes → f.Value
  | uint _, b => beNat b
  | int64, b => unpackInt64 b
  | bytes _, b => b

/-- The values a field can give back. -/
def Exact : (f : Field) → f.Value → Prop
  | uint width, n => n < 256 ^ width
  | int64, z => -2 ^ 63 ≤ z ∧ z < 2 ^ 63
  | bytes length, b => b.length = length

@[simp] theorem exact_uint (width n : ℕ) : Exact (uint width) n ↔ n < 256 ^ width := Iff.rfl

@[simp] theorem exact_int64 (z : ℤ) : Exact int64 z ↔ -2 ^ 63 ≤ z ∧ z < 2 ^ 63 := Iff.rfl

@[simp] theorem exact_bytes (length : ℕ) (b : Bytes) :
    Exact (bytes length) b ↔ b.length = length := Iff.rfl

theorem pack_uint {width n : ℕ} (h : n < 256 ^ width) : (uint width).pack n = some (beBytes width n) :=
  if_pos h

theorem pack_bytes {length : ℕ} {b : Bytes} (h : b.length = length) : (bytes length).pack b = some b := by
  simp [pack, ← h]

theorem pack_length {f : Field} {v : f.Value} {b : Bytes} (h : f.pack v = some b) :
    b.length = f.size := by
  cases f with
  | uint width =>
      simp only [pack, Option.ite_none_right_eq_some, Option.some.injEq] at h
      rw [← h.2, beBytes_length, size]
  | int64 => exact packInt64_length h
  | bytes length =>
      cases h
      simp [size]

/-- Every byte string of a field's length is what its value packs to. -/
theorem pack_unpack (f : Field) {b : Bytes} (h : b.length = f.size) :
    f.pack (f.unpack b) = some b := by
  cases f with
  | uint width =>
      have hlt : beNat b < 256 ^ width := by simpa [h, size] using beNat_lt b
      have hback : beBytes width (beNat b) = b := by
        rw [show width = b.length from h.symm]
        exact beBytes_beNat b
      simp only [pack, unpack, if_pos hlt, hback]
  | int64 => exact packInt64_unpackInt64 h
  | bytes length =>
      have hlen : b.length = length := h
      simp [pack, unpack, ← hlen]

theorem exact_unpack (f : Field) {b : Bytes} (h : b.length = f.size) : f.Exact (f.unpack b) := by
  cases f with
  | uint width =>
      have hb := beNat_lt b
      rwa [show b.length = width from h] at hb
  | int64 => exact unpackInt64_range h
  | bytes length => exact h

/-- An exact value is packed, and is what its bytes unpack to. -/
theorem unpack_pack {f : Field} {v : f.Value} (h : f.Exact v) :
    ∃ b, f.pack v = some b ∧ f.unpack b = v := by
  cases f with
  | uint width =>
      refine ⟨beBytes width v, if_pos h, ?_⟩
      exact beNat_beBytes_of_lt h
  | int64 => exact unpackInt64_packInt64 h
  | bytes length =>
      have hlen : v.length = length := h
      refine ⟨v, ?_, rfl⟩
      simp [pack, ← hlen]

end Field

/-! ### Layouts -/

abbrev Layout := List Field

@[reducible] def Values : Layout → Type
  | [] => Unit
  | f :: fs => f.Value × Values fs

def size : Layout → ℕ
  | [] => 0
  | f :: fs => f.size + size fs

def pack : (l : Layout) → Values l → Option Bytes
  | [], _ => some []
  | f :: fs, v =>
      match f.pack v.1, pack fs v.2 with
      | some b, some bs => some (b ++ bs)
      | _, _ => none

def unpack : (l : Layout) → Bytes → Values l
  | [], _ => ()
  | f :: fs, b => (f.unpack (b.take f.size), unpack fs (b.drop f.size))

/-- Every field holds a value it can give back. -/
def Exact : (l : Layout) → Values l → Prop
  | [], _ => True
  | f :: fs, v => f.Exact v.1 ∧ Exact fs v.2

@[simp] theorem exact_nil (v : Unit) : Exact [] v ↔ True := Iff.rfl

@[simp] theorem exact_cons (f : Field) (fs : Layout) (v : Values (f :: fs)) :
    Exact (f :: fs) v ↔ f.Exact v.1 ∧ Exact fs v.2 := Iff.rfl

theorem pack_cons {f : Field} {fs : Layout} {v : Values (f :: fs)} {bytes : Bytes} :
    pack (f :: fs) v = some bytes ↔
      ∃ b bs, f.pack v.1 = some b ∧ pack fs v.2 = some bs ∧ bytes = b ++ bs := by
  rw [pack]
  cases f.pack v.1 <;> cases pack fs v.2 <;> simp [eq_comm]

theorem pack_cons_eq {f : Field} {fs : Layout} {v : f.Value} {vs : Values fs} {b bs : Bytes}
    (hb : f.pack v = some b) (hbs : pack fs vs = some bs) : pack (f :: fs) (v, vs) = some (b ++ bs) :=
  pack_cons.mpr ⟨b, bs, hb, hbs, rfl⟩

theorem pack_length {l : Layout} {v : Values l} {b : Bytes} (h : pack l v = some b) :
    b.length = size l := by
  induction l generalizing b with
  | nil =>
      cases h
      rfl
  | cons f fs ih =>
      obtain ⟨b₁, bs, hb, hbs, rfl⟩ := pack_cons.mp h
      rw [List.length_append, Field.pack_length hb, ih hbs, size]

theorem pack_unpack (l : Layout) {b : Bytes} (h : b.length = size l) :
    pack l (unpack l b) = some b := by
  induction l generalizing b with
  | nil =>
      rw [List.eq_nil_of_length_eq_zero h]
      rfl
  | cons f fs ih =>
      rw [size] at h
      apply pack_cons.mpr
      refine ⟨b.take f.size, b.drop f.size, f.pack_unpack ?_, ih ?_, ?_⟩
      · rw [List.length_take]
        omega
      · rw [List.length_drop]
        omega
      · rw [List.take_append_drop]

theorem exact_unpack (l : Layout) {b : Bytes} (h : b.length = size l) : Exact l (unpack l b) := by
  induction l generalizing b with
  | nil => trivial
  | cons f fs ih =>
      rw [size] at h
      refine ⟨f.exact_unpack ?_, ih ?_⟩
      · rw [List.length_take]
        omega
      · rw [List.length_drop]
        omega

theorem unpack_pack {l : Layout} {v : Values l} (h : Exact l v) :
    ∃ b, pack l v = some b ∧ unpack l b = v := by
  induction l with
  | nil => exact ⟨[], rfl, rfl⟩
  | cons f fs ih =>
      obtain ⟨b, hb, hx⟩ := Field.unpack_pack h.1
      obtain ⟨bs, hbs, hxs⟩ := ih h.2
      refine ⟨b ++ bs, pack_cons.mpr ⟨b, bs, hb, hbs, rfl⟩, ?_⟩
      rw [unpack, List.take_left' (Field.pack_length hb), List.drop_left' (Field.pack_length hb),
        hx, hxs]

/-- Unpacking reads the bytes of the layout only. -/
theorem unpack_append {l : Layout} {b rest : Bytes} (h : b.length = size l) :
    unpack l (b ++ rest) = unpack l b := by
  induction l generalizing b with
  | nil => rfl
  | cons f fs ih =>
      rw [size] at h
      have hle : f.size ≤ b.length := by omega
      have htail : (b.drop f.size).length = size fs := by
        rw [List.length_drop]
        omega
      rw [unpack, unpack, List.take_append_of_le_length hle, List.drop_append_of_le_length hle, ih htail]

/-- On a byte string of the layout's size, unpacking finds exactly the exact
record that packs to it. -/
theorem unpack_eq_iff {l : Layout} {b : Bytes} (h : b.length = size l) (v : Values l) :
    unpack l b = v ↔ Exact l v ∧ pack l v = some b := by
  constructor
  · rintro rfl
    exact ⟨exact_unpack l h, pack_unpack l h⟩
  · rintro ⟨hexact, hpack⟩
    obtain ⟨b', hb', hv⟩ := unpack_pack hexact
    rw [hpack] at hb'
    cases hb'
    exact hv

theorem pack_inj {l : Layout} {v w : Values l} {b : Bytes} (hv : Exact l v) (hw : Exact l w)
    (hbv : pack l v = some b) (hbw : pack l w = some b) : v = w := by
  have hlen := pack_length hbv
  rw [← (unpack_eq_iff hlen v).mpr ⟨hv, hbv⟩, (unpack_eq_iff hlen w).mpr ⟨hw, hbw⟩]

end Struct
