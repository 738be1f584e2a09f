import MosaicArchive.Bytes.ProgramRules

/-!
Errors, resource options and counters of the native compression core
(`msc7-core/src/lib.rs`), with the constants of the `M7R0` stream format.
-/

namespace MosaicArchive.Core

open FixedWidth IoProgram

inductive Error where
  | io (error : IoError)
  | invalidOptions (message : String)
  | invalidFormat (message : String)
  | codec (message : String)
  | authentication
  deriving DecidableEq, Repr

/-- `b"M7R0"` -/
def magic : Bytes := [0x4d, 0x37, 0x52, 0x30]
def maxSegmentSize : ℕ := 8 * 1024 * 1024
def dedupWindowSize : ℕ := 8 * 1024 * 1024
def defaultMaxOriginalBytes : ℕ := 8 * 1024 * 1024 * 1024
def defaultMaxEncodedBytes : ℕ := defaultMaxOriginalBytes + 16 * 1024 * 1024

def headerSize : ℕ := 32
/-- `b"SG07"` -/
def segmentTag : Bytes := [0x53, 0x47, 0x30, 0x37]
/-- `b"END7"` -/
def footerTag : Bytes := [0x45, 0x4e, 0x44, 0x37]
def segmentHeaderRest : ℕ := 52
def footerRest : ℕ := 52
def recordSize : ℕ := 16
def maxRecordsPerSegment : ℕ := 1024
def maxRecordsInDedupWindow : ℕ := 1024
def maxThreads : ℕ := 64

structure EncodeOptions where
  threads : ℕ
  maxInputBytes : ℕ

structure DecodeOptions where
  maxOutputBytes : ℕ
  maxEncodedBytes : ℕ
  maxSegments : ℕ
  maxRecords : ℕ
  maxExpansionRatio : ℕ

/-- `impl Default for DecodeOptions` -/
def DecodeOptions.default : DecodeOptions where
  maxOutputBytes := defaultMaxOriginalBytes
  maxEncodedBytes := defaultMaxEncodedBytes
  maxSegments := 131072
  maxRecords := 2000000
  maxExpansionRatio := 16384

def EncodeOptions.Valid (options : EncodeOptions) : Prop :=
  ¬ (options.threads = 0 ∨ options.threads > maxThreads ∨ options.maxInputBytes = 0)

instance (options : EncodeOptions) : Decidable options.Valid :=
  inferInstanceAs (Decidable (¬ _))

def DecodeOptions.Valid (options : DecodeOptions) : Prop :=
  ¬ (options.maxOutputBytes = 0 ∨ options.maxEncodedBytes < headerSize + (4 + footerRest) ∨
    options.maxSegments = 0 ∨ options.maxRecords = 0 ∨ options.maxExpansionRatio = 0)

instance (options : DecodeOptions) : Decidable options.Valid :=
  inferInstanceAs (Decidable (¬ _))

def validateEncodeOptions (options : EncodeOptions) : IoProgram Error Unit :=
  .require options.Valid (.invalidOptions
    "thread count must be in 1..=64 and the input limit must be positive")

def validateDecodeOptions (options : DecodeOptions) : IoProgram Error Unit :=
  .require options.Valid (.invalidOptions
    "decode resource ceilings must all be positive and fit an empty envelope")

theorem defaultMaxOriginalBytes_eq : defaultMaxOriginalBytes = 8589934592 := by decide

theorem defaultMaxEncodedBytes_eq : defaultMaxEncodedBytes = 8606711808 := by decide

theorem DecodeOptions.default_valid : DecodeOptions.default.Valid := by
  decide

/-- Counts and codec decisions. -/
structure StreamStats where
  originalBytes : ℕ
  encodedBytes : ℕ
  segments : ℕ
  records : ℕ
  deduplicatedRecords : ℕ
  rawRecords : ℕ
  lzma2Records : ℕ
  deltaZstdRecords : ℕ
  zstdRecords : ℕ
  deriving DecidableEq, Repr

def StreamStats.default : StreamStats :=
  ⟨0, 0, 0, 0, 0, 0, 0, 0, 0⟩

/-- `u32::checked_add` and `u64::checked_add`, with the error of `ok_or`. -/
def checkedAdd (bits a b : ℕ) (error : Error) : IoProgram Error ℕ :=
  if a + b < 2 ^ bits then .ret (a + b) else .fail error

/-- `read_exact_format`: a short read is a format error, any other failure is
passed on. -/
def readExactFormat (n : ℕ) (message : String) : IoProgram Error Bytes :=
  .readExact n
    (fun error => if error.kind = .unexpectedEof then .invalidFormat message else .io error) .ret

theorem checkedAdd_yields {bits a b : ℕ} (h : a + b < 2 ^ bits) (error : Error) (s : ByteSource) :
    (checkedAdd bits a b error).Yields s (a + b) [] s := by
  rw [checkedAdd, if_pos h]
  exact yields_ret _ _

theorem settles_checkedAdd_bind {β : Type} {bits a b : ℕ} {error : Error}
    {f : ℕ → IoProgram Error β} {s : ByteSource}
    {post : Except Error β → List Bytes → ByteSource → Prop} (hfail : ∀ e s', post (.error e) [] s')
    (hnext : a + b < 2 ^ bits → (f (a + b)).Settles s post) :
    ((checkedAdd bits a b error).bind f).Settles s post := by
  unfold checkedAdd
  split
  · rename_i h
    exact hnext h
  · exact hfail _ _

theorem checkedAdd_bind_inv {β : Type} {bits a b : ℕ} {error : Error} {f : ℕ → IoProgram Error β}
    {s s' : ByteSource} {c : β} {w : List Bytes}
    (h : ((checkedAdd bits a b error).bind f).Yields s c w s') :
    a + b < 2 ^ bits ∧ (f (a + b)).Yields s c w s' := by
  unfold checkedAdd at h
  split at h
  · rename_i hsum
    exact ⟨hsum, h⟩
  · cases h.result

theorem readExactFormat_yields {field : Bytes} {n : ℕ} (h : field.length = n) (message : String)
    (rest : Bytes) (fault : Option IoError) (sawEnd : Bool) :
    (readExactFormat n message).Yields ⟨field ++ rest, fault, sawEnd⟩ field []
      ⟨rest, fault, sawEnd⟩ :=
  yields_readExact _ h rest fault sawEnd

def parseU32 (b : Bytes) : ℕ := leNat b
def parseU64 (b : Bytes) : ℕ := leNat b
def u32Bytes (n : ℕ) : Bytes := leBytes 4 n
def u64Bytes (n : ℕ) : Bytes := leBytes 8 n

@[simp] theorem u32Bytes_length (n : ℕ) : (u32Bytes n).length = 4 := leBytes_length 4 n

@[simp] theorem u64Bytes_length (n : ℕ) : (u64Bytes n).length = 8 := leBytes_length 8 n

theorem parseU32_u32Bytes {n : ℕ} (h : n < 2 ^ 32) : parseU32 (u32Bytes n) = n :=
  leNat_leBytes_of_lt (by norm_num at h ⊢; exact h)

theorem parseU64_u64Bytes {n : ℕ} (h : n < 2 ^ 64) : parseU64 (u64Bytes n) = n :=
  leNat_leBytes_of_lt (by norm_num at h ⊢; exact h)

end MosaicArchive.Core
