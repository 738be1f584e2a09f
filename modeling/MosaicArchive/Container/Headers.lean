import MosaicArchive.Bytes.Parser
import MosaicArchive.Manifest.Paths

/-!
The public headers of the framed containers: MSC2
(`mosaic_archive/stream_format.py`), MSC3 to MSC6 (`dedup_format.py`) and the
header of one frame. Each parser accepts exactly the packed bytes of the
headers it calls valid.
-/

namespace MosaicArchive.Container

open FixedWidth MosaicArchive.Manifest Except

def kdfScrypt : ℕ := 1
def aeadChacha20Poly1305 : ℕ := 1
def saltLength : ℕ := 16
def noncePrefixLength : ℕ := 4
def aeadTagLength : ℕ := 16
def maxChunkSize : ℕ := 16 * 1024 * 1024
def maxPaddingSize : ℕ := 16 * 1024 * 1024
def maxFrameCount : ℕ := 16777216
def maxManifestCiphertext : ℕ := 256 * 1024 * 1024

/-! ### MSC2 -/

/-- `b"MSC2"` -/
def msc2Magic : Bytes := [0x4d, 0x53, 0x43, 0x32]
def msc2Version : ℕ := 2
def msc2Flags : ℕ := 3

/-- `struct.Struct(">4sBBBBII16s4sBBBQ")` -/
def msc2HeaderLayout : Struct.Layout :=
  [.bytes 4, .uint 1, .uint 1, .uint 1, .uint 1, .uint 4, .uint 4, .bytes 16, .bytes 4, .uint 1,
    .uint 1, .uint 1, .uint 8]

structure Msc2Header where
  version : ℕ
  flags : ℕ
  kdfId : ℕ
  aeadId : ℕ
  chunkSize : ℕ
  paddingSize : ℕ
  salt : Bytes
  noncePrefix : Bytes
  kdfLogN : ℕ
  kdfR : ℕ
  kdfP : ℕ
  frameCount : ℕ
  deriving DecidableEq

def Msc2Header.pack (h : Msc2Header) : Option Bytes :=
  Struct.pack msc2HeaderLayout (msc2Magic, h.version, h.flags, h.kdfId, h.aeadId, h.chunkSize,
    h.paddingSize, h.salt, h.noncePrefix, h.kdfLogN, h.kdfR, h.kdfP, h.frameCount, ())

/-- The checks of `parse_msc2_header` after unpacking, in order. -/
def checkMsc2Header (h : Msc2Header) : Except PyError Unit := do
  raiseIf (h.version ≠ msc2Version)
    (.unsupportedVersion ("unsupported MSC2 version: " ++ toString h.version))
  raiseIf (h.flags ≠ msc2Flags) (.archiveFormat "MSC2 archive uses unsupported header flags")
  raiseIf (h.kdfId ≠ kdfScrypt ∨ h.aeadId ≠ aeadChacha20Poly1305)
    (.archiveFormat "MSC2 archive uses unsupported cryptographic algorithms")
  raiseIf (¬ (1 ≤ h.chunkSize ∧ h.chunkSize ≤ maxChunkSize))
    (.archiveFormat "MSC2 chunk size is outside the supported range")
  raiseIf (¬ (256 ≤ h.paddingSize ∧ h.paddingSize ≤ maxPaddingSize))
    (.archiveFormat "MSC2 padding size is outside the supported range")
  raiseIf (h.salt.length ≠ saltLength) (.archiveFormat "MSC2 salt has an invalid size")
  raiseIf (h.noncePrefix.length ≠ noncePrefixLength)
    (.archiveFormat "MSC2 nonce prefix has an invalid size")
  raiseIf (¬ (14 ≤ h.kdfLogN ∧ h.kdfLogN ≤ 18))
    (.archiveFormat "MSC2 scrypt cost is outside the supported range")
  raiseIf (h.kdfR ≠ 8 ∨ h.kdfP ≠ 1)
    (.archiveFormat "MSC2 scrypt parameters are outside the supported range")
  raiseIf (¬ (1 ≤ h.frameCount ∧ h.frameCount ≤ maxFrameCount))
    (.archiveFormat "MSC2 frame count is outside the supported range")

def parseMsc2Header (data : Bytes) : Except PyError Msc2Header := do
  let (magic, version, flags, kdfId, aeadId, chunkSize, paddingSize, salt, noncePrefix, kdfLogN,
    kdfR, kdfP, frameCount, ()) ←
      Struct.parse msc2HeaderLayout data (.archiveFormat "MSC2 public header is truncated")
  raiseIf (magic ≠ msc2Magic)
    (.archiveFormat "not a framed Mosaic Archive (missing MSC2 magic)")
  let header : Msc2Header :=
    { version, flags, kdfId, aeadId, chunkSize, paddingSize, salt, noncePrefix, kdfLogN, kdfR,
      kdfP, frameCount }
  checkMsc2Header header
  pure header

/-- The headers `parse_msc2_header` accepts. -/
structure Msc2Header.Valid (h : Msc2Header) : Prop where
  version : h.version = msc2Version
  flags : h.flags = msc2Flags
  kdfId : h.kdfId = kdfScrypt
  aeadId : h.aeadId = aeadChacha20Poly1305
  chunkSize : 1 ≤ h.chunkSize ∧ h.chunkSize ≤ maxChunkSize
  paddingSize : 256 ≤ h.paddingSize ∧ h.paddingSize ≤ maxPaddingSize
  salt : h.salt.length = saltLength
  noncePrefix : h.noncePrefix.length = noncePrefixLength
  kdfLogN : 14 ≤ h.kdfLogN ∧ h.kdfLogN ≤ 18
  kdfR : h.kdfR = 8
  kdfP : h.kdfP = 1
  frameCount : 1 ≤ h.frameCount ∧ h.frameCount ≤ maxFrameCount

theorem checkMsc2Header_eq_ok {h : Msc2Header} {u : Unit} :
    checkMsc2Header h = .ok u ↔ h.Valid := by
  simp only [checkMsc2Header, bind_eq_ok_iff, raiseIf_eq_ok, not_not, not_or, exists_and_left,
    exists_const]
  constructor
  · rintro ⟨h₁, h₂, ⟨h₃, h₄⟩, h₅, h₆, h₇, h₈, h₉, ⟨h₁₀, h₁₁⟩, h₁₂⟩
    exact ⟨h₁, h₂, h₃, h₄, h₅, h₆, h₇, h₈, h₉, h₁₀, h₁₁, h₁₂⟩
  · intro hv
    exact ⟨hv.version, hv.flags, ⟨hv.kdfId, hv.aeadId⟩, hv.chunkSize, hv.paddingSize, hv.salt,
      hv.noncePrefix, hv.kdfLogN, ⟨hv.kdfR, hv.kdfP⟩, hv.frameCount⟩

theorem Msc2Header.Valid.exact {h : Msc2Header} (hv : h.Valid) :
    Struct.Exact msc2HeaderLayout (msc2Magic, h.version, h.flags, h.kdfId, h.aeadId, h.chunkSize,
      h.paddingSize, h.salt, h.noncePrefix, h.kdfLogN, h.kdfR, h.kdfP, h.frameCount, ()) := by
  obtain ⟨h₁, h₂, h₃, h₄, h₅, h₆, h₇, h₈, h₉, h₁₀, h₁₁, h₁₂⟩ := hv
  simp only [msc2Version, msc2Flags, kdfScrypt, aeadChacha20Poly1305, maxChunkSize,
    maxPaddingSize, maxFrameCount] at h₁ h₂ h₃ h₄ h₅ h₆ h₁₂
  simp only [msc2HeaderLayout, Struct.exact_cons, Struct.Field.exact_uint,
    Struct.Field.exact_bytes, Struct.exact_nil]
  refine ⟨rfl, ?_, ?_, ?_, ?_, ?_, ?_, h₇, h₈, ?_, ?_, ?_, ?_, trivial⟩ <;> omega

/-- The parser accepts exactly the packed valid headers. -/
theorem parseMsc2Header_eq_ok {data : Bytes} {h : Msc2Header} :
    parseMsc2Header data = .ok h ↔ h.Valid ∧ h.pack = some data := by
  simp only [parseMsc2Header, bind_eq_ok_iff, Struct.parse_eq_ok]
  constructor
  · rintro ⟨⟨magic, version, flags, kdfId, aeadId, chunkSize, paddingSize, salt, noncePrefix,
      kdfLogN, kdfR, kdfP, frameCount, ⟨⟩⟩, ⟨_, hpack⟩, hrest⟩
    simp only [bind_eq_ok_iff, raiseIf_eq_ok, not_not, checkMsc2Header_eq_ok, exists_and_left,
      exists_const, pure, Except.pure, ok.injEq] at hrest
    obtain ⟨rfl, hvalid, rfl⟩ := hrest
    exact ⟨hvalid, hpack⟩
  · rintro ⟨hvalid, hpack⟩
    refine ⟨_, ⟨hvalid.exact, hpack⟩, ?_⟩
    simp only [bind_eq_ok_iff, raiseIf_eq_ok, not_not, checkMsc2Header_eq_ok, exists_and_left,
      exists_const, pure, Except.pure]
    exact ⟨trivial, hvalid, trivial⟩

/-! ### MSC3 to MSC6 -/

/-- The magic and version pairs `b"MSC3"` to `b"MSC6"`. -/
def dedupMagics : List (Bytes × ℕ) :=
  [([0x4d, 0x53, 0x43, 0x33], 3), ([0x4d, 0x53, 0x43, 0x34], 4), ([0x4d, 0x53, 0x43, 0x35], 5),
    ([0x4d, 0x53, 0x43, 0x36], 6)]

/-- `b"MSC6"` -/
def msc6Magic : Bytes := [0x4d, 0x53, 0x43, 0x36]
def msc6Version : ℕ := 6
def msc3Flags : ℕ := 7

/-- `struct.Struct(">4sBBBBIIII16s4sBBBQ")` -/
def msc3HeaderLayout : Struct.Layout :=
  [.bytes 4, .uint 1, .uint 1, .uint 1, .uint 1, .uint 4, .uint 4, .uint 4, .uint 4, .bytes 16,
    .bytes 4, .uint 1, .uint 1, .uint 1, .uint 8]

structure Msc3Header where
  version : ℕ
  flags : ℕ
  kdfId : ℕ
  aeadId : ℕ
  minChunkSize : ℕ
  avgChunkSize : ℕ
  maxChunkSize : ℕ
  paddingSize : ℕ
  salt : Bytes
  noncePrefix : Bytes
  kdfLogN : ℕ
  kdfR : ℕ
  kdfP : ℕ
  frameCount : ℕ
  deriving DecidableEq

/-- The magic a version is packed with; unknown versions get that of MSC6. -/
def magicOf (version : ℕ) : Bytes :=
  match dedupMagics.find? (fun entry => entry.2 = version) with
  | some (magic, _) => magic
  | none => msc6Magic

/-- `expected_version`, the version a known magic stands for. -/
def versionOf (magic : Bytes) : Option ℕ :=
  (dedupMagics.find? fun entry => entry.1 = magic).map Prod.snd

def Msc3Header.pack (h : Msc3Header) : Option Bytes :=
  Struct.pack msc3HeaderLayout (magicOf h.version, h.version, h.flags, h.kdfId, h.aeadId,
    h.minChunkSize, h.avgChunkSize, h.maxChunkSize, h.paddingSize, h.salt, h.noncePrefix,
    h.kdfLogN, h.kdfR, h.kdfP, h.frameCount, ())

/-- The checks of `parse_msc3_header` after the version, in order. -/
def checkMsc3Header (h : Msc3Header) : Except PyError Unit := do
  raiseIf (h.flags ≠ msc3Flags) (.archiveFormat "MSC3 archive uses unsupported flags")
  raiseIf (h.kdfId ≠ kdfScrypt ∨ h.aeadId ≠ aeadChacha20Poly1305)
    (.archiveFormat "MSC3 archive uses unsupported cryptographic algorithms")
  -- `avg & (avg - 1)`; at an average of zero the Python integer `0 & -1` is zero as well
  raiseIf (h.minChunkSize < 64 ∨ h.avgChunkSize &&& (h.avgChunkSize - 1) ≠ 0 ∨
      ¬ (h.minChunkSize ≤ h.avgChunkSize ∧ h.avgChunkSize ≤ h.maxChunkSize ∧
        h.maxChunkSize ≤ 16 * 1024 * 1024))
    (.archiveFormat "MSC3 chunking parameters are invalid")
  raiseIf (¬ (256 ≤ h.paddingSize ∧ h.paddingSize ≤ 16 * 1024 * 1024))
    (.archiveFormat "MSC3 padding size is invalid")
  raiseIf (h.salt.length ≠ saltLength ∨ h.noncePrefix.length ≠ noncePrefixLength)
    (.archiveFormat "MSC3 salt or nonce prefix is invalid")
  raiseIf (¬ (14 ≤ h.kdfLogN ∧ h.kdfLogN ≤ 18) ∨ h.kdfR ≠ 8 ∨ h.kdfP ≠ 1)
    (.archiveFormat "MSC3 scrypt parameters are outside supported limits")
  raiseIf (¬ (1 ≤ h.frameCount ∧ h.frameCount ≤ maxFrameCount))
    (.archiveFormat "MSC3 frame count is outside supported limits")

def parseMsc3Header (data : Bytes) : Except PyError Msc3Header := do
  let (magic, version, flags, kdfId, aeadId, minChunkSize, avgChunkSize, maxChunkSize,
    paddingSize, salt, noncePrefix, kdfLogN, kdfR, kdfP, frameCount, ()) ←
      Struct.parse msc3HeaderLayout data (.archiveFormat "MSC3 public header is truncated")
  raiseIf (versionOf magic = none) (.archiveFormat "not a deduplicating Mosaic Archive")
  raiseIf (versionOf magic ≠ some version)
    (.unsupportedVersion "dedup archive magic/version mismatch")
  let header : Msc3Header :=
    { version, flags, kdfId, aeadId, minChunkSize, avgChunkSize, maxChunkSize, paddingSize, salt,
      noncePrefix, kdfLogN, kdfR, kdfP, frameCount }
  checkMsc3Header header
  pure header

/-- The headers `parse_msc3_header` accepts. -/
structure Msc3Header.Valid (h : Msc3Header) : Prop where
  version : versionOf (magicOf h.version) = some h.version
  flags : h.flags = msc3Flags
  kdfId : h.kdfId = kdfScrypt
  aeadId : h.aeadId = aeadChacha20Poly1305
  minChunkSize : 64 ≤ h.minChunkSize
  avgPowerOfTwo : h.avgChunkSize &&& (h.avgChunkSize - 1) = 0
  min_le_avg : h.minChunkSize ≤ h.avgChunkSize
  avg_le_max : h.avgChunkSize ≤ h.maxChunkSize
  max_le : h.maxChunkSize ≤ 16 * 1024 * 1024
  paddingSize : 256 ≤ h.paddingSize ∧ h.paddingSize ≤ 16 * 1024 * 1024
  salt : h.salt.length = saltLength
  noncePrefix : h.noncePrefix.length = noncePrefixLength
  kdfLogN : 14 ≤ h.kdfLogN ∧ h.kdfLogN ≤ 18
  kdfR : h.kdfR = 8
  kdfP : h.kdfP = 1
  frameCount : 1 ≤ h.frameCount ∧ h.frameCount ≤ maxFrameCount

/-- A known magic is the one its version is packed with. -/
theorem magicOf_of_versionOf {magic : Bytes} {version : ℕ}
    (h : versionOf magic = some version) : magicOf version = magic := by
  obtain ⟨entry, hfind, rfl⟩ := Option.map_eq_some_iff.mp h
  have hmem : entry ∈ dedupMagics := List.mem_of_find?_eq_some hfind
  have hmagic : entry.1 = magic := by simpa using List.find?_some hfind
  have hall : ∀ entry ∈ dedupMagics, magicOf entry.2 = entry.1 := by decide
  rw [← hmagic]
  exact hall entry hmem

theorem checkMsc3Header_eq_ok {h : Msc3Header} {u : Unit}
    (hversion : versionOf (magicOf h.version) = some h.version) :
    checkMsc3Header h = .ok u ↔ h.Valid := by
  simp only [checkMsc3Header, bind_eq_ok_iff, raiseIf_eq_ok, not_not, not_or, exists_and_left,
    exists_const, not_lt]
  constructor
  · rintro ⟨h₁, ⟨h₂, h₃⟩, ⟨h₄, h₅, h₆, h₇, h₈⟩, h₉, ⟨h₁₀, h₁₁⟩, ⟨h₁₂, h₁₃, h₁₄⟩, h₁₅⟩
    exact ⟨hversion, h₁, h₂, h₃, h₄, h₅, h₆, h₇, h₈, h₉, h₁₀, h₁₁, h₁₂, h₁₃, h₁₄, h₁₅⟩
  · intro hv
    exact ⟨hv.flags, ⟨hv.kdfId, hv.aeadId⟩, ⟨hv.minChunkSize, hv.avgPowerOfTwo, hv.min_le_avg,
      hv.avg_le_max, hv.max_le⟩, hv.paddingSize, ⟨hv.salt, hv.noncePrefix⟩,
      ⟨hv.kdfLogN, hv.kdfR, hv.kdfP⟩, hv.frameCount⟩

theorem versionOf_le {magic : Bytes} {version : ℕ} (h : versionOf magic = some version) :
    version ≤ 6 := by
  obtain ⟨entry, hfind, rfl⟩ := Option.map_eq_some_iff.mp h
  have hall : ∀ entry ∈ dedupMagics, entry.2 ≤ 6 := by decide
  exact hall entry (List.mem_of_find?_eq_some hfind)

theorem magicOf_length (version : ℕ) : (magicOf version).length = 4 := by
  unfold magicOf
  split
  · rename_i entry heq
    have hall : ∀ entry ∈ dedupMagics, entry.1.length = 4 := by decide
    exact hall _ (List.mem_of_find?_eq_some heq)
  · rfl

theorem Msc3Header.Valid.exact {h : Msc3Header} (hv : h.Valid) :
    Struct.Exact msc3HeaderLayout (magicOf h.version, h.version, h.flags, h.kdfId, h.aeadId,
      h.minChunkSize, h.avgChunkSize, h.maxChunkSize, h.paddingSize, h.salt, h.noncePrefix,
      h.kdfLogN, h.kdfR, h.kdfP, h.frameCount, ()) := by
  obtain ⟨h₁, h₂, h₃, h₄, h₅, -, h₇, h₈, h₉, h₁₀, h₁₁, h₁₂, h₁₃, h₁₄, h₁₅, h₁₆⟩ := hv
  have hversion := versionOf_le h₁
  simp only [msc3Flags, kdfScrypt, aeadChacha20Poly1305, maxFrameCount] at h₂ h₃ h₄ h₁₆
  simp only [msc3HeaderLayout, Struct.exact_cons, Struct.Field.exact_uint,
    Struct.Field.exact_bytes, Struct.exact_nil]
  refine ⟨magicOf_length _, ?_, ?_, ?_, ?_, ?_, ?_, ?_, ?_, h₁₁, h₁₂, ?_, ?_, ?_, ?_, trivial⟩ <;>
    omega

/-- The parser accepts exactly the packed valid headers. -/
theorem parseMsc3Header_eq_ok {data : Bytes} {h : Msc3Header} :
    parseMsc3Header data = .ok h ↔ h.Valid ∧ h.pack = some data := by
  simp only [parseMsc3Header, bind_eq_ok_iff, Struct.parse_eq_ok]
  constructor
  · rintro ⟨⟨magic, version, flags, kdfId, aeadId, minChunkSize, avgChunkSize, maxChunkSize,
      paddingSize, salt, noncePrefix, kdfLogN, kdfR, kdfP, frameCount, ⟨⟩⟩, ⟨_, hpack⟩, hrest⟩
    simp only [bind_eq_ok_iff, raiseIf_eq_ok, not_not, exists_and_left, exists_const, pure,
      Except.pure, ok.injEq] at hrest
    obtain ⟨-, hversion, _, hcheck, rfl⟩ := hrest
    have hmagic := magicOf_of_versionOf hversion
    have hback : versionOf (magicOf version) = some version := by rw [hmagic, hversion]
    refine ⟨(checkMsc3Header_eq_ok hback).mp hcheck, ?_⟩
    rw [Msc3Header.pack, hmagic]
    exact hpack
  · rintro ⟨hvalid, hpack⟩
    refine ⟨_, ⟨hvalid.exact, hpack⟩, ?_⟩
    simp only [bind_eq_ok_iff, raiseIf_eq_ok, not_not, exists_and_left, exists_const, pure,
      Except.pure]
    refine ⟨?_, hvalid.version, ?_⟩
    · rw [hvalid.version]
      simp
    · exact ⟨(), (checkMsc3Header_eq_ok hvalid.version).mpr hvalid, trivial⟩

/-! ### Frames -/

def frameManifest : ℕ := 1
def frameData : ℕ := 2

/-- `struct.Struct(">QBI")` -/
def frameHeaderLayout : Struct.Layout := [.uint 8, .uint 1, .uint 4]

structure FrameHeader where
  index : ℕ
  frameType : ℕ
  ciphertextLength : ℕ
  deriving DecidableEq

def FrameHeader.pack (f : FrameHeader) : Option Bytes :=
  Struct.pack frameHeaderLayout (f.index, f.frameType, f.ciphertextLength, ())

def parseFrameHeader (data : Bytes) : Except PyError FrameHeader := do
  let (index, frameType, ciphertextLength, ()) ←
    Struct.parse frameHeaderLayout data (.archiveFormat "MSC2 frame header is truncated")
  raiseIf (frameType ∉ [frameManifest, frameData])
    (.archiveFormat ("MSC2 frame type is unknown: " ++ toString frameType))
  raiseIf (ciphertextLength < aeadTagLength)
    (.archiveFormat "MSC2 frame ciphertext length is invalid")
  pure { index, frameType, ciphertextLength }

/-- The frame headers `parse_frame_header` accepts. -/
structure FrameHeader.Valid (f : FrameHeader) : Prop where
  index : f.index < 256 ^ 8
  frameType : f.frameType = frameManifest ∨ f.frameType = frameData
  tag_le : aeadTagLength ≤ f.ciphertextLength
  length_lt : f.ciphertextLength < 256 ^ 4

/-- The parser accepts exactly the packed valid frame headers. -/
theorem parseFrameHeader_eq_ok {data : Bytes} {f : FrameHeader} :
    parseFrameHeader data = .ok f ↔ f.Valid ∧ f.pack = some data := by
  simp only [parseFrameHeader, bind_eq_ok_iff, Struct.parse_eq_ok]
  constructor
  · rintro ⟨⟨index, frameType, ciphertextLength, ⟨⟩⟩, ⟨hexact, hpack⟩, hrest⟩
    simp only [bind_eq_ok_iff, raiseIf_eq_ok, not_not, not_lt, exists_and_left, exists_const, pure,
      Except.pure, ok.injEq, List.mem_cons, List.not_mem_nil, or_false] at hrest
    obtain ⟨htype, htag, rfl⟩ := hrest
    exact ⟨⟨hexact.1, htype, htag, hexact.2.2.1⟩, hpack⟩
  · rintro ⟨hvalid, hpack⟩
    have htype : f.frameType < 256 ^ 1 := by
      rcases hvalid.frameType with h | h <;> rw [h] <;> decide
    have hexact : Struct.Exact frameHeaderLayout (f.index, f.frameType, f.ciphertextLength, ()) :=
      ⟨hvalid.index, htype, hvalid.length_lt, trivial⟩
    refine ⟨_, ⟨hexact, hpack⟩, ?_⟩
    simp only [bind_eq_ok_iff, raiseIf_eq_ok, not_not, not_lt, exists_and_left, exists_const, pure,
      Except.pure, List.mem_cons, List.not_mem_nil, or_false]
    exact ⟨hvalid.frameType, hvalid.tag_le, trivial⟩

/-- `frame_nonce(prefix, index)`; `int.to_bytes` fails where the index does not
fit eight bytes. -/
def frameNonce (noncePrefix : Bytes) (index : ℕ) : Except PyError Bytes := do
  raiseIf (noncePrefix.length ≠ noncePrefixLength)
    (.value "MSC2 nonce prefix must be four bytes")
  raiseIf (256 ^ 8 ≤ index) (.runtime "int too big to convert")
  pure (noncePrefix ++ beBytes 8 index)

end MosaicArchive.Container
