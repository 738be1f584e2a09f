import MosaicArchive.Container.Frames
import MosaicArchive.Container.InnerStream
import MosaicArchive.Source.Bindings

/-!
One-file MSC1 archives (`mosaic_archive/archive.py`, `container_format.py` and `crypto.py`): a
public header and one ciphertext. The encoder reads the file through a source session and cuts it
into blocks; the decoder opens the archive, parses the payload and decodes block after block.
-/

namespace MosaicArchive.Container

open FixedWidth MosaicArchive.Manifest MosaicArchive.Modes MosaicArchive.Source
open Utf8 (Text encode)
open Except (raiseIf)
open Routine (lift)

/-! ### The public header -/

/-- `b"MSC1"` -/
def msc1Magic : Bytes := [0x4d, 0x53, 0x43, 0x31]
def msc1Version : ℕ := 1
def flagPadded : ℕ := 1
def nonceLength : ℕ := 12

/-- `struct.Struct(">4sBBBBII16s12sBBBQ")` -/
def publicHeaderLayout : Struct.Layout :=
  [.bytes 4, .uint 1, .uint 1, .uint 1, .uint 1, .uint 4, .uint 4, .bytes 16, .bytes 12, .uint 1,
    .uint 1, .uint 1, .uint 8]

structure PublicHeader where
  version : ℕ
  flags : ℕ
  kdfId : ℕ
  aeadId : ℕ
  chunkSize : ℕ
  paddingSize : ℕ
  salt : Bytes
  nonce : Bytes
  kdfLogN : ℕ
  kdfR : ℕ
  kdfP : ℕ
  ciphertextLength : ℕ
  deriving DecidableEq

def PublicHeader.pack (h : PublicHeader) : Option Bytes :=
  Struct.pack publicHeaderLayout (msc1Magic, h.version, h.flags, h.kdfId, h.aeadId, h.chunkSize,
    h.paddingSize, h.salt, h.nonce, h.kdfLogN, h.kdfR, h.kdfP, h.ciphertextLength, ())

def validatePublicHeader (h : PublicHeader) : Except PyError Unit := do
  raiseIf (h.version ≠ msc1Version)
    (.unsupportedVersion ("unsupported MSC version: " ++ toString h.version))
  raiseIf (h.flags ≠ flagPadded) (.archiveFormat "archive uses unsupported header flags")
  raiseIf (h.kdfId ≠ kdfScrypt ∨ h.aeadId ≠ aeadChacha20Poly1305)
    (.archiveFormat "archive uses unsupported cryptographic algorithms")
  raiseIf (¬ (1 ≤ h.chunkSize ∧ h.chunkSize ≤ maxChunkSize))
    (.archiveFormat "archive chunk size is outside the supported range")
  raiseIf (¬ (256 ≤ h.paddingSize ∧ h.paddingSize ≤ maxPaddingSize))
    (.archiveFormat "archive padding size is outside the supported range")
  raiseIf (h.salt.length ≠ saltLength ∨ h.nonce.length ≠ nonceLength)
    (.archiveFormat "archive salt or nonce has an invalid size")
  raiseIf (¬ (14 ≤ h.kdfLogN ∧ h.kdfLogN ≤ 18))
    (.archiveFormat "archive scrypt cost is outside the supported range")
  raiseIf (h.kdfR ≠ 8 ∨ h.kdfP ≠ 1)
    (.archiveFormat "archive scrypt parameters are outside the supported range")
  raiseIf (h.ciphertextLength < aeadTagLength)
    (.archiveFormat "archive ciphertext length is invalid")

def parsePublicHeader (data : Bytes) : Except PyError PublicHeader := do
  let (magic, version, flags, kdfId, aeadId, chunkSize, paddingSize, salt, nonce, kdfLogN, kdfR,
    kdfP, ciphertextLength, ()) ←
      Struct.parse publicHeaderLayout data (.archiveFormat "archive public header is truncated")
  raiseIf (magic ≠ msc1Magic) (.archiveFormat "not a Mosaic Archive (missing MSC1 magic)")
  let header : PublicHeader :=
    { version, flags, kdfId, aeadId, chunkSize, paddingSize, salt, nonce, kdfLogN, kdfR, kdfP,
      ciphertextLength }
  validatePublicHeader header
  pure header

/-- The headers `parse_public_header` accepts. -/
structure PublicHeader.Valid (h : PublicHeader) : Prop where
  version : h.version = msc1Version
  flags : h.flags = flagPadded
  kdfId : h.kdfId = kdfScrypt
  aeadId : h.aeadId = aeadChacha20Poly1305
  chunkSize : 1 ≤ h.chunkSize ∧ h.chunkSize ≤ maxChunkSize
  paddingSize : 256 ≤ h.paddingSize ∧ h.paddingSize ≤ maxPaddingSize
  salt : h.salt.length = saltLength
  nonce : h.nonce.length = nonceLength
  kdfLogN : 14 ≤ h.kdfLogN ∧ h.kdfLogN ≤ 18
  kdfR : h.kdfR = 8
  kdfP : h.kdfP = 1
  ciphertextLength : aeadTagLength ≤ h.ciphertextLength ∧ h.ciphertextLength < 256 ^ 8

theorem validatePublicHeader_eq_ok {h : PublicHeader} {r : Unit}
    (hlength : h.ciphertextLength < 256 ^ 8) : validatePublicHeader h = .ok r ↔ h.Valid := by
  simp only [validatePublicHeader, Except.bind_eq_ok_iff, Except.raiseIf_eq_ok, not_not, not_or,
    not_lt, exists_and_left, exists_const]
  constructor
  · rintro ⟨h₁, h₂, ⟨h₃, h₄⟩, h₅, h₆, ⟨h₇, h₈⟩, h₉, ⟨h₁₀, h₁₁⟩, h₁₂⟩
    exact ⟨h₁, h₂, h₃, h₄, h₅, h₆, h₇, h₈, h₉, h₁₀, h₁₁, h₁₂, hlength⟩
  · intro hv
    exact ⟨hv.version, hv.flags, ⟨hv.kdfId, hv.aeadId⟩, hv.chunkSize, hv.paddingSize,
      ⟨hv.salt, hv.nonce⟩, hv.kdfLogN, ⟨hv.kdfR, hv.kdfP⟩, hv.ciphertextLength.1⟩

theorem PublicHeader.Valid.exact {h : PublicHeader} (hv : h.Valid) :
    Struct.Exact publicHeaderLayout (msc1Magic, h.version, h.flags, h.kdfId, h.aeadId,
      h.chunkSize, h.paddingSize, h.salt, h.nonce, h.kdfLogN, h.kdfR, h.kdfP, h.ciphertextLength,
      ()) := by
  obtain ⟨h₁, h₂, h₃, h₄, h₅, h₆, h₇, h₈, h₉, h₁₀, h₁₁, h₁₂⟩ := hv
  simp only [msc1Version, flagPadded, kdfScrypt, aeadChacha20Poly1305, maxChunkSize,
    maxPaddingSize] at h₁ h₂ h₃ h₄ h₅ h₆
  simp only [publicHeaderLayout, Struct.exact_cons, Struct.Field.exact_uint,
    Struct.Field.exact_bytes, Struct.exact_nil]
  refine ⟨rfl, ?_, ?_, ?_, ?_, ?_, ?_, h₇, h₈, ?_, ?_, ?_, h₁₂.2, trivial⟩ <;> omega

/-- The parser accepts exactly the packed valid headers. -/
theorem parsePublicHeader_eq_ok {data : Bytes} {h : PublicHeader} :
    parsePublicHeader data = .ok h ↔ h.Valid ∧ h.pack = some data := by
  simp only [parsePublicHeader, Except.bind_eq_ok_iff, Struct.parse_eq_ok]
  constructor
  · rintro ⟨⟨magic, version, flags, kdfId, aeadId, chunkSize, paddingSize, salt, nonce, kdfLogN,
      kdfR, kdfP, ciphertextLength, ⟨⟩⟩, ⟨hexact, hpack⟩, hrest⟩
    have hlength : ciphertextLength < 256 ^ 8 := by
      simp only [publicHeaderLayout, Struct.exact_cons, Struct.Field.exact_uint] at hexact
      exact hexact.2.2.2.2.2.2.2.2.2.2.2.2.1
    simp only [Except.bind_eq_ok_iff, Except.raiseIf_eq_ok, not_not, exists_and_left, exists_const,
      pure, Except.pure, Except.ok.injEq] at hrest
    obtain ⟨rfl, _, hvalid, rfl⟩ := hrest
    exact ⟨(validatePublicHeader_eq_ok hlength).mp hvalid, hpack⟩
  · rintro ⟨hvalid, hpack⟩
    refine ⟨_, ⟨hvalid.exact, hpack⟩, ?_⟩
    simp only [Except.bind_eq_ok_iff, Except.raiseIf_eq_ok, not_not, exists_and_left, exists_const,
      pure, Except.pure]
    exact ⟨trivial, (), (validatePublicHeader_eq_ok hvalid.ciphertextLength.2).mpr hvalid, trivial⟩

/-! ### Keys -/

/-- `str | bytes` -/
inductive Password where
  | text (password : Text)
  | bytes (password : Bytes)

def Password.encoded : Password → Bytes
  | text password => encode password
  | bytes password => password

def normalizePassword (password : Password) : Except PyError Bytes := do
  raiseIf (password.encoded = []) (.value "password must not be empty")
  .ok password.encoded

/-- `Scrypt(salt=salt, length=32, n=1 << log_n, r=r, p=p).derive(password)`, by password, salt,
`log_n`, `r` and `p`. -/
abbrev Scrypt := Bytes → Bytes → ℕ → ℕ → ℕ → Except PyError Bytes

def deriveKey (scrypt : Scrypt) (password : Password) (salt : Bytes) (logN r p : ℕ) :
    Except PyError Bytes := do
  raiseIf (salt.length ≠ saltLength) (.value "scrypt salt must be 16 bytes")
  let normalized ← normalizePassword password
  scrypt normalized salt logN r p

/-- What `os.urandom` gives one run of the encoder. -/
structure Draws where
  salt : Bytes
  nonce : Bytes
  padding : Urandom
  salt_length : salt.length = saltLength
  nonce_length : nonce.length = nonceLength

/-! ### Encoding -/

structure EncodeOptions where
  chunkSize : ℕ := 65536
  paddingSize : ℕ := 4096
  kdfLogN : ℕ := 15
  kdfR : ℕ := 8
  kdfP : ℕ := 1

def validateEncodeOptions (o : EncodeOptions) : Except PyError Unit := do
  raiseIf (¬ (1 ≤ o.chunkSize ∧ o.chunkSize ≤ 16 * 1024 * 1024))
    (.value "chunk size must be between 1 byte and 16 MiB")
  raiseIf (¬ (256 ≤ o.paddingSize ∧ o.paddingSize ≤ 16 * 1024 * 1024))
    (.value "padding size must be between 256 bytes and 16 MiB")
  raiseIf (¬ (14 ≤ o.kdfLogN ∧ o.kdfLogN ≤ 18)) (.value "scrypt log2(N) must be between 14 and 18")
  raiseIf (o.kdfR ≠ 8 ∨ o.kdfP ≠ 1) (.value "MSC1 supports only scrypt r=8 and p=1")

/-- `while block := source.read(chunk_size)`: every block but the last is full. -/
def readBlocks (chunkSize : ℕ) (data : Bytes) : List Bytes :=
  if chunkSize = 0 ∨ data = [] then []
  else data.take chunkSize :: readBlocks chunkSize (data.drop chunkSize)
  termination_by data.length
  decreasing_by
    rename_i h
    push Not at h
    have hpos : 0 < data.length := List.length_pos_iff.mpr h.2
    rw [List.length_drop]
    omega

section

variable (zlib : Zlib) (cipher : Aead) (scrypt : Scrypt)

/-- The record of each block. -/
def encodeRecords : List Bytes → Except PyError (List EncodedRecord)
  | [] => .ok []
  | block :: blocks => do
      let selected ← chooseBestMode zlib.encoder block
      let records ← encodeRecords blocks
      .ok (⟨selected.mode.toNat, block.length, selected.payload⟩ :: records)

/-- The stream of the records. -/
def writeInner (name : Text) (data : Bytes) (records : List EncodedRecord) :
    Except PyError Bytes := do
  raiseIf (maxBlockCount < records.length) (.value "input produces too many blocks for MSC1")
  raiseIf (65535 < (encode name).length) (.value "input filename is too long for MSC1")
  ofOption (InnerStream.pack ⟨name, data.length, sha256 data, records⟩) .struct

/-- The part of `encode_file` after the stream is built: the bytes of the archive. -/
def sealInner (draws : Draws) (password : Password) (o : EncodeOptions) (inner : Bytes) :
    Except PyError Bytes := do
  let padded ← padPayload draws.padding inner o.paddingSize
  let header : PublicHeader :=
    { version := msc1Version, flags := flagPadded, kdfId := kdfScrypt,
      aeadId := aeadChacha20Poly1305, chunkSize := o.chunkSize, paddingSize := o.paddingSize,
      salt := draws.salt, nonce := draws.nonce, kdfLogN := o.kdfLogN, kdfR := o.kdfR,
      kdfP := o.kdfP, ciphertextLength := padded.length + aeadTagLength }
  let associatedData ← ofOption header.pack .struct
  let key ← deriveKey scrypt password draws.salt o.kdfLogN o.kdfR o.kdfP
  let ciphertext ← ofOption (cipher.encrypt key draws.nonce associatedData padded)
    (.runtime "encrypt")
  .ok (associatedData ++ ciphertext)

section

variable (u : Unicode) (env : CallHistory.Environment Source.Call Source.Reply)
  (platform : Platform)

/-- `_build_inner_stream` -/
def buildInnerStream (s : SourceSession) (chunkSize : ℕ) : Source.Run Bytes := do
  let (data, records) ← s.openFile env platform [] fun descriptor => do
    let reads ← readAll env descriptor
    let records ← lift (ofPython (encodeRecords zlib (readBlocks chunkSize reads.data)))
    pure (reads.data, records)
  lift (ofPython (writeInner (s.source.getLastD []) data records))

/-- `encode_file`, from the capture of the source to the bytes of the archive; a session is
captured and verified with bounds on the directories visited. -/
def encodeFile (directories : ℕ) (inputPath : Text) (password : Password) (o : EncodeOptions)
    (draws : Draws) : Source.Run Bytes := do
  let s ← SourceSession.capture env u directories (posixParts inputPath)
  Routine.raiseIf (s.rootIsFile = false)
    (.fileNotFound ("input file does not exist: " ++ String.ofList inputPath))
  let _ ← lift (ofPython (normalizePassword password))
  lift (ofPython (validateEncodeOptions o))
  let inner ← buildInnerStream zlib env platform s o.chunkSize
  let archive ← lift (ofPython (sealInner cipher scrypt draws password o inner))
  -- `_write_atomic` verifies the source before it replaces the destination
  s.verifyBindings env directories
  pure archive

end

/-! ### Decoding -/

def validateDecodeLimits (limits : DecodeLimits) : Except PyError Unit := do
  raiseIf (limits.maxOutputSize < 0) (.value "maximum restored size must not be negative")
  raiseIf (limits.maxFrameCount ≤ 0) (.value "maximum frame count must be positive")
  raiseIf (limits.maxArchiveSize ≤ 0) (.value "maximum legacy archive size must be positive")

/-- `_DecodedArchive` -/
structure DecodedArchive extends InnerStream where
  compressedSize : ℕ
  paddedPlaintextSize : ℕ
  header : PublicHeader
  archiveSize : ℕ

/-- `_open_archive` -/
def openArchive (limits : DecodeLimits) (password : Password) (archive : Bytes) :
    Except PyError DecodedArchive := do
  validateDecodeLimits limits
  let _ ← normalizePassword password
  raiseIf (limits.maxArchiveSize < archive.length)
    (.archiveFormat "MSC1 archive exceeds the legacy decode limit")
  let associatedData := archive.take (Struct.size publicHeaderLayout)
  let header ← parsePublicHeader associatedData
  raiseIf (archive.length ≠ Struct.size publicHeaderLayout + header.ciphertextLength)
    (.archiveFormat "archive size does not match its public header")
  let ciphertext := (archive.drop (Struct.size publicHeaderLayout)).take header.ciphertextLength
  let key ← deriveKey scrypt password header.salt header.kdfLogN header.kdfR header.kdfP
  let padded ← ofOption (cipher.decrypt key header.nonce associatedData ciphertext)
    (.authentication "wrong password or archive was modified")
  raiseIf (padded.length % header.paddingSize ≠ 0)
    (.archiveFormat "decrypted payload violates its padding policy")
  let inner ← unpadPayload padded
  let stream ← parseInner limits header.chunkSize inner
  .ok ⟨stream, inner.length, padded.length, header, archive.length⟩

/-- `_decode_records`: what is written to the sink -/
def decodeRecords : List EncodedRecord → Except PyError Bytes
  | [] => .ok []
  | r :: records => do
      let mode ← getMode r.modeId
      let block ← mode.decode zlib r.payload r.originalSize
      let rest ← decodeRecords records
      .ok (block ++ rest)

/-- `decode_file`: the bytes the destination is replaced with -/
def decodeFile (limits : DecodeLimits) (password : Password) (archive : Bytes) :
    Except PyError Bytes := do
  let decoded ← openArchive cipher scrypt limits password archive
  let restored ← decodeRecords zlib decoded.records
  raiseIf (sha256 restored ≠ decoded.expectedHash)
    (.integrity "restored file failed SHA-256 verification")
  .ok restored

/-- `inspect_archive`: what it verified -/
def inspectArchive (limits : DecodeLimits) (password : Password) (archive : Bytes) :
    Except PyError DecodedArchive := do
  let decoded ← openArchive cipher scrypt limits password archive
  let restored ← decodeRecords zlib decoded.records
  raiseIf (sha256 restored ≠ decoded.expectedHash)
    (.integrity "archive failed SHA-256 verification")
  .ok decoded

end

end MosaicArchive.Container
