import MosaicArchive.Authenticated.Format
import MosaicArchive.Bytes.Redirect
import MosaicArchive.Core.Encode
import MosaicArchive.Crypto.Aead

/-!
The writer of the `M7A0` envelope. The bytes of the core stream are collected
into payloads of the maximum size, each of which is padded, sealed and written
as one record; the footer seals the totals and the hashes of the whole.
-/

namespace MosaicArchive.Authenticated

open FixedWidth Sha256 MosaicArchive.Core

/-! ### Keys and random bytes -/

/-- The key derivation: which parameters it accepts, and the key for a password
and salt. -/
structure Kdf where
  params : ℕ → Bool
  derive : Bytes → Bytes → ℕ → Option Bytes

structure Suite where
  aead : Aead
  kdf : Kdf

/-- The key derivation works for every supported cost. -/
def Kdf.Available (kdf : Kdf) : Prop :=
  ∀ kdfLogN, minKdfLogN ≤ kdfLogN → kdfLogN ≤ maxKdfLogN →
    kdf.params kdfLogN ∧ ∀ password salt, (kdf.derive password salt kdfLogN).isSome

/-- The random bytes of one run: the two fields of the header and the padding of
each record. -/
structure Randomness where
  salt : Option Bytes
  noncePrefix : Option Bytes
  padding : ℕ → ℕ → Option Bytes
  salt_length : ∀ b, salt = some b → b.length = 16
  noncePrefix_length : ∀ b, noncePrefix = some b → b.length = 4
  padding_length : ∀ index n b, padding index n = some b → b.length = n

structure Randomness.Available (random : Randomness) : Prop where
  salt : random.salt.isSome
  noncePrefix : random.noncePrefix.isSome
  padding : ∀ index n, (random.padding index n).isSome

def Header.generate (random : Randomness) (kdfLogN : ℕ) : Except Error Header :=
  match random.salt, random.noncePrefix with
  | some salt, some noncePrefix => Header.fromParts salt noncePrefix kdfLogN
  | _, _ => .error randomnessUnavailable

def deriveCipher (suite : Suite) (password : Bytes) (header : Header) (decoding : Bool) :
    Except Error Bytes :=
  if ¬ suite.kdf.params header.kdfLogN then
    .error (if decoding then .authentication else .invalidOptions "scrypt parameters are invalid")
  else
    match suite.kdf.derive password header.salt header.kdfLogN with
    | none => .error (if decoding then .authentication else .codec "scrypt key derivation failed")
    | some key => .ok key

/-- A header that was generated is read back as it is. -/
theorem Header.generate_inv {random : Randomness} {kdfLogN : ℕ} {header : Header}
    (h : Header.generate random kdfLogN = .ok header) :
    header.bytes.length = headerSize ∧ Header.parse header.bytes = .ok header ∧
      header.kdfLogN = kdfLogN ∧ minKdfLogN ≤ kdfLogN ∧ kdfLogN ≤ maxKdfLogN := by
  unfold Header.generate at h
  rcases hsalt : random.salt with _ | salt
  · rw [hsalt] at h
    cases h
  · rcases hnonce : random.noncePrefix with _ | noncePrefix
    · rw [hsalt, hnonce] at h
      cases h
    · rw [hsalt, hnonce] at h
      have hsaltLength := random.salt_length _ hsalt
      have hnonceLength := random.noncePrefix_length _ hnonce
      unfold Header.fromParts at h
      dsimp only at h
      rcases hkdf : validateKdfLogN kdfLogN .invalidOptions with e | _
      · rw [hkdf] at h
        cases h
      · rw [hkdf] at h
        obtain rfl := Except.ok.inj h
        have hbounds := validateKdfLogN_ok hkdf
        exact ⟨serializeHeader_length hsaltLength hnonceLength kdfLogN,
          Header.parse_serializeHeader hsaltLength hnonceLength hbounds, rfl, hbounds⟩

/-- Both directions derive the same key. -/
theorem deriveCipher_decoding {suite : Suite} {password key : Bytes} {header : Header}
    (h : deriveCipher suite password header false = .ok key) :
    deriveCipher suite password header true = .ok key := by
  unfold deriveCipher at *
  by_cases hparams : suite.kdf.params header.kdfLogN
  · rw [if_neg (not_not.mpr hparams)] at h ⊢
    rcases hkey : suite.kdf.derive password header.salt header.kdfLogN with _ | derived
    · rw [hkey] at h
      cases h
    · rw [hkey] at h
      exact h
  · rw [if_pos hparams] at h
    cases h

/-! ### Errors as a writer reports them -/

/-- `impl fmt::Display for Error` -/
def display : Error → String
  | .io error => "I/O error: " ++ error.message
  | .invalidOptions message => "invalid options: " ++ message
  | .invalidFormat message => "invalid native preview stream: " ++ message
  | .codec message => "codec error: " ++ message
  | .authentication => "authentication failed"

def errorIntoIo : Error → IoError
  | .io error => error
  | other => { kind := .other, message := display other }

/-! ### The writer -/

structure AuthenticatedEncodeOptions where
  core : EncodeOptions
  kdfLogN : ℕ

structure AuthenticatedStats where
  core : StreamStats
  archiveBytes : ℕ
  dataRecords : ℕ
  paddingBytes : ℕ
  authenticationBytes : ℕ
  deriving DecidableEq

/-- The fields of the writer, the hashers as what they were fed. `log` has no
counterpart in the source: it lists the calls of `encrypt`. -/
structure AuthenticatedWriter where
  key : Bytes
  header : Header
  noncePrefix : Bytes
  pending : Bytes
  nextIndex : ℕ
  corePlaintextBytes : ℕ
  coreHashed : Bytes
  transcript : Bytes
  archiveBytes : ℕ
  dataRecords : ℕ
  paddingBytes : ℕ
  authenticationBytes : ℕ
  log : List Aead.Sealed

namespace AuthenticatedWriter

/-- The fields a new writer starts with. -/
def initial (key : Bytes) (header : Header) : AuthenticatedWriter where
  key := key
  header := header
  noncePrefix := header.noncePrefix
  pending := []
  nextIndex := 0
  corePlaintextBytes := 0
  coreHashed := []
  transcript := newTranscript header
  archiveBytes := headerSize
  dataRecords := 0
  paddingBytes := 0
  authenticationBytes := 0
  log := []

def new (suite : Suite) (random : Randomness) (password : Bytes) (kdfLogN : ℕ) :
    IoProgram Error AuthenticatedWriter := do
  let header ← .ofExcept (Header.generate random kdfLogN)
  let key ← .ofExcept (deriveCipher suite password header false)
  writeAll [header.bytes]
  return initial key header

def writeEncryptedRecord (suite : Suite) (w : AuthenticatedWriter) (kind : UInt8)
    (plaintext : Bytes) (includeInTranscript : Bool) : IoProgram Error AuthenticatedWriter := do
  let ciphertextLen := plaintext.length + aeadTagSize
  let record ← .ofExcept (RecordHeader.new w.nextIndex kind ciphertextLen)
  let nonceBytes := nonce w.noncePrefix w.nextIndex
  let aadBytes := aad w.header record
  let ciphertext ← .ofOption (suite.aead.encrypt w.key nonceBytes aadBytes plaintext)
    (.codec "authenticated encryption failed")
  .require (ciphertext.length = ciphertextLen)
    (.codec "authenticated encryption returned an invalid size")
  writeAll [record.bytes, ciphertext]
  let archiveBytes ← checkedAdd 64 w.archiveBytes (recordHeaderSize + ciphertext.length)
    (.codec "authenticated archive size overflows")
  let authenticationBytes ← checkedAdd 64 w.authenticationBytes aeadTagSize
    (.codec "authentication-byte count overflows")
  let nextIndex ← checkedAdd 64 w.nextIndex 1 (.codec "authenticated record index overflows")
  return { w with
    transcript :=
      if includeInTranscript then w.transcript ++ (record.bytes ++ ciphertext) else w.transcript
    archiveBytes := archiveBytes
    authenticationBytes := authenticationBytes
    nextIndex := nextIndex
    log := w.log ++ [⟨nonceBytes, aadBytes, plaintext, ciphertext⟩] }

def sealDataRecord (suite : Suite) (random : Randomness) (w : AuthenticatedWriter) :
    IoProgram Error AuthenticatedWriter :=
  if w.pending.isEmpty then .ret w
  else do
    let (plaintext, paddingBytes) ←
      .ofExcept (dataPlaintext (random.padding w.nextIndex) w.pending)
    let w ← writeEncryptedRecord suite { w with pending := [] } dataRecordKind plaintext true
    let dataRecords ← checkedAdd 64 w.dataRecords 1
      (.codec "authenticated data-record count overflows")
    let paddingBytes ← checkedAdd 64 w.paddingBytes paddingBytes
      (.codec "authenticated padding count overflows")
    return { w with dataRecords := dataRecords, paddingBytes := paddingBytes }

/-- The end of a round of `write`: a full payload is sealed. -/
def sealFullPayload (suite : Suite) (random : Randomness) (w : AuthenticatedWriter) :
    IoProgram Error AuthenticatedWriter :=
  if w.pending.length = maxDataPayload then
    (sealDataRecord suite random w).mapError fun error => .io (errorIntoIo error)
  else .ret w

/-- The loop of `write`. Each round takes at least one byte of the buffer, since
a full payload is sealed at once. -/
def writeLoop (suite : Suite) (random : Randomness) :
    ℕ → AuthenticatedWriter → Bytes → IoProgram Error AuthenticatedWriter
  | 0, w, _ => .ret w
  | rounds + 1, w, buffer =>
      if buffer.isEmpty then .ret w
      else do
        let copied := min (maxDataPayload - w.pending.length) buffer.length
        let chunk := buffer.take copied
        let corePlaintextBytes ← checkedAdd 64 w.corePlaintextBytes copied
          (.io { kind := .other, message := "inner plaintext byte count overflows" })
        let w ← sealFullPayload suite random { w with
          pending := w.pending ++ chunk
          coreHashed := w.coreHashed ++ chunk
          corePlaintextBytes := corePlaintextBytes }
        writeLoop suite random rounds w (buffer.drop copied)

/-- One call of `write`. -/
def write (suite : Suite) (random : Randomness) (w : AuthenticatedWriter) (buffer : Bytes) :
    IoProgram Error AuthenticatedWriter :=
  writeLoop suite random buffer.length w buffer

/-- The footer of the writer's totals. -/
def footer (w : AuthenticatedWriter) (core : StreamStats) : Footer where
  coreRecordCount := w.dataRecords
  corePlaintextBytes := w.corePlaintextBytes
  originalBytes := core.originalBytes
  segments := core.segments
  innerRecords := core.records
  innerHash := sha256 w.coreHashed
  transcriptHash := sha256 w.transcript

/-- `finish`, with the final writer. -/
def finish (suite : Suite) (random : Randomness) (w : AuthenticatedWriter) (core : StreamStats) :
    IoProgram Error (AuthenticatedStats × AuthenticatedWriter) := do
  let w ← sealDataRecord suite random w
  .require (¬ (w.dataRecords = 0 ∨ w.corePlaintextBytes ≠ core.encodedBytes))
    (.codec "inner compression statistics do not match the authenticated stream")
  let (plaintext, footerPadding) ←
    .ofExcept (paddedFooter (random.padding w.nextIndex) (w.footer core))
  let w ← writeEncryptedRecord suite w footerRecordKind plaintext false
  let paddingBytes ← checkedAdd 64 w.paddingBytes footerPadding
    (.codec "authenticated padding count overflows")
  let stats : AuthenticatedStats := {
    core := core
    archiveBytes := w.archiveBytes
    dataRecords := w.dataRecords
    paddingBytes := paddingBytes
    authenticationBytes := w.authenticationBytes }
  return (stats, w)

end AuthenticatedWriter

def validatePassword (password : Bytes) : IoProgram Error Unit :=
  .require (password ≠ []) (.invalidOptions "password must not be empty")

/-- `encode_authenticated`, with the final writer. -/
def encodeSealed (suite : Suite) (codecs : Codecs) (build : ℕ → Option WorkerPool)
    (random : Randomness) (password : Bytes) (options : AuthenticatedEncodeOptions)
    (input : Reads) : IoProgram Error (AuthenticatedStats × AuthenticatedWriter) := do
  validatePassword password
  validateEncodeOptions options.core
  let w ← AuthenticatedWriter.new suite random password options.kdfLogN
  let (core, w) ←
    (encode codecs build options.core input).redirect (AuthenticatedWriter.write suite random) w
  w.finish suite random core

def encodeAuthenticated (suite : Suite) (codecs : Codecs) (build : ℕ → Option WorkerPool)
    (random : Randomness) (password : Bytes) (options : AuthenticatedEncodeOptions)
    (input : Reads) : IoProgram Error AuthenticatedStats := do
  let (stats, _) ← encodeSealed suite codecs build random password options input
  return stats

/-- A run of the encoder: its result and what it wrote. -/
def encodeAuthenticatedRun (suite : Suite) (codecs : Codecs) (build : ℕ → Option WorkerPool)
    (random : Randomness) (password : Bytes) (options : AuthenticatedEncodeOptions)
    (input : Reads) : IoRun ByteSource Error AuthenticatedStats :=
  (encodeAuthenticated suite codecs build random password options input).eval (.ofBytes [])

end MosaicArchive.Authenticated
