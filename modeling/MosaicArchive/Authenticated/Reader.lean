import MosaicArchive.Authenticated.Writer
import MosaicArchive.Core.Decode

/-!
The reader of the `M7A0` envelope. It hands the payloads of the records to the
core decoder as one stream and loads a record only when the decoder asks for
more; the footer is loaded by the probe at the end of the core stream.
-/

namespace MosaicArchive.Authenticated

open FixedWidth Sha256 MosaicArchive.Core

structure AuthenticatedDecodeOptions where
  core : DecodeOptions
  maxArchiveBytes : ℕ
  maxDataRecords : ℕ
  maxKdfLogN : ℕ

def defaultMaxAuthenticatedArchiveBytes : ℕ := defaultMaxEncodedBytes + 64 * 1024 * 1024
def defaultMaxAuthenticatedDataRecords : ℕ := 1000000
def minAuthenticatedArchiveBytes : ℕ :=
  headerSize + 2 * recordHeaderSize + 2 * (paddingQuantum + aeadTagSize)

/-- `impl Default for AuthenticatedDecodeOptions` -/
def AuthenticatedDecodeOptions.default : AuthenticatedDecodeOptions where
  core := .default
  maxArchiveBytes := defaultMaxAuthenticatedArchiveBytes
  maxDataRecords := defaultMaxAuthenticatedDataRecords
  maxKdfLogN := defaultKdfLogN

/-- The fields of the reader that loading a record changes, the hashers as what
they were fed. -/
structure EnvelopeState where
  key : Bytes
  header : Header
  noncePrefix : Bytes
  options : AuthenticatedDecodeOptions
  nextIndex : ℕ
  corePlaintextBytes : ℕ
  coreHashed : Bytes
  transcript : Bytes
  archiveBytes : ℕ
  dataRecords : ℕ
  paddingBytes : ℕ
  authenticationBytes : ℕ
  footer : Option Footer
  finished : Bool

namespace EnvelopeState

/-- The fields a new reader starts with. -/
def initial (key : Bytes) (header : Header) (options : AuthenticatedDecodeOptions) :
    EnvelopeState where
  key := key
  header := header
  noncePrefix := header.noncePrefix
  options := options
  nextIndex := 0
  corePlaintextBytes := 0
  coreHashed := []
  transcript := newTranscript header
  archiveBytes := headerSize
  dataRecords := 0
  paddingBytes := 0
  authenticationBytes := 0
  footer := none
  finished := false

def ensureArchiveRoom (st : EnvelopeState) (additional : ℕ) : IoProgram Error Unit := do
  let next ← checkedAdd 64 st.archiveBytes additional
    (.invalidFormat "authenticated archive byte count overflows")
  .require (next ≤ st.options.maxArchiveBytes)
    (.invalidFormat "authenticated archive byte limit is exceeded")

def readOuterExact (st : EnvelopeState) (n : ℕ) (message : String) :
    IoProgram Error (Bytes × EnvelopeState) := do
  ensureArchiveRoom st n
  let buffer ← readExactFormat n message
  let archiveBytes ← checkedAdd 64 st.archiveBytes n
    (.invalidFormat "authenticated archive byte count overflows")
  return (buffer, { st with archiveBytes := archiveBytes })

def validateCiphertextBound (st : EnvelopeState) (record : RecordHeader) : Except Error Unit :=
  if record.kind = dataRecordKind then
    if st.footer.isSome ∨ st.dataRecords ≥ st.options.maxDataRecords then
      .error (.invalidFormat "authenticated data-record ceiling is exceeded")
    else if record.ciphertextLen < 1024 + aeadTagSize ∨
        record.ciphertextLen > maxDataCiphertextLen ∨
        (record.ciphertextLen - aeadTagSize) % 1024 ≠ 0 then
      .error (.invalidFormat "authenticated data-record size is invalid")
    else .ok ()
  else if record.kind = footerRecordKind then
    if st.footer.isSome ∨ st.dataRecords = 0 ∨ record.ciphertextLen ≠ footerCiphertextLen then
      .error (.invalidFormat "authenticated footer record is invalid")
    else .ok ()
  else .error (.invalidFormat "authenticated record kind is unsupported")

/-- `accept_data`, with the payload that becomes the current one. -/
def acceptData (st : EnvelopeState) (record : RecordHeader) (ciphertext plaintext : Bytes) :
    IoProgram Error (EnvelopeState × Option Bytes) := do
  let (payload, paddingBytes) ← .ofExcept (parseDataPlaintext plaintext)
  let corePlaintextBytes ← checkedAdd 64 st.corePlaintextBytes payload.length
    (.invalidFormat "authenticated inner byte count overflows")
  let dataRecords ← checkedAdd 64 st.dataRecords 1
    (.invalidFormat "authenticated data-record count overflows")
  let paddingBytes ← checkedAdd 64 st.paddingBytes paddingBytes
    (.invalidFormat "authenticated padding count overflows")
  return ({ st with
    transcript := st.transcript ++ (record.bytes ++ ciphertext)
    coreHashed := st.coreHashed ++ payload
    corePlaintextBytes := corePlaintextBytes
    dataRecords := dataRecords
    paddingBytes := paddingBytes }, some payload)

def requirePhysicalEof (st : EnvelopeState) : IoProgram Error Unit := do
  let byte ← .probe .io .ret
  if byte.isEmpty then .ret ()
  else do
    ensureArchiveRoom st 1
    .fail (.invalidFormat "trailing bytes follow the authenticated footer")

/-- The totals and digests of a footer are those of the records. -/
def Confirms (st : EnvelopeState) (footer : Footer) : Prop :=
  footer.coreRecordCount = st.dataRecords ∧ footer.corePlaintextBytes = st.corePlaintextBytes ∧
    footer.innerHash = sha256 st.coreHashed ∧ footer.transcriptHash = sha256 st.transcript

instance (st : EnvelopeState) (footer : Footer) : Decidable (st.Confirms footer) :=
  inferInstanceAs (Decidable (_ ∧ _))

def acceptFooter (st : EnvelopeState) (plaintext : Bytes) :
    IoProgram Error (EnvelopeState × Option Bytes) := do
  let (footer, paddingBytes) ← .ofExcept (parsePaddedFooter plaintext)
  .require (st.Confirms footer)
    (.invalidFormat "authenticated footer totals or digests are inconsistent")
  let paddingBytes ← checkedAdd 64 st.paddingBytes paddingBytes
    (.invalidFormat "authenticated padding count overflows")
  requirePhysicalEof st
  return ({ st with paddingBytes := paddingBytes, footer := some footer, finished := true }, none)

/-- The payload of a data record, or nothing after the footer. A record that is
not accepted leaves the state as it was: after a failure only the failure is
looked at. -/
def acceptRecord (st : EnvelopeState) (record : RecordHeader) (ciphertext plaintext : Bytes) :
    IoProgram Error (EnvelopeState × Option Bytes) :=
  if record.kind = dataRecordKind then st.acceptData record ciphertext plaintext
  else if record.kind = footerRecordKind then st.acceptFooter plaintext
  else .fail (.invalidFormat "authenticated record kind is unsupported")

def loadNextRecord (suite : Suite) (st : EnvelopeState) :
    IoProgram Error (EnvelopeState × Option Bytes) := do
  let (recordBytes, st) ← st.readOuterExact recordHeaderSize
    "authenticated record header is truncated"
  let record ← .ofExcept (RecordHeader.parse recordBytes)
  .require (record.index = st.nextIndex)
    (.invalidFormat "authenticated record index is inconsistent")
  let _ ← .ofExcept (st.validateCiphertextBound record)
  st.ensureArchiveRoom record.ciphertextLen
  let (ciphertext, st) ← st.readOuterExact record.ciphertextLen
    "authenticated record ciphertext is truncated"
  let plaintext ← .ofOption (suite.aead.decrypt st.key (nonce st.noncePrefix st.nextIndex)
    (aad st.header record) ciphertext) .authentication
  let authenticationBytes ← checkedAdd 64 st.authenticationBytes aeadTagSize
    (.invalidFormat "authentication-byte count overflows")
  let (st, payload) ← acceptRecord { st with authenticationBytes := authenticationBytes } record
    ciphertext plaintext
  let nextIndex ← checkedAdd 64 st.nextIndex 1
    (.invalidFormat "authenticated record index overflows")
  return ({ st with nextIndex := nextIndex }, payload)

/-- `AuthenticatedReader::finish` -/
def finish (st : EnvelopeState) (core : StreamStats) : Except Error AuthenticatedStats :=
  match st.footer with
  | none => .error (.invalidFormat "authenticated footer was not consumed")
  | some footer =>
      if footer.corePlaintextBytes ≠ core.encodedBytes ∨
          footer.originalBytes ≠ core.originalBytes ∨ footer.segments ≠ core.segments ∨
          footer.innerRecords ≠ core.records then
        .error (.invalidFormat "authenticated footer does not match inner stream statistics")
      else
        .ok {
          core := core
          archiveBytes := st.archiveBytes
          dataRecords := st.dataRecords
          paddingBytes := st.paddingBytes
          authenticationBytes := st.authenticationBytes }

end EnvelopeState

/-! ### The reader -/

/-- The reader over a cipher of the suite. -/
structure AuthenticatedReader (suite : Suite) (ρ : Type) where
  reader : ρ
  state : EnvelopeState
  current : Bytes
  currentOffset : ℕ
  failure : Option Error

def readFailed : IoError :=
  { kind := .invalidData, message := "authenticated envelope read failed" }

def readPreviouslyFailed : IoError :=
  { kind := .invalidData, message := "authenticated envelope read previously failed" }

namespace AuthenticatedReader

variable {suite : Suite} {ρ : Type}

def new (reader : ρ) (state : EnvelopeState) : AuthenticatedReader suite ρ where
  reader := reader
  state := state
  current := []
  currentOffset := 0
  failure := none

/-- The exits of the loop of `read` that come before the next record is
loaded. -/
def serve (r : AuthenticatedReader suite ρ) (n : ℕ) :
    Option (Except IoError Bytes × AuthenticatedReader suite ρ) :=
  if r.currentOffset < r.current.length then
    let available := r.current.drop r.currentOffset
    let copied := min available.length n
    if r.currentOffset + copied = r.current.length then
      some (.ok (available.take copied), { r with current := [], currentOffset := 0 })
    else some (.ok (available.take copied), { r with currentOffset := r.currentOffset + copied })
  else if r.state.finished then some (.ok [], r)
  else if r.failure.isSome then some (.error readPreviouslyFailed, r)
  else none

/-- The loop of `read`. A record that was loaded carries data or ends the
stream, so the second round leaves it. -/
def readLoop [Reader ρ] :
    ℕ → AuthenticatedReader suite ρ → ℕ → Except IoError Bytes × AuthenticatedReader suite ρ
  | 0, r, _ => (.ok [], r)
  | rounds + 1, r, n =>
      match r.serve n with
      | some exit => exit
      | none =>
          match (r.state.loadNextRecord suite).run r.reader with
          | { result := .error error, reader := reader, .. } =>
              (.error readFailed, { r with reader := reader, failure := some error })
          | { result := .ok (state, some payload), reader := reader, .. } =>
              readLoop rounds
                { r with reader := reader, state := state, current := payload, currentOffset := 0 } n
          | { result := .ok (state, none), reader := reader, .. } =>
              readLoop rounds { r with reader := reader, state := state } n

/-- `impl Read for AuthenticatedReader` -/
def read [Reader ρ] (r : AuthenticatedReader suite ρ) (n : ℕ) :
    Except IoError Bytes × AuthenticatedReader suite ρ :=
  if n = 0 then (.ok [], r) else readLoop 2 r n

instance [Reader ρ] : Reader (AuthenticatedReader suite ρ) where
  read := read

end AuthenticatedReader

/-- The checks of `decode_authenticated` and `AuthenticatedReader::new`. -/
def openEnvelope (suite : Suite) (password : Bytes) (options : AuthenticatedDecodeOptions) :
    IoProgram Error EnvelopeState := do
  validatePassword password
  validateDecodeOptions options.core
  .require (¬ (options.maxArchiveBytes < minAuthenticatedArchiveBytes ∨
      options.maxDataRecords = 0 ∨
      ¬ (minKdfLogN ≤ options.maxKdfLogN ∧ options.maxKdfLogN ≤ maxKdfLogN)))
    (.invalidOptions ("authenticated decode ceilings must fit one complete record/footer " ++
      "and KDF policy must be in 14..=18"))
  .require (¬ options.maxArchiveBytes < headerSize)
    (.invalidFormat "authenticated archive byte limit is exceeded")
  let headerBytes ← readExactFormat headerSize "authenticated header is truncated"
  let header ← .ofExcept (Header.parse headerBytes)
  .require (¬ header.kdfLogN > options.maxKdfLogN)
    (.invalidFormat "authenticated KDF cost exceeds the caller policy")
  let key ← .ofExcept (deriveCipher suite password header true)
  return .initial key header options

/-- `decode_authenticated`: the result and what reached the writer. A failure of
the envelope takes precedence over what the core decoder made of it. -/
def decodeAuthenticated {ρ : Type} [Reader ρ] (suite : Suite) (codecs : Codecs) (password : Bytes)
    (options : AuthenticatedDecodeOptions) (reader : ρ) :
    Except Error AuthenticatedStats × List Bytes :=
  match (openEnvelope suite password options).run reader with
  | { result := .error error, .. } => (.error error, [])
  | { result := .ok state, reader := reader, .. } =>
      let run := (decodeWithOptions codecs options.core).run
        (AuthenticatedReader.new reader state : AuthenticatedReader suite ρ)
      match run.reader.failure, run.result with
      | some error, _ => (.error error, run.written)
      | none, .error error => (.error error, run.written)
      | none, .ok core => (run.reader.state.finish core, run.written)

end MosaicArchive.Authenticated
