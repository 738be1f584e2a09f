import MosaicArchive.Authenticated.Records

/-!
Complete envelopes. Whatever a run of the encoder that succeeds writes is the
envelope of its records and footer, under the core stream the inner encoder
wrote and with the counters it returns.
-/

namespace MosaicArchive.Authenticated

open FixedWidth Sha256 MosaicArchive.Core IoProgram

/-- A complete envelope: its records and what is sealed behind them. -/
structure Envelope where
  header : Header
  records : List DataRecord
  core : StreamStats
  footerPadding : Bytes
  footerCiphertext : Bytes
  nonempty : records ≠ []
  packed : ∀ r ∈ records.dropLast, r.payload.length = maxDataPayload
  counters : CountersFit core
  plaintextBytes : (payloads records).length = core.encodedBytes
  padded : footerPadding.length = 912
  size : footerCiphertext.length = 1024 + aeadTagSize

/-- The footer behind some records. -/
def footerOf (header : Header) (records : List DataRecord) (core : StreamStats) : Footer where
  coreRecordCount := records.length
  corePlaintextBytes := (payloads records).length
  originalBytes := core.originalBytes
  segments := core.segments
  innerRecords := core.records
  innerHash := sha256 (payloads records)
  transcriptHash := sha256 (newTranscript header ++ wires 0 records)

theorem records_length_lt {records : List DataRecord} {core : StreamStats}
    (hcore : CountersFit core) (hbytes : (payloads records).length = core.encodedBytes) :
    records.length < 2 ^ 64 := by
  have hle := length_le_payloads records
  have hlt := hcore.encodedBytes
  omega

theorem footerOf_fits (header : Header) {records : List DataRecord} {core : StreamStats}
    (hcore : CountersFit core) (hbytes : (payloads records).length = core.encodedBytes) :
    (footerOf header records core).Fits where
  coreRecordCount := records_length_lt hcore hbytes
  corePlaintextBytes := by
    change (payloads records).length < 2 ^ 64
    rw [hbytes]
    exact hcore.encodedBytes
  originalBytes := hcore.originalBytes
  segments := hcore.segments
  innerRecords := hcore.records
  innerHash := sha256_length _
  transcriptHash := sha256_length _

namespace Envelope

def footer (e : Envelope) : Footer := footerOf e.header e.records e.core

def footerPlaintext (e : Envelope) : Bytes := e.footer.serialize ++ e.footerPadding

/-- The records of the envelope on the wire. -/
def body (e : Envelope) : Bytes :=
  wires 0 e.records ++ recordBytes e.records.length footerRecordKind e.footerCiphertext

def bytes (e : Envelope) : Bytes := e.header.bytes ++ e.body

/-- The calls of `encrypt` behind the envelope. -/
def log (e : Envelope) : List Aead.Sealed :=
  seals e.header 0 e.records ++
    [sealOf e.header e.records.length footerRecordKind e.footerPlaintext e.footerCiphertext]

def stats (e : Envelope) : AuthenticatedStats where
  core := e.core
  archiveBytes := headerSize + e.body.length
  dataRecords := e.records.length
  paddingBytes := paddingTotal e.records + 912
  authenticationBytes := aeadTagSize * (e.records.length + 1)

theorem footer_fits (e : Envelope) : e.footer.Fits :=
  footerOf_fits e.header e.counters e.plaintextBytes

theorem footerPlaintext_length (e : Envelope) : e.footerPlaintext.length = 1024 := by
  rw [footerPlaintext, List.length_append, e.footer_fits.serialize_length, e.padded]
  rfl

end Envelope

namespace AuthenticatedWriter

variable {suite : Suite} {random : Randomness} {w w' : AuthenticatedWriter}
  {records : List DataRecord}

theorem feed_inv {writes : List Bytes} (h : w.Open suite records) {src src' : ByteSource}
    {written : List Bytes}
    (hrun : (feed (AuthenticatedWriter.write suite random) w writes).Yields src w' written src') :
    ∃ new, w'.Open suite (records ++ new) ∧
      w.Extends suite w' records new writes.flatten written := by
  induction writes generalizing w records src written with
  | nil =>
      obtain ⟨rfl, rfl, -⟩ := ret_inv hrun
      exact ⟨[], by simpa using h, h.wrote.extends_self⟩
  | cons b rest ih =>
      obtain ⟨w₁, out, _, out', hwrite, hrest, rfl⟩ := hrun.bind_inv
      obtain ⟨new, hopen, hextends⟩ := writeLoop_inv b.length h le_rfl hwrite
      obtain ⟨more, hopen', hextends'⟩ := ih hopen hrest
      exact ⟨new ++ more, by simpa using hopen', hextends.trans hextends'⟩

/-- The pending bytes become the last record, which need not be full. -/
theorem flush_inv (h : w.Open suite records) {src src' : ByteSource} {written : List Bytes}
    (hrun : (w.sealDataRecord suite random).Yields src w' written src') :
    ∃ new, w.Extends suite w' records new [] written ∧ w'.pending = [] ∧
      ∀ r ∈ (records ++ new).dropLast, r.payload.length = maxDataPayload := by
  by_cases hpending : w.pending = []
  · have hnothing : w.sealDataRecord suite random = .ret w := by
      unfold sealDataRecord
      rw [if_pos (by simpa using hpending)]
    rw [hnothing] at hrun
    obtain ⟨rfl, rfl, -⟩ := ret_inv hrun
    refine ⟨[], h.wrote.extends_self, hpending, fun r hr => h.full r ?_⟩
    rw [List.append_nil] at hr
    exact List.mem_of_mem_dropLast hr
  · obtain ⟨r, -, hempty, hextends⟩ := sealDataRecord_inv h.wrote hpending hrun
    refine ⟨[r], hextends, hempty, fun r' hr' => h.full r' ?_⟩
    rwa [List.dropLast_concat] at hr'

theorem finish_inv {core : StreamStats} (hcore : CountersFit core) (h : w.Open suite records)
    {src src' : ByteSource} {stats : AuthenticatedStats} {written : List Bytes}
    (hrun : (w.finish suite random core).Yields src (stats, w') written src') :
    ∃ (e : Envelope) (new : List DataRecord), e.header = w.header ∧ e.records = records ++ new ∧
      e.core = core ∧ payloads e.records = w.coreHashed ∧ stats = e.stats ∧ w'.log = e.log ∧
      (∀ s ∈ e.log, suite.aead.encrypt w.key s.nonce s.aad s.message = some s.ciphertext) ∧
      written.flatten = wires records.length new ++
        recordBytes e.records.length footerRecordKind e.footerCiphertext := by
  obtain ⟨w₁, out₁, _, _, hflush, hfooter, rfl⟩ := hrun.bind_inv
  obtain ⟨new, hextends, hempty, hpacked⟩ := flush_inv h hflush
  have hwrote := hextends.wrote
  have hhashed : w₁.coreHashed = payloads (records ++ new) := by
    rw [hwrote.hashed, hempty, List.append_nil]
  obtain ⟨htotals, hfooter⟩ := require_bind_inv hfooter
  rw [not_or, not_not] at htotals
  obtain ⟨hsome, hbytes⟩ := htotals
  rw [hwrote.dataRecords] at hsome
  rw [hwrote.plaintextBytes, hhashed] at hbytes
  have hsame : w₁.footer core = footerOf w₁.header (records ++ new) core := by
    rw [AuthenticatedWriter.footer, hwrote.dataRecords, hwrote.plaintextBytes, hhashed,
      hwrote.transcript]
    rfl
  rw [hsame] at hfooter
  obtain ⟨⟨plaintext, footerPadding⟩, hplaintext, hfooter⟩ := ofExcept_bind_inv hfooter
  obtain ⟨padding, rfl, hpadded, rfl⟩ := paddedFooter_ok (random.padding_length w₁.nextIndex)
    (footerOf_fits w₁.header hcore hbytes) hplaintext
  obtain ⟨w₂, out₂, _, _, hwrite, hstats, rfl⟩ := hfooter.bind_inv
  obtain ⟨ciphertext, hsealed, hsize, -, -, rfl, hwire⟩ := writeEncryptedRecord_inv hwrite
  obtain ⟨-, hstats⟩ := checkedAdd_bind_inv hstats
  obtain ⟨hpair, rfl, -⟩ := ret_inv hstats
  obtain ⟨rfl, rfl⟩ := Prod.mk.inj hpair
  have hplain : ((footerOf w₁.header (records ++ new) core).serialize ++ padding).length = 1024 := by
    rw [List.length_append, (footerOf_fits w₁.header hcore hbytes).serialize_length, hpadded]
    rfl
  let e : Envelope := {
    header := w₁.header
    records := records ++ new
    core := core
    footerPadding := padding
    footerCiphertext := ciphertext
    nonempty := by
      intro hnil
      rw [hnil] at hsome
      exact hsome rfl
    packed := hpacked
    counters := hcore
    plaintextBytes := hbytes
    padded := hpadded
    size := by rw [hsize, hplain] }
  have hlog : (w₁.afterRecord footerRecordKind
      ((footerOf w₁.header (records ++ new) core).serialize ++ padding) ciphertext false).log =
        e.log := by
    change w₁.log ++ [_] = seals w₁.header 0 (records ++ new) ++ [_]
    rw [hwrote.logged, hwrote.noncePrefix, hwrote.nextIndex]
    rfl
  refine ⟨e, new, hextends.header, rfl, rfl, ?_, ?_, hlog, ?_, ?_⟩
  · rw [← hextends.hashed.trans (List.append_nil _), hhashed]
  · have hbody : headerSize + e.body.length = headerSize + (wires 0 (records ++ new)).length +
        (recordHeaderSize + ciphertext.length) := by
      rw [Envelope.body, List.length_append, recordBytes_length, Nat.add_assoc]
    simp only [Envelope.stats, hbody, afterRecord, hwrote.archive, hwrote.dataRecords,
      hwrote.padding, hwrote.authentication, Nat.mul_succ]
    rfl
  · intro s hs
    rcases List.mem_append.mp hs with hs | hs
    · rw [← hextends.key]
      exact hwrote.encrypted s (by rw [hwrote.logged]; exact hs)
    · obtain rfl := List.mem_singleton.mp hs
      rw [← hextends.key]
      rw [hwrote.noncePrefix, hwrote.nextIndex] at hsealed
      exact hsealed
  · rw [List.append_nil, List.flatten_append, hextends.wire, hwire, hwrote.nextIndex]

end AuthenticatedWriter

/-! ### Runs of the encoder -/

theorem detached_writeAll (fields : List Bytes) : (writeAll fields).Detached := by
  induction fields with
  | nil => exact detached_ret ()
  | cons b rest ih => exact ih.write b

theorem detached_checkedAdd (bits a b : ℕ) (error : Error) :
    (checkedAdd bits a b error).Detached := by
  unfold checkedAdd
  split
  · exact detached_ret _
  · exact detached_fail _

namespace AuthenticatedWriter

theorem detached_writeEncryptedRecord (suite : Suite) (w : AuthenticatedWriter) (kind : UInt8)
    (plaintext : Bytes) (includeInTranscript : Bool) :
    (w.writeEncryptedRecord suite kind plaintext includeInTranscript).Detached := by
  unfold writeEncryptedRecord
  refine (detached_ofExcept _).bind fun _ => (detached_ofOption _ _).bind fun _ => ?_
  refine (detached_require _ _).bind fun _ => (detached_writeAll _).bind fun _ => ?_
  refine (detached_checkedAdd _ _ _ _).bind fun _ => (detached_checkedAdd _ _ _ _).bind fun _ => ?_
  exact (detached_checkedAdd _ _ _ _).bind fun _ => detached_ret _

theorem detached_sealDataRecord (suite : Suite) (random : Randomness) (w : AuthenticatedWriter) :
    (w.sealDataRecord suite random).Detached := by
  unfold sealDataRecord
  split
  · exact detached_ret _
  · refine (detached_ofExcept _).bind fun _ => ?_
    refine (detached_writeEncryptedRecord _ _ _ _ _).bind fun _ => ?_
    exact (detached_checkedAdd _ _ _ _).bind fun _ => (detached_checkedAdd _ _ _ _).bind fun _ =>
      detached_ret _

theorem detached_writeLoop (suite : Suite) (random : Randomness) (rounds : ℕ)
    (w : AuthenticatedWriter) (buffer : Bytes) :
    (w.writeLoop suite random rounds buffer).Detached := by
  induction rounds generalizing w buffer with
  | zero => exact detached_ret _
  | succ rounds ih =>
      rw [writeLoop]
      split
      · exact detached_ret _
      · refine (detached_checkedAdd _ _ _ _).bind fun _ => Detached.bind ?_ fun w => ih w _
        unfold sealFullPayload
        split
        · exact (detached_sealDataRecord _ _ _).mapError _
        · exact detached_ret _

/-- The writer never reads. -/
theorem detached_write (suite : Suite) (random : Randomness) (w : AuthenticatedWriter)
    (buffer : Bytes) : (w.write suite random buffer).Detached :=
  detached_writeLoop suite random buffer.length w buffer

end AuthenticatedWriter

/-- An envelope that a run of the encoder sealed under a key. -/
structure SealedBy (suite : Suite) (codecs : Codecs) (build : ℕ → Option WorkerPool)
    (random : Randomness) (password : Bytes) (options : AuthenticatedEncodeOptions)
    (input : Reads) (key : Bytes) (e : Envelope) : Prop where
  header : Header.generate random options.kdfLogN = .ok e.header
  derived : deriveCipher suite password e.header false = .ok key
  encrypted : ∀ s ∈ e.log, suite.aead.encrypt key s.nonce s.aad s.message = some s.ciphertext
  result : (encodeRun codecs build options.core input).result = .ok e.core
  content : (encodeRun codecs build options.core input).written.flatten = payloads e.records

/-- What a writer that was closed has written of some writes is an envelope. -/
theorem AuthenticatedWriter.envelope_of_feed {suite : Suite} {random : Randomness} {key : Bytes}
    {header : Header} {core : StreamStats} {writes out out' : List Bytes}
    {w w' : AuthenticatedWriter} {stats : AuthenticatedStats} {src src₁ src₂ src₃ : ByteSource}
    (hcore : CountersFit core)
    (hfeed : (feed (AuthenticatedWriter.write suite random) (.initial key header) writes).Yields src
      w out src₁)
    (hfinish : (w.finish suite random core).Yields src₂ (stats, w') out' src₃) :
    ∃ e : Envelope, e.header = header ∧ e.core = core ∧ payloads e.records = writes.flatten ∧
      stats = e.stats ∧ w'.log = e.log ∧ (out ++ out').flatten = e.body ∧
      ∀ s ∈ e.log, suite.aead.encrypt key s.nonce s.aad s.message = some s.ciphertext := by
  have hopen : (AuthenticatedWriter.initial key header).Open suite [] :=
    ⟨wrote_initial suite key header, by simp, by
      change 0 < maxDataPayload
      decide⟩
  obtain ⟨records, hopen', hextends⟩ := AuthenticatedWriter.feed_inv hopen hfeed
  obtain ⟨e, new, hhead, hrecords, hcores, hpayloads, rfl, hlog, hencrypted, hwire⟩ :=
    AuthenticatedWriter.finish_inv hcore hopen' hfinish
  refine ⟨e, ?_, hcores, ?_, rfl, hlog, ?_, ?_⟩
  · rw [hhead, hextends.header]
    rfl
  · rw [hpayloads, hextends.hashed]
    rfl
  · have hout := hextends.wire
    rw [List.nil_append] at hrecords hwire
    rw [List.flatten_append, hout, hwire, Envelope.body, hrecords, wires_append, Nat.zero_add,
      List.append_assoc]
    rfl
  · have hsame : w.key = key := hextends.key
    rw [← hsame]
    exact hencrypted

/-- What a successful run has written is an envelope. -/
theorem encodeSealed_inv {suite : Suite} {codecs : Codecs} {build : ℕ → Option WorkerPool}
    {random : Randomness} {password : Bytes} {options : AuthenticatedEncodeOptions} {input : Reads}
    {stats : AuthenticatedStats} {w : AuthenticatedWriter} {written : List Bytes}
    {src' : ByteSource}
    (h : (encodeSealed suite codecs build random password options input).Yields (.ofBytes [])
      (stats, w) written src') :
    ∃ key e, SealedBy suite codecs build random password options input key e ∧
      stats = e.stats ∧ w.log = e.log ∧ written.flatten = e.bytes := by
  obtain ⟨-, h⟩ := require_bind_inv h
  obtain ⟨-, h⟩ := require_bind_inv h
  obtain ⟨w₀, out₀, _, _, hnew, hrest, rfl⟩ := h.bind_inv
  obtain ⟨header, hheader, hnew⟩ := ofExcept_bind_inv hnew
  obtain ⟨key, hkey, hnew⟩ := ofExcept_bind_inv hnew
  obtain ⟨_, hinitial, rfl⟩ := (writeAll_yields _ _).bind_inv_of hnew
  obtain ⟨rfl, rfl, rfl⟩ := ret_inv hinitial
  obtain ⟨⟨core, w₁⟩, out₁, _, out₂, hencode, hfinish, rfl⟩ := hrest.bind_inv
  obtain ⟨hcore, hfeed⟩ :=
    redirect_ok (AuthenticatedWriter.detached_write suite random) hencode.result
  obtain ⟨e, rfl, rfl, hpayloads, rfl, hlog, hbody, hencrypted⟩ :=
    AuthenticatedWriter.envelope_of_feed (countersFit_encode (yields_of_result hcore)) hfeed hfinish
  rw [hencode.written] at hbody
  refine ⟨key, e, ⟨hheader, hkey, hencrypted, hcore, hpayloads.symm⟩, rfl, hlog, ?_⟩
  have hparts : ([e.header.bytes] ++ [] ++ (out₁ ++ out₂)).flatten =
      e.header.bytes ++ (out₁ ++ out₂).flatten := by simp
  rw [hparts, hbody]
  rfl

end MosaicArchive.Authenticated
