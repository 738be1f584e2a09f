import MosaicArchive.Authenticated.Drain
import MosaicArchive.Authenticated.Envelope

/-!
Reading back an envelope. The state of the reader is a function of the records
it has loaded; on the bytes of an envelope each load takes one record and the
footer ends the stream.
-/

namespace MosaicArchive.Authenticated

open FixedWidth Sha256 MosaicArchive.Core IoProgram

namespace EnvelopeState

/-- The state after some data records. -/
def after (key : Bytes) (header : Header) (options : AuthenticatedDecodeOptions)
    (before : List DataRecord) : EnvelopeState where
  key := key
  header := header
  noncePrefix := header.noncePrefix
  options := options
  nextIndex := before.length
  corePlaintextBytes := (payloads before).length
  coreHashed := payloads before
  transcript := newTranscript header ++ wires 0 before
  archiveBytes := headerSize + (wires 0 before).length
  dataRecords := before.length
  paddingBytes := paddingTotal before
  authenticationBytes := aeadTagSize * before.length
  footer := none
  finished := false

variable {suite : Suite} {key : Bytes} {header : Header} {options : AuthenticatedDecodeOptions}

theorem after_nil : after key header options [] = initial key header options := by
  simp [after, initial, payloads, wires, paddingTotal]

theorem after_concat (before : List DataRecord) (r : DataRecord) :
    (after key header options before).afterData r.ciphertext r.payload r.padding.length =
      after key header options (before ++ [r]) := by
  have hwires : wires 0 (before ++ [r]) =
      wires 0 before ++ recordBytes before.length dataRecordKind r.ciphertext := by
    rw [wires_append, Nat.zero_add, wires, wires, List.append_nil]
  simp only [afterData, after, hwires, payloads_append, payloads_singleton, paddingTotal_append,
    paddingTotal_singleton, List.length_append, List.length_singleton, recordBytes_length,
    Nat.mul_add, Nat.mul_one, Nat.add_assoc, List.append_assoc]

/-! ### Loading a record that was sealed -/

theorem ensureArchiveRoom_yields {st : EnvelopeState} {additional : ℕ}
    (hroom : st.archiveBytes + additional ≤ st.options.maxArchiveBytes)
    (hlimit : st.archiveBytes + additional < 2 ^ 64) (s : ByteSource) :
    (st.ensureArchiveRoom additional).Yields s () [] s := by
  unfold ensureArchiveRoom
  exact (checkedAdd_yields hlimit _ _).bind_silent (yields_require hroom _ _)

theorem readOuterExact_yields {st : EnvelopeState} {field : Bytes} {n : ℕ}
    (hlength : field.length = n) (hroom : st.archiveBytes + n ≤ st.options.maxArchiveBytes)
    (hlimit : st.archiveBytes + n < 2 ^ 64) (message : String) (rest : Bytes)
    (fault : Option IoError) (sawEnd : Bool) :
    (st.readOuterExact n message).Yields ⟨field ++ rest, fault, sawEnd⟩
      (field, { st with archiveBytes := st.archiveBytes + n }) [] ⟨rest, fault, sawEnd⟩ := by
  unfold readOuterExact
  refine (ensureArchiveRoom_yields hroom hlimit _).bind_silent ?_
  refine (readExactFormat_yields hlength _ _ _ _).bind_silent ?_
  exact (checkedAdd_yields hlimit _ _).bind_silent (yields_ret _ _)

/-- The limits and counters that a record of the given size must pass. -/
structure Room (st : EnvelopeState) (size : ℕ) : Prop where
  archive : st.archiveBytes + (recordHeaderSize + size) ≤ st.options.maxArchiveBytes
  bytes : st.archiveBytes + (recordHeaderSize + size) < 2 ^ 64
  index : st.nextIndex + 1 < 2 ^ 64
  authentication : st.authenticationBytes + aeadTagSize < 2 ^ 64
  size : size < 2 ^ 32

/-- A record that stands at the front of the source reaches its acceptance. -/
theorem loadNextRecord_yields {st : EnvelopeState} (st' : EnvelopeState) {kind : UInt8} (hkind : ValidKind kind)
    {ciphertext plaintext : Bytes} (hroom : st.Room ciphertext.length)
    (hbound : st.validateCiphertextBound
      { bytes := (recordHeaderFields st.nextIndex kind ciphertext.length).flatten
        index := st.nextIndex, kind := kind, ciphertextLen := ciphertext.length } = .ok ())
    (hopens : st.Opens suite kind ciphertext plaintext) {rest : Bytes} {fault : Option IoError}
    {sawEnd : Bool} {s' : ByteSource} {x : Option Bytes}
    (haccept : (acceptRecord { st with
        archiveBytes := st.archiveBytes + (recordHeaderSize + ciphertext.length)
        authenticationBytes := st.authenticationBytes + aeadTagSize }
      { bytes := (recordHeaderFields st.nextIndex kind ciphertext.length).flatten
        index := st.nextIndex, kind := kind, ciphertextLen := ciphertext.length }
      ciphertext plaintext).Yields ⟨rest, fault, sawEnd⟩ (st', x) [] s')
    (hindex : st'.nextIndex = st.nextIndex) :
    (st.loadNextRecord suite).Yields
      ⟨recordBytes st.nextIndex kind ciphertext ++ rest, fault, sawEnd⟩
      ({ st' with nextIndex := st.nextIndex + 1 }, x) [] s' := by
  obtain ⟨harchive, hbytes, hnext, hauthentication, hsize⟩ := hroom
  have hheader := RecordHeader.parse_fields hkind (by omega : st.nextIndex < 2 ^ 64) hsize
  have hlength := recordHeaderFields_length st.nextIndex kind ciphertext.length
  rw [recordBytes, List.append_assoc]
  unfold loadNextRecord
  refine (readOuterExact_yields hlength (by omega) (by omega) _ _ _ _).bind_silent ?_
  refine (yields_ofExcept hheader _).bind_silent ?_
  refine (yields_require rfl _ _).bind_silent ?_
  refine (yields_ofExcept hbound _).bind_silent ?_
  refine (ensureArchiveRoom_yields ?_ ?_ _).bind_silent ?_
  · dsimp only
    omega
  · dsimp only
    omega
  refine (readOuterExact_yields rfl ?_ ?_ _ _ _ _).bind_silent ?_
  · dsimp only
    omega
  · dsimp only
    omega
  refine (yields_ofOption hopens _ _).bind_silent ?_
  refine (checkedAdd_yields hauthentication _ _).bind_silent ?_
  rw [← Nat.add_assoc] at haccept
  refine haccept.bind_silent ?_
  dsimp only
  rw [hindex]
  exact (checkedAdd_yields hnext _ _).bind_silent (yields_ret _ _)

/-- A data record that was sealed is loaded. -/
theorem load_data (before : List DataRecord) (r : DataRecord)
    (hroom : (after key header options before).Room r.ciphertext.length)
    (hplaintext : (payloads before).length + r.payload.length < 2 ^ 64)
    (hpadding : paddingTotal before + r.padding.length < 2 ^ 64)
    (hrecords : before.length < options.maxDataRecords)
    (hopens : (after key header options before).Opens suite dataRecordKind r.ciphertext r.plaintext)
    (rest : Bytes) (fault : Option IoError) (sawEnd : Bool) :
    ((after key header options before).loadNextRecord suite).Yields
      ⟨recordBytes before.length dataRecordKind r.ciphertext ++ rest, fault, sawEnd⟩
      (after key header options (before ++ [r]), some r.payload) [] ⟨rest, fault, sawEnd⟩ := by
  obtain ⟨hmin, hmax, hmod⟩ := r.ciphertext_length_bounds
  have hindex : before.length + 1 < 2 ^ 64 := hroom.index
  rw [← after_concat]
  refine loadNextRecord_yields { after key header options before with
      transcript := (after key header options before).transcript ++
        recordBytes before.length dataRecordKind r.ciphertext
      coreHashed := payloads before ++ r.payload
      corePlaintextBytes := (payloads before).length + r.payload.length
      dataRecords := before.length + 1
      paddingBytes := paddingTotal before + r.padding.length
      archiveBytes := (after key header options before).archiveBytes +
        (recordHeaderSize + r.ciphertext.length)
      authenticationBytes := (after key header options before).authenticationBytes + aeadTagSize }
    (.inl rfl) hroom ?_ hopens ?_ rfl
  · unfold validateCiphertextBound
    rw [if_pos rfl, if_neg, if_neg]
    · simp only [not_or, not_lt, not_not]
      exact ⟨hmin, hmax, hmod⟩
    · simp only [after, Option.isSome_none, Bool.false_eq_true, false_or, not_le]
      exact hrecords
  · rw [acceptRecord, if_pos rfl]
    unfold acceptData
    refine (yields_ofExcept (parseDataPlaintext_dataBytes r.fits) _).bind_silent ?_
    refine (checkedAdd_yields hplaintext _ _).bind_silent ?_
    refine (checkedAdd_yields (show before.length + 1 < 2 ^ 64 by omega) _ _).bind_silent ?_
    refine (checkedAdd_yields hpadding _ _).bind_silent ?_
    exact yields_ret _ _

theorem footerRecordKind_ne : footerRecordKind ≠ dataRecordKind := by decide

/-- The footer of an envelope is loaded at the end of its records. -/
theorem load_footer (e : Envelope)
    (hroom : (after key e.header options e.records).Room e.footerCiphertext.length)
    (hpadding : paddingTotal e.records + 912 < 2 ^ 64)
    (hopens : (after key e.header options e.records).Opens suite footerRecordKind e.footerCiphertext
      e.footerPlaintext) (sawEnd : Bool) :
    ((after key e.header options e.records).loadNextRecord suite).Yields
      ⟨recordBytes e.records.length footerRecordKind e.footerCiphertext, none, sawEnd⟩
      ((after key e.header options e.records).afterFooter e.footerCiphertext e.footer 912, none) []
      ⟨[], none, true⟩ := by
  have hparse : parsePaddedFooter e.footerPlaintext = .ok (e.footer, 912) :=
    parsePaddedFooter_append e.footer_fits e.padded
  have hindex : e.records.length + 1 < 2 ^ 64 := hroom.index
  rw [← List.append_nil (recordBytes _ _ _)]
  refine loadNextRecord_yields { after key e.header options e.records with
      paddingBytes := paddingTotal e.records + 912
      footer := some e.footer
      finished := true
      archiveBytes := (after key e.header options e.records).archiveBytes +
        (recordHeaderSize + e.footerCiphertext.length)
      authenticationBytes :=
        (after key e.header options e.records).authenticationBytes + aeadTagSize }
    (.inr rfl) hroom ?_ hopens ?_ rfl
  · unfold validateCiphertextBound
    rw [if_neg footerRecordKind_ne, if_pos rfl, if_neg]
    simp only [after, Option.isSome_none, Bool.false_eq_true, false_or, not_or, not_not]
    exact ⟨fun hzero => e.nonempty (List.eq_nil_of_length_eq_zero hzero), e.size⟩
  · rw [acceptRecord, if_neg footerRecordKind_ne, if_pos rfl]
    unfold acceptFooter
    refine (yields_ofExcept hparse _).bind_silent ?_
    refine (yields_require ?_ _ _).bind_silent ?_
    · exact ⟨rfl, rfl, rfl, rfl⟩
    refine (checkedAdd_yields hpadding _ _).bind_silent ?_
    have hend : (requirePhysicalEof { after key e.header options e.records with
        archiveBytes := (after key e.header options e.records).archiveBytes +
          (recordHeaderSize + e.footerCiphertext.length)
        authenticationBytes :=
          (after key e.header options e.records).authenticationBytes + aeadTagSize }).Yields
        ⟨[], none, sawEnd⟩ () [] ⟨[], none, true⟩ := rfl
    exact hend.bind_silent (yields_ret _ _)

end EnvelopeState

/-! ### Reading a whole envelope -/

/-- The key opens what was sealed, and the limits admit the envelope. -/
structure Envelope.Readable (e : Envelope) (suite : Suite) (key : Bytes)
    (options : AuthenticatedDecodeOptions) : Prop where
  opens : ∀ s ∈ e.log, suite.aead.decrypt key s.nonce s.aad s.ciphertext = some s.message
  archive : headerSize + e.body.length ≤ options.maxArchiveBytes
  records : e.records.length ≤ options.maxDataRecords
  size : (payloads e.records).length ≤ 2 ^ 34

/-- What is left of the body of an envelope after some of its records. -/
def Envelope.tail (e : Envelope) (index : ℕ) (left : List DataRecord) : Bytes :=
  wires index left ++ recordBytes e.records.length footerRecordKind e.footerCiphertext

/-- The state of a reader that has read the whole envelope. -/
def Envelope.final (e : Envelope) (key : Bytes) (options : AuthenticatedDecodeOptions) :
    EnvelopeState :=
  (EnvelopeState.after key e.header options e.records).afterFooter e.footerCiphertext e.footer 912

namespace Envelope.Readable

variable {e : Envelope} {suite : Suite} {key : Bytes} {options : AuthenticatedDecodeOptions}

open EnvelopeState

theorem load_record (h : e.Readable suite key options) {before left : List DataRecord}
    {r : DataRecord} (hrecords : e.records = before ++ r :: left) (sawEnd : Bool) :
    ((after key e.header options before).loadNextRecord suite).Yields
      ⟨e.tail before.length (r :: left), none, sawEnd⟩
      (after key e.header options (before ++ [r]), some r.payload) []
      ⟨e.tail (before.length + 1) left, none, sawEnd⟩ := by
  obtain ⟨hopens, harchive, hcount, hsize⟩ := h
  have hpayloads := length_le_payloads e.records
  have hwires := wires_length_le 0 e.records
  have hpadding := paddingTotal_le e.records
  have hbody : e.body.length = (wires 0 before).length + ((recordHeaderSize + r.ciphertext.length) +
      (e.tail (before.length + 1) left).length) := by
    rw [Envelope.body, hrecords, wires_append, Nat.zero_add, wires, Envelope.tail, hrecords]
    simp only [List.length_append, recordBytes_length]
    omega
  have hfooter : e.body.length = (wires 0 e.records).length + (recordHeaderSize + 1040) := by
    rw [Envelope.body, List.length_append, recordBytes_length, e.size]
    rfl
  have hmem : r.sealed e.header before.length ∈ e.log := by
    refine List.mem_append_left _ (mem_seals.mpr ⟨before, r, left, hrecords, ?_⟩)
    rw [Nat.zero_add]
  have hlength : e.records.length = before.length + (left.length + 1) := by
    rw [hrecords, List.length_append, List.length_cons]
  have htotal : (payloads e.records).length =
      (payloads before).length + (r.payload.length + (payloads left).length) := by
    rw [hrecords]
    simp [payloads]
  have hpads : paddingTotal e.records =
      paddingTotal before + (r.padding.length + paddingTotal left) := by
    rw [hrecords]
    simp [paddingTotal]
  obtain ⟨-, hshort, -⟩ := r.ciphertext_length_bounds
  have hlimit : maxDataCiphertextLen = 2097168 := by decide
  rw [hlimit] at hshort
  rw [headerSize] at harchive
  rw [recordHeaderSize] at hbody hfooter
  have htail : e.tail before.length (r :: left) =
      recordBytes before.length dataRecordKind r.ciphertext ++ e.tail (before.length + 1) left := by
    rw [Envelope.tail, wires, List.append_assoc]
    rfl
  rw [htail]
  refine load_data before r ⟨?_, ?_, ?_, ?_, by omega⟩ (by omega) (by omega) (by omega)
    (hopens _ hmem) _ _ _
  · change headerSize + (wires 0 before).length + (recordHeaderSize + _) ≤ options.maxArchiveBytes
    rw [headerSize, recordHeaderSize]
    omega
  · change headerSize + (wires 0 before).length + (recordHeaderSize + _) < 2 ^ 64
    rw [headerSize, recordHeaderSize]
    omega
  · change before.length + 1 < 2 ^ 64
    omega
  · change aeadTagSize * before.length + aeadTagSize < 2 ^ 64
    rw [aeadTagSize]
    omega

theorem load_end (h : e.Readable suite key options) (sawEnd : Bool) :
    ((after key e.header options e.records).loadNextRecord suite).Yields
      ⟨e.tail e.records.length [], none, sawEnd⟩ (e.final key options, none) []
      ⟨[], none, true⟩ := by
  obtain ⟨hopens, harchive, hcount, hsize⟩ := h
  have hpayloads := length_le_payloads e.records
  have hwires := wires_length_le 0 e.records
  have hpadding := paddingTotal_le e.records
  have hfooter : e.body.length =
      (wires 0 e.records).length + (recordHeaderSize + e.footerCiphertext.length) := by
    rw [Envelope.body, List.length_append, recordBytes_length]
  have hsize' : e.footerCiphertext.length = 1040 := e.size
  rw [headerSize] at harchive
  rw [recordHeaderSize] at hfooter
  refine load_footer e ⟨?_, ?_, ?_, ?_, by omega⟩ (by omega)
    (hopens _ (List.mem_append_right _ (List.mem_singleton.mpr rfl))) sawEnd
  · change headerSize + (wires 0 e.records).length + (recordHeaderSize + _) ≤ options.maxArchiveBytes
    rw [headerSize, recordHeaderSize]
    omega
  · change headerSize + (wires 0 e.records).length + (recordHeaderSize + _) < 2 ^ 64
    rw [headerSize, recordHeaderSize]
    omega
  · change e.records.length + 1 < 2 ^ 64
    omega
  · change aeadTagSize * e.records.length + aeadTagSize < 2 ^ 64
    rw [aeadTagSize]
    omega

/-- Draining what is left of an envelope gives the payloads that are left. -/
theorem drain_tail (h : e.Readable suite key options) {before left : List DataRecord}
    (hrecords : e.records = before ++ left) {fuel : ℕ}
    (hfuel : (e.tail before.length left).length < fuel) (sawEnd : Bool) :
    drain suite fuel (after key e.header options before) ⟨e.tail before.length left, none, sawEnd⟩ =
      (payloads left, none) := by
  induction left generalizing before fuel with
  | nil =>
      obtain rfl : e.records = before := by simpa using hrecords
      obtain ⟨fuel, rfl⟩ : ∃ n, fuel = n + 1 := ⟨fuel - 1, by omega⟩
      rw [drain_none (h.load_end sawEnd)]
      rfl
  | cons r left ih =>
      obtain ⟨fuel, rfl⟩ : ∃ n, fuel = n + 1 := ⟨fuel - 1, by omega⟩
      have hrecords' : e.records = (before ++ [r]) ++ left := by simpa using hrecords
      have hlength : (before ++ [r]).length = before.length + 1 := by simp
      have hshorter : (e.tail (before.length + 1) left).length < fuel := by
        rw [Envelope.tail, wires, List.append_assoc, List.length_append, recordBytes_length,
          recordHeaderSize] at hfuel
        rw [Envelope.tail]
        omega
      have hrest := ih hrecords' (by rwa [hlength])
      rw [hlength] at hrest
      rw [drain_some (h.load_record hrecords sawEnd), hrest]
      simp [payloads]

/-- The states and sources of a reader of the envelope. -/
def At (e : Envelope) (key : Bytes) (options : AuthenticatedDecodeOptions) (st : EnvelopeState)
    (s : ByteSource) : Prop :=
  (∃ before left sawEnd, e.records = before ++ left ∧ st = after key e.header options before ∧
    s = ⟨e.tail before.length left, none, sawEnd⟩) ∨ st = e.final key options

theorem At.load (h : e.Readable suite key options) {st : EnvelopeState} {s : ByteSource}
    (hat : At e key options st s) (hfinished : st.finished = false) :
    ∃ st' x s', (st.loadNextRecord suite).Yields s (st', x) [] s' ∧ At e key options st' s' := by
  rcases hat with ⟨before, left, sawEnd, hrecords, rfl, rfl⟩ | rfl
  · cases left with
    | nil =>
        obtain rfl : e.records = before := by simpa using hrecords
        exact ⟨_, _, _, h.load_end sawEnd, .inr rfl⟩
    | cons r left =>
        refine ⟨_, _, _, h.load_record hrecords sawEnd, .inl ⟨before ++ [r], left, sawEnd, ?_, rfl, ?_⟩⟩
        · simpa using hrecords
        · rw [List.length_append, List.length_singleton]
  · cases hfinished

end Envelope.Readable

end MosaicArchive.Authenticated
