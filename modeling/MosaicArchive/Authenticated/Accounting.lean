import MosaicArchive.Authenticated.Metered

/-!
The byte accounting of the envelope. Every byte of an archive is counted once, by the
writer and by the reader alike: the headers of the records, their tags, the prefixes and
payloads of the data records, the footer and the padding. No run of the reader, however
it ends, counts more than it may.
-/

namespace MosaicArchive.Authenticated

open FixedWidth Sha256 MosaicArchive.Core IoProgram

/-! ### The meter of a whole run -/

namespace MeteredReader

variable {suite : Suite} {ρ : Type} {limit : ℕ}

/-- What has been noted is sound, and so is the state the next record is loaded from. -/
structure Kept (limit : ℕ) (r : MeteredReader suite ρ) : Prop where
  marks : Sound limit r.marks
  state : r.reader.state.Within limit

theorem serve_state {r : AuthenticatedReader suite ρ} {n : ℕ}
    {exit : Except IoError Bytes × AuthenticatedReader suite ρ} (h : r.serve n = some exit) :
    exit.2.state = r.state := by
  unfold AuthenticatedReader.serve at h
  dsimp only at h
  split_ifs at h <;> rw [← Option.some.inj h]

theorem serve_none_finished {r : AuthenticatedReader suite ρ} {n : ℕ} (h : r.serve n = none) :
    r.state.finished = false := by
  unfold AuthenticatedReader.serve at h
  dsimp only at h
  split_ifs at h with _ _ hfinished
  exact Bool.eq_false_iff.mpr hfinished

section

variable [Reader ρ]

theorem Kept.readLoop {r : MeteredReader suite ρ} (h : r.Kept limit) (rounds n : ℕ) :
    (MeteredReader.readLoop rounds r n).2.Kept limit := by
  induction rounds generalizing r with
  | zero => exact h
  | succ rounds ih =>
      rw [MeteredReader.readLoop]
      rcases hserve : r.reader.serve n with _ | exit
      · have hload := (EnvelopeState.loadNextRecordMetered_ensures suite h.state
          (serve_none_finished hserve) r.marks h.marks).run r.reader.reader
        dsimp only
        rcases hrun : (r.reader.state.loadNextRecordMetered suite r.marks).run r.reader.reader with
          ⟨⟨error, marks⟩ | ⟨⟨state, _ | payload⟩, marks⟩, written, reader⟩
        · rw [hrun] at hload
          exact ⟨hload.2 _ rfl, h.state⟩
        · rw [hrun] at hload
          obtain ⟨hstate, hmarks⟩ := hload.1 _ rfl
          exact ih ⟨hmarks, hstate⟩
        · rw [hrun] at hload
          obtain ⟨hstate, hmarks⟩ := hload.1 _ rfl
          exact ih ⟨hmarks, hstate⟩
      · refine ⟨h.marks, ?_⟩
        rw [serve_state hserve]
        exact h.state

theorem Kept.read {r : MeteredReader suite ρ} (h : r.Kept limit) (n : ℕ) :
    (Reader.read r n : Except IoError Bytes × MeteredReader suite ρ).2.Kept limit := by
  show (r.read n).2.Kept limit
  rw [MeteredReader.read]
  split
  · exact h
  · exact h.readLoop 2 n

end

theorem Kept.new (reader : ρ) {state : EnvelopeState} (hstate : state.Within limit)
    (hheader : state.archiveBytes = headerSize) :
    (MeteredReader.new reader state : MeteredReader suite ρ).Kept limit := by
  refine ⟨?_, hstate⟩
  intro m hm
  rw [List.mem_singleton.mp hm]
  refine ⟨by rw [hheader, Nat.zero_add], ?_, fun _ => hstate.archive⟩
  rw [hheader]
  decide

end MeteredReader

/-- The state of an envelope that was opened. -/
theorem openEnvelope_always (suite : Suite) (password : Bytes) (options : AuthenticatedDecodeOptions) :
    (openEnvelope suite password options).Always
      (fun st => st.Within options.maxArchiveBytes ∧ st.archiveBytes = headerSize) fun _ => True := by
  refine Always.bind (Always.trivial _) fun _ _ => Always.bind (Always.trivial _) fun _ _ => ?_
  refine Always.bind (Always.trivial _) fun _ _ => ?_
  refine Always.bind
    (Always.require (Q := fun _ => ¬ options.maxArchiveBytes < headerSize) (fun h => h)
      fun _ => True.intro) fun _ hroom => ?_
  refine Always.bind (Always.trivial _) fun _ _ => Always.bind (Always.trivial _) fun header _ => ?_
  refine Always.bind (Always.trivial _) fun _ _ => Always.bind (Always.trivial _) fun key _ => ?_
  exact ⟨⟨rfl, Nat.le_of_not_lt hroom, fun h => nomatch h⟩, rfl⟩

/-- Whatever the input is, and however the run ends, the meter notes nothing unsound. -/
theorem decodeAuthenticatedMetered_sound {ρ : Type} [Reader ρ] (suite : Suite) (codecs : Codecs)
    (password : Bytes) (options : AuthenticatedDecodeOptions) (reader : ρ) :
    Sound options.maxArchiveBytes
      (decodeAuthenticatedMetered suite codecs password options reader).2 := by
  have hopen := (openEnvelope_always suite password options).run reader
  unfold decodeAuthenticatedMetered
  rcases hrun : (openEnvelope suite password options).run reader with
    ⟨error | state, written, reader'⟩
  · exact fun m hm => nomatch hm
  · rw [hrun] at hopen
    obtain ⟨hwithin, hheader⟩ := hopen.1 state rfl
    have hstart := @MeteredReader.Kept.new suite ρ _ reader' _ hwithin hheader
    have hfinal := run_keeps (P := MeteredReader.Kept options.maxArchiveBytes)
      (fun r n h => MeteredReader.Kept.read h n)
      (decodeWithOptions codecs options.core) hstart
    dsimp only
    cases ((decodeWithOptions codecs options.core).run
      (MeteredReader.new reader' state : MeteredReader suite ρ)).reader.reader.failure with
    | some error => exact hfinal.marks
    | none =>
        cases ((decodeWithOptions codecs options.core).run
          (MeteredReader.new reader' state : MeteredReader suite ρ)).result with
        | error error => exact hfinal.marks
        | ok core => exact hfinal.marks

/-! ### What an archive is made of -/

/-- The totals of an archive: all its bytes, each counted once. -/
structure Accounts (sealed : Bytes → Bytes → Prop) (stats : AuthenticatedStats) (archive : Bytes) :
    Prop where
  exact : stats.archiveBytes = archive.length
  total : stats.archiveBytes = 64 + 16 * (stats.dataRecords + 1) + stats.authenticationBytes +
    8 * stats.dataRecords + stats.core.encodedBytes + 112 + stats.paddingBytes
  authentication : stats.authenticationBytes = 16 * (stats.dataRecords + 1)
  /-- The last record is the footer, padded as the rule has it. -/
  footer : ∃ front plaintext ciphertext,
    archive = front ++ recordBytes stats.dataRecords footerRecordKind ciphertext ∧
    sealed plaintext ciphertext ∧ plaintext.length = paddedLen footerPlaintextSize
  least : minAuthenticatedArchiveBytes ≤ stats.archiveBytes

/-- Data records on the wire are headers, tags, prefixes, payloads and padding. -/
theorem wires_length (index : ℕ) (records : List DataRecord) :
    (wires index records).length = 16 * records.length + 16 * records.length + 8 * records.length +
      (payloads records).length + paddingTotal records := by
  induction records generalizing index with
  | nil => rfl
  | cons r rest ih =>
      have hsize := r.size
      have hpadded := r.fits.padded
      rw [r.fits.length] at hsize
      unfold dataPrefixSize at hpadded hsize
      unfold aeadTagSize at hsize
      rw [wires, List.length_append, recordBytes_length, ih, List.length_cons, recordHeaderSize]
      simp only [payloads, paddingTotal, List.map_cons, List.flatten_cons, List.length_append,
        List.sum_cons]
      omega

/-- Every data record has a quantum at least. -/
theorem quanta_le (records : List DataRecord) :
    1024 * records.length ≤ 8 * records.length + (payloads records).length + paddingTotal records := by
  induction records with
  | nil => exact Nat.le_refl 0
  | cons r rest ih =>
      have hpadded := r.fits.padded
      obtain ⟨hquantum, -, -⟩ := r.fits.length_bounds
      rw [r.fits.length, ← hpadded] at hquantum
      unfold dataPrefixSize at hquantum
      rw [List.length_cons]
      simp only [payloads, paddingTotal, List.map_cons, List.flatten_cons, List.length_append,
        List.sum_cons] at ih ⊢
      omega

/-- The totals of the writer. -/
theorem Envelope.accounts (e : Envelope) (hheader : e.header.bytes.length = headerSize)
    {sealed : Bytes → Bytes → Prop} (hsealed : sealed e.footerPlaintext e.footerCiphertext) :
    Accounts sealed e.stats e.bytes := by
  have hwires := wires_length 0 e.records
  have hbytes := e.plaintextBytes
  have hpositive : 0 < e.records.length := List.length_pos_iff.mpr e.nonempty
  have hbody : e.body.length = (wires 0 e.records).length + (16 + 1040) := by
    rw [Envelope.body, List.length_append, recordBytes_length, e.size]
    rfl
  have harchive : e.stats.archiveBytes = 64 + e.body.length := rfl
  have hcount : e.stats.dataRecords = e.records.length := rfl
  have hpadding : e.stats.paddingBytes = paddingTotal e.records + 912 := rfl
  have hauthentication : e.stats.authenticationBytes = 16 * (e.records.length + 1) := rfl
  have hcore : e.stats.core.encodedBytes = e.core.encodedBytes := rfl
  refine ⟨?_, ?_, hauthentication, ?_, ?_⟩
  · rw [harchive, Envelope.bytes, List.length_append, hheader]
    rfl
  · rw [harchive, hcount, hpadding, hauthentication, hcore]
    omega
  · refine ⟨e.header.bytes ++ wires 0 e.records, _, _, ?_, hsealed, ?_⟩
    · rw [Envelope.bytes, Envelope.body, List.append_assoc]
      rfl
    · rw [e.footerPlaintext_length, paddedLen_footer]
  · have hleast : minAuthenticatedArchiveBytes = 2176 := by decide
    have hquanta := quanta_le e.records
    rw [hleast, harchive]
    omega

/-! ### The totals of the reader -/

/-- The bytes of the footer that have been counted. -/
def EnvelopeState.footerCount (st : EnvelopeState) : ℕ := if st.finished then 1 else 0

/-- What has been read of an archive is counted, and the rest is still to come. -/
structure Balanced (suite : Suite) (archive : Bytes) (st : EnvelopeState) (s : ByteSource) : Prop where
  split : ∃ front, archive = front ++ s.bytes ∧ front.length = st.archiveBytes
  total : st.archiveBytes = headerSize + recordHeaderSize * st.nextIndex + st.authenticationBytes +
    dataPrefixSize * st.dataRecords + st.corePlaintextBytes + footerPlaintextSize * st.footerCount +
    st.paddingBytes
  authentication : st.authenticationBytes = aeadTagSize * st.nextIndex
  index : st.nextIndex = st.dataRecords + st.footerCount
  quanta : 1024 * st.nextIndex ≤ dataPrefixSize * st.dataRecords + st.corePlaintextBytes +
    footerPlaintextSize * st.footerCount + st.paddingBytes
  footer : ∀ footer, st.footer = some footer → st.finished = true ∧ s.bytes = [] ∧
    footer.corePlaintextBytes = st.corePlaintextBytes ∧
    ∃ front key nonce aad plaintext ciphertext,
      archive = front ++ recordBytes st.dataRecords footerRecordKind ciphertext ∧
      suite.aead.decrypt key nonce aad ciphertext = some plaintext ∧
      plaintext.length = paddedLen footerPlaintextSize

theorem parseDataPlaintext_length {plaintext payload : Bytes} {padding : ℕ}
    (h : parseDataPlaintext plaintext = .ok (payload, padding)) :
    1024 ≤ plaintext.length ∧ plaintext.length = dataPrefixSize + payload.length + padding := by
  unfold parseDataPlaintext at h
  dsimp only at h
  split_ifs at h with hmalformed hlimit hpadding
  obtain ⟨rfl, rfl⟩ := Prod.mk.inj (Except.ok.inj h)
  rw [not_or, not_lt] at hmalformed hpadding
  rw [slice_length (by omega) (by omega)]
  unfold paddingQuantum at hmalformed
  omega

theorem parsePaddedFooter_length {plaintext : Bytes} {footer : Footer} {padding : ℕ}
    (h : parsePaddedFooter plaintext = .ok (footer, padding)) :
    plaintext.length = paddedLen footerPlaintextSize ∧ padding = 912 := by
  unfold parsePaddedFooter at h
  dsimp only at h
  split_ifs at h with hlength
  rw [not_not] at hlength
  refine ⟨hlength, ?_⟩
  cases hparse : Footer.parse (slice plaintext 0 footerPlaintextSize) with
  | error e =>
      rw [hparse] at h
      cases h
  | ok parsed =>
      rw [hparse] at h
      obtain ⟨-, rfl⟩ := Prod.mk.inj (Except.ok.inj h)
      decide

theorem Balanced.load {suite : Suite} (haead : suite.aead.Expands) {archive : Bytes}
    {st st' : EnvelopeState} {s s' : ByteSource} {x : Option Bytes}
    (h : Balanced suite archive st s) (hfinished : st.finished = false)
    (hloads : EnvelopeState.Loads suite st s st' x s') : Balanced suite archive st' s' := by
  obtain ⟨front, harchive, hfront⟩ := h.split
  have hcount : st.footerCount = 0 := by rw [EnvelopeState.footerCount, hfinished]; rfl
  have htotal := h.total
  have hauthentication := h.authentication
  have hindex := h.index
  have hquanta := h.quanta
  rw [hcount] at htotal hindex hquanta
  unfold headerSize recordHeaderSize dataPrefixSize at htotal
  unfold aeadTagSize at hauthentication
  unfold dataPrefixSize at hquanta
  cases hloads with
  | data ciphertext plaintext payload rest padding hbytes hopens hparse _ =>
      have hsize := haead _ _ _ _ _ hopens
      obtain ⟨hquantum, hlength⟩ := parseDataPlaintext_length hparse
      unfold dataPrefixSize at hlength
      have hcount' : (st.afterData ciphertext payload padding).footerCount = 0 := hcount
      refine ⟨⟨front ++ recordBytes st.nextIndex dataRecordKind ciphertext, ?_, ?_⟩, ?_, ?_, ?_, ?_, ?_⟩
      · rw [harchive, hbytes, List.append_assoc]
      · rw [List.length_append, recordBytes_length, hfront]
        rfl
      · rw [hcount']
        simp only [EnvelopeState.afterData, headerSize, recordHeaderSize, aeadTagSize, dataPrefixSize]
        omega
      · simp only [EnvelopeState.afterData, aeadTagSize]
        omega
      · rw [hcount']
        simp only [EnvelopeState.afterData]
        omega
      · rw [hcount']
        simp only [EnvelopeState.afterData, dataPrefixSize]
        omega
      · intro footer hfooter
        obtain ⟨htrue, -⟩ := h.footer footer hfooter
        rw [hfinished] at htrue
        cases htrue
  | footer ciphertext plaintext footer padding hbytes hopens hparse hconfirms _ _ =>
      have hsize := haead _ _ _ _ _ hopens
      obtain ⟨hlength, rfl⟩ := parsePaddedFooter_length hparse
      have hpadded : plaintext.length = 1024 := hlength.trans paddedLen_footer
      have hcount' : (st.afterFooter ciphertext footer 912).footerCount = 1 := rfl
      refine ⟨⟨archive, (List.append_nil archive).symm, ?_⟩, ?_, ?_, ?_, ?_, ?_⟩
      · rw [harchive, hbytes, List.length_append, recordBytes_length, hfront]
        rfl
      · rw [hcount']
        simp only [EnvelopeState.afterFooter, headerSize, recordHeaderSize, aeadTagSize,
          dataPrefixSize, footerPlaintextSize]
        omega
      · simp only [EnvelopeState.afterFooter, aeadTagSize]
        omega
      · rw [hcount']
        simp only [EnvelopeState.afterFooter]
        omega
      · rw [hcount']
        simp only [EnvelopeState.afterFooter, dataPrefixSize, footerPlaintextSize]
        omega
      · intro footer' hfooter
        obtain rfl := Option.some.inj hfooter
        refine ⟨rfl, rfl, hconfirms.2.1, front, _, _, _, plaintext, ciphertext, ?_, hopens, hlength⟩
        rw [harchive, hbytes, hindex]
        rfl

theorem balanced_initial (suite : Suite) (key : Bytes) {header : Header}
    (options : AuthenticatedDecodeOptions) {archive : Bytes} {s : ByteSource}
    (harchive : archive = header.bytes ++ s.bytes) (hheader : header.bytes.length = headerSize) :
    Balanced suite archive (.initial key header options) s :=
  ⟨⟨header.bytes, harchive, hheader⟩, rfl, rfl, rfl, Nat.le_refl 0, fun _ h => nomatch h⟩

/-- A run of the decoder that succeeds ends with a reader that has read a footer. -/
theorem decodeAuthenticated_ok {ρ : Type} [LawfulReader ρ] {suite : Suite} {codecs : Codecs}
    {password : Bytes} {options : AuthenticatedDecodeOptions} {reader : ρ} {stats : AuthenticatedStats}
    (h : (decodeAuthenticated suite codecs password options reader).1 = .ok stats) :
    ∃ (header : Header) (key : Bytes) (reader' : ρ) (core : StreamStats),
      (LawfulReader.rest reader).bytes = header.bytes ++ (LawfulReader.rest reader').bytes ∧
      header.bytes.length = headerSize ∧
      (EnvelopeState.initial key header options).Within options.maxArchiveBytes ∧
      ((decodeWithOptions codecs options.core).run
        (.new reader' (.initial key header options) : AuthenticatedReader suite ρ)).reader.failure =
          none ∧
      ((decodeWithOptions codecs options.core).run (.new reader' (.initial key header options) :
        AuthenticatedReader suite ρ)).reader.state.finish core = .ok stats := by
  obtain ⟨hresult, -, hreader⟩ := (openEnvelope suite password options).run_rest reader
  have hopen := (openEnvelope_always suite password options).run reader
  rcases hrun : (openEnvelope suite password options).run reader with ⟨result, written, reader'⟩
  rw [hrun] at hresult hreader hopen
  unfold decodeAuthenticated at h
  rw [hrun] at h
  rcases result with e | st
  · cases h
  · have hyields := yields_of_result hresult.symm
    obtain ⟨header, key, rest, hbytes, hlength, -, -, rfl, hnext⟩ := openEnvelope_inv hyields
    have hrest : (LawfulReader.rest reader').bytes = rest := by
      rw [hreader _ rfl, hnext]
    dsimp only at h
    cases hfailure : ((decodeWithOptions codecs options.core).run
        (.new reader' (.initial key header options) : AuthenticatedReader suite ρ)).reader.failure with
    | some error =>
        rw [hfailure] at h
        cases h
    | none =>
        rw [hfailure] at h
        cases hcore : ((decodeWithOptions codecs options.core).run
            (.new reader' (.initial key header options) : AuthenticatedReader suite ρ)).result with
        | error error =>
            rw [hcore] at h
            cases h
        | ok core =>
            rw [hcore] at h
            refine ⟨header, key, reader', core, ?_, hlength, (hopen.1 _ rfl).1, hfailure, h⟩
            rw [hrest]
            exact hbytes

/-- The totals of the reader. -/
theorem decodeAuthenticated_accounts {ρ : Type} [LawfulReader ρ] {suite : Suite}
    (haead : suite.aead.Expands) {codecs : Codecs} {password : Bytes}
    {options : AuthenticatedDecodeOptions} {reader : ρ} {stats : AuthenticatedStats}
    (h : (decodeAuthenticated suite codecs password options reader).1 = .ok stats) :
    Accounts (fun plaintext ciphertext =>
        ∃ key nonce aad, suite.aead.decrypt key nonce aad ciphertext = some plaintext) stats
      (LawfulReader.rest reader).bytes ∧ stats.archiveBytes ≤ options.maxArchiveBytes := by
  obtain ⟨header, key, reader', core, hbytes, hheader, hwithin, hfailure, hfinish⟩ :=
    decodeAuthenticated_ok h
  have hbalanced : AuthenticatedReader.Tracks (Balanced suite (LawfulReader.rest reader).bytes) True
      ((decodeWithOptions codecs options.core).run
        (.new reader' (.initial key header options) : AuthenticatedReader suite ρ)).reader := by
    refine run_keeps (fun r n h => AuthenticatedReader.Tracks.read ?_ (fun _ _ _ _ _ _ => trivial) n h)
      (decodeWithOptions codecs options.core) ?_
    · intro st s st' x w s' hbalanced hfinished hyields
      exact hbalanced.load haead hfinished (EnvelopeState.loadNextRecord_inv hyields)
    · exact ⟨fun _ => balanced_initial suite key options hbytes hheader, fun h => nomatch h⟩
  have hkept := run_keeps (P := MeteredReader.Kept options.maxArchiveBytes)
    (fun r n h => MeteredReader.Kept.read h n) (decodeWithOptions codecs options.core)
    (@MeteredReader.Kept.new suite ρ _ reader' _ hwithin rfl)
  have hproject := run_project (f := MeteredReader.reader) MeteredReader.read_reader
    (decodeWithOptions codecs options.core)
    (MeteredReader.new reader' (.initial key header options) : MeteredReader suite ρ)
  have hnew : (MeteredReader.new reader' (.initial key header options) : MeteredReader suite ρ).reader =
      .new reader' (.initial key header options) := rfl
  rw [hnew] at hproject
  have hstate := hkept.state
  have hfinal := hbalanced.1 hfailure
  rw [hproject] at hfinal hfinish
  dsimp only at hfinal hfinish
  generalize ((decodeWithOptions codecs options.core).run (MeteredReader.new reader'
    (.initial key header options) : MeteredReader suite ρ)).reader.reader.state = st at *
  unfold EnvelopeState.finish at hfinish
  cases hfooter : st.footer with
  | none =>
      rw [hfooter] at hfinish
      cases hfinish
  | some footer =>
      rw [hfooter] at hfinish
      dsimp only at hfinish
      split_ifs at hfinish with hmismatch
      rw [not_or, not_not] at hmismatch
      obtain ⟨hfinished, hend, hplaintext, front, fkey, fnonce, faad, plaintext, ciphertext, hlast,
        hopens, hpadded⟩ := hfinal.footer footer hfooter
      obtain ⟨before, harchive, hbefore⟩ := hfinal.split
      have hcount : st.footerCount = 1 := by rw [EnvelopeState.footerCount, hfinished]; rfl
      have htotal := hfinal.total
      have hauthentication := hfinal.authentication
      have hindex := hfinal.index
      have hquanta := hfinal.quanta
      have hrecords := hstate.records hfinished
      rw [hcount] at htotal hindex hquanta
      unfold headerSize recordHeaderSize dataPrefixSize footerPlaintextSize at htotal
      unfold aeadTagSize at hauthentication
      unfold dataPrefixSize footerPlaintextSize at hquanta
      have hleast : minAuthenticatedArchiveBytes = 2176 := by decide
      rw [← Except.ok.inj hfinish]
      refine ⟨⟨?_, ?_, ?_, ⟨front, plaintext, ciphertext, hlast, ⟨_, _, _, hopens⟩, hpadded⟩, ?_⟩,
        hstate.archive⟩
      · show st.archiveBytes = _
        rw [harchive, hend, List.append_nil, hbefore]
      · show st.archiveBytes = 64 + 16 * (st.dataRecords + 1) + st.authenticationBytes +
          8 * st.dataRecords + core.encodedBytes + 112 + st.paddingBytes
        rw [← hmismatch.1, hplaintext]
        omega
      · show st.authenticationBytes = 16 * (st.dataRecords + 1)
        omega
      · show minAuthenticatedArchiveBytes ≤ st.archiveBytes
        omega

/-! ### Both directions -/

/-- The accounting of the envelope. What a run that succeeds reports is what the archive
is made of; in every run of the decoder the bytes that are read and the buffers that are
allocated stay within the limit, and no counter wraps. -/
theorem byte_accounting {suite : Suite} (haead : suite.aead.Expands) (codecs : Codecs)
    (password : Bytes) :
    (∀ (build : ℕ → Option WorkerPool) (random : Randomness) (options : AuthenticatedEncodeOptions)
      (input : Reads) (stats : AuthenticatedStats),
      (encodeAuthenticatedRun suite codecs build random password options input).result = .ok stats →
      Accounts (fun plaintext ciphertext =>
          ∃ key nonce aad, suite.aead.encrypt key nonce aad plaintext = some ciphertext) stats
        (encodeAuthenticatedRun suite codecs build random password options input).written.flatten) ∧
    ∀ (ρ : Type) [LawfulReader ρ] (options : AuthenticatedDecodeOptions) (reader : ρ),
      (decodeAuthenticatedMetered suite codecs password options reader).1 =
        decodeAuthenticated suite codecs password options reader ∧
      Sound options.maxArchiveBytes
        (decodeAuthenticatedMetered suite codecs password options reader).2 ∧
      ∀ stats, (decodeAuthenticated suite codecs password options reader).1 = .ok stats →
        Accounts (fun plaintext ciphertext =>
            ∃ key nonce aad, suite.aead.decrypt key nonce aad ciphertext = some plaintext) stats
          (LawfulReader.rest reader).bytes ∧ stats.archiveBytes ≤ options.maxArchiveBytes := by
  refine ⟨?_, ?_⟩
  · intro build random options input stats hstats
    obtain ⟨⟨stats', w⟩, written, s', rest, hsealed, hreturn, hwritten⟩ :=
      (yields_of_result hstats).bind_inv
    obtain ⟨rfl, rfl, -⟩ := ret_inv hreturn
    obtain ⟨key, e, hby, rfl, -, hbytes⟩ := encodeSealed_inv hsealed
    rw [List.append_nil] at hwritten
    have harchive : (encodeAuthenticatedRun suite codecs build random password options
        input).written.flatten = e.bytes := by
      rw [← hbytes, ← hwritten]
      rfl
    rw [harchive]
    refine e.accounts (Header.generate_inv hby.header).1 ?_
    have hmem := hby.encrypted _ (List.mem_append_right _ (List.mem_singleton_self _))
    exact ⟨key, _, _, hmem⟩
  · intro ρ _ options reader
    exact ⟨decodeAuthenticatedMetered_fst suite codecs password options reader,
      decodeAuthenticatedMetered_sound suite codecs password options reader,
      fun stats hstats => decodeAuthenticated_accounts haead hstats⟩

/-- An archive of three bytes, and a run of the decoder that ends at once. -/
theorem byte_accounting_three_bytes :
    (∃ stats, (encodeAuthenticatedRun constantSuite storedCodecs (fun _ => some .sequential)
        zeroRandomness [1] ⟨⟨4, 1000⟩, 14⟩ (.single [7, 7, 7])).result = .ok stats ∧
      Accounts (fun plaintext ciphertext => ∃ key nonce aad,
          constantSuite.aead.encrypt key nonce aad plaintext = some ciphertext) stats
        (encodeAuthenticatedRun constantSuite storedCodecs (fun _ => some .sequential)
          zeroRandomness [1] ⟨⟨4, 1000⟩, 14⟩ (.single [7, 7, 7])).written.flatten) ∧
    Sound defaultMaxAuthenticatedArchiveBytes (decodeAuthenticatedMetered constantSuite storedCodecs
      [1] .default (BlockReader.new (.single []))).2 := by
  obtain ⟨hencode, hdecode⟩ := @byte_accounting constantSuite Aead.tagged_expands
    storedCodecs [1]
  obtain ⟨fields, core, hyields, hbytes, hsome, hsize, -⟩ :=
    @encode_yields storedCodecs storedCodecs_lossless [7, 7, 7] (by decide)
  obtain ⟨⟨stats, w⟩, written, src', hsealed⟩ :=
    @encodeSealed_succeeds constantSuite storedCodecs (fun _ => some .sequential) zeroRandomness [1]
      ⟨⟨4, 1000⟩, 14⟩ (.single [7, 7, 7]) constantSuite_works (by decide) (by decide) (by decide) core
      fields (fun src => hyields _ _ _ src rfl (by decide) rfl (by decide)) hsome
      (by rw [defaultMaxEncodedBytes_eq] at hsize; omega) hbytes (.ofBytes [])
  have hrun : (encodeAuthenticated constantSuite storedCodecs (fun _ => some .sequential)
      zeroRandomness [1] ⟨⟨4, 1000⟩, 14⟩ (.single [7, 7, 7])).Yields (.ofBytes []) stats written src' :=
    hsealed.bind_ret
  exact ⟨⟨stats, hrun.result, hencode _ _ _ _ stats hrun.result⟩,
    (hdecode BlockReader .default (BlockReader.new (.single []))).2.1⟩

end MosaicArchive.Authenticated
