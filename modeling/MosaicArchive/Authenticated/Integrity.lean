import MosaicArchive.Authenticated.RoundTrip
import MosaicArchive.Core.WrittenPrefix

/-!
Integrity of the envelope. When a cipher opens nothing but what runs of the
encoder have sealed, and these runs have different headers, the records that a
reader accepts are the first records of one of them: nonce and associated data
tie a record to its header, its index and its kind. The footer is accepted only
after all of them and at the end of the input.
-/

namespace MosaicArchive.Authenticated

open FixedWidth Sha256 MosaicArchive.Core IoProgram

/-! ### Nonces and associated data determine the record -/

theorem recordHeaderFields_inj {i i' n n' : ℕ} {k k' : UInt8} (hi : i < 2 ^ 64) (hi' : i' < 2 ^ 64)
    (h : (recordHeaderFields i k n).flatten = (recordHeaderFields i' k' n').flatten) :
    i = i' ∧ k = k' := by
  simp only [recordHeaderFields, List.flatten_cons] at h
  obtain ⟨hindex, hrest⟩ := List.append_inj h (by simp)
  have hvalue := congrArg beNat hindex
  rw [beNat_beBytes_of_lt (by norm_num at hi ⊢; exact hi),
    beNat_beBytes_of_lt (by norm_num at hi' ⊢; exact hi')] at hvalue
  exact ⟨hvalue, (List.cons.inj hrest).1⟩

/-- Two sealed records with the same associated data have the same header bytes,
index and kind. -/
theorem sealOf_inj {header header' : Header} (hlength : header.bytes.length = header'.bytes.length)
    {i i' : ℕ} {k k' : UInt8} {message message' ciphertext ciphertext' : Bytes} (hi : i < 2 ^ 64)
    (hi' : i' < 2 ^ 64)
    (h : sealOf header i k message ciphertext = sealOf header' i' k' message' ciphertext') :
    header.bytes = header'.bytes ∧ i = i' ∧ k = k' ∧ message = message' ∧
      ciphertext = ciphertext' := by
  obtain ⟨-, haad, rfl, rfl⟩ := Aead.Sealed.mk.inj h
  rw [List.append_assoc, List.append_assoc] at haad
  obtain ⟨-, haad⟩ := List.append_inj haad rfl
  obtain ⟨hbytes, hfields⟩ := List.append_inj haad hlength
  obtain ⟨hindex, hkind⟩ := recordHeaderFields_inj hi hi' hfields
  exact ⟨hbytes, hindex, hkind, rfl, rfl⟩

namespace Envelope

theorem mem_log {e : Envelope} {s : Aead.Sealed} :
    s ∈ e.log ↔ (∃ before r left, e.records = before ++ r :: left ∧
        s = r.sealed e.header before.length) ∨
      s = sealOf e.header e.records.length footerRecordKind e.footerPlaintext
        e.footerCiphertext := by
  rw [Envelope.log, List.mem_append, mem_seals, List.mem_singleton]
  simp only [Nat.zero_add]

theorem records_length_lt (e : Envelope) : e.records.length < 2 ^ 64 :=
  Authenticated.records_length_lt e.counters e.plaintextBytes

/-- Under the header of the envelope the key opens nothing but its records. -/
def Genuine (e : Envelope) (suite : Suite) (key : Bytes) : Prop :=
  ∀ (index : ℕ) (kind : UInt8) (ciphertext plaintext : Bytes), index < 2 ^ 64 →
    suite.aead.decrypt key (nonce e.header.noncePrefix index)
      (sealOf e.header index kind plaintext ciphertext).aad ciphertext = some plaintext →
    sealOf e.header index kind plaintext ciphertext ∈ e.log

end Envelope

section

variable {suite : Suite} {e : Envelope} {key : Bytes} {options : AuthenticatedDecodeOptions}

open EnvelopeState

/-- A load that succeeded after some records of the envelope took the next one,
or the footer after the last. -/
theorem load_genuine (hgenuine : e.Genuine suite key) {before left : List DataRecord}
    (hrecords : e.records = before ++ left) {s s' : ByteSource} {st' : EnvelopeState}
    {x : Option Bytes} (h : Loads suite (after key e.header options before) s st' x s') :
    (∃ r left', left = r :: left' ∧ x = some r.payload ∧
        st' = after key e.header options (before ++ [r]) ∧
        s.bytes = recordBytes before.length dataRecordKind r.ciphertext ++ s'.bytes) ∨
      (left = [] ∧ x = none ∧ st' = e.final key options ∧
        s.bytes = recordBytes before.length footerRecordKind e.footerCiphertext) := by
  have hbefore : before.length < 2 ^ 64 := by
    have hlt := e.records_length_lt
    rw [hrecords, List.length_append] at hlt
    omega
  cases h with
  | data ciphertext plaintext payload rest padding hbytes hopens hparse hindex =>
      left
      rcases Envelope.mem_log.mp (hgenuine before.length dataRecordKind ciphertext plaintext hbefore
        hopens) with ⟨before', r, left', hsplit, hseal⟩ | hseal
      · have hbefore' : before'.length < 2 ^ 64 := by
          have hlt := e.records_length_lt
          rw [hsplit, List.length_append] at hlt
          omega
        obtain ⟨-, hlength, -, rfl, rfl⟩ := sealOf_inj rfl hbefore hbefore' hseal
        rw [hrecords] at hsplit
        obtain ⟨rfl, rfl⟩ := List.append_inj hsplit hlength
        have hdata := parseDataPlaintext_dataBytes r.fits
        obtain ⟨rfl, rfl⟩ := Prod.mk.inj (Except.ok.inj (hparse.symm.trans hdata))
        exact ⟨r, left', rfl, rfl, after_concat before r, hbytes⟩
      · obtain ⟨-, -, hkind, -⟩ := sealOf_inj rfl hbefore e.records_length_lt hseal
        exact absurd hkind.symm footerRecordKind_ne
  | footer ciphertext plaintext footer padding hbytes hopens hparse hconfirms hindex hfault =>
      right
      rcases Envelope.mem_log.mp (hgenuine before.length footerRecordKind ciphertext plaintext hbefore
        hopens) with ⟨before', r, left', hsplit, hseal⟩ | hseal
      · have hbefore' : before'.length < 2 ^ 64 := by
          have hlt := e.records_length_lt
          rw [hsplit, List.length_append] at hlt
          omega
        obtain ⟨-, -, hkind, -⟩ := sealOf_inj rfl hbefore hbefore' hseal
        exact absurd hkind footerRecordKind_ne
      · obtain ⟨-, hlength, -, rfl, rfl⟩ := sealOf_inj rfl hbefore e.records_length_lt hseal
        rw [hrecords, List.length_append] at hlength
        obtain rfl : left = [] := List.eq_nil_of_length_eq_zero (by omega)
        obtain rfl : e.records = before := by simpa using hrecords
        have hfooter : parsePaddedFooter e.footerPlaintext = .ok (e.footer, 912) :=
          parsePaddedFooter_append e.footer_fits e.padded
        obtain ⟨rfl, rfl⟩ := Prod.mk.inj (Except.ok.inj (hparse.symm.trans hfooter))
        exact ⟨rfl, rfl, rfl, hbytes⟩

/-- What a reader delivers are the payloads of the next records; without a
failure, of all of them. -/
theorem drain_genuine (hgenuine : e.Genuine suite key) (fuel : ℕ) {before left : List DataRecord}
    (hrecords : e.records = before ++ left) (s : ByteSource) :
    ∃ got, got <+: left ∧ (drain suite fuel (after key e.header options before) s).1 = payloads got ∧
      ((drain suite fuel (after key e.header options before) s).2 = none → got = left) := by
  induction fuel generalizing before left s with
  | zero => exact ⟨[], List.nil_prefix, rfl, fun hnone => by cases hnone⟩
  | succ fuel ih =>
      rcases load_cases suite (after key e.header options before) s with
        ⟨error, herror⟩ | ⟨st', x, w, s', hyields, hloads⟩
      · rw [drain_error herror]
        exact ⟨[], List.nil_prefix, rfl, fun hnone => by cases hnone⟩
      · rcases load_genuine hgenuine hrecords hloads with
          ⟨r, left', rfl, rfl, rfl, -⟩ | ⟨rfl, rfl, rfl, -⟩
        · obtain ⟨got, hprefix, hpayloads, hall⟩ :=
            ih (by simpa using hrecords : e.records = (before ++ [r]) ++ left') s'
          rw [drain_some hyields]
          refine ⟨r :: got, (List.prefix_cons_inj r).mpr hprefix, ?_, ?_⟩
          · rw [hpayloads]
            simp [payloads]
          · intro hnone
            rw [hall hnone]
        · rw [drain_none hyields]
          exact ⟨[], List.prefix_refl _, rfl, fun _ => rfl⟩

/-- The states of a reader of a body that starts with records of the envelope. -/
def Envelope.Follows (e : Envelope) (key : Bytes) (options : AuthenticatedDecodeOptions)
    (body : Bytes) (st : EnvelopeState) (s : ByteSource) : Prop :=
  (∃ before left, e.records = before ++ left ∧ st = after key e.header options before ∧
    body = wires 0 before ++ s.bytes) ∨ (st = e.final key options ∧ body = e.body)

theorem Envelope.Follows.load (hgenuine : e.Genuine suite key) {body : Bytes}
    {st st' : EnvelopeState} {s s' : ByteSource} {x : Option Bytes}
    (h : e.Follows key options body st s) (hfinished : st.finished = false)
    (hloads : Loads suite st s st' x s') : e.Follows key options body st' s' := by
  rcases h with ⟨before, left, hrecords, rfl, rfl⟩ | ⟨rfl, -⟩
  · rcases load_genuine hgenuine hrecords hloads with
      ⟨r, left', rfl, -, rfl, hbytes⟩ | ⟨rfl, -, rfl, hbytes⟩
    · refine .inl ⟨before ++ [r], left', by simpa using hrecords, rfl, ?_⟩
      rw [hbytes, wires_append, Nat.zero_add, wires, wires, List.append_nil, List.append_assoc]
    · obtain rfl : e.records = before := by simpa using hrecords
      refine .inr ⟨rfl, ?_⟩
      rw [hbytes]
      rfl
  · cases hfinished

end

/-! ### Taking a run of the decoder apart -/

/-- The keys that can come from a password. -/
def derivedKeys (suite : Suite) (password : Bytes) : Set Bytes :=
  {key | ∃ salt kdfLogN, suite.kdf.derive password salt kdfLogN = some key}

theorem deriveCipher_inv {suite : Suite} {password key : Bytes} {header : Header} {decoding : Bool}
    (h : deriveCipher suite password header decoding = .ok key) :
    key ∈ derivedKeys suite password := by
  unfold deriveCipher at h
  split_ifs at h
  all_goals
    rcases hkey : suite.kdf.derive password header.salt header.kdfLogN with _ | derived
    · rw [hkey] at h
      cases h
    · rw [hkey] at h
      obtain rfl := Except.ok.inj h
      exact ⟨header.salt, header.kdfLogN, hkey⟩

theorem Header.parse_bytes {bytes : Bytes} {header : Header} (h : Header.parse bytes = .ok header) :
    header.bytes = bytes := by
  unfold Header.parse at h
  by_cases hsupported : Header.Supported bytes
  · rw [if_neg (not_not.mpr hsupported)] at h
    rcases hkdf : validateKdfLogN (beNat (slice bytes 44 45)) .invalidFormat with e | _
    · simp only [hkdf, bind, Except.bind] at h
      cases h
    · simp only [hkdf, bind, Except.bind] at h
      split_ifs at h
      rw [← Except.ok.inj h]
  · rw [if_pos hsupported] at h
    cases h

/-- An envelope that was opened starts with the bytes of its header. -/
theorem openEnvelope_inv {suite : Suite} {password : Bytes} {options : AuthenticatedDecodeOptions}
    {s s' : ByteSource} {st : EnvelopeState} {w : List Bytes}
    (h : (openEnvelope suite password options).Yields s st w s') :
    ∃ header key rest, s.bytes = header.bytes ++ rest ∧ header.bytes.length = headerSize ∧
      Header.parse header.bytes = .ok header ∧ key ∈ derivedKeys suite password ∧
      st = .initial key header options ∧ s' = { s with bytes := rest } := by
  obtain ⟨-, h⟩ := require_bind_inv h
  obtain ⟨-, h⟩ := require_bind_inv h
  obtain ⟨-, h⟩ := require_bind_inv h
  obtain ⟨-, h⟩ := require_bind_inv h
  obtain ⟨bytes, rest, hbytes, hlength, h⟩ := readExact_bind_inv h
  obtain ⟨header, hparse, h⟩ := ofExcept_bind_inv h
  obtain ⟨-, h⟩ := require_bind_inv h
  obtain ⟨key, hkey, h⟩ := ofExcept_bind_inv h
  obtain ⟨rfl, -, rfl⟩ := ret_inv h
  obtain rfl := Header.parse_bytes hparse
  exact ⟨header, key, rest, hbytes, hlength, hparse, deriveCipher_inv hkey, rfl, rfl⟩

/-- A run of the decoder either stops before the first record or runs the core
decoder on the reader of the envelope. -/
theorem decodeAuthenticated_cases {ρ : Type} [LawfulReader ρ] (suite : Suite) (codecs : Codecs)
    (password : Bytes) (options : AuthenticatedDecodeOptions) (reader : ρ) :
    (∃ e, decodeAuthenticated suite codecs password options reader = (.error e, [])) ∨
      ∃ (header : Header) (key : Bytes) (reader' : ρ),
        (LawfulReader.rest reader).bytes = header.bytes ++ (LawfulReader.rest reader').bytes ∧
        header.bytes.length = headerSize ∧ Header.parse header.bytes = .ok header ∧
        key ∈ derivedKeys suite password ∧
        (decodeAuthenticated suite codecs password options reader).2 =
          ((decodeWithOptions codecs options.core).run
            (.new reader' (.initial key header options) : AuthenticatedReader suite ρ)).written ∧
        ∀ stats, (decodeAuthenticated suite codecs password options reader).1 = .ok stats →
          ((decodeWithOptions codecs options.core).run
            (.new reader' (.initial key header options) : AuthenticatedReader suite ρ)).reader.failure =
              none ∧
          ((decodeWithOptions codecs options.core).run (.new reader' (.initial key header options) :
            AuthenticatedReader suite ρ)).reader.state.footer ≠ none := by
  obtain ⟨hresult, -, hreader⟩ := (openEnvelope suite password options).run_rest reader
  rcases hrun : (openEnvelope suite password options).run reader with ⟨result, written, reader'⟩
  rw [hrun] at hresult hreader
  unfold decodeAuthenticated
  rw [hrun]
  rcases result with e | st
  · exact .inl ⟨e, rfl⟩
  · right
    have hyields := yields_of_result hresult.symm
    obtain ⟨header, key, rest, hbytes, hlength, hparse, hkey, rfl, hnext⟩ := openEnvelope_inv hyields
    have hrest : (LawfulReader.rest reader').bytes = rest := by
      rw [hreader _ rfl, hnext]
    refine ⟨header, key, reader', by rw [hrest]; exact hbytes, hlength, hparse, hkey, ?_⟩
    dsimp only
    rcases (decodeWithOptions codecs options.core).run
      (.new reader' (.initial key header options) : AuthenticatedReader suite ρ) with
      ⟨core, coreWritten, final⟩
    rcases final.failure with _ | error
    · rcases core with error | core
      · refine ⟨?_, fun stats hstats => ?_⟩
        · simp only
        · simp only at hstats
          cases hstats
      · refine ⟨?_, fun stats hstats => ⟨rfl, ?_⟩⟩
        · simp only
        · simp only at hstats
          intro hfooter
          unfold EnvelopeState.finish at hstats
          rw [hfooter] at hstats
          cases hstats
    · refine ⟨?_, fun stats hstats => ?_⟩
      · simp only
      · simp only at hstats
        cases hstats

/-! ### Runs of the encoder under a password -/

/-- A run of the encoder that succeeded, with what it has sealed. -/
structure HonestRun (suite : Suite) (codecs : Codecs) (password : Bytes) where
  build : ℕ → Option WorkerPool
  random : Randomness
  options : AuthenticatedEncodeOptions
  input : Reads
  stats : AuthenticatedStats
  writer : AuthenticatedWriter
  written : List Bytes
  source : ByteSource
  completed : (encodeSealed suite codecs build random password options input).Yields (.ofBytes [])
    (stats, writer) written source

namespace HonestRun

variable {suite : Suite} {codecs : Codecs} {password : Bytes}

def archive (run : HonestRun suite codecs password) : Bytes := run.written.flatten

def publicHeader (run : HonestRun suite codecs password) : Bytes := run.archive.take headerSize

/-- The calls of `encrypt` of the run. -/
def log (run : HonestRun suite codecs password) : List Aead.Sealed := run.writer.log

theorem exists_envelope (run : HonestRun suite codecs password) :
    ∃ key e, SealedBy suite codecs run.build run.random password run.options run.input key e ∧
      run.log = e.log ∧ run.archive = e.bytes ∧ run.publicHeader = e.header.bytes := by
  obtain ⟨key, e, hsealed, -, hlog, hwire⟩ := encodeSealed_inv run.completed
  obtain ⟨hlength, -⟩ := Header.generate_inv hsealed.header
  refine ⟨key, e, hsealed, hlog, hwire, ?_⟩
  rw [publicHeader, archive, hwire, Envelope.bytes, ← hlength, List.take_left]

end HonestRun

section

variable {suite : Suite} {codecs : Codecs} {password key key' : Bytes} {ι : Type*}
  {runs : ι → HonestRun suite codecs password} {options : AuthenticatedDecodeOptions}

/-- Among runs with different headers, the records under a header are those of
its run. -/
theorem genuine_of_opensOnly
    (hdistinct : ∀ i j, (runs i).publicHeader = (runs j).publicHeader → i = j)
    (hideal : suite.aead.OpensOnly (derivedKeys suite password) {s | ∃ i, s ∈ (runs i).log})
    (hkey : key ∈ derivedKeys suite password) {i : ι} {e : Envelope}
    (hlength : e.header.bytes.length = headerSize) (hlog : (runs i).log = e.log)
    (hheader : (runs i).publicHeader = e.header.bytes) : e.Genuine suite key := by
  intro index kind ciphertext plaintext hindex hopens
  obtain ⟨j, hj⟩ := hideal key hkey _ _ _ _ hopens
  obtain ⟨key', e', hsealed, hlog', -, hheader'⟩ := (runs j).exists_envelope
  obtain ⟨hlength', -⟩ := Header.generate_inv hsealed.header
  have hmem : sealOf e.header index kind plaintext ciphertext ∈ (runs j).log := hj
  rw [hlog'] at hmem
  have hsame : (runs i).publicHeader = (runs j).publicHeader := by
    rw [hheader, hheader']
    rcases Envelope.mem_log.mp hmem with ⟨before, r, left, hsplit, hseal⟩ | hseal
    · have hbefore : before.length < 2 ^ 64 := by
        have hlt := e'.records_length_lt
        rw [hsplit, List.length_append] at hlt
        omega
      exact (sealOf_inj (hlength.trans hlength'.symm) hindex hbefore hseal).1
    · exact (sealOf_inj (hlength.trans hlength'.symm) hindex e'.records_length_lt hseal).1
  rw [hdistinct i j hsame, hlog'] at hlog
  rw [← hlog]
  exact hmem

/-- Under a header of no run nothing is opened. -/
theorem not_loads_of_foreign
    (hideal : suite.aead.OpensOnly (derivedKeys suite password) {s | ∃ i, s ∈ (runs i).log})
    (hkey : key ∈ derivedKeys suite password) {header : Header}
    (hlength : header.bytes.length = headerSize)
    (hforeign : ∀ i, (runs i).publicHeader ≠ header.bytes) {s s' : ByteSource} {st' : EnvelopeState}
    {x : Option Bytes} :
    ¬ EnvelopeState.Loads suite (.initial key header options) s st' x s' := by
  have hclosed : ∀ kind ciphertext plaintext,
      ¬ (EnvelopeState.initial key header options).Opens suite kind ciphertext plaintext := by
    intro kind ciphertext plaintext hopens
    obtain ⟨j, hj⟩ := hideal key hkey _ _ _ _ hopens
    obtain ⟨key', e', hsealed, hlog', -, hheader'⟩ := (runs j).exists_envelope
    obtain ⟨hlength', -⟩ := Header.generate_inv hsealed.header
    have hmem : sealOf header 0 kind plaintext ciphertext ∈ (runs j).log := hj
    rw [hlog'] at hmem
    refine hforeign j (hheader'.trans (Eq.symm ?_))
    rcases Envelope.mem_log.mp hmem with ⟨before, r, left, hsplit, hseal⟩ | hseal
    · have hbefore : before.length < 2 ^ 64 := by
        have hlt := e'.records_length_lt
        rw [hsplit, List.length_append] at hlt
        omega
      exact (sealOf_inj (hlength.trans hlength'.symm) (by norm_num) hbefore hseal).1
    · exact (sealOf_inj (hlength.trans hlength'.symm) (by norm_num) e'.records_length_lt hseal).1
  intro h
  cases h with
  | data ciphertext plaintext payload rest padding hbytes hopens => exact hclosed _ _ _ hopens
  | footer ciphertext plaintext footer padding hbytes hopens => exact hclosed _ _ _ hopens

/-- A run of the core decoder on the records of an envelope. -/
theorem written_of_genuine {e : Envelope} (hcodecs : codecs.Lossless)
    (hgenuine : e.Genuine suite key) {run : HonestRun suite codecs password}
    (hsealed : SealedBy suite codecs run.build run.random password run.options run.input key' e)
    {ρ : Type} [LawfulReader ρ] (reader : ρ) (options : AuthenticatedDecodeOptions) :
    ((decodeWithOptions codecs options.core).run (.new reader (.initial key e.header options) :
      AuthenticatedReader suite ρ)).written <+: segmentContents run.input.data := by
  let inner : AuthenticatedReader suite ρ := .new reader (.initial key e.header options)
  obtain ⟨-, hwritten, -⟩ := (decodeWithOptions codecs options.core).run_rest inner
  rw [hwritten]
  have hencode := yields_of_result hsealed.result
  have hcontent : ((encode codecs run.build run.options.core run.input).eval
      (.ofBytes [])).written.flatten = payloads e.records := hsealed.content
  refine decode_written_prefix hcodecs hencode options.core ?_
  rw [hcontent]
  obtain ⟨got, hprefix, hpayloads, hall⟩ := drain_genuine hgenuine
    ((LawfulReader.rest reader).bytes.length + 1) (List.nil_append e.records).symm
    (LawfulReader.rest reader)
  rw [EnvelopeState.after_nil] at hpayloads hall
  have hrest : LawfulReader.rest inner = ⟨payloads got, (drain suite
      ((LawfulReader.rest reader).bytes.length + 1) (.initial key e.header options)
      (LawfulReader.rest reader)).2, false⟩ := by
    rw [← hpayloads]
    change inner.rest = _
    rw [AuthenticatedReader.rest, AuthenticatedReader.remaining_eq_drain rfl rfl]
    rfl
  rw [hrest]
  rcases hfault : (drain suite ((LawfulReader.rest reader).bytes.length + 1)
    (.initial key e.header options) (LawfulReader.rest reader)).2 with _ | fault
  · left
    rw [hall hfault]
  · right
    obtain ⟨left, hleft⟩ := hprefix
    refine ⟨⟨payloads left, ?_⟩, rfl⟩
    rw [← hleft, payloads_append]

/-- Under an ideal cipher every archive that is accepted is one that a run of the
encoder wrote, and whatever is written, accepted or not, are segments of the
input of one run, from the first one on. -/
theorem decode_authenticated_integrity (hcodecs : codecs.Lossless)
    (runs : ι → HonestRun suite codecs password)
    (hdistinct : ∀ i j, (runs i).publicHeader = (runs j).publicHeader → i = j)
    (hideal : suite.aead.OpensOnly (derivedKeys suite password) {s | ∃ i, s ∈ (runs i).log})
    (options : AuthenticatedDecodeOptions) (input : Reads) :
    (∀ stats, (decodeAuthenticated suite codecs password options (BlockReader.new input)).1 =
        .ok stats → ∃ i, input.data = (runs i).archive) ∧
      ((decodeAuthenticated suite codecs password options (BlockReader.new input)).2 = [] ∨
        ∃ i, (decodeAuthenticated suite codecs password options (BlockReader.new input)).2 <+:
          segmentContents (runs i).input.data) := by
  rcases decodeAuthenticated_cases suite codecs password options (BlockReader.new input) with
    ⟨error, hstopped⟩ | ⟨header, key, reader, hbytes, hlength, hparse, hkey, hwritten, haccepted⟩
  · rw [hstopped]
    exact ⟨fun stats hstats => (by cases hstats), .inl rfl⟩
  · rw [hwritten]
    have hdata : input.data = header.bytes ++ (LawfulReader.rest reader).bytes := hbytes
    by_cases hknown : ∃ i, (runs i).publicHeader = header.bytes
    · obtain ⟨i, hi⟩ := hknown
      obtain ⟨key', e, hsealed, hlog, harchive, hpublic⟩ := (runs i).exists_envelope
      obtain ⟨helength, heparse, -⟩ := Header.generate_inv hsealed.header
      obtain rfl : header = e.header := by
        rw [← hi, hpublic, heparse] at hparse
        exact (Except.ok.inj hparse).symm
      have hgenuine := genuine_of_opensOnly hdistinct hideal hkey helength hlog hpublic
      refine ⟨fun stats hstats => ⟨i, ?_⟩,
        .inr ⟨i, written_of_genuine hcodecs hgenuine hsealed reader options⟩⟩
      obtain ⟨hhealthy, hfooter⟩ := haccepted stats hstats
      have htracks : ((decodeWithOptions codecs options.core).run
          (.new reader (.initial key e.header options) : AuthenticatedReader suite
            BlockReader)).reader.Tracks
          (e.Follows key options (LawfulReader.rest reader).bytes) True := by
        refine run_keeps (fun r n h => ?_) _ ?_
        · refine AuthenticatedReader.Tracks.read ?_ (fun _ _ _ _ _ _ => trivial) n h
          intro st s st' x w s' hfollows hfinished hyields
          exact hfollows.load hgenuine hfinished (EnvelopeState.loadNextRecord_inv hyields)
        · refine ⟨fun _ => .inl ⟨[], e.records, rfl, ?_, rfl⟩, fun _ => trivial⟩
          rw [EnvelopeState.after_nil]
          rfl
      rcases htracks.1 hhealthy with ⟨before, left, -, hstate, -⟩ | ⟨-, hbody⟩
      · rw [hstate] at hfooter
        exact absurd rfl hfooter
      · rw [hdata, hbody, harchive]
        rfl
    · -- no record opens under a header that no run has produced
      have hforeign : ∀ i, (runs i).publicHeader ≠ header.bytes := fun i hi => hknown ⟨i, hi⟩
      have hclosed : ∀ {s st' x s'}, ¬ EnvelopeState.Loads suite (.initial key header options) s st'
          x s' := not_loads_of_foreign hideal hkey hlength hforeign
      refine ⟨fun stats hstats => ?_, .inl ?_⟩
      · obtain ⟨hhealthy, hfooter⟩ := haccepted stats hstats
        have htracks : ((decodeWithOptions codecs options.core).run
            (.new reader (.initial key header options) : AuthenticatedReader suite
              BlockReader)).reader.Tracks
            (fun st _ => st = .initial key header options) True := by
          refine run_keeps (fun r n h => ?_) _ ⟨fun _ => rfl, fun _ => trivial⟩
          refine AuthenticatedReader.Tracks.read ?_ (fun _ _ _ _ _ _ => trivial) n h
          rintro _ s st' x w s' rfl - hyields
          exact absurd (EnvelopeState.loadNextRecord_inv hyields) hclosed
        rw [htracks.1 hhealthy] at hfooter
        exact absurd rfl hfooter
      · let inner : AuthenticatedReader suite BlockReader :=
          .new reader (.initial key header options)
        obtain ⟨-, hwrittenRun, -⟩ := (decodeWithOptions codecs options.core).run_rest inner
        rw [hwrittenRun]
        refine decodeWithOptions_empty codecs options.core ?_
        change inner.pending ++ inner.remaining.1 = []
        rw [AuthenticatedReader.remaining_eq_drain rfl rfl]
        rcases EnvelopeState.load_cases suite (.initial key header options)
          (LawfulReader.rest reader) with ⟨error, herror⟩ | ⟨st', x, w, s', -, hloads⟩
        · have hdrain := drain_error herror (LawfulReader.rest reader).bytes.length
          exact congrArg Prod.fst hdrain
        · exact absurd hloads hclosed

end

/-! ### The encoder never decrypts -/

section

variable {suite suite' : Suite} (hencrypt : suite'.aead.encrypt = suite.aead.encrypt)

include hencrypt

theorem writeEncryptedRecord_congr :
    AuthenticatedWriter.writeEncryptedRecord suite' =
      AuthenticatedWriter.writeEncryptedRecord suite := by
  funext w kind plaintext includeInTranscript
  unfold AuthenticatedWriter.writeEncryptedRecord
  rw [hencrypt]

theorem sealDataRecord_congr (random : Randomness) :
    AuthenticatedWriter.sealDataRecord suite' random =
      AuthenticatedWriter.sealDataRecord suite random := by
  funext w
  unfold AuthenticatedWriter.sealDataRecord
  rw [writeEncryptedRecord_congr hencrypt]

theorem write_congr (random : Randomness) :
    AuthenticatedWriter.write suite' random = AuthenticatedWriter.write suite random := by
  have hloop : ∀ rounds w buffer, AuthenticatedWriter.writeLoop suite' random rounds w buffer =
      AuthenticatedWriter.writeLoop suite random rounds w buffer := by
    intro rounds
    induction rounds with
    | zero => intro w buffer; rfl
    | succ rounds ih =>
        intro w buffer
        simp only [AuthenticatedWriter.writeLoop, AuthenticatedWriter.sealFullPayload,
          sealDataRecord_congr hencrypt, ih]
  funext w buffer
  exact hloop _ w buffer

theorem encodeSealed_congr (hkdf : suite'.kdf = suite.kdf) : encodeSealed suite' =
    encodeSealed suite := by
  funext codecs build random password options input
  unfold encodeSealed AuthenticatedWriter.new AuthenticatedWriter.finish deriveCipher
  rw [write_congr hencrypt, sealDataRecord_congr hencrypt, writeEncryptedRecord_congr hencrypt, hkdf]

end

/-- One run of three bytes, and a cipher that opens nothing but its records. -/
theorem decode_authenticated_integrity_three_bytes :
    ∃ (suite : Suite) (run : HonestRun suite storedCodecs [1]), run.input.data = [7, 7, 7] ∧
      ∀ (options : AuthenticatedDecodeOptions) (input : Reads) (stats : AuthenticatedStats),
        (decodeAuthenticated suite storedCodecs [1] options (BlockReader.new input)).1 = .ok stats →
        input.data = run.archive := by
  obtain ⟨fields, core, hencode, hbytes, hsome, hsize, -⟩ :=
    @encode_yields storedCodecs storedCodecs_lossless [7, 7, 7] (by decide)
  have hsmall : fields.flatten.length ≤ 2 ^ 34 := by
    rw [defaultMaxEncodedBytes_eq] at hsize
    omega
  obtain ⟨⟨stats, w⟩, written, src, hsealed⟩ :=
    @encodeSealed_succeeds constantSuite storedCodecs (fun _ => some .sequential) zeroRandomness [1]
      ⟨⟨4, 1000⟩, 14⟩ (.single [7, 7, 7]) constantSuite_works (by decide) (by decide) (by decide) _ _
      (fun src => hencode _ _ _ src rfl (by decide) rfl (by decide)) hsome hsmall hbytes
      (.ofBytes [])
  let suite : Suite := { constantSuite with aead := Aead.tagged.restricted w.log }
  rw [← @encodeSealed_congr constantSuite suite rfl rfl] at hsealed
  let run : HonestRun suite storedCodecs [1] := ⟨_, _, _, _, stats, w, written, src, hsealed⟩
  refine ⟨suite, run, rfl, fun options input stats hstats => ?_⟩
  have hideal : suite.aead.OpensOnly (derivedKeys suite [1]) {s | ∃ _ : Unit, s ∈ run.log} := by
    intro key hkey nonce aad ciphertext message hopens
    exact ⟨(), Aead.restricted_opensOnly Aead.tagged w.log _ key hkey _ _ _ _ hopens⟩
  obtain ⟨haccepted, -⟩ := decode_authenticated_integrity storedCodecs_lossless
    (fun _ : Unit => run) (fun _ _ _ => rfl) hideal options input
  obtain ⟨-, harchive⟩ := haccepted stats hstats
  exact harchive

end MosaicArchive.Authenticated
