import MosaicArchive.Authenticated.Replay
import MosaicArchive.Authenticated.Sealing
import MosaicArchive.Core.RoundTrip

/-!
The envelope is transparent. What the encoder wrote is decoded to the input with
the encoder's statistics, and the buffering of writer and reader does not show:
the payloads are the bytes that were written, however the writes and the reads
are cut.
-/

namespace MosaicArchive.Authenticated

open FixedWidth Sha256 MosaicArchive.Core IoProgram

/-- The default ceilings with a policy for the cost of the key derivation. -/
def AuthenticatedDecodeOptions.withKdfLogN (maxKdfLogN : ℕ) : AuthenticatedDecodeOptions :=
  { AuthenticatedDecodeOptions.default with maxKdfLogN := maxKdfLogN }

/-! ### The default ceilings admit every envelope of a core stream -/

theorem Envelope.records_length_le (e : Envelope) :
    (e.records.length - 1) * maxDataPayload ≤ (payloads e.records).length := by
  have hfull : ∀ records : List DataRecord, (∀ r ∈ records, r.payload.length = maxDataPayload) →
      (payloads records).length = records.length * maxDataPayload := by
    intro records hpacked
    induction records with
    | nil => simp [payloads]
    | cons r rest ih =>
        have hrest := ih fun r hr => hpacked r (List.mem_cons_of_mem _ hr)
        simp only [payloads, List.map_cons, List.flatten_cons, List.length_append,
          List.length_cons] at hrest ⊢
        rw [hrest, hpacked r (by simp), Nat.succ_mul, Nat.add_comm]
  have hsplit := congrArg payloads (List.dropLast_append_getLast e.nonempty)
  have hlength := congrArg List.length hsplit
  rw [payloads_append, List.length_append, hfull _ e.packed, List.length_dropLast] at hlength
  omega

theorem Envelope.readable_default (e : Envelope) {suite : Suite} {key : Bytes} {maxKdfLogN : ℕ}
    (hinverts : suite.aead.Inverts)
    (hencrypted : ∀ s ∈ e.log, suite.aead.encrypt key s.nonce s.aad s.message = some s.ciphertext)
    (hsize : (payloads e.records).length ≤ defaultMaxEncodedBytes) :
    e.Readable suite key (.withKdfLogN maxKdfLogN) := by
  have hrecords := e.records_length_le
  have hwires := wires_length_le_payloads 0 e.records
  have hpayload : maxDataPayload = 2097144 := by decide
  have hbody : e.body.length = (wires 0 e.records).length + 1056 := by
    rw [Envelope.body, List.length_append, recordBytes_length, e.size]
    rfl
  rw [hpayload] at hrecords
  rw [defaultMaxEncodedBytes_eq] at hsize
  refine ⟨?_, ?_, ?_, by omega⟩
  · intro s hs
    obtain ⟨ciphertext, hencrypt, -, hdecrypt⟩ := hinverts key s.nonce s.aad s.message
    rw [hencrypted s hs] at hencrypt
    rw [Option.some.inj hencrypt]
    exact hdecrypt
  · have hlimit : AuthenticatedDecodeOptions.maxArchiveBytes (.withKdfLogN maxKdfLogN) =
        8673820672 := by
      change defaultMaxEncodedBytes + 64 * 1024 * 1024 = _
      rw [defaultMaxEncodedBytes_eq]
    rw [hlimit, hbody, headerSize]
    omega
  · change e.records.length ≤ 1000000
    omega

/-! ### Opening an envelope -/

theorem openEnvelope_yields {suite : Suite} {password key : Bytes} {header : Header}
    {kdfLogN maxKdfLogN : ℕ} {random : Randomness} (hpassword : password ≠ [])
    (hheader : Header.generate random kdfLogN = .ok header)
    (hderived : deriveCipher suite password header false = .ok key) (hpolicy : kdfLogN ≤ maxKdfLogN)
    (hmax : maxKdfLogN ≤ Authenticated.maxKdfLogN) (rest : Bytes) (fault : Option IoError) (sawEnd : Bool) :
    (openEnvelope suite password (.withKdfLogN maxKdfLogN)).Yields
      ⟨header.bytes ++ rest, fault, sawEnd⟩ (.initial key header (.withKdfLogN maxKdfLogN)) []
      ⟨rest, fault, sawEnd⟩ := by
  obtain ⟨hlength, hparse, hkdf, hmin, -⟩ := Header.generate_inv hheader
  have hlimit : AuthenticatedDecodeOptions.maxArchiveBytes (.withKdfLogN maxKdfLogN) =
      8673820672 := by
    change defaultMaxEncodedBytes + 64 * 1024 * 1024 = _
    rw [defaultMaxEncodedBytes_eq]
  have hminimum : minAuthenticatedArchiveBytes = 2176 := by decide
  unfold openEnvelope
  refine (yields_require hpassword _ _).bind_silent ?_
  refine (yields_require DecodeOptions.default_valid _ _).bind_silent ?_
  refine (yields_require ?_ _ _).bind_silent ?_
  · rw [hlimit, hminimum]
    simp only [not_or, not_not]
    refine ⟨by omega, ?_, hmin.trans hpolicy, hmax⟩
    change defaultMaxAuthenticatedDataRecords ≠ 0
    decide
  refine (yields_require ?_ _ _).bind_silent ?_
  · rw [hlimit, headerSize]
    omega
  refine (readExactFormat_yields hlength _ _ _ _).bind_silent ?_
  refine (yields_ofExcept hparse _).bind_silent ?_
  refine (yields_require ?_ _ _).bind_silent ?_
  · rw [hkdf]
    change ¬ kdfLogN > maxKdfLogN
    omega
  refine (yields_ofExcept (deriveCipher_decoding hderived) _).bind_silent ?_
  exact yields_ret _ _

/-- The reader of an envelope stands for its payloads. -/
theorem reader_rest {suite : Suite} {key : Bytes} {options : AuthenticatedDecodeOptions}
    {e : Envelope} (h : e.Readable suite key options) {ρ : Type} [LawfulReader ρ] {reader : ρ}
    {sawEnd : Bool} (hrest : LawfulReader.rest reader = ⟨e.body, none, sawEnd⟩) :
    LawfulReader.rest (AuthenticatedReader.new reader (.initial key e.header options) :
      AuthenticatedReader suite ρ) = ⟨payloads e.records, none, false⟩ := by
  change AuthenticatedReader.rest _ = _
  have hdrain := @Envelope.Readable.drain_tail e suite key options h [] e.records rfl _
    (Nat.lt_succ_self _) sawEnd
  rw [EnvelopeState.after_nil] at hdrain
  have hremaining : (AuthenticatedReader.new reader (.initial key e.header options) :
      AuthenticatedReader suite ρ).remaining = (payloads e.records, none) := by
    rw [AuthenticatedReader.remaining_eq_drain rfl rfl]
    change drain suite _ (EnvelopeState.initial key e.header options) (LawfulReader.rest reader) = _
    rw [← hdrain]
    change drain suite ((LawfulReader.rest reader).bytes.length + 1) _ (LawfulReader.rest reader) = _
    rw [hrest]
    rfl
  rw [AuthenticatedReader.rest, hremaining]
  rfl

theorem finish_final (e : Envelope) (key : Bytes) (options : AuthenticatedDecodeOptions) :
    (e.final key options).finish e.core = .ok e.stats := by
  have hbody : e.body.length =
      (wires 0 e.records).length + (recordHeaderSize + e.footerCiphertext.length) := by
    rw [Envelope.body, List.length_append, recordBytes_length]
  have hfooter : e.footer.corePlaintextBytes = e.core.encodedBytes := e.plaintextBytes
  unfold EnvelopeState.finish Envelope.final EnvelopeState.afterFooter
  dsimp only
  rw [if_neg]
  · simp only [Envelope.stats, hbody, EnvelopeState.after, Nat.mul_succ, Nat.add_assoc]
  · simp only [hfooter, not_or, not_not]
    exact ⟨trivial, rfl, rfl, rfl⟩

/-- The decoder on the bytes of an envelope whose payloads are a core stream. -/
theorem decodeAuthenticated_envelope {suite : Suite} {codecs : Codecs} {password key : Bytes}
    {e : Envelope} {random : Randomness} {kdfLogN maxKdfLogN : ℕ} (hpassword : password ≠ [])
    (hheader : Header.generate random kdfLogN = .ok e.header)
    (hderived : deriveCipher suite password e.header false = .ok key)
    (hpolicy : kdfLogN ≤ maxKdfLogN) (hmax : maxKdfLogN ≤ Authenticated.maxKdfLogN)
    (hreadable : e.Readable suite key (.withKdfLogN maxKdfLogN)) {contents : List Bytes}
    (hdecode : (decode codecs).Yields ⟨payloads e.records, none, false⟩ e.core contents
      ⟨[], none, true⟩) {ρ : Type} [LawfulReader ρ] {reader : ρ}
    (hrest : LawfulReader.rest reader = ⟨e.bytes, none, false⟩) :
    decodeAuthenticated suite codecs password (.withKdfLogN maxKdfLogN) reader =
      (.ok e.stats, contents) := by
  have hopen := openEnvelope_yields hpassword hheader hderived hpolicy hmax e.body none false
  obtain ⟨hresult, -, hreader⟩ :=
    (openEnvelope suite password (.withKdfLogN maxKdfLogN)).run_rest reader
  rw [hrest, Envelope.bytes, hopen.result] at hresult
  have hnext := hreader _ hresult
  rw [hrest, Envelope.bytes, hopen] at hnext
  rcases hrun : (openEnvelope suite password (.withKdfLogN maxKdfLogN)).run reader with
    ⟨result, written, reader'⟩
  rw [hrun] at hresult hnext
  obtain rfl : result = .ok _ := hresult
  let inner : AuthenticatedReader suite ρ :=
    .new reader' (.initial key e.header (.withKdfLogN maxKdfLogN))
  have hinner : LawfulReader.rest inner = ⟨payloads e.records, none, false⟩ :=
    reader_rest hreadable hnext
  obtain ⟨hcore, hwritten, hdone⟩ := (decode codecs).run_rest inner
  rw [hinner, hdecode] at hcore hwritten hdone
  -- loading never fails, so the reader ends in the state after the footer
  have htracks : ((decode codecs).run inner).reader.Tracks
      (Envelope.Readable.At e key (.withKdfLogN maxKdfLogN)) False := by
    refine run_keeps (fun r n h => ?_) (decode codecs) ?_
    · refine AuthenticatedReader.Tracks.read ?_ ?_ n h
      · intro st s st' x w s' hat hfinished hyields
        obtain ⟨st₁, x₁, s₁, hloads, hat'⟩ := hat.load hreadable hfinished
        obtain ⟨hpair, -, rfl⟩ := IoRun.mk.inj (hloads.symm.trans hyields)
        obtain ⟨rfl, rfl⟩ := Prod.mk.inj (Except.ok.inj hpair)
        exact hat'
      · intro st s error hat hfinished herror
        obtain ⟨st₁, x₁, s₁, hloads, -⟩ := hat.load hreadable hfinished
        cases hloads.result.symm.trans herror
    · refine ⟨fun _ => .inl ⟨[], e.records, false, rfl, ?_, hnext⟩, fun hfailed => ?_⟩
      · rw [EnvelopeState.after_nil]
        rfl
      · cases hfailed
  obtain ⟨hhealthy, hbroken⟩ := htracks
  have hnone : ((decode codecs).run inner).reader.failure = none := by
    rcases hfailure : ((decode codecs).run inner).reader.failure with _ | error
    · rfl
    · exact absurd (hbroken (by simp [hfailure])) id
  have hfinished : ((decode codecs).run inner).reader.state.finished = true :=
    congrArg ByteSource.sawEnd (hdone _ hcore)
  have hfinal : ((decode codecs).run inner).reader.state =
      e.final key (.withKdfLogN maxKdfLogN) := by
    rcases hhealthy hnone with ⟨before, left, _, -, hstate, -⟩ | hstate
    · rw [hstate] at hfinished
      cases hfinished
    · exact hstate
  have hrunCore : (decodeWithOptions codecs
      (AuthenticatedDecodeOptions.withKdfLogN maxKdfLogN).core).run inner =
      (decode codecs).run inner := rfl
  rcases (decode codecs).run inner with ⟨coreResult, coreWritten, final⟩
  unfold decodeAuthenticated
  rw [hrun]
  dsimp only at hcore hwritten hnone hfinal ⊢
  rw [hrunCore]
  simp only [hnone, hcore, hfinal, hwritten, finish_final]

/-! ### Transparency -/

/-- What closing a writer after some writes leaves behind: the payloads of the
records are the bytes written, all but the last full, and any sequence of reads
of the records delivers these bytes. -/
theorem transparent_framing {suite : Suite} {random : Randomness} (hinverts : suite.aead.Inverts)
    {key : Bytes} {header : Header} {core : StreamStats} {writes out out' : List Bytes}
    {w w' : AuthenticatedWriter} {stats : AuthenticatedStats} {src src₁ src₂ src₃ : ByteSource}
    (hcore : CountersFit core)
    (hfeed : (feed (AuthenticatedWriter.write suite random) (.initial key header) writes).Yields src
      w out src₁)
    (hfinish : (w.finish suite random core).Yields src₂ (stats, w') out' src₃) :
    ∃ e : Envelope, (out ++ out').flatten = e.body ∧ payloads e.records = writes.flatten ∧
      (∀ r ∈ e.records.dropLast, r.payload.length = maxDataPayload) ∧
      (∀ r ∈ e.records, 1 ≤ r.payload.length ∧ r.payload.length ≤ maxDataPayload) ∧
      (writes.flatten.length ≤ defaultMaxEncodedBytes → ∀ (maxKdfLogN : ℕ) (reads : Reads)
        (sizes : List ℕ), reads.data = e.body → (∀ n ∈ sizes, 0 < n) →
        ∃ blocks : List Bytes,
          readSequence (AuthenticatedReader.new (BlockReader.new reads)
            (.initial key header (.withKdfLogN maxKdfLogN)) :
              AuthenticatedReader suite BlockReader) sizes = blocks.map .ok ∧
          Delivers writes.flatten sizes blocks) := by
  obtain ⟨e, rfl, -, hpayloads, -, -, hbody, hencrypted⟩ :=
    AuthenticatedWriter.envelope_of_feed hcore hfeed hfinish
  refine ⟨e, hbody, hpayloads, e.packed,
    fun r _ => ⟨r.payload_length_pos, r.payload_length_le⟩, ?_⟩
  intro hsize maxKdfLogN reads sizes hdata hpos
  have hreadable := @Envelope.readable_default e suite key maxKdfLogN hinverts hencrypted
    (by rwa [hpayloads])
  have hsource : LawfulReader.rest (BlockReader.new reads) = ⟨e.body, none, false⟩ :=
    congrArg (fun bytes => (⟨bytes, none, false⟩ : ByteSource)) hdata
  have hrest := reader_rest hreadable hsource
  obtain ⟨blocks, hblocks, hdelivers⟩ := readSequence_delivers sizes hpos
    (AuthenticatedReader.new (BlockReader.new reads)
      (.initial key e.header (.withKdfLogN maxKdfLogN)) : AuthenticatedReader suite BlockReader)
    (congrArg ByteSource.fault hrest)
  rw [hrest, hpayloads] at hdelivers
  exact ⟨blocks, hblocks, hdelivers⟩

/-- A password that is not empty, a supported cost and a valid limit: the input
is encoded, and decoded under the default ceilings to the same bytes and
statistics, however the archive is delivered. Writes and reads of any sizes
deliver what was written. -/
theorem decode_encode_authenticated {suite : Suite} {codecs : Codecs} {random : Randomness}
    (hcodecs : codecs.Lossless) (hworks : Works suite random) :
    (∀ (build : ℕ → Option WorkerPool) (password : Bytes) (options : AuthenticatedEncodeOptions)
      (input : Reads), password ≠ [] → 1 ≤ options.core.threads → options.core.threads ≤ 64 →
      (build options.core.threads).isSome → 1 ≤ options.core.maxInputBytes →
      input.data.length ≤ options.core.maxInputBytes →
      input.data.length ≤ defaultMaxOriginalBytes → 14 ≤ options.kdfLogN → options.kdfLogN ≤ 18 →
      ∃ stats,
        (encodeAuthenticatedRun suite codecs build random password options input).result =
          .ok stats ∧
        ∀ (maxKdfLogN : ℕ) (reads : Reads), options.kdfLogN ≤ maxKdfLogN → maxKdfLogN ≤ 18 →
          reads.data = (encodeAuthenticatedRun suite codecs build random password options
            input).written.flatten →
          (decodeAuthenticated suite codecs password (.withKdfLogN maxKdfLogN)
            (BlockReader.new reads)).1 = .ok stats ∧
          (decodeAuthenticated suite codecs password (.withKdfLogN maxKdfLogN)
            (BlockReader.new reads)).2.flatten = input.data) ∧
    ∀ (key : Bytes) (header : Header) (core : StreamStats) (writes out out' : List Bytes)
      (w w' : AuthenticatedWriter) (stats : AuthenticatedStats) (src src₁ src₂ src₃ : ByteSource),
      CountersFit core →
      (feed (AuthenticatedWriter.write suite random) (.initial key header) writes).Yields src
        w out src₁ →
      (w.finish suite random core).Yields src₂ (stats, w') out' src₃ →
      ∃ e : Envelope, (out ++ out').flatten = e.body ∧ payloads e.records = writes.flatten ∧
        (∀ r ∈ e.records.dropLast, r.payload.length = maxDataPayload) ∧
        (∀ r ∈ e.records, 1 ≤ r.payload.length ∧ r.payload.length ≤ maxDataPayload) ∧
        (writes.flatten.length ≤ defaultMaxEncodedBytes → ∀ (maxKdfLogN : ℕ) (reads : Reads)
          (sizes : List ℕ), reads.data = e.body → (∀ n ∈ sizes, 0 < n) →
          ∃ blocks : List Bytes,
            readSequence (AuthenticatedReader.new (BlockReader.new reads)
              (.initial key header (.withKdfLogN maxKdfLogN)) :
                AuthenticatedReader suite BlockReader) sizes = blocks.map .ok ∧
            Delivers writes.flatten sizes blocks) := by
  refine ⟨?_, ?_⟩
  · intro build password options input hpassword hthread hthreads hbuild hlimit hinput hdefault
      hmin hmax
    have hvalid : options.core.Valid := by
      unfold EncodeOptions.Valid maxThreads
      omega
    obtain ⟨fields, core, hencode, hbytes, hsome, hsize, hdecode⟩ := encode_yields hcodecs hdefault
    have hyields := fun src => hencode build options.core input src rfl hvalid hbuild hinput
    have hsmall : fields.flatten.length ≤ 2 ^ 34 := by
      rw [defaultMaxEncodedBytes_eq] at hsize
      omega
    obtain ⟨⟨stats, w⟩, written, src', hsealed⟩ :=
      encodeSealed_succeeds hworks hpassword hvalid ⟨hmin, hmax⟩ hyields hsome hsmall hbytes
        (.ofBytes [])
    obtain ⟨key, e, ⟨hheader, hderived, hencrypted, hcore, hcontent⟩, rfl, -, hwire⟩ :=
      encodeSealed_inv hsealed
    have hrun : (encodeRun codecs build options.core input).result = .ok core :=
      (hyields (.ofBytes [])).result
    have hwritten : (encodeRun codecs build options.core input).written = fields :=
      (hyields (.ofBytes [])).written
    rw [hcore] at hrun
    obtain rfl := Except.ok.inj hrun
    rw [hwritten] at hcontent
    have hauthenticated : (encodeAuthenticated suite codecs build random password options
        input).Yields (.ofBytes []) e.stats written src' := hsealed.bind_ret
    refine ⟨e.stats, hauthenticated.result, ?_⟩
    intro maxKdfLogN reads hpolicy hpolicyMax hreads
    have hwrittenRun : (encodeAuthenticatedRun suite codecs build random password options
        input).written = written := hauthenticated.written
    rw [hwrittenRun, hwire] at hreads
    have hreadable := @Envelope.readable_default e suite key maxKdfLogN hworks.aead hencrypted
      (by rwa [← hcontent])
    rw [hcontent] at hdecode
    have hsource : LawfulReader.rest (BlockReader.new reads) = ⟨e.bytes, none, false⟩ :=
      congrArg (fun bytes => (⟨bytes, none, false⟩ : ByteSource)) hreads
    rw [decodeAuthenticated_envelope hpassword hheader hderived hpolicy hpolicyMax hreadable
      hdecode hsource]
    exact ⟨rfl, segmentContents_flatten input.data⟩
  · intro key header core writes out out' w w' stats src src₁ src₂ src₃ hcore hfeed hfinish
    exact transparent_framing hworks.aead hcore hfeed hfinish

/-- A suite with a constant tag and a constant key. -/
def constantSuite : Suite where
  aead := .tagged
  kdf := { params := fun _ => true, derive := fun _ _ _ => some (List.replicate 32 0) }

/-- Random bytes that are all zero. -/
def zeroRandomness : Randomness where
  salt := some (List.replicate 16 0)
  noncePrefix := some (List.replicate 4 0)
  padding _ n := some (List.replicate n 0)
  salt_length := by simp
  noncePrefix_length := by simp
  padding_length := by simp

theorem constantSuite_works : Works constantSuite zeroRandomness where
  aead := Aead.tagged_inverts
  kdf _ _ _ := ⟨rfl, fun _ _ => rfl⟩
  random := ⟨rfl, rfl, fun _ _ => rfl⟩

/-- Three bytes in an envelope, and two writes through the writer alone. -/
theorem decode_encode_authenticated_three_bytes :
    (∃ stats, (encodeAuthenticatedRun constantSuite storedCodecs (fun _ => some .sequential)
      zeroRandomness [1] ⟨⟨4, 1000⟩, 14⟩ (.single [7, 7, 7])).result = .ok stats ∧
    ∀ reads : Reads, reads.data = (encodeAuthenticatedRun constantSuite storedCodecs
      (fun _ => some .sequential) zeroRandomness [1] ⟨⟨4, 1000⟩, 14⟩
        (.single [7, 7, 7])).written.flatten →
      (decodeAuthenticated constantSuite storedCodecs [1] (.withKdfLogN 17)
        (BlockReader.new reads)).1 = .ok stats ∧
      (decodeAuthenticated constantSuite storedCodecs [1] (.withKdfLogN 17)
        (BlockReader.new reads)).2.flatten = [7, 7, 7]) ∧
    ∃ e : Envelope, payloads e.records = [1, 2, 3] := by
  obtain ⟨hround, hframing⟩ :=
    decode_encode_authenticated storedCodecs_lossless constantSuite_works
  obtain ⟨stats, hresult, hdecode⟩ := hround (fun _ => some .sequential) [1] ⟨⟨4, 1000⟩, 14⟩
    (.single [7, 7, 7]) (by decide) (by decide) (by decide) rfl (by decide) (by decide) (by decide)
    (by decide) (by decide)
  refine ⟨⟨stats, hresult, fun reads hreads => hdecode 17 reads (by decide) (by decide) hreads⟩, ?_⟩
  let header : Header := ⟨List.replicate 64 0, List.replicate 16 0, List.replicate 4 0, 14⟩
  let core : StreamStats := { StreamStats.default with encodedBytes := 3 }
  have hcore : CountersFit core := by constructor <;> decide
  have hopen : (AuthenticatedWriter.initial [] header).Open constantSuite [] :=
    ⟨wrote_initial constantSuite [] header, by simp, by
      change 0 < maxDataPayload
      decide⟩
  obtain ⟨w, out, src, hfeed⟩ := @AuthenticatedWriter.feed_succeeds constantSuite
    zeroRandomness _ [] constantSuite_works [[1], [2, 3]] hopen (by decide) (.ofBytes [])
  obtain ⟨records, hopen', hextends⟩ := AuthenticatedWriter.feed_inv hopen hfeed
  have hhashed : w.coreHashed = [1, 2, 3] := hextends.hashed
  obtain ⟨⟨closed, w'⟩, out', src', hfinish⟩ := AuthenticatedWriter.finish_succeeds
    constantSuite_works hcore hopen' (by simp [hhashed]) (by simp [hhashed]) (by simp [hhashed, core])
    (.ofBytes [])
  obtain ⟨e, -, hpayloads, -⟩ := hframing _ _ _ _ _ _ _ _ _ _ _ _ _ hcore hfeed hfinish
  exact ⟨e, hpayloads⟩

/-- An empty password is rejected. -/
theorem encode_authenticated_rejects_empty_password :
    ¬ ∀ (suite : Suite) (codecs : Codecs) (random : Randomness), codecs.Lossless →
      Works suite random → ∀ (build : ℕ → Option WorkerPool) (password : Bytes)
      (options : AuthenticatedEncodeOptions) (input : Reads), 1 ≤ options.core.threads →
      options.core.threads ≤ 64 → (build options.core.threads).isSome →
      1 ≤ options.core.maxInputBytes → input.data.length ≤ options.core.maxInputBytes →
      input.data.length ≤ defaultMaxOriginalBytes → 14 ≤ options.kdfLogN → options.kdfLogN ≤ 18 →
      ∃ stats, (encodeAuthenticatedRun suite codecs build random password options input).result =
        .ok stats := by
  intro hall
  obtain ⟨stats, hstats⟩ := hall constantSuite storedCodecs zeroRandomness storedCodecs_lossless
    constantSuite_works (fun _ => some .sequential) [] ⟨⟨4, 1000⟩, 14⟩ (.single [7]) (by decide)
    (by decide) rfl (by decide) (by decide) (by decide) (by decide) (by decide)
  cases hstats

end MosaicArchive.Authenticated
