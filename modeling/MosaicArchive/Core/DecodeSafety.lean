import MosaicArchive.Core.Decode

/-!
What the decoder does to any input, well formed or not: a round that fails has
written nothing, and a round that continues has read one whole segment, met
every ceiling and written exactly the bytes the segment declares.
-/

namespace MosaicArchive.Core

open FixedWidth Sha256 Gear IoProgram

/-- A segment as it was read, with the content it stands for. -/
structure DecodedSegment where
  encoded : Bytes
  content : Bytes
  tag : slice encoded 0 4 = segmentTag
  encoded_length : encoded.length = 4 + segmentHeaderRest +
    ((parseSegmentHeader (slice encoded 4 56)).descriptorLen +
      (parseSegmentHeader (slice encoded 4 56)).payloadLen)
  content_length : content.length = (parseSegmentHeader (slice encoded 4 56)).decodedLen
  content_hash : sha256 content = (parseSegmentHeader (slice encoded 4 56)).expectedHash

/-- The header of the segment. -/
def DecodedSegment.header (segment : DecodedSegment) : SegmentHeader :=
  parseSegmentHeader (slice segment.encoded 4 56)

/-! ### Records -/

theorem parseDescriptors_totals {table : List Bytes} {descriptors : List Descriptor}
    {rawTotal payloadTotal : ℕ}
    (h : parseDescriptors table = .ok (descriptors, rawTotal, payloadTotal)) :
    rawTotal = (descriptors.map Descriptor.rawLen).sum ∧
      payloadTotal = (descriptors.map Descriptor.payloadLen).sum := by
  induction table generalizing descriptors rawTotal payloadTotal with
  | nil =>
      cases h
      exact ⟨rfl, rfl⟩
  | cons bytes rest ih =>
      rw [parseDescriptors] at h
      match hd : parseDescriptor bytes, hrest : parseDescriptors rest with
      | .error error, _ => simp [hd] at h
      | .ok d, .error error => simp [hd, hrest] at h
      | .ok d, .ok (ds, raw, payload) =>
          simp only [hd, hrest, Except.ok.injEq, Prod.mk.injEq] at h
          obtain ⟨rfl, rfl, rfl⟩ := h
          obtain ⟨hraw, hpayload⟩ := ih hrest
          simp [hraw, hpayload]

/-- A failed part writes nothing; a successful one writes nothing either,
consumes `n` bytes and returns something with the property. -/
def ReadsExactly {α : Type} (s : ByteSource) (n : ℕ) (p : α → Prop) (result : Except Error α)
    (written : List Bytes) (s' : ByteSource) : Prop :=
  written = [] ∧ ∀ a, result = .ok a → p a ∧ ∃ consumed, consumed.length = n ∧
    s.bytes = consumed ++ s'.bytes ∧ s' = { s with bytes := s'.bytes }

theorem ReadsExactly.error {α : Type} {s : ByteSource} {n : ℕ} {p : α → Prop} (e : Error)
    (s' : ByteSource) : ReadsExactly s n p (.error e) [] s' :=
  ⟨rfl, fun _ h => by cases h⟩

theorem ReadsExactly.ok {α : Type} {s s' : ByteSource} {n : ℕ} {p : α → Prop} {a : α} (hp : p a)
    (consumed : Bytes) (hlength : consumed.length = n) (hbytes : s.bytes = consumed ++ s'.bytes)
    (hs' : s' = { s with bytes := s'.bytes }) : ReadsExactly s n p (.ok a) [] s' := by
  refine ⟨rfl, fun b hb => ?_⟩
  cases hb
  exact ⟨hp, consumed, hlength, hbytes, hs'⟩

theorem decodeChunk_spec (codecs : Codecs) (s : DecoderState) (d : Descriptor) (src : ByteSource) :
    (decodeChunk codecs s d).Settles src
      (ReadsExactly src d.payloadLen fun r => r.1.length = d.rawLen) := by
  unfold decodeChunk
  by_cases hkind : d.kind = 0
  · rw [if_pos hkind]
    refine settles_readExact_bind ReadsExactly.error fun payload rest hbytes hlength => ?_
    refine settles_ofExcept_bind ReadsExactly.error fun decoded hdecoded => ?_
    refine (yields_ret _ _).settles (ReadsExactly.ok (decodePayload_length hdecoded) payload ?_
      hbytes rfl)
    rw [Descriptor.payloadLen, if_pos hkind, hlength]
  · rw [if_neg hkind]
    refine settles_require_bind (ReadsExactly.error _) fun _ => ?_
    refine settles_ofExcept_bind ReadsExactly.error fun chunk hchunk => ?_
    refine (yields_ret _ _).settles (ReadsExactly.ok (DecodeHistory.resolve_length hchunk) [] ?_
      rfl rfl)
    rw [Descriptor.payloadLen, if_neg hkind, List.length_nil]

/-- The records of a segment consume their payloads and produce the declared
lengths. -/
theorem decodeRecords_spec (codecs : Codecs) (ds : List Descriptor) (segment : Bytes)
    (s : DecoderState) (src : ByteSource) :
    (decodeRecords codecs ds segment s).Settles src
      (ReadsExactly src (ds.map Descriptor.payloadLen).sum fun r =>
        r.1.length = segment.length + (ds.map Descriptor.rawLen).sum) := by
  induction ds generalizing segment s src with
  | nil =>
      exact (yields_ret _ _).settles (ReadsExactly.ok (by simp) [] (by simp) rfl rfl)
  | cons d rest ih =>
      refine (decodeChunk_spec codecs s d src).bind ?_ ?_
      · rintro e w s' ⟨rfl, -⟩
        exact ReadsExactly.error e s'
      · rintro ⟨chunk, stats⟩ w src' ⟨rfl, hok⟩
        obtain ⟨hlength, consumed, hconsumed, hbytes, hsrc⟩ := hok _ rfl
        refine settles_ofExcept_bind ReadsExactly.error fun history _ => ?_
        refine settles_checkedAdd_bind ReadsExactly.error fun _ => ?_
        refine (ih _ _ src').mono fun result written src'' h => ⟨h.1, fun a ha => ?_⟩
        obtain ⟨hlength', consumed', hconsumed', hbytes', hsrc'⟩ := h.2 a ha
        refine ⟨?_, consumed ++ consumed', ?_, ?_, ?_⟩
        · simp only [hlength', List.length_append, List.map_cons, List.sum_cons] at hlength ⊢
          omega
        · simp [hconsumed, hconsumed']
        · rw [hbytes, hbytes', List.append_assoc]
        · rw [hsrc', hsrc]

/-! ### One round -/

/-- What the counters of a state say about the segments decoded so far. -/
structure DecoderState.Counts (s : DecoderState) (done : List DecodedSegment) : Prop where
  segments : s.stats.segments = done.length
  records : s.stats.records = (done.map fun g => g.header.recordCount).sum
  original : s.stats.originalBytes = (done.map fun g => g.content.length).sum
  encoded : s.stats.encodedBytes = headerSize + (done.map fun g => g.encoded.length).sum
  hashed : s.hashed = (done.map DecodedSegment.content).flatten

/-- A segment round: what was read and written, and the state it leads to. -/
structure SegmentStep (options : DecodeOptions) (s : DecoderState) (src : ByteSource)
    (segment : DecodedSegment) (s' : DecoderState) (src' : ByteSource) : Prop where
  bytes : src.bytes = segment.encoded ++ src'.bytes
  source : src' = { src with bytes := src'.bytes }
  segments : s'.stats.segments = s.stats.segments + 1
  counts : ∀ before, s.Counts before → s'.Counts (before ++ [segment])
  allowed : options.Allows s'.stats.segments s'.stats.records s'.stats.originalBytes
    s'.stats.encodedBytes

/-- A footer round: the footer agrees with the state and ends the input. -/
structure FooterStep (options : DecodeOptions) (s : DecoderState) (src : ByteSource)
    (final : StreamStats) : Prop where
  ends : src.fault = none
  footer : ∃ footer, src.bytes = footerTag ++ footer ∧ footer.length = footerRest ∧
    parseU32 (slice footer 0 4) = s.stats.segments ∧
    parseU64 (slice footer 4 12) = s.stats.originalBytes ∧
    parseU64 (slice footer 12 20) = s.stats.records ∧ slice footer 20 52 = sha256 s.hashed
  stats : final = { s.stats with encodedBytes := s.stats.encodedBytes + (4 + footerRest) }
  encoded : final.encodedBytes ≤ options.maxEncodedBytes

/-- How a footer branch can end. -/
inductive FooterOutcome (options : DecodeOptions) (s : DecoderState) (src : ByteSource) :
    Except Error StreamStats → List Bytes → ByteSource → Prop
  | fails (e : Error) (src' : ByteSource) : FooterOutcome options s src (.error e) [] src'
  | accepts (stats : StreamStats) (src' : ByteSource) (h : FooterStep options s src stats) :
      FooterOutcome options s src (.ok stats) [] src'

/-- How a segment branch can end. -/
inductive SegmentOutcome (options : DecodeOptions) (s : DecoderState) (src : ByteSource) :
    Except Error DecoderState → List Bytes → ByteSource → Prop
  | fails (e : Error) (src' : ByteSource) : SegmentOutcome options s src (.error e) [] src'
  | writes (s' : DecoderState) (segment : DecodedSegment) (src' : ByteSource)
      (h : SegmentStep options s src segment s' src') :
      SegmentOutcome options s src (.ok s') [segment.content] src'

/-- How a round can end: it fails having written nothing, accepts the footer,
or writes one segment. -/
inductive RoundOutcome (options : DecodeOptions) (s : DecoderState) (src : ByteSource) :
    Except Error (StreamStats ⊕ DecoderState) → List Bytes → ByteSource → Prop
  | fails (e : Error) (src' : ByteSource) : RoundOutcome options s src (.error e) [] src'
  | accepts (stats : StreamStats) (src' : ByteSource) (h : FooterStep options s src stats) :
      RoundOutcome options s src (.ok (.inl stats)) [] src'
  | writes (s' : DecoderState) (segment : DecodedSegment) (src' : ByteSource)
      (h : SegmentStep options s src segment s' src') :
      RoundOutcome options s src (.ok (.inr s')) [segment.content] src'

theorem decodeFooter_spec (options : DecodeOptions) (s : DecoderState) (src : ByteSource)
    (rest : Bytes) (hsrc : src.bytes = footerTag ++ rest) :
    (decodeFooter options s (s.stats.encodedBytes + 4)).Settles { src with bytes := rest }
      (FooterOutcome options s src) := by
  have hfail := @FooterOutcome.fails options s src
  unfold decodeFooter
  refine settles_checkedAdd_bind hfail fun _ => ?_
  refine settles_require_bind (hfail _) fun hencoded => ?_
  refine settles_readExact_bind hfail fun footer tail hfooter hlength => ?_
  refine settles_require_bind (hfail _) fun hfields => ?_
  refine settles_probe_bind hfail ?_ ?_
  · intro htail hfault
    refine settles_require_bind (hfail _) fun _ => ?_
    refine (yields_ret _ _).settles (.accepts _ _ ⟨hfault, ⟨footer, ?_, hlength, hfields⟩,
      by simp [Nat.add_assoc], hencoded⟩)
    simp only at hfooter htail
    rw [hsrc, hfooter, htail, List.append_nil]
  · intro b more _
    exact settles_require_bind (hfail _) fun h => absurd h (by simp)

theorem decodeSegment_spec (codecs : Codecs) (options : DecodeOptions) (s : DecoderState)
    (src : ByteSource) (rest : Bytes) (hsrc : src.bytes = segmentTag ++ rest) :
    (decodeSegment codecs options s (s.stats.encodedBytes + 4)).Settles { src with bytes := rest }
      (SegmentOutcome options s src) := by
  have hfail := @SegmentOutcome.fails options s src
  unfold decodeSegment
  refine settles_readExact_bind hfail fun header tail hheader hheaderLen => ?_
  refine settles_checkedAdd_bind hfail fun _ => ?_
  refine settles_require_bind (hfail _) fun hbounds => ?_
  refine settles_checkedAdd_bind hfail fun _ => ?_
  refine settles_checkedAdd_bind hfail fun _ => ?_
  refine settles_checkedAdd_bind hfail fun _ => ?_
  refine settles_checkedAdd_bind hfail fun _ => ?_
  refine settles_require_bind (hfail _) fun hallows => ?_
  refine settles_readExact_bind hfail fun table tail' htable htableLen => ?_
  refine settles_ofExcept_bind hfail fun parsed hparsed => ?_
  obtain ⟨descriptors, rawTotal, payloadTotal⟩ := parsed
  obtain ⟨hraw, hpayload⟩ := parseDescriptors_totals hparsed
  refine settles_require_bind (hfail _) fun htotals => ?_
  refine (decodeRecords_spec codecs descriptors [] s _).bind ?_ ?_
  · rintro e w s' ⟨rfl, -⟩
    exact hfail e s'
  · rintro ⟨content, decoded⟩ w src' ⟨rfl, hok⟩
    obtain ⟨hcontent, payload, hpayloadLen, hbytes, hsrc'⟩ := hok _ rfl
    refine settles_require_bind (hfail _) fun hhash => ?_
    refine (yields_write content (yields_ret _ _)).settles ?_
    simp only at hheader htable hbytes hcontent hsrc'
    have hslice : slice (segmentTag ++ (header ++ (table ++ payload))) 4 56 = header := by
      rw [slice_append_right (by decide), slice_append_left (by rw [hheaderLen]; decide)]
      exact slice_full (by rw [hheaderLen]; decide)
    let segment : DecodedSegment := {
      encoded := segmentTag ++ (header ++ (table ++ payload))
      content := content
      tag := by rw [slice_append_left (by decide)]; rfl
      encoded_length := by
        have htag : segmentTag.length = 4 := rfl
        rw [hslice]
        simp only [List.length_append, hheaderLen, htableLen, hpayloadLen, htag]
        rw [← hpayload, htotals.2]
        omega
      content_length := by
        rw [hslice, hcontent, ← htotals.1, hraw]
        simp
      content_hash := by rw [hslice, hhash] }
    have hheaderEq : segment.header = parseSegmentHeader header := congrArg _ hslice
    have hcontentLen : segment.content.length = (parseSegmentHeader header).decodedLen := by
      rw [← hheaderEq]
      exact segment.content_length
    have hencodedLen : segment.encoded.length = 4 + segmentHeaderRest +
        ((parseSegmentHeader header).descriptorLen + (parseSegmentHeader header).payloadLen) := by
      rw [← hheaderEq]
      exact segment.encoded_length
    refine .writes _ segment _ ⟨?_, by rw [hsrc'], rfl, fun before hcounts => ?_, hallows⟩
    · simp only [segment, hsrc, hheader, htable, hbytes, List.append_assoc]
    · obtain ⟨hsegments, hrecords, horiginal, hencoded, hhashed⟩ := hcounts
      constructor
      · simp [hsegments]
      · simp [hrecords, hheaderEq]
      · simp [horiginal, hcontentLen]
      · simp only [hencoded, List.map_append, List.map_cons, List.map_nil, List.sum_append,
          List.sum_cons, List.sum_nil, hencodedLen]
        omega
      · simp [hhashed, segment]

theorem decodeRound_spec (codecs : Codecs) (options : DecodeOptions) (s : DecoderState)
    (src : ByteSource) :
    (decodeRound codecs options s).Settles src (RoundOutcome options s src) := by
  have hfail := @RoundOutcome.fails options s src
  unfold decodeRound
  refine settles_readExact_bind hfail fun tag rest htag _ => ?_
  refine settles_checkedAdd_bind hfail fun _ => ?_
  refine settles_require_bind (hfail _) fun _ => ?_
  by_cases hfooter : tag = footerTag
  · rw [if_pos hfooter]
    refine (decodeFooter_spec options s src rest (hfooter ▸ htag)).bind_ret ?_ ?_
    · rintro e w s' ⟨⟩
      exact hfail e s'
    · rintro stats w s' ⟨⟩
      exact .accepts _ _ ‹_›
  · rw [if_neg hfooter]
    refine settles_require_bind (hfail _) fun hsegment => ?_
    refine (decodeSegment_spec codecs options s src rest (hsegment ▸ htag)).bind_ret ?_ ?_
    · rintro e w s' ⟨⟩
      exact hfail e s'
    · rintro s₁ w s' ⟨⟩
      exact .writes _ _ _ ‹_›

/-! ### Whole runs -/

/-- The ceilings hold after every segment of a run. -/
def Bounded (options : DecodeOptions) (done : List DecodedSegment) : Prop :=
  ∀ before after, done = before ++ after → before ≠ [] → options.Allows before.length
    (before.map fun g => g.header.recordCount).sum (before.map fun g => g.content.length).sum
    (headerSize + (before.map fun g => g.encoded.length).sum)

theorem Bounded.concat {options : DecodeOptions} {done : List DecodedSegment}
    {segment : DecodedSegment} (h : Bounded options done)
    (hlast : options.Allows (done ++ [segment]).length
      ((done ++ [segment]).map fun g => g.header.recordCount).sum
      ((done ++ [segment]).map fun g => g.content.length).sum
      (headerSize + ((done ++ [segment]).map fun g => g.encoded.length).sum)) :
    Bounded options (done ++ [segment]) := by
  intro before after hsplit hne
  rcases List.eq_nil_or_concat after with rfl | ⟨after, last, rfl⟩
  · rw [List.append_nil] at hsplit
    exact hsplit ▸ hlast
  · rw [List.concat_eq_append, ← List.append_assoc] at hsplit
    exact h before after (List.append_inj_left' hsplit rfl) hne

/-- A footer that closes the segments `done`, and the counters it confirms. -/
structure Closes (options : DecodeOptions) (input : Bytes) (done : List DecodedSegment)
    (rest : Bytes) (stats : StreamStats) : Prop where
  footer : ∃ footer, rest = footerTag ++ footer ∧ footer.length = footerRest ∧
    parseU32 (slice footer 0 4) = done.length ∧
    parseU64 (slice footer 4 12) = (done.map fun g => g.content.length).sum ∧
    parseU64 (slice footer 12 20) = (done.map fun g => g.header.recordCount).sum ∧
    slice footer 20 52 = sha256 (done.map DecodedSegment.content).flatten
  encoded : stats.encodedBytes = input.length
  encoded_le : stats.encodedBytes ≤ options.maxEncodedBytes
  original : stats.originalBytes = (done.map fun g => g.content.length).sum
  segments : stats.segments = done.length
  records : stats.records = (done.map fun g => g.header.recordCount).sum

/-- The segment came out of a round that met every check. -/
def Passed (codecs : Codecs) (options : DecodeOptions) (g : DecodedSegment) : Prop :=
  ∃ s src s' src', (decodeRound codecs options s).Yields src (.inr s') [g.content] src' ∧
    src.bytes = g.encoded ++ src'.bytes

/-- From the state after the segments `before`, the loop reads and writes
further segments, and accepts only a footer that closes them all. -/
theorem decodeLoop_spec (codecs : Codecs) (options : DecodeOptions) (rounds : ℕ) (s : DecoderState)
    (src : ByteSource) (header : Bytes) (before : List DecodedSegment)
    (hheader : header.length = headerSize) (hcounts : s.Counts before)
    (hbounded : Bounded options before) :
    (decodeLoop codecs options rounds s).Settles src fun result written _ =>
      ∃ after rest, written = after.map DecodedSegment.content ∧
        src.bytes = (after.map DecodedSegment.encoded).flatten ++ rest ∧
        Bounded options (before ++ after) ∧ (∀ g ∈ after, Passed codecs options g) ∧
        ∀ stats, result = .ok stats → src.fault = none ∧
          Closes options (header ++ (before.map DecodedSegment.encoded).flatten ++ src.bytes)
            (before ++ after) rest stats := by
  induction rounds generalizing s src before with
  | zero => exact ⟨[], src.bytes, rfl, rfl, by simpa using hbounded, by simp, fun _ h => by cases h⟩
  | succ rounds ih =>
      rw [decodeLoop]
      have hround : (decodeRound codecs options s).Settles src fun result written src' =>
          RoundOutcome options s src result written src' ∧
            (decodeRound codecs options s).eval src = ⟨result, written, src'⟩ :=
        ⟨decodeRound_spec codecs options s src, rfl⟩
      refine hround.bind ?_ ?_
      · rintro e w s' ⟨⟨⟩, -⟩
        exact ⟨[], src.bytes, rfl, rfl, by simpa using hbounded, by simp, fun _ h => by cases h⟩
      · rintro (stats | s₁) w src₁ ⟨⟨⟩, hyields⟩
        · rename_i hfooter
          refine (yields_ret _ _).settles
            ⟨[], src.bytes, rfl, rfl, by simpa using hbounded, by simp, ?_⟩
          intro final hfinal
          cases hfinal
          obtain ⟨hsegments, hrecords, horiginal, hencoded, hhashed⟩ := hcounts
          obtain ⟨hfault, ⟨footer, hbytes, hlength, h₁, h₂, h₃, h₄⟩, rfl, hle⟩ := hfooter
          rw [List.append_nil]
          refine ⟨hfault, ⟨footer, hbytes, hlength, h₁.trans hsegments, h₂.trans horiginal,
            h₃.trans hrecords, by rw [h₄, hhashed]⟩, ?_, hle, horiginal, hsegments, hrecords⟩
          have htag : footerTag.length = 4 := rfl
          simp only [hbytes, List.length_append, hheader, htag, hlength, hencoded,
            List.length_flatten, List.map_map]
          rfl
        · rename_i segment hstep
          obtain ⟨hbytes, hsrc₁, -, hnext, hallows⟩ := hstep
          have hcounts₁ := hnext before hcounts
          have hbounded₁ : Bounded options (before ++ [segment]) := by
            refine hbounded.concat ?_
            rw [← hcounts₁.segments, ← hcounts₁.records, ← hcounts₁.original, ← hcounts₁.encoded]
            exact hallows
          refine (ih s₁ src₁ (before ++ [segment]) hcounts₁ hbounded₁).mono ?_
          rintro result written _ ⟨after, rest, rfl, hrest, hall, hpassed, hok⟩
          refine ⟨segment :: after, rest, rfl, ?_, by simpa using hall, ?_, fun stats hstats => ?_⟩
          · simp [hbytes, hrest]
          · rintro g hg
            rcases List.mem_cons.mp hg with rfl | hg
            · exact ⟨s, src, s₁, src₁, hyields, hbytes⟩
            · exact hpassed g hg
          · obtain ⟨hfault, hcloses⟩ := hok stats hstats
            rw [hsrc₁] at hfault
            refine ⟨hfault, ?_⟩
            simpa [hbytes] using hcloses

/-- The rounds of the loop are enough: with more of them every run is the same. -/
theorem decodeLoop_rounds (codecs : Codecs) (options : DecodeOptions) (rounds more : ℕ)
    (s : DecoderState) (src : ByteSource) (h : options.maxSegments ≤ rounds + s.stats.segments) :
    (decodeLoop codecs options (rounds + 1 + more) s).eval src =
      (decodeLoop codecs options (rounds + 1) s).eval src := by
  induction rounds generalizing s src with
  | zero =>
      have hround := decodeRound_spec codecs options s src
      rw [Nat.zero_add, Nat.add_comm, decodeLoop, decodeLoop, bind_eq, bind_eq, eval_bind, eval_bind]
      unfold Settles at hround
      match hresult : ((decodeRound codecs options s).eval src).result with
      | .error e => rfl
      | .ok (.inl stats) => rfl
      | .ok (.inr s₁) =>
          rw [hresult] at hround
          generalize ((decodeRound codecs options s).eval src).written = w at hround
          cases hround with
          | writes _ segment _ hstep =>
              have hallowed := hstep.allowed.segments
              have hsegments := hstep.segments
              omega
  | succ rounds ih =>
      have hround := decodeRound_spec codecs options s src
      rw [show rounds + 1 + 1 + more = (rounds + 1 + more) + 1 by omega, decodeLoop, decodeLoop,
        bind_eq, bind_eq, eval_bind, eval_bind]
      unfold Settles at hround
      match hresult : ((decodeRound codecs options s).eval src).result with
      | .error e => rfl
      | .ok (.inl stats) => rfl
      | .ok (.inr s₁) =>
          rw [hresult] at hround
          generalize ((decodeRound codecs options s).eval src).written = w at hround ⊢
          generalize ((decodeRound codecs options s).eval src).reader = src₁ at hround ⊢
          cases hround with
          | writes _ segment _ hstep =>
              have hsegments := hstep.segments
              simp only [ih s₁ src₁ (by omega)]

/-- The ceilings of the options after some segments, in bytes written and read. -/
structure WithinCeilings (options : DecodeOptions) (done : List DecodedSegment) : Prop where
  output : (done.map DecodedSegment.content).flatten.length ≤ options.maxOutputBytes
  expansion : (done.map DecodedSegment.content).flatten.length ≤
    (headerSize + (done.map DecodedSegment.encoded).flatten.length) * options.maxExpansionRatio +
      maxSegmentSize
  segments : done.length ≤ options.maxSegments
  records : (done.map fun g => g.header.recordCount).sum ≤ options.maxRecords

/-- A run that wrote the segments `done` of its input and nothing else. -/
structure SafeRun (codecs : Codecs) (options : DecodeOptions) (input : Bytes)
    (result : Except Error StreamStats) (written : List Bytes) (header : Bytes)
    (done : List DecodedSegment) (rest : Bytes) : Prop where
  layout : input = header ++ (done.map DecodedSegment.encoded).flatten ++ rest
  whole_header : done ≠ [] → header.length = headerSize
  writes : written = done.map DecodedSegment.content
  passed : ∀ g ∈ done, Passed codecs options g
  ceilings : ∀ before after, done = before ++ after → WithinCeilings options before
  accepted : ∀ stats, result = .ok stats →
    header.length = headerSize ∧ Closes options input done rest stats

theorem expansionLimit_le (options : DecodeOptions) (encodedBytes : ℕ) :
    options.expansionLimit encodedBytes ≤
      encodedBytes * options.maxExpansionRatio + maxSegmentSize := by
  unfold DecodeOptions.expansionLimit saturatingAdd saturatingMul
  omega

theorem Bounded.withinCeilings {options : DecodeOptions} {done before after : List DecodedSegment}
    (h : Bounded options done) (hsplit : done = before ++ after) :
    WithinCeilings options before := by
  rcases eq_or_ne before [] with rfl | hne
  · exact ⟨by simp, by simp, by simp, by simp⟩
  · obtain ⟨hsegments, hrecords, houtput, -, hexpansion⟩ := h before after hsplit hne
    have hlimit := expansionLimit_le options
      (headerSize + (before.map fun g => g.encoded.length).sum)
    have hcontent : (before.map DecodedSegment.content).flatten.length =
        (before.map fun g => g.content.length).sum := by
      rw [List.length_flatten, List.map_map]
      rfl
    have hencoded : (before.map DecodedSegment.encoded).flatten.length =
        (before.map fun g => g.encoded.length).sum := by
      rw [List.length_flatten, List.map_map]
      rfl
    exact ⟨hcontent ▸ houtput, by rw [hcontent, hencoded]; exact hexpansion.trans hlimit,
      hsegments, hrecords⟩

theorem decodeWithOptions_spec (codecs : Codecs) (options : DecodeOptions) (input : Bytes) :
    (decodeWithOptions codecs options).Settles (.ofBytes input) fun result written _ =>
      ∃ header done rest, SafeRun codecs options input result written header done rest := by
  have hempty : Bounded options [] := by
    rintro before after hsplit hne
    exact absurd (List.append_eq_nil_iff.mp hsplit.symm).1 hne
  have hfail : ∀ (e : Error) (_ : ByteSource), ∃ header done rest,
      SafeRun codecs options input (.error e) [] header done rest := fun e _ =>
    ⟨[], [], input, rfl, fun h => absurd rfl h, rfl, by simp,
      fun _ _ hsplit => hempty.withinCeilings hsplit, fun _ h => by cases h⟩
  unfold decodeWithOptions
  refine settles_require_bind (hfail _) fun _ => ?_
  refine settles_readExact_bind hfail fun header body hbytes hlength => ?_
  refine settles_require_bind (hfail _) fun _ => ?_
  have hbytes : input = header ++ body := hbytes
  have hcounts : DecoderState.initial.Counts [] := ⟨rfl, rfl, rfl, rfl, rfl⟩
  refine (decodeLoop_spec codecs options (options.maxSegments + 1) .initial _ header [] hlength
    hcounts hempty).mono ?_
  rintro result written _ ⟨done, rest, rfl, hrest, hbounded, hpassed, hok⟩
  refine ⟨header, done, rest, ?_, fun _ => hlength, rfl, hpassed, fun before after hsplit =>
    hbounded.withinCeilings hsplit, fun stats hstats => ⟨hlength, ?_⟩⟩
  · rw [hbytes, List.append_assoc, ← hrest]
  · simpa [hbytes] using (hok stats hstats).2

/-- For any input and any reader of it, the writer receives whole segments of
the declared lengths and digests, under every ceiling; an accepted input ends
with a footer that confirms them and nothing after it. -/
theorem decode_segment_atomic (codecs : Codecs) (options : DecodeOptions) (input : Reads) :
    ∃ header done rest, SafeRun codecs options input.data
      ((decodeWithOptions codecs options).run (BlockReader.new input)).result
      ((decodeWithOptions codecs options).run (BlockReader.new input)).written
      header done rest := by
  obtain ⟨hresult, hwritten, -⟩ :=
    (decodeWithOptions codecs options).run_rest (BlockReader.new input)
  rw [hresult, hwritten]
  exact decodeWithOptions_spec codecs options input.data

end MosaicArchive.Core
