import MosaicArchive.Core.SegmentRoundTrip
import MosaicArchive.Core.DecodeSafety
import MosaicArchive.Chunking.Refinement

/-!
Decoding undoes encoding. Encoder and decoder go through the segments in step:
after each of them both have seen the same chunks, hold a window on the same
stream and have the same counters. The bounds on chunks and segments keep every
ceiling of the decoder out of reach.
-/

namespace MosaicArchive.Core

open FixedWidth Sha256 Gear IoProgram

/-! ### Chunks of a stream -/

/-- Chunks as the native chunker splits an input. -/
structure Regular (chunks : List Bytes) : Prop where
  fits : ∀ c ∈ chunks, Fits c
  long : ∀ before c after, chunks = before ++ c :: after → after ≠ [] → minChunkSize ≤ c.length

theorem chunks_regular (input : Bytes) : Regular (nativeRule.chunks input) := by
  obtain ⟨hlast, hall⟩ := maskedRule_bounds defaultChunking input
  refine ⟨fun c hc => ⟨nativeRule.ne_nil_of_mem_chunks hc, hall c hc⟩, ?_⟩
  intro before c after hsplit hne
  refine (hlast c ?_).1
  change c ∈ (nativeRule.chunks input).dropLast
  rw [hsplit, List.dropLast_append_of_ne_nil (by simp)]
  exact List.mem_append_right _ (by rw [List.dropLast_cons_of_ne_nil hne]; simp)

theorem Regular.left {a b : List Bytes} (h : Regular (a ++ b)) : Regular a := by
  refine ⟨fun c hc => h.fits c (List.mem_append_left _ hc), ?_⟩
  rintro before c after rfl hne
  exact h.long before c (after ++ b) (by simp) (by simp [hne])

theorem Regular.right {a b : List Bytes} (h : Regular (a ++ b)) : Regular b := by
  refine ⟨fun c hc => h.fits c (List.mem_append_right _ hc), ?_⟩
  rintro before c after rfl hne
  exact h.long (a ++ before) c after (by simp) hne

/-- All chunks but the last have the minimum size. -/
theorem Regular.length_le {chunks : List Bytes} (h : Regular chunks) :
    chunks.length * minChunkSize ≤ total chunks + minChunkSize := by
  rcases List.eq_nil_or_concat chunks with rfl | ⟨front, last, rfl⟩
  · simp
  · rw [List.concat_eq_append] at h ⊢
    have hfront : front.length * minChunkSize ≤ total front := by
      refine length_mul_le_total fun c hc => ?_
      obtain ⟨before, after, rfl⟩ := List.append_of_mem hc
      exact h.long before c (after ++ [last]) (by simp) (by simp)
    simp only [List.length_append, List.length_singleton, total_append, Nat.succ_mul]
    omega

theorem Regular.total_le {chunks : List Bytes} (h : Regular chunks) :
    total chunks ≤ chunks.length * maxChunkSize := by
  have hshort : ∀ c ∈ chunks, c.length ≤ maxChunkSize := fun c hc => (h.fits c hc).short
  clear h
  induction chunks with
  | nil => simp
  | cons c rest ih =>
      have hc := hshort c (by simp)
      have hrest := ih fun d hd => hshort d (List.mem_cons_of_mem _ hd)
      simp only [total_cons, List.length_cons, Nat.succ_mul]
      omega

/-! ### Filling a segment -/

/-- A segment takes chunks up to its maximum size; the next chunk does not fit. -/
theorem fillSegment_spec (chunks : List Bytes) (segmentSize : ℕ) (rest : List Bytes)
    (hsize : segmentSize ≤ maxSegmentSize) :
    ∃ taken left, rest = taken ++ left ∧
      fillSegment chunks segmentSize rest = (chunks ++ taken, segmentSize + total taken, left) ∧
      segmentSize + total taken ≤ maxSegmentSize ∧
      ∀ next more, left = next :: more →
        maxSegmentSize < segmentSize + total taken + next.length := by
  induction rest generalizing chunks segmentSize with
  | nil => exact ⟨[], [], rfl, by simp [fillSegment], by simpa using hsize, by simp⟩
  | cons c rest ih =>
      rw [fillSegment]
      by_cases hfull : segmentSize + c.length > maxSegmentSize
      · rw [if_pos hfull]
        refine ⟨[], c :: rest, rfl, by simp, by simpa using hsize, ?_⟩
        intro next more hsplit
        obtain ⟨rfl, -⟩ := List.cons.inj hsplit
        simpa using hfull
      · rw [if_neg hfull]
        obtain ⟨taken, left, rfl, hfill, hle, hnext⟩ :=
          ih (chunks ++ [c]) (segmentSize + c.length) (by omega)
        refine ⟨c :: taken, left, rfl, ?_, ?_, ?_⟩
        · rw [hfill]
          simp [Nat.add_assoc]
        · simpa [Nat.add_assoc] using hle
        · simpa [Nat.add_assoc] using hnext

/-- The chunks of the segments, one after another. -/
def packSegments : ℕ → List Bytes → List (List Bytes)
  | 0, _ => []
  | _ + 1, [] => []
  | rounds + 1, first :: rest =>
      let (chunks, _, left) := fillSegment [first] first.length rest
      chunks :: packSegments rounds left

/-- The segments an input is cut into. -/
def segmentContents (input : Bytes) : List Bytes :=
  let chunks := nativeRule.chunks input
  (packSegments chunks.length chunks).map List.flatten

theorem packSegments_flatten (rounds : ℕ) (chunks : List Bytes)
    (hchunks : ∀ c ∈ chunks, Fits c) (hrounds : chunks.length ≤ rounds) :
    (packSegments rounds chunks).flatten = chunks := by
  induction rounds generalizing chunks with
  | zero => rw [List.eq_nil_of_length_eq_zero (by omega : chunks.length = 0), packSegments,
      List.flatten_nil]
  | succ rounds ih =>
      match chunks with
      | [] => rfl
      | first :: rest =>
          have hfirst : first.length ≤ maxSegmentSize :=
            (hchunks first (by simp)).short.trans (by decide)
          obtain ⟨taken, left, rfl, hfill, -, -⟩ := fillSegment_spec [first] first.length rest hfirst
          rw [packSegments, hfill]
          have hleft := ih left (fun c hc => hchunks c (by simp [hc])) (by
            simp only [List.length_cons, List.length_append] at hrounds
            omega)
          simp [hleft]

/-! ### Both sides in step -/

/-- Encoder and decoder after the chunks of `stream`. -/
structure InStep (e : EncoderState) (d : DecoderState) (stream : List Bytes) : Prop where
  tracks : e.dedup.Tracks stream
  knows : d.Knows stream
  offset : e.originalOffset = total stream
  stats : d.stats = { e.stats with encodedBytes := e.encodedBytes }
  original : e.stats.originalBytes = total stream
  counted : e.stats.records = stream.length
  encoder_hash : e.hashed = stream.flatten
  decoder_hash : d.hashed = stream.flatten

theorem inStep_initial : InStep .initial .initial [] where
  tracks := DedupWindow.tracks_new
  knows := ⟨DecodeHistory.holds_new, rfl⟩
  offset := rfl
  stats := rfl
  original := rfl
  counted := rfl
  encoder_hash := rfl
  decoder_hash := rfl

/-- One segment leads from one pair of states to another on both sides, under
all options that leave room for it. -/
structure SegmentPair (codecs : Codecs) (e e' : EncoderState) (d d' : DecoderState)
    (chunks written : List Bytes) : Prop where
  encodes : ∀ (pool : WorkerPool) (options : EncodeOptions) (src : ByteSource),
    e'.stats.originalBytes ≤ options.maxInputBytes →
    (encodeSegment codecs pool options e chunks (total chunks)).Yields src e' written src
  decodes : ∀ options : DecodeOptions,
    options.Allows e'.stats.segments e'.stats.records e'.stats.originalBytes e'.encodedBytes →
    ∀ rest fault sawEnd, (decodeRound codecs options d).Yields
      ⟨written.flatten ++ rest, fault, sawEnd⟩ (.inr d') [chunks.flatten] ⟨rest, fault, sawEnd⟩

/-- One round on both sides. It succeeds where the counters stay in range, and
the encoder checks that they do. -/
theorem InStep.step {codecs : Codecs} (hcodecs : codecs.Lossless) {e : EncoderState}
    {d : DecoderState} {stream chunks : List Bytes} (h : InStep e d stream) (hne : chunks ≠ [])
    (hregular : Regular (stream ++ chunks)) (hsegment : total chunks ≤ maxSegmentSize) :
    ∃ dedup records, records.length = chunks.length ∧ payloadTotal records ≤ total chunks ∧
      (∀ (pool : WorkerPool) (options : EncodeOptions) (src : ByteSource) (s' : EncoderState),
        ((encodeSegment codecs pool options e chunks (total chunks)).eval src).result = .ok s' →
        e.Room chunks records ∧ e.stats.originalBytes + total chunks ≤ options.maxInputBytes) ∧
      (e.Room chunks records → ∃ d',
        InStep (e.afterSegment dedup (total (stream ++ chunks)) chunks records) d'
          (stream ++ chunks) ∧
        SegmentPair codecs e (e.afterSegment dedup (total (stream ++ chunks)) chunks records) d d'
          chunks (segmentWrites e.stats.segments chunks records)) := by
  have hfits : ∀ c ∈ chunks, Fits c := hregular.right.fits
  have hne' : ∀ c ∈ stream ++ chunks, c ≠ [] := fun c hc => (hregular.fits c hc).nonempty
  obtain ⟨dedup, records, htracks, hdescribes, hencode⟩ := encodeSegment_spec hcodecs h.tracks
    h.offset (fun c hc => hne' c (List.mem_append_left _ hc)) hfits
  have hlength := hdescribes.length_eq
  refine ⟨dedup, records, hlength, hdescribes.payload_le,
    fun pool options src => (hencode pool options src).2, fun hroom => ?_⟩
  obtain ⟨hfew, hsegments, hrecords, horiginal, hencoded⟩ := id hroom
  have htotal : total (stream ++ chunks) < 2 ^ 64 := by
    rw [total_append, ← h.original]
    exact horiginal
  obtain ⟨d', hknows, hstats, hhashed, hdecode⟩ :=
    decodeRound_yields h.knows hdescribes hfits hregular.long hne' htotal
  refine ⟨d', ?_, ?_, ?_⟩
  · constructor
    · exact htracks
    · exact hknows
    · rfl
    · rw [hstats, h.stats, StreamStats.afterSegment, foldl_count_encodedBytes]
      rfl
    · change e.stats.originalBytes + total chunks = _
      rw [h.original, total_append]
    · change e.stats.records + records.length = _
      rw [h.counted, hlength, List.length_append]
    · change e.hashed ++ chunks.flatten = _
      rw [h.encoder_hash, List.flatten_append]
    · rw [hhashed, h.decoder_hash, List.flatten_append]
  · exact fun pool options src hinput => (hencode pool options src).1 hroom hinput
  · intro options hallows
    have hsame : e.stats.segments = d.stats.segments := by rw [h.stats]
    rw [hsame]
    have hpos : 0 < total chunks := by
      obtain ⟨c, cs, rfl⟩ := List.exists_cons_of_ne_nil hne
      have := (hfits c (by simp)).length_pos
      rw [total_cons]
      omega
    refine hdecode options ⟨hpos, hsegment, hfew, ?_, ?_, ?_, ?_, ?_⟩
    all_goals rw [h.stats]
    · exact hsegments
    · exact hrecords
    · exact horiginal
    · exact hencoded
    · exact hallows

/-! ### Inputs within the default limits -/

/-- The least size of a segment that another one follows. -/
def fullSegment : ℕ := 4 * 1024 * 1024

theorem fullSegment_eq : fullSegment = 4194304 := rfl

/-- The counters are in proportion to the stream, with `rest` to come. -/
structure EncoderState.Sized (e : EncoderState) (stream rest : List Bytes) : Prop where
  segments : e.stats.segments * fullSegment ≤ total stream + fullSegment
  full : rest ≠ [] → e.stats.segments * fullSegment ≤ total stream
  encoded_le : e.encodedBytes ≤ headerSize + e.stats.segments * (4 + segmentHeaderRest) +
    stream.length * recordSize + total stream
  encoded_ge : stream.length * recordSize ≤ e.encodedBytes

theorem sized_initial (rest : List Bytes) : EncoderState.initial.Sized [] rest where
  segments := by simp [EncoderState.initial, StreamStats.default]
  full := by simp [EncoderState.initial, StreamStats.default]
  encoded_le := by simp [EncoderState.initial]
  encoded_ge := by simp

/-- Within the default input limit no ceiling of either side is in reach. -/
theorem EncoderState.Sized.step {e : EncoderState} {stream chunks left : List Bytes}
    {records : List EncodedRecord} (h : e.Sized stream (chunks ++ left))
    (horiginal : e.stats.originalBytes = total stream) (hcounted : e.stats.records = stream.length)
    (hne : chunks ≠ []) (hregular : Regular (stream ++ chunks ++ left))
    (hsize : total (stream ++ chunks ++ left) ≤ defaultMaxOriginalBytes)
    (hsegment : total chunks ≤ maxSegmentSize)
    (hfull : ∀ next more, left = next :: more → maxSegmentSize < total chunks + next.length)
    (hlength : records.length = chunks.length) (hpayload : payloadTotal records ≤ total chunks)
    (dedup : DedupWindow) (offset : ℕ) :
    e.Room chunks records ∧
      DecodeOptions.default.Allows (e.stats.segments + 1) (e.stats.records + records.length)
        (e.stats.originalBytes + total chunks)
        (e.encodedBytes + (segmentOverhead records.length + payloadTotal records)) ∧
      (e.afterSegment dedup offset chunks records).Sized (stream ++ chunks) left := by
  have hcount := hregular.left.length_le
  have hsmall := hregular.left.total_le
  have hfew := hregular.left.right.length_le
  have hbefore := h.full (by simp [hne])
  have hprevious := hbefore
  have hencodedLe := h.encoded_le
  have hencodedGe := h.encoded_ge
  rw [defaultMaxOriginalBytes_eq] at hsize
  simp only [List.length_append, total_append, minChunkSize, maxChunkSize] at hcount hsmall hsize
  simp only [maxSegmentSize, fullSegment_eq, headerSize, segmentHeaderRest, recordSize,
    minChunkSize] at hfew hsegment hprevious hencodedLe hencodedGe
  have hencoded : e.encodedBytes + (segmentOverhead chunks.length + payloadTotal records) ≤
      8606711808 := by
    unfold segmentOverhead segmentHeaderRest recordSize
    omega
  refine ⟨⟨?_, ?_, ?_, ?_, ?_⟩, ⟨?_, ?_, ?_, ?_, ?_⟩, ⟨?_, ?_, ?_, ?_⟩⟩
  · unfold maxRecordsPerSegment
    omega
  · omega
  · omega
  · omega
  · rw [hlength]
    omega
  · change e.stats.segments + 1 ≤ 131072
    omega
  · change e.stats.records + records.length ≤ 2000000
    omega
  · refine le_trans ?_ defaultMaxOriginalBytes_eq.symm.le
    omega
  · rw [hlength]
    exact hencoded.trans defaultMaxEncodedBytes_eq.symm.le
  · -- sixteen bytes of record header for every chunk pay for the expansion
    have hheaders : (stream.length + chunks.length) * 16 ≤
        e.encodedBytes + (segmentOverhead chunks.length + payloadTotal records) := by
      unfold segmentOverhead segmentHeaderRest recordSize
      omega
    have hratio : total stream + total chunks ≤
        (e.encodedBytes + (segmentOverhead chunks.length + payloadTotal records)) * 16384 := by
      refine le_trans ?_ (Nat.mul_le_mul_right 16384 hheaders)
      rwa [Nat.mul_assoc]
    rw [hlength, horiginal]
    change _ ≤ min (2 ^ 64 - 1) (min (2 ^ 64 - 1) (_ * 16384) + maxSegmentSize)
    refine le_min (by omega) (le_add_right (le_min (by omega) hratio))
  · change (e.stats.segments + 1) * fullSegment ≤ _
    rw [total_append, Nat.succ_mul]
    exact Nat.add_le_add_right (hbefore.trans (Nat.le_add_right _ _)) fullSegment
  · -- a segment that another chunk follows is nearly full
    intro hleft
    obtain ⟨next, more, rfl⟩ := List.exists_cons_of_ne_nil hleft
    have hnext := hfull next more rfl
    have hshort := (hregular.fits next (by simp)).short
    change (e.stats.segments + 1) * fullSegment ≤ _
    have henough : fullSegment ≤ total chunks := by
      rw [fullSegment_eq]
      simp only [maxSegmentSize] at hnext
      simp only [maxChunkSize] at hshort
      omega
    rw [total_append, Nat.succ_mul]
    exact Nat.add_le_add hbefore henough
  · change e.encodedBytes + (segmentOverhead records.length + payloadTotal records) ≤
      headerSize + (e.stats.segments + 1) * (4 + segmentHeaderRest) + _ * recordSize + _
    rw [total_append, List.length_append]
    unfold segmentOverhead headerSize segmentHeaderRest recordSize
    omega
  · change _ * recordSize ≤ e.encodedBytes + (segmentOverhead records.length + payloadTotal records)
    rw [List.length_append]
    unfold segmentOverhead recordSize
    omega

/-- All rounds on both sides: what the decoder does after the segments of the
encoder is what it does from the state that follows them. -/
theorem InStep.run {codecs : Codecs} (hcodecs : codecs.Lossless) (rounds : ℕ) {e : EncoderState}
    {d : DecoderState} {stream rest : List Bytes} (h : InStep e d stream)
    (hsized : e.Sized stream rest) (hregular : Regular (stream ++ rest))
    (hsize : total (stream ++ rest) ≤ defaultMaxOriginalBytes) (hrounds : rest.length ≤ rounds) :
    ∃ e' d' written, InStep e' d' (stream ++ rest) ∧ e'.Sized (stream ++ rest) [] ∧
      e.stats.segments ≤ e'.stats.segments ∧
      (∀ (pool : WorkerPool) (options : EncodeOptions) (src : ByteSource),
        total (stream ++ rest) ≤ options.maxInputBytes →
        (encodeLoop codecs pool options rounds rest e).Yields src e' written src) ∧
      ∀ more tail fault sawEnd stats w s', (decodeLoop codecs .default more d').Yields
        ⟨tail, fault, sawEnd⟩ stats w s' →
        (decodeLoop codecs .default (more + (e'.stats.segments - e.stats.segments)) d).Yields
          ⟨written.flatten ++ tail, fault, sawEnd⟩ stats
          ((packSegments rounds rest).map List.flatten ++ w) s' := by
  induction rounds generalizing e d stream rest with
  | zero =>
      obtain rfl : rest = [] := List.eq_nil_of_length_eq_zero (by omega)
      rw [List.append_nil]
      refine ⟨e, d, [], h, hsized, le_rfl, fun _ _ _ _ => yields_ret _ _, ?_⟩
      intro more tail fault sawEnd stats w s' hyields
      simpa [packSegments] using hyields
  | succ rounds ih =>
      match rest with
      | [] =>
          rw [List.append_nil]
          refine ⟨e, d, [], h, hsized, le_rfl, fun _ _ _ _ => yields_ret _ _, ?_⟩
          intro more tail fault sawEnd stats w s' hyields
          simpa [packSegments] using hyields
      | first :: rest =>
          have hfirst : first.length ≤ maxSegmentSize :=
            (hregular.fits first (by simp)).short.trans (by decide)
          obtain ⟨taken, left, rfl, hfill, hle, hnext⟩ :=
            fillSegment_spec [first] first.length rest hfirst
          have hsplit : first :: (taken ++ left) = (first :: taken) ++ left := rfl
          have htotal : first.length + total taken = total (first :: taken) := (total_cons _ _).symm
          rw [htotal] at hfill hle hnext
          rw [hsplit] at hsized
          rw [hsplit, ← List.append_assoc] at hregular hsize ⊢
          obtain ⟨dedup, records, hlength, hpayload, -, hpair⟩ :=
            h.step hcodecs (by simp) hregular.left hle
          obtain ⟨hroom, hallows, hsized₁⟩ := hsized.step h.original h.counted (by simp) hregular
            hsize hle hnext hlength hpayload dedup (total (stream ++ first :: taken))
          obtain ⟨d₁, h₁, hpair⟩ := hpair hroom
          have hfewer : left.length ≤ rounds := by
            simp only [List.length_cons, List.length_append] at hrounds
            omega
          obtain ⟨e₂, d₂, written₂, h₂, hsized₂, hgrow, hencode₂, hdecode₂⟩ :=
            ih h₁ hsized₁ hregular hsize hfewer
          have hgrow' : e.stats.segments + 1 ≤ e₂.stats.segments := hgrow
          refine ⟨e₂, d₂, segmentWrites e.stats.segments (first :: taken) records ++ written₂, h₂, hsized₂, by omega, ?_, ?_⟩
          · intro pool options src hoptions
            have hinput : e.stats.originalBytes + total (first :: taken) ≤ options.maxInputBytes := by
              rw [h.original, ← total_append]
              rw [total_append] at hoptions
              omega
            rw [← hsplit, encodeLoop, hfill]
            refine (hpair.encodes pool options src hinput).bind ?_
            exact hencode₂ pool options src hoptions
          · intro more tail fault sawEnd stats w s' hyields
            have hcount : more + (e₂.stats.segments - e.stats.segments) =
                more + (e₂.stats.segments - (e.stats.segments + 1)) + 1 := by omega
            rw [hcount, decodeLoop, List.flatten_append, List.append_assoc, ← hsplit, packSegments,
              hfill]
            refine (hpair.decodes .default hallows (written₂.flatten ++ tail) fault sawEnd).bind ?_
            exact hdecode₂ more tail fault sawEnd stats w s' hyields

/-! ### Whole streams -/

/-- The footer of the counters ends the loop when the input ends with it. -/
theorem decodeLoop_footer {codecs : Codecs} {options : DecodeOptions} {s : DecoderState}
    (hencoded : s.stats.encodedBytes + (4 + footerRest) ≤ options.maxEncodedBytes)
    (hlimit : s.stats.encodedBytes + (4 + footerRest) < 2 ^ 64)
    (hsegments : s.stats.segments < 2 ^ 32) (horiginal : s.stats.originalBytes < 2 ^ 64)
    (hrecords : s.stats.records < 2 ^ 64) (rounds : ℕ) :
    (decodeLoop codecs options (rounds + 1) s).Yields
      ⟨(footerFields s.stats (sha256 s.hashed)).flatten, none, false⟩
      { s.stats with encodedBytes := s.stats.encodedBytes + (4 + footerRest) } []
      ⟨[], none, true⟩ := by
  let fields := (footerFields s.stats (sha256 s.hashed)).tail
  have hlength : fields.flatten.length = footerRest := by
    simp [fields, footerFields, footerRest]
  have h₀ : slice fields.flatten 0 4 = u32Bytes s.stats.segments :=
    slice_field [] _ (fields.drop 1) rfl (by simp)
  have h₁ : slice fields.flatten 4 12 = u64Bytes s.stats.originalBytes :=
    slice_field (fields.take 1) _ (fields.drop 2) (by simp [fields, footerFields]) (by simp)
  have h₂ : slice fields.flatten 12 20 = u64Bytes s.stats.records :=
    slice_field (fields.take 2) _ (fields.drop 3) (by simp [fields, footerFields]) (by simp)
  have h₃ : slice fields.flatten 20 52 = sha256 s.hashed :=
    slice_field (fields.take 3) _ [] (by simp [fields, footerFields]) (by simp)
  have hread := readExactFormat_yields hlength "footer is truncated" [] none false
  have hsum : s.stats.encodedBytes + (4 + footerRest) = s.stats.encodedBytes + 4 + footerRest :=
    (Nat.add_assoc _ _ _).symm
  rw [List.append_nil] at hread
  rw [hsum] at hencoded hlimit ⊢
  have hfooter : (decodeFooter options s (s.stats.encodedBytes + 4)).Yields
      ⟨fields.flatten, none, false⟩
      { s.stats with encodedBytes := s.stats.encodedBytes + 4 + footerRest } []
      ⟨[], none, true⟩ := by
    unfold decodeFooter
    refine (checkedAdd_yields hlimit _ _).bind_silent ?_
    refine (yields_require hencoded _ _).bind_silent ?_
    refine hread.bind_silent ?_
    refine (yields_require ?_ _ _).bind_silent ?_
    · rw [h₀, h₁, h₂, h₃, parseU32_u32Bytes hsegments, parseU64_u64Bytes horiginal,
        parseU64_u64Bytes hrecords]
      exact ⟨rfl, rfl, rfl, rfl⟩
    · rfl
  have hround : (decodeRound codecs options s).Yields
      ⟨footerTag ++ fields.flatten, none, false⟩
      (.inl { s.stats with encodedBytes := s.stats.encodedBytes + 4 + footerRest }) []
      ⟨[], none, true⟩ := by
    unfold decodeRound
    refine (readExactFormat_yields (show footerTag.length = 4 from rfl) _ _ _ _).bind_silent ?_
    refine (checkedAdd_yields (by omega) _ _).bind_silent ?_
    refine (yields_require (by omega) _ _).bind_silent ?_
    rw [if_pos rfl]
    exact hfooter.bind_ret
  rw [decodeLoop]
  exact hround.bind_silent (yields_ret _ _)

theorem segmentContents_flatten (input : Bytes) : (segmentContents input).flatten = input := by
  have hfits : ∀ c ∈ nativeRule.chunks input, Fits c := (chunks_regular input).fits
  have hpack := congrArg List.flatten (packSegments_flatten _ _ hfits le_rfl)
  rwa [List.flatten_flatten, nativeRule.chunks_flatten] at hpack

theorem header_valid : headerValid headerFields.flatten := by decide

/-- What the encoder writes for an input and the counters it returns, for every
reader, pool and limit; the decoder reads all of it and restores the input. -/
theorem encode_yields {codecs : Codecs} (hcodecs : codecs.Lossless) {input : Bytes}
    (hinput : input.length ≤ defaultMaxOriginalBytes) :
    ∃ fields stats,
      (∀ (build : ℕ → Option WorkerPool) (options : EncodeOptions) (reads : Reads)
        (src : ByteSource), reads.data = input → options.Valid →
        (build options.threads).isSome → input.length ≤ options.maxInputBytes →
        (encode codecs build options reads).Yields src stats fields src) ∧
      stats.encodedBytes = fields.flatten.length ∧ fields.flatten ≠ [] ∧
      fields.flatten.length ≤ defaultMaxEncodedBytes ∧
      (decode codecs).Yields ⟨fields.flatten, none, false⟩ stats (segmentContents input)
        ⟨[], none, true⟩ := by
  have hflatten : (nativeRule.chunks input).flatten = input := nativeRule.chunks_flatten input
  have htotal : total (nativeRule.chunks input) = input.length := by rw [total, hflatten]
  obtain ⟨e, d, written, h, hsized, -, hencode, hdecode⟩ :=
    InStep.run hcodecs _ inStep_initial (sized_initial (nativeRule.chunks input))
      (by simpa using chunks_regular input) (by simpa [htotal] using hinput) le_rfl
  rw [List.nil_append] at h hsized hencode
  -- the final counters stay below the ceilings
  have hcount := (chunks_regular input).length_le
  have hsegments := hsized.segments
  have hencodedLe := hsized.encoded_le
  have hstats := h.stats
  have horiginal := h.original
  have hrecords := h.counted
  rw [htotal] at hcount hsegments hencodedLe horiginal
  rw [defaultMaxOriginalBytes_eq] at hinput
  simp only [minChunkSize, fullSegment_eq, headerSize, segmentHeaderRest, recordSize]
    at hcount hsegments hencodedLe
  have hlimit : e.encodedBytes + (4 + footerRest) ≤ 8606711808 := by
    rw [footerRest]
    omega
  have hrounds : e.stats.segments ≤ 131072 := by omega
  let stats := { e.stats with encodedBytes := e.encodedBytes + (4 + footerRest) }
  let fields := headerFields ++ (written ++ footerFields e.stats (sha256 e.hashed))
  have hfields : fields.flatten = headerFields.flatten ++ (written.flatten ++
      (footerFields d.stats (sha256 d.hashed)).flatten) := by
    simp only [fields, List.flatten_append, hstats, h.encoder_hash, h.decoder_hash]
    rfl
  have hdecodes : (decode codecs).Yields ⟨fields.flatten, none, false⟩ stats
      (segmentContents input) ⟨[], none, true⟩ := by
    have hfooter := @decodeLoop_footer codecs .default d
      (by rw [hstats]; exact hlimit.trans_eq defaultMaxEncodedBytes_eq.symm)
      (by rw [hstats]; dsimp only; omega) (by rw [hstats]; dsimp only; omega)
      (by rw [hstats]; dsimp only; omega) (by rw [hstats]; dsimp only; omega)
      (131072 - e.stats.segments)
    have hloop := hdecode _ _ _ _ _ _ _ hfooter
    have hcounts : 131072 - e.stats.segments + 1 +
        (e.stats.segments - EncoderState.initial.stats.segments) =
          DecodeOptions.default.maxSegments + 1 := by
      change 131072 - e.stats.segments + 1 + (e.stats.segments - 0) = 131072 + 1
      omega
    rw [hcounts, List.append_nil] at hloop
    rw [hfields]
    unfold decode decodeWithOptions
    refine (yields_require DecodeOptions.default_valid _ _).bind_silent ?_
    refine (readExactFormat_yields (by decide) _ _ _ _).bind_silent ?_
    refine (yields_require header_valid _ _).bind_silent ?_
    rw [hstats] at hloop ⊢
    exact hloop
  -- an accepted stream is as long as its counters say
  have hencodedBytes : stats.encodedBytes = fields.flatten.length := by
    have hspec := decodeWithOptions_spec codecs .default fields.flatten
    unfold Settles at hspec
    obtain ⟨_, _, _, hsafe⟩ := hspec
    exact (hsafe.accepted stats hdecodes.result).2.encoded
  refine ⟨fields, stats, ?_, hencodedBytes, ?_, ?_, hdecodes⟩
  · rintro build options reads src rfl hvalid hbuild hoptions
    obtain ⟨pool, hpool⟩ := Option.isSome_iff_exists.mp hbuild
    unfold encode
    refine (yields_require hvalid _ _).bind_silent ?_
    rw [hpool, GearChunker.drain_eq]
    refine (writeAll_yields headerFields src).bind ?_
    refine (hencode pool options src (by rwa [htotal])).bind ?_
    rw [← List.append_nil (footerFields _ _)]
    refine (writeAll_yields (footerFields e.stats (sha256 e.hashed)) src).bind ?_
    exact (checkedAdd_yields (by omega) _ src).bind_ret
  · rw [hfields]
    exact fun hnil => absurd (List.append_eq_nil_iff.mp hnil).1 (by decide)
  · rw [← hencodedBytes, defaultMaxEncodedBytes_eq]
    exact hlimit

/-- Every input within the default limit, however it arrives, is encoded to one
stream for all thread counts and limits; the decoder restores it from that
stream, however that arrives, and counts what the encoder counted. -/
theorem encode_decode_round_trip (codecs : Codecs) (hcodecs : codecs.Lossless) (input : Bytes)
    (hinput : input.length ≤ defaultMaxOriginalBytes) :
    ∃ archive stats,
      (∀ (build : ℕ → Option WorkerPool) (options : EncodeOptions) (reads : Reads),
        reads.data = input → 1 ≤ options.threads → options.threads ≤ 64 →
        (build options.threads).isSome → 1 ≤ options.maxInputBytes →
        input.length ≤ options.maxInputBytes →
        (encodeRun codecs build options reads).result = .ok stats ∧
          (encodeRun codecs build options reads).written.flatten = archive) ∧
      stats.encodedBytes = archive.length ∧
      ∀ reads : Reads, reads.data = archive →
        ((decode codecs).run (BlockReader.new reads)).result = .ok stats ∧
          ((decode codecs).run (BlockReader.new reads)).written.flatten = input := by
  obtain ⟨fields, stats, hencode, hlength, -, -, hdecode⟩ := encode_yields hcodecs hinput
  refine ⟨fields.flatten, stats, ?_, hlength, ?_⟩
  · intro build options reads hreads hpos hthreads hbuild hlimit hoptions
    have hvalid : options.Valid := by
      unfold EncodeOptions.Valid maxThreads
      omega
    have hyields := hencode build options reads (.ofBytes []) hreads hvalid hbuild hoptions
    exact ⟨hyields.result, congrArg List.flatten hyields.written⟩
  · intro reads hreads
    obtain ⟨hresult, hwritten, -⟩ := (decode codecs).run_rest (BlockReader.new reads)
    have hsource : LawfulReader.rest (BlockReader.new reads) = ⟨fields.flatten, none, false⟩ :=
      congrArg (fun bytes => (⟨bytes, none, false⟩ : ByteSource)) hreads
    rw [hsource] at hresult hwritten
    exact ⟨hresult.trans hdecode.result, by rw [hwritten, hdecode.written, segmentContents_flatten]⟩

/-- Three bytes through a pool of one worker. -/
theorem encode_decode_three_bytes : ∃ archive stats,
    (encodeRun storedCodecs (fun _ => some .sequential) ⟨4, 1000⟩ (.single [7, 7, 7])).result =
      .ok stats ∧
    (encodeRun storedCodecs (fun _ => some .sequential) ⟨4, 1000⟩
      (.single [7, 7, 7])).written.flatten = archive ∧
    ((decode storedCodecs).run (BlockReader.new (.single archive))).result = .ok stats ∧
    ((decode storedCodecs).run (BlockReader.new (.single archive))).written.flatten =
      [7, 7, 7] := by
  obtain ⟨archive, stats, hencode, -, hdecode⟩ :=
    encode_decode_round_trip storedCodecs storedCodecs_lossless [7, 7, 7] (by decide)
  obtain ⟨hresult, hwritten⟩ := hencode (fun _ => some .sequential) ⟨4, 1000⟩ (.single [7, 7, 7])
    rfl (by decide) (by decide) rfl (by decide) (by decide)
  obtain ⟨hdecoded, hrestored⟩ := hdecode (.single archive) (Reads.data_single archive)
  exact ⟨archive, stats, hresult, hwritten, hdecoded, hrestored⟩

/-- A limit of zero admits the empty input but is not a valid option. -/
theorem encode_rejects_zero_limit : ¬ ∀ (codecs : Codecs) (build : ℕ → Option WorkerPool)
    (options : EncodeOptions) (reads : Reads), codecs.Lossless →
    (∀ threads, (build threads).isSome) → 1 ≤ options.threads → options.threads ≤ 64 →
    reads.data.length ≤ options.maxInputBytes →
    options.maxInputBytes ≤ defaultMaxOriginalBytes →
    ∃ stats, (encodeRun codecs build options reads).result = .ok stats := by
  intro hall
  obtain ⟨stats, hstats⟩ := hall storedCodecs (fun _ => some .sequential) ⟨1, 0⟩ (.single [])
    storedCodecs_lossless (fun _ => rfl) (by decide) (by decide) (by decide) (by decide)
  cases hstats

end MosaicArchive.Core
