import MosaicArchive.Core.RoundTrip

/-!
What the decoder writes of a stream that was encoded. Under any options, and on
the stream or any part of it that ends in a fault, the decoder writes whole
segments of the input, in order, from the first one on. Ceilings only make it
stop earlier, so it is compared with a decoder whose ceilings are out of reach.
-/

namespace MosaicArchive.Core

open FixedWidth Sha256 Gear IoProgram

/-! ### Ceilings out of reach -/

/-- The options with every ceiling above the range of its counter. -/
def DecodeOptions.lifted (options : DecodeOptions) : DecodeOptions where
  maxOutputBytes := options.maxOutputBytes + 2 ^ 64
  maxEncodedBytes := options.maxEncodedBytes + 2 ^ 64
  maxSegments := options.maxSegments + 2 ^ 32
  maxRecords := options.maxRecords + 2 ^ 64
  maxExpansionRatio := options.maxExpansionRatio + 2 ^ 64

theorem DecodeOptions.lifted_valid (options : DecodeOptions) : options.lifted.Valid := by
  unfold Valid lifted headerSize footerRest
  dsimp only
  omega

theorem DecodeOptions.expansionLimit_lifted (options : DecodeOptions) (encodedBytes : ℕ) :
    options.expansionLimit encodedBytes ≤ options.lifted.expansionLimit encodedBytes := by
  have hratio : encodedBytes * options.maxExpansionRatio ≤
      encodedBytes * options.lifted.maxExpansionRatio :=
    Nat.mul_le_mul_left encodedBytes (Nat.le_add_right _ _)
  exact min_le_min le_rfl (Nat.add_le_add_right (min_le_min le_rfl hratio) maxSegmentSize)

theorem DecodeOptions.Allows.lifted {options : DecodeOptions} {a b c d : ℕ}
    (h : options.Allows a b c d) : options.lifted.Allows a b c d where
  segments := h.segments.trans (Nat.le_add_right _ _)
  records := h.records.trans (Nat.le_add_right _ _)
  output := h.output.trans (Nat.le_add_right _ _)
  encoded := h.encoded.trans (Nat.le_add_right _ _)
  expansion := h.expansion.trans (options.expansionLimit_lifted d)

theorem DecodeOptions.lifted_allows (options : DecodeOptions) {a b c d : ℕ} (ha : a < 2 ^ 32)
    (hb : b < 2 ^ 64) (hc : c < 2 ^ 64) (hd : d < 2 ^ 64) (hpos : 0 < d) :
    options.lifted.Allows a b c d where
  segments := ha.le.trans (Nat.le_add_left _ _)
  records := hb.le.trans (Nat.le_add_left _ _)
  output := hc.le.trans (Nat.le_add_left _ _)
  encoded := hd.le.trans (Nat.le_add_left _ _)
  expansion := by
    have hratio : 2 ^ 64 ≤ options.lifted.maxExpansionRatio := Nat.le_add_left _ _
    have hproduct : c ≤ d * options.lifted.maxExpansionRatio :=
      (hc.le.trans hratio).trans (Nat.le_mul_of_pos_left _ hpos)
    have hrange : c ≤ 2 ^ 64 - 1 := Nat.le_sub_one_of_lt hc
    exact le_min hrange (Nat.le_add_right_of_le (le_min hrange hproduct))

theorem cautious_decodeFooter (options : DecodeOptions) (s : DecoderState) (encodedBytes : ℕ) :
    Cautious (decodeFooter options s encodedBytes) (decodeFooter options.lifted s encodedBytes) := by
  unfold decodeFooter
  refine (Cautious.refl _).bind fun total => Cautious.bind (cautious_require ?_ _) fun _ => .refl _
  intro hle
  exact hle.trans (Nat.le_add_right _ _)

theorem cautious_decodeSegment (codecs : Codecs) (options : DecodeOptions) (s : DecoderState)
    (encodedBytes : ℕ) : Cautious (decodeSegment codecs options s encodedBytes)
      (decodeSegment codecs options.lifted s encodedBytes) := by
  unfold decodeSegment
  refine (Cautious.refl _).bind fun header => (Cautious.refl _).bind fun encoded => ?_
  refine (Cautious.refl _).bind fun _ => (Cautious.refl _).bind fun segments => ?_
  refine (Cautious.refl _).bind fun records => (Cautious.refl _).bind fun output => ?_
  refine (Cautious.refl _).bind fun total => Cautious.bind (cautious_require ?_ _) fun _ => .refl _
  exact DecodeOptions.Allows.lifted

theorem cautious_decodeRound (codecs : Codecs) (options : DecodeOptions) (s : DecoderState) :
    Cautious (decodeRound codecs options s) (decodeRound codecs options.lifted s) := by
  unfold decodeRound
  refine (Cautious.refl _).bind fun tag => (Cautious.refl _).bind fun encoded => ?_
  refine Cautious.bind (cautious_require (fun hle => hle.trans (Nat.le_add_right _ _)) _) fun _ => ?_
  split
  · exact (cautious_decodeFooter options s encoded).bind fun _ => .refl _
  · exact (Cautious.refl _).bind fun _ =>
      (cautious_decodeSegment codecs options s encoded).bind fun _ => .refl _

theorem cautious_decodeLoop (codecs : Codecs) (options : DecodeOptions) (rounds : ℕ)
    (s : DecoderState) :
    Cautious (decodeLoop codecs options rounds s) (decodeLoop codecs options.lifted rounds s) := by
  induction rounds generalizing s with
  | zero => exact .refl _
  | succ rounds ih =>
      rw [decodeLoop, decodeLoop]
      refine (cautious_decodeRound codecs options s).bind fun next => ?_
      cases next with
      | inl stats => exact .refl _
      | inr s => exact ih s

/-- The written part of a run that may give up earlier is a prefix. -/
theorem written_prefix_of_cautious {ε α : Type} {p q : IoProgram ε α} (h : Cautious p q)
    (s : ByteSource) : (p.eval s).written <+: (q.eval s).written := by
  rcases h s with ⟨-, hprefix⟩ | hsame
  · exact hprefix
  · rw [hsame]

/-- More rounds than the ceiling on segments needs change nothing. -/
theorem decodeWithOptions_rounds (codecs : Codecs) (options : DecodeOptions) (s : ByteSource) :
    ((decodeWithOptions codecs options).eval s).written <+:
      ((decodeWithOptions codecs options.lifted).eval s).written := by
  have hmore : (decodeWithOptions codecs options).eval s =
      (IoProgram.bind (validateDecodeOptions options) fun _ =>
        (readExactFormat headerSize "header is truncated").bind fun header =>
        (IoProgram.require (headerValid header)
          (.invalidFormat "header is unsupported or malformed")).bind fun _ =>
        decodeLoop codecs options (options.lifted.maxSegments + 1) .initial).eval s := by
    have hloop : ∀ src, (decodeLoop codecs options (options.lifted.maxSegments + 1) .initial).eval src =
        (decodeLoop codecs options (options.maxSegments + 1) .initial).eval src := by
      intro src
      have hrounds : options.lifted.maxSegments + 1 = options.maxSegments + 1 + 2 ^ 32 :=
        Nat.add_right_comm _ _ _
      rw [hrounds]
      exact decodeLoop_rounds codecs options _ _ _ src (Nat.le_add_right _ _)
    unfold decodeWithOptions
    simp only [bind_eq, eval_bind, hloop]
  rw [hmore]
  refine written_prefix_of_cautious ?_ s
  refine Cautious.bind (cautious_require (fun _ => options.lifted_valid) _) fun _ => ?_
  refine (Cautious.refl _).bind fun header => (Cautious.refl _).bind fun _ => ?_
  exact cautious_decodeLoop codecs options _ _

/-! ### The decoder follows a run of the encoder -/

/-- What the rest of a program writes comes after what its first part wrote. -/
theorem written_bind_of_yields {ε α β : Type} {p : IoProgram ε α} {f : α → IoProgram ε β}
    {s s' : ByteSource} {a : α} {w : List Bytes} (h : p.Yields s a w s') :
    ((p.bind f).eval s).written = w ++ ((f a).eval s').written := by
  rw [eval_bind, h]

/-- Rounds of the encoder that succeed are followed by the decoder. -/
theorem InStep.follow {codecs : Codecs} (hcodecs : codecs.Lossless) {pool : WorkerPool}
    {options : EncodeOptions} (decodeOptions : DecodeOptions) (rounds : ℕ) {e e' : EncoderState}
    {d : DecoderState} {stream rest : List Bytes} (h : InStep e d stream)
    (hregular : Regular (stream ++ rest)) (hrounds : rest.length ≤ rounds)
    {src src' : ByteSource} {written : List Bytes}
    (hencode : (encodeLoop codecs pool options rounds rest e).Yields src e' written src') :
    ∃ d', InStep e' d' (stream ++ rest) ∧ e.stats.segments ≤ e'.stats.segments ∧
      ∀ (more : ℕ) (tail : Bytes) (fault : Option IoError) (sawEnd : Bool),
        ((decodeLoop codecs decodeOptions.lifted (more + (e'.stats.segments - e.stats.segments)) d).eval
          ⟨written.flatten ++ tail, fault, sawEnd⟩).written =
        (packSegments rounds rest).map List.flatten ++
          ((decodeLoop codecs decodeOptions.lifted more d').eval ⟨tail, fault, sawEnd⟩).written := by
  induction rounds generalizing e d stream rest src written with
  | zero =>
      obtain rfl : rest = [] := List.eq_nil_of_length_eq_zero (by omega)
      obtain ⟨rfl, rfl, -⟩ := ret_inv hencode
      refine ⟨d, by simpa using h, le_rfl, fun more tail fault sawEnd => ?_⟩
      simp [packSegments]
  | succ rounds ih =>
      rcases rest with _ | ⟨first, rest⟩
      · obtain ⟨rfl, rfl, -⟩ := ret_inv hencode
        refine ⟨d, by simpa using h, le_rfl, fun more tail fault sawEnd => ?_⟩
        simp [packSegments]
      · have hfirst : first.length ≤ maxSegmentSize :=
          (hregular.fits first (by simp)).short.trans (by decide)
        obtain ⟨taken, left, rfl, hfill, hle, -⟩ := fillSegment_spec [first] first.length rest hfirst
        have hsplit : first :: (taken ++ left) = (first :: taken) ++ left := rfl
        have htotal : first.length + total taken = total (first :: taken) := (total_cons _ _).symm
        rw [encodeLoop, hfill] at hencode
        rw [htotal] at hfill hle hencode
        rw [hsplit, ← List.append_assoc] at hregular ⊢
        obtain ⟨e₁, w₁, _, w₂, hsegment, hloop, rfl⟩ := hencode.bind_inv
        obtain ⟨dedup, records, hlength, -, hsucceeds, hpair⟩ :=
          h.step hcodecs (by simp) hregular.left hle
        obtain ⟨hroom, hinput⟩ := hsucceeds pool options src e₁ hsegment.result
        obtain ⟨d₁, h₁, hencodes, hdecodes⟩ := hpair hroom
        obtain ⟨hresult, rfl, -⟩ := IoRun.mk.inj ((hencodes pool options src hinput).symm.trans hsegment)
        obtain rfl := Except.ok.inj hresult
        have hfewer : left.length ≤ rounds := by
          simp only [List.length_cons, List.length_append] at hrounds
          omega
        obtain ⟨d₂, h₂, hgrow, hfollow⟩ := ih h₁ hregular hfewer hloop
        have hgrow' : e.stats.segments + 1 ≤ e'.stats.segments := hgrow
        refine ⟨d₂, h₂, by omega, fun more tail fault sawEnd => ?_⟩
        have hcount : more + (e'.stats.segments - e.stats.segments) =
            more + (e'.stats.segments - (e.stats.segments + 1)) + 1 := by omega
        obtain ⟨-, hsegments, hrecords, horiginal, hencoded⟩ := hroom
        have hallows : decodeOptions.lifted.Allows (e.stats.segments + 1)
            (e.stats.records + records.length) (e.stats.originalBytes + total (first :: taken))
            (e.encodedBytes + (segmentOverhead records.length + payloadTotal records)) := by
          refine decodeOptions.lifted_allows hsegments ?_ horiginal hencoded ?_
          · rw [hlength]
            exact hrecords
          · unfold segmentOverhead
            omega
        rw [hcount, decodeLoop, List.flatten_append, List.append_assoc, ← hsplit, packSegments, hfill]
        rw [bind_eq, written_bind_of_yields (hdecodes _ hallows _ fault sawEnd)]
        dsimp only
        rw [List.map_cons, List.cons_append, List.singleton_append]
        congr 1
        exact hfollow more tail fault sawEnd

/-- The decoder on a whole stream that was encoded. -/
theorem decode_lifted_written {codecs : Codecs} (hcodecs : codecs.Lossless)
    {build : ℕ → Option WorkerPool} {options : EncodeOptions} {input : Reads} {src src' : ByteSource}
    {stats : StreamStats} {fields : List Bytes}
    (h : (encode codecs build options input).Yields src stats fields src')
    (decodeOptions : DecodeOptions) :
    ((decodeWithOptions codecs decodeOptions.lifted).eval ⟨fields.flatten, none, false⟩).written =
      segmentContents input.data := by
  have hfit := countersFit_encode h
  unfold encode at h
  obtain ⟨-, h⟩ := require_bind_inv h
  rcases hbuild : build options.threads with _ | pool
  · rw [hbuild] at h
    cases h.result
  · rw [hbuild, GearChunker.drain_eq] at h
    obtain ⟨_, hloop, rfl⟩ := (writeAll_yields _ _).bind_inv_of h
    obtain ⟨e, w₁, _, w₂, hsegments, hfooter, rfl⟩ := hloop.bind_inv
    obtain ⟨_, htotal, rfl⟩ := (writeAll_yields _ _).bind_inv_of hfooter
    obtain ⟨hencoded, htotal⟩ := checkedAdd_bind_inv htotal
    obtain ⟨rfl, rfl, -⟩ := ret_inv htotal
    obtain ⟨d, hstep, -, hfollow⟩ := InStep.follow hcodecs decodeOptions _ inStep_initial
      (by simpa using chunks_regular input.data) le_rfl hsegments
    have hsegmentCount : e.stats.segments < 2 ^ 32 := hfit.segments
    have hfooterRun := @decodeLoop_footer codecs decodeOptions.lifted d
      (by
        rw [hstep.stats]
        exact hencoded.le.trans (Nat.le_add_left _ _))
      (by rw [hstep.stats]; exact hencoded) (by rw [hstep.stats]; exact hfit.segments)
      (by rw [hstep.stats]; exact hfit.originalBytes) (by rw [hstep.stats]; exact hfit.records)
      (decodeOptions.lifted.maxSegments - e.stats.segments)
    have hrounds : decodeOptions.lifted.maxSegments - e.stats.segments + 1 +
        (e.stats.segments - EncoderState.initial.stats.segments) =
          decodeOptions.lifted.maxSegments + 1 := by
      have hmax : 2 ^ 32 ≤ decodeOptions.lifted.maxSegments := Nat.le_add_left _ _
      change _ + 1 + (e.stats.segments - 0) = _
      omega
    have hwhole := hfollow (decodeOptions.lifted.maxSegments - e.stats.segments + 1)
      (footerFields e.stats (sha256 e.hashed)).flatten none false
    have hfooterFields : footerFields e.stats (sha256 e.hashed) =
        footerFields d.stats (sha256 d.hashed) := by
      rw [hstep.encoder_hash, hstep.decoder_hash, hstep.stats]
      rfl
    rw [hrounds, hfooterFields, hfooterRun.written, List.append_nil] at hwhole
    have hparts : (headerFields ++ (w₁ ++ (footerFields e.stats (sha256 e.hashed) ++ []))).flatten =
        headerFields.flatten ++ (w₁.flatten ++ (footerFields d.stats (sha256 d.hashed)).flatten) := by
      rw [hfooterFields]
      simp
    rw [hparts]
    unfold decodeWithOptions
    have hvalid : (validateDecodeOptions decodeOptions.lifted).Yields
        ⟨headerFields.flatten ++ (w₁.flatten ++ (footerFields d.stats (sha256 d.hashed)).flatten),
          none, false⟩ () [] _ := yields_require decodeOptions.lifted_valid _ _
    rw [bind_eq, written_bind_of_yields hvalid, List.nil_append, bind_eq,
      written_bind_of_yields (readExactFormat_yields (by decide) _ _ _ _), List.nil_append, bind_eq,
      written_bind_of_yields (yields_require header_valid _ _), List.nil_append, hwhole]
    rfl

/-- Under any options, and on the stream or a part of it that ends in a fault,
the decoder writes segments of the input from the first one on. -/
theorem decode_written_prefix {codecs : Codecs} (hcodecs : codecs.Lossless)
    {build : ℕ → Option WorkerPool} {options : EncodeOptions} {input : Reads} {src src' : ByteSource}
    {stats : StreamStats} {fields : List Bytes}
    (h : (encode codecs build options input).Yields src stats fields src')
    (decodeOptions : DecodeOptions) {t : ByteSource}
    (ht : t = ⟨fields.flatten, none, false⟩ ∨
      (t.bytes <+: fields.flatten ∧ t.fault.isSome)) :
    ((decodeWithOptions codecs decodeOptions).eval t).written <+: segmentContents input.data := by
  have hwhole : ((decodeWithOptions codecs decodeOptions).eval
      ⟨fields.flatten, none, false⟩).written <+: segmentContents input.data := by
    rw [← decode_lifted_written hcodecs h decodeOptions]
    exact decodeWithOptions_rounds codecs decodeOptions _
  rcases ht with rfl | ⟨hbytes, hfault⟩
  · exact hwhole
  · obtain ⟨fault, hfault⟩ := Option.isSome_iff_exists.mp hfault
    rcases @eval_truncated _ _ (decodeWithOptions codecs decodeOptions)
      ⟨fields.flatten, none, false⟩ t fault hbytes hfault with ⟨-, hprefix⟩ | ⟨-, hsame⟩
    · exact hprefix.trans hwhole
    · rw [hsame]
      exact hwhole

/-- A decoder that is given no bytes writes nothing. -/
theorem decodeWithOptions_empty (codecs : Codecs) (options : DecodeOptions) {s : ByteSource}
    (h : s.bytes = []) : ((decodeWithOptions codecs options).eval s).written = [] := by
  unfold decodeWithOptions
  by_cases hvalid : options.Valid
  · have hchecked : (validateDecodeOptions options).Yields s () [] s := yields_require hvalid _ _
    have hshort : s.bytes.length < headerSize := by
      rw [h]
      decide
    rw [bind_eq, written_bind_of_yields hchecked, List.nil_append, bind_eq, eval_bind,
      readExactFormat, eval_readExact_short headerSize _ ret hshort]
  · have hrejected : (validateDecodeOptions options).Fails s _ [] := fails_require hvalid _ _
    exact hrejected.bind.2

end MosaicArchive.Core
