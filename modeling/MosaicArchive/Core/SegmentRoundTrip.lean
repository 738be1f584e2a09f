import MosaicArchive.Core.DedupWindow
import MosaicArchive.Core.Encode
import MosaicArchive.Core.Decode

/-!
One segment, written and read back. `Describes` is what both sides share: a
record stands for a chunk that follows a stream of chunks. The encoder writes
records that do, and the decoder restores the chunks of any that do.
-/

namespace MosaicArchive.Core

open FixedWidth Sha256 Gear IoProgram

/-! ### Records -/

/-- A chunk as the chunker delivers it. -/
structure Fits (chunk : Bytes) : Prop where
  nonempty : chunk ≠ []
  short : chunk.length ≤ maxChunkSize

theorem Fits.length_pos {chunk : Bytes} (h : Fits chunk) : 0 < chunk.length :=
  List.length_pos_iff.mpr h.nonempty

theorem Fits.mod_length {chunk : Bytes} (h : Fits chunk) :
    chunk.length % 2 ^ 32 = chunk.length := by
  have := h.short
  unfold maxChunkSize at this
  omega

/-- The record stands for the chunk, after the chunks of the stream. -/
inductive Describes (codecs : Codecs) (stream : List Bytes) (chunk : Bytes) :
    EncodedRecord → Prop where
  | data (codec : Codec) (payload : Bytes) (h : DecodesTo codecs codec payload chunk) :
      Describes codecs stream chunk (.data codec chunk.length payload)
  | reference (before after : List Bytes) (hstream : stream = before ++ chunk :: after)
      (hnear : total (chunk :: after) ≤ dedupWindowSize) :
      Describes codecs stream chunk (.reference chunk.length (total (chunk :: after)))

/-- The records stand for the chunks, one after another. -/
inductive DescribesAll (codecs : Codecs) :
    List Bytes → List Bytes → List EncodedRecord → Prop where
  | nil (stream : List Bytes) : DescribesAll codecs stream [] []
  | cons {stream chunks : List Bytes} {chunk : Bytes} {record : EncodedRecord}
      {records : List EncodedRecord} (h : Describes codecs stream chunk record)
      (rest : DescribesAll codecs (stream ++ [chunk]) chunks records) :
      DescribesAll codecs stream (chunk :: chunks) (record :: records)

theorem DescribesAll.length_eq {codecs : Codecs} {stream chunks : List Bytes}
    {records : List EncodedRecord} (h : DescribesAll codecs stream chunks records) :
    records.length = chunks.length := by
  induction h with
  | nil => rfl
  | cons _ _ ih => simp [ih]

theorem DescribesAll.payload_le {codecs : Codecs} {stream chunks : List Bytes}
    {records : List EncodedRecord} (h : DescribesAll codecs stream chunks records) :
    (records.map fun record => record.payload.length).sum ≤ total chunks := by
  induction h with
  | nil => simp
  | cons h rest ih =>
      simp only [List.map_cons, List.sum_cons, total_cons]
      cases h with
      | data codec payload h =>
          have := h.short
          simp only [EncodedRecord.payload_data]
          omega
      | reference before after hstream hnear =>
          simp only [EncodedRecord.payload_reference, List.length_nil]
          omega

/-- A prepared record is encoded to a record that stands for the same chunk. -/
theorem encodeRecord_describes {codecs : Codecs} (hcodecs : codecs.Lossless)
    {stream : List Bytes} {chunk : Bytes} (hchunk : Fits chunk) {prepared : PreparedRecord}
    (h : Prepares stream chunk prepared) :
    ∃ record, encodeRecord codecs prepared = .ok record ∧ Describes codecs stream chunk record := by
  cases h with
  | data =>
      obtain ⟨codec, payload, hcompress, hdecodes⟩ :=
        compressForLane_decodesTo hcodecs hchunk.nonempty
      refine ⟨.data codec chunk.length payload, ?_, .data codec payload hdecodes⟩
      rw [encodeRecord, hcompress]
      simp only [hchunk.mod_length]
  | reference before after hstream hnear =>
      refine ⟨.reference chunk.length (total (chunk :: after)), ?_,
        .reference before after hstream hnear⟩
      rw [encodeRecord, hchunk.mod_length]

/-- The chunks of a segment go through the window and the codecs. -/
theorem prepareAll_describes {codecs : Codecs} (hcodecs : codecs.Lossless)
    {w : DedupWindow} {stream : List Bytes} (hw : w.Tracks stream)
    (hstream : ∀ c ∈ stream, c ≠ []) {chunks : List Bytes} (hchunks : ∀ c ∈ chunks, Fits c) :
    ∃ w' prepared records, prepareAll w (total stream) chunks =
        (w', total (stream ++ chunks), prepared) ∧
      w'.Tracks (stream ++ chunks) ∧
      List.Forall₂ (fun p r => encodeRecord codecs p = .ok r) prepared records ∧
      DescribesAll codecs stream chunks records := by
  induction chunks generalizing w stream with
  | nil => exact ⟨w, [], [], by simp [prepareAll], by simpa using hw, .nil, .nil stream⟩
  | cons chunk rest ih =>
      have hchunk := hchunks chunk (by simp)
      obtain ⟨htracks, hprepares⟩ := DedupWindow.prepare_spec hw hstream chunk
      obtain ⟨record, hrecord, hdescribes⟩ := encodeRecord_describes hcodecs hchunk hprepares
      have hrawLen : (w.prepare chunk (total stream)).2.rawLen = chunk.length := by
        generalize (w.prepare chunk (total stream)).2 = prepared at hprepares
        cases hprepares <;> exact hchunk.mod_length
      obtain ⟨w', prepared, records, hall, htracks', hforall, hdescribesAll⟩ :=
        ih htracks (by simpa [or_imp, forall_and] using ⟨hstream, hchunk.nonempty⟩)
          fun c hc => hchunks c (List.mem_cons_of_mem _ hc)
      have hoffset : total stream + chunk.length = total (stream ++ [chunk]) := by simp
      refine ⟨w', _ :: prepared, record :: records, ?_, by simpa using htracks',
        .cons hrecord hforall, .cons hdescribes hdescribesAll⟩
      simp only [prepareAll, hrawLen, hoffset, hall, List.append_assoc, List.singleton_append]

/-! ### The record table -/

/-- The descriptor the decoder reads for a record. -/
def EncodedRecord.toDescriptor : EncodedRecord → Descriptor
  | data codec rawLen payload =>
      { kind := 0, codec := codec, rawLen := rawLen, value := payload.length }
  | reference rawLen distance => { kind := 1, codec := .raw, rawLen := rawLen, value := distance }

theorem parseDescriptor_fields (kind codecByte : UInt8) (codec : Codec) (rawLen value : ℕ)
    (hraw : rawLen < 2 ^ 32) (hvalue : value < 2 ^ 64) (hcodec : Codec.parse codecByte = .ok codec)
    (hrawLen : 0 < rawLen ∧ rawLen ≤ maxChunkSize)
    (hkind : kind = 0 ∧ 0 < value ∧ value ≤ rawLen ∨
      kind = 1 ∧ codec = .raw ∧ 0 < value ∧ value ≤ dedupWindowSize) :
    parseDescriptor ([kind, codecByte, 0, 0] ++ (u32Bytes rawLen ++ (u64Bytes value ++ []))) =
      .ok { kind := kind, codec := codec, rawLen := rawLen, value := value } := by
  rw [List.append_nil]
  have hreserved : slice ([kind, codecByte, 0, 0] ++ (u32Bytes rawLen ++ u64Bytes value)) 2 4 =
      [0, 0] := by
    rw [slice_append_left (by simp)]
    rfl
  have hrawField : slice ([kind, codecByte, 0, 0] ++ (u32Bytes rawLen ++ u64Bytes value)) 4 8 =
      u32Bytes rawLen := by
    rw [slice_append_right (by simp), slice_append_left (by simp)]
    exact slice_full (by simp)
  have hvalueField : slice ([kind, codecByte, 0, 0] ++ (u32Bytes rawLen ++ u64Bytes value)) 8 16 =
      u64Bytes value := by
    rw [slice_append_right (by simp), slice_append_right (by simp)]
    exact slice_full (by simp)
  obtain ⟨hpos, hmax⟩ := hrawLen
  rw [parseDescriptor, hreserved, hrawField, hvalueField, parseU32_u32Bytes hraw,
    parseU64_u64Bytes hvalue]
  simp only [List.cons_append, List.getD_cons_succ, List.getD_cons_zero, hcodec]
  rw [if_neg (by simp), if_neg (by omega)]
  rcases hkind with ⟨rfl, hvaluePos, hvalueLe⟩ | ⟨rfl, rfl, hvaluePos, hvalueLe⟩
  · rw [if_pos rfl, if_neg (by omega)]
  · rw [if_neg (by decide), if_pos rfl, if_neg (by simp; omega)]

theorem parseDescriptor_descriptor {codecs : Codecs} {stream : List Bytes} {chunk : Bytes}
    {record : EncodedRecord} (hchunk : Fits chunk) (h : Describes codecs stream chunk record) :
    parseDescriptor record.descriptor = .ok record.toDescriptor := by
  have hpos := hchunk.length_pos
  have hshort := hchunk.short
  have hsmall : chunk.length < 2 ^ 32 := by
    unfold maxChunkSize at hshort
    omega
  cases h with
  | data codec payload h =>
      have hpayload : 0 < payload.length := List.length_pos_iff.mpr h.nonempty
      have hle := h.short
      exact parseDescriptor_fields 0 codec.toByte codec chunk.length payload.length hsmall
        (by omega) codec.parse_toByte ⟨hpos, hshort⟩ (.inl ⟨rfl, hpayload, hle⟩)
  | reference before after hstream hnear =>
      have htotal : 0 < total (chunk :: after) := by
        rw [total_cons]
        omega
      exact parseDescriptor_fields 1 0 .raw chunk.length (total (chunk :: after)) hsmall
        (by unfold dedupWindowSize at hnear; omega) rfl ⟨hpos, hshort⟩
        (.inr ⟨rfl, rfl, htotal, hnear⟩)

theorem chunksExact_flatten {size : ℕ} {pieces : List Bytes} (h : ∀ b ∈ pieces, b.length = size) :
    chunksExact size pieces.length pieces.flatten = pieces := by
  induction pieces with
  | nil => rfl
  | cons piece rest ih =>
      have hpiece := h piece (by simp)
      subst hpiece
      rw [List.length_cons, List.flatten_cons, chunksExact, List.take_left, List.drop_left,
        ih fun b hb => h b (List.mem_cons_of_mem _ hb)]

/-- The record table is read back with the right totals. -/
theorem parseDescriptors_describes {codecs : Codecs} {stream chunks : List Bytes}
    {records : List EncodedRecord} (hchunks : ∀ c ∈ chunks, Fits c)
    (h : DescribesAll codecs stream chunks records) :
    parseDescriptors (records.map EncodedRecord.descriptor) =
      .ok (records.map EncodedRecord.toDescriptor, total chunks,
        (records.map fun record => record.payload.length).sum) := by
  induction h with
  | nil => rfl
  | cons h rest ih =>
      rename_i stream chunks chunk record records
      have hrawLen : record.toDescriptor.rawLen = chunk.length := by cases h <;> rfl
      have hpayload : record.toDescriptor.payloadLen = record.payload.length := by cases h <;> rfl
      rw [List.map_cons, parseDescriptors, parseDescriptor_descriptor (hchunks _ (by simp)) h,
        ih fun c hc => hchunks c (List.mem_cons_of_mem _ hc)]
      simp [hrawLen, hpayload]

/-! ### Segments -/

/-- The payload bytes of some records. -/
def payloadTotal (records : List EncodedRecord) : ℕ :=
  (records.map fun record => record.payload.length).sum

/-- The bytes of a segment besides its payloads. -/
def segmentOverhead (records : ℕ) : ℕ := 4 + segmentHeaderRest + records * recordSize

/-- The writes of a segment. -/
def segmentWrites (index : ℕ) (chunks : List Bytes) (records : List EncodedRecord) : List Bytes :=
  segmentFields index (total chunks) records.length (payloadTotal records) (sha256 chunks.flatten) ++
    (records.flatMap EncodedRecord.descriptorFields ++ payloadFields records)

theorem payloadFields_flatten (records : List EncodedRecord) :
    (payloadFields records).flatten = (records.map EncodedRecord.payload).flatten := by
  induction records with
  | nil => rfl
  | cons record rest ih => cases record <;> simp [payloadFields, ih]

theorem descriptorFields_flatten (records : List EncodedRecord) :
    (records.flatMap EncodedRecord.descriptorFields).flatten =
      (records.map EncodedRecord.descriptor).flatten := by
  induction records with
  | nil => rfl
  | cons record rest ih => simp [ih, EncodedRecord.descriptor]

theorem payloadTotal_eq (records : List EncodedRecord) :
    payloadTotal records = ((records.map EncodedRecord.payload).flatten).length := by
  rw [List.length_flatten, List.map_map]
  rfl

theorem descriptors_length (records : List EncodedRecord) :
    ((records.map EncodedRecord.descriptor).flatten).length = records.length * recordSize := by
  induction records with
  | nil => simp
  | cons record rest ih => simp [ih, Nat.succ_mul, Nat.add_comm]

theorem segmentWrites_length (index : ℕ) (chunks : List Bytes) (records : List EncodedRecord) :
    (segmentWrites index chunks records).flatten.length =
      segmentOverhead records.length + payloadTotal records := by
  have htag : segmentTag.length = 4 := rfl
  simp only [segmentWrites, segmentFields, List.flatten_append, List.length_append,
    descriptorFields_flatten, descriptors_length, payloadFields_flatten, ← payloadTotal_eq,
    List.flatten_cons, List.flatten_nil, u32Bytes_length, sha256_length, htag, segmentOverhead,
    segmentHeaderRest, List.length_nil]
  omega

/-- The counters after a segment with the given records. -/
def StreamStats.afterSegment (stats : StreamStats) (chunks : List Bytes)
    (records : List EncodedRecord) : StreamStats :=
  { records.foldl EncodedRecord.count stats with
    segments := stats.segments + 1, records := stats.records + records.length,
    originalBytes := stats.originalBytes + total chunks }

def EncoderState.afterSegment (s : EncoderState) (dedup : DedupWindow) (originalOffset : ℕ)
    (chunks : List Bytes) (records : List EncodedRecord) : EncoderState where
  encodedBytes := s.encodedBytes + (segmentOverhead records.length + payloadTotal records)
  stats := s.stats.afterSegment chunks records
  hashed := s.hashed ++ chunks.flatten
  dedup := dedup
  originalOffset := originalOffset

/-- A segment of the records keeps the counters of the encoder in range. -/
structure EncoderState.Room (s : EncoderState) (chunks : List Bytes)
    (records : List EncodedRecord) : Prop where
  few : chunks.length ≤ maxRecordsPerSegment
  segments : s.stats.segments + 1 < 2 ^ 32
  counted : s.stats.records + chunks.length < 2 ^ 64
  original : s.stats.originalBytes + total chunks < 2 ^ 64
  encoded : s.encodedBytes + (segmentOverhead records.length + payloadTotal records) < 2 ^ 64

/-- A segment is written, by any pool, as records that stand for its chunks;
nothing but the counters and the input limit can stop it. -/
theorem encodeSegment_spec {codecs : Codecs} (hcodecs : codecs.Lossless) {s : EncoderState}
    {stream chunks : List Bytes} (htracks : s.dedup.Tracks stream)
    (hoffset : s.originalOffset = total stream) (hstream : ∀ c ∈ stream, c ≠ [])
    (hchunks : ∀ c ∈ chunks, Fits c) :
    ∃ dedup records, dedup.Tracks (stream ++ chunks) ∧ DescribesAll codecs stream chunks records ∧
      ∀ (pool : WorkerPool) (options : EncodeOptions) (src : ByteSource),
        (s.Room chunks records → s.stats.originalBytes + total chunks ≤ options.maxInputBytes →
          (encodeSegment codecs pool options s chunks (total chunks)).Yields src
            (s.afterSegment dedup (total (stream ++ chunks)) chunks records)
            (segmentWrites s.stats.segments chunks records) src) ∧
        ∀ s', ((encodeSegment codecs pool options s chunks (total chunks)).eval src).result =
            .ok s' →
          s.Room chunks records ∧ s.stats.originalBytes + total chunks ≤ options.maxInputBytes := by
  obtain ⟨dedup, prepared, records, hprepare, htracks, hencode, hdescribes⟩ :=
    prepareAll_describes hcodecs htracks hstream hchunks
  have hlength := hdescribes.length_eq
  have hsum : ∀ n, n + (4 + segmentHeaderRest + records.length * recordSize +
      (records.map fun record => record.payload.length).sum) =
        n + (segmentOverhead records.length + payloadTotal records) := fun n => rfl
  rw [← hoffset] at hprepare
  refine ⟨dedup, records, htracks, hdescribes, fun pool options src => ⟨?_, ?_⟩⟩
  · intro hroom hinput
    unfold encodeSegment
    simp only [hprepare]
    refine (yields_require hroom.few _ _).bind_silent ?_
    refine (yields_ofExcept (pool.tryCollect_ok hencode) _).bind_silent ?_
    refine (checkedAdd_yields hroom.segments _ _).bind_silent ?_
    refine (checkedAdd_yields (by rw [hlength]; exact hroom.counted) _ _).bind_silent ?_
    refine (checkedAdd_yields hroom.original _ _).bind_silent ?_
    refine (yields_require hinput _ _).bind_silent ?_
    refine (checkedAdd_yields (by rw [hsum]; exact hroom.encoded) _ _).bind_silent ?_
    have hwrites : segmentWrites s.stats.segments chunks records =
        segmentFields s.stats.segments (total chunks) records.length (payloadTotal records)
            (sha256 chunks.flatten) ++
          (records.flatMap EncodedRecord.descriptorFields ++ (payloadFields records ++ [])) := by
      rw [List.append_nil, segmentWrites]
    rw [hwrites]
    refine (writeAll_yields _ _).bind ?_
    refine (writeAll_yields _ _).bind ?_
    refine (writeAll_yields _ _).bind ?_
    exact yields_ret _ _
  · -- every check of a run that succeeded was met
    have hchecks : (encodeSegment codecs pool options s chunks (total chunks)).Settles src
        fun result _ _ => ∀ s', result = .ok s' →
          s.Room chunks records ∧ s.stats.originalBytes + total chunks ≤ options.maxInputBytes := by
      have hfail : ∀ (e : Error) (_ : ByteSource) (s' : EncoderState),
          Except.error e = Except.ok s' → s.Room chunks records ∧
            s.stats.originalBytes + total chunks ≤ options.maxInputBytes := by
        intro e _ s' h
        cases h
      unfold encodeSegment
      simp only [hprepare]
      refine settles_require_bind (hfail _) fun hfew => ?_
      refine settles_ofExcept_bind hfail fun records' hrecords' => ?_
      obtain rfl : records = records' :=
        Except.ok.inj ((pool.tryCollect_ok hencode).symm.trans hrecords')
      refine settles_checkedAdd_bind hfail fun hsegments => ?_
      refine settles_checkedAdd_bind hfail fun hrecords => ?_
      refine settles_checkedAdd_bind hfail fun horiginal => ?_
      refine settles_require_bind (hfail _) fun hinput => ?_
      refine settles_checkedAdd_bind hfail fun hencoded => ?_
      rw [hlength] at hrecords
      rw [hsum] at hencoded
      exact fun _ _ => ⟨⟨hfew, hsegments, hrecords, horiginal, hencoded⟩, hinput⟩
    exact hchecks

/-! ### Decoding a segment -/

theorem EncodedRecord.count_eq (stats : StreamStats) (record : EncodedRecord) :
    record.count stats =
      if record.toDescriptor.kind = 0 then stats.countCodec record.toDescriptor.codec
      else stats.countDuplicate := by
  cases record with
  | data codec rawLen payload => cases codec <;> rfl
  | reference rawLen distance => rfl

/-- Counting records leaves the byte counter alone. -/
theorem foldl_count_encodedBytes (records : List EncodedRecord) (stats : StreamStats) (n : ℕ) :
    records.foldl EncodedRecord.count { stats with encodedBytes := n } =
      { records.foldl EncodedRecord.count stats with encodedBytes := n } := by
  induction records generalizing stats with
  | nil => rfl
  | cons record rest ih =>
      have hcount : record.count { stats with encodedBytes := n } =
          { record.count stats with encodedBytes := n } := by
        cases record with
        | data codec rawLen payload => cases codec <;> rfl
        | reference rawLen distance => rfl
      rw [List.foldl_cons, hcount, ih, List.foldl_cons]

/-- The decoder knows the chunks of the stream. -/
structure DecoderState.Knows (s : DecoderState) (stream : List Bytes) : Prop where
  holds : s.history.Holds stream
  offset : s.outputOffset = total stream

theorem decodeChunk_yields {codecs : Codecs} {s : DecoderState} {stream : List Bytes}
    (hs : s.Knows stream) (hstream : ∀ c ∈ stream, c ≠ []) {chunk : Bytes}
    {record : EncodedRecord} (h : Describes codecs stream chunk record) (rest : Bytes)
    (fault : Option IoError) (sawEnd : Bool) :
    (decodeChunk codecs s record.toDescriptor).Yields ⟨record.payload ++ rest, fault, sawEnd⟩
      (chunk, record.count s.stats) [] ⟨rest, fault, sawEnd⟩ := by
  rw [EncodedRecord.count_eq]
  cases h with
  | data codec payload h =>
      have hkind : (EncodedRecord.data codec chunk.length payload).toDescriptor.kind = 0 := rfl
      unfold decodeChunk
      rw [if_pos hkind, if_pos hkind]
      refine (yields_readExact _ rfl rest fault sawEnd).bind_silent ?_
      exact (yields_ofExcept h.decodes _).bind_silent (yields_ret _ _)
  | reference before after hsplit hnear =>
      have hle : total (chunk :: after) ≤ s.outputOffset := by
        rw [hs.offset, hsplit, total_append]
        omega
      have hresolve : s.history.resolve (s.outputOffset - total (chunk :: after)) chunk.length =
          .ok chunk := by
        rw [hs.offset, hsplit]
        exact DecodeHistory.resolve_spec (hsplit ▸ hs.holds) (hsplit ▸ hstream) hnear
      have hkind : ¬ (EncodedRecord.reference chunk.length
          (total (chunk :: after))).toDescriptor.kind = 0 := by
        show ¬ (1 : UInt8) = 0
        decide
      unfold decodeChunk
      rw [if_neg hkind, if_neg hkind]
      refine (yields_require hle _ _).bind_silent ?_
      exact (yields_ofExcept hresolve _).bind_silent (yields_ret _ _)

theorem decodeRecords_yields {codecs : Codecs} {stream chunks : List Bytes}
    {records : List EncodedRecord} (h : DescribesAll codecs stream chunks records)
    {s : DecoderState} (hs : s.Knows stream)
    (hlong : ∀ before chunk after, stream ++ chunks = before ++ chunk :: after → after ≠ [] →
      minChunkSize ≤ chunk.length)
    (hne : ∀ c ∈ stream ++ chunks, c ≠ []) (hoffset : total (stream ++ chunks) < 2 ^ 64) :
    ∃ s', s'.Knows (stream ++ chunks) ∧ s'.stats = records.foldl EncodedRecord.count s.stats ∧
      ∀ (segment rest : Bytes) (fault : Option IoError) (sawEnd : Bool),
        (decodeRecords codecs (records.map EncodedRecord.toDescriptor) segment s).Yields
          ⟨(records.map EncodedRecord.payload).flatten ++ rest, fault, sawEnd⟩
          (segment ++ chunks.flatten, s') [] ⟨rest, fault, sawEnd⟩ := by
  induction h generalizing s with
  | nil stream =>
      refine ⟨s, by simpa using hs, rfl, fun segment rest fault sawEnd => ?_⟩
      simp only [List.map_nil, List.flatten_nil, List.append_nil, List.nil_append]
      exact yields_ret _ _
  | cons h hrest ih =>
      rename_i stream chunks chunk record records
      have hstream : ∀ c ∈ stream, c ≠ [] := fun c hc => hne c (List.mem_append_left _ hc)
      have hmin : ∀ c ∈ stream, minChunkSize ≤ c.length := by
        intro c hc
        obtain ⟨before, after, rfl⟩ := List.append_of_mem hc
        exact hlong before c (after ++ chunk :: chunks) (by simp) (by simp)
      obtain ⟨history, hinsert, hholds⟩ := DecodeHistory.insert_spec hs.holds hmin chunk
      rw [← hs.offset] at hinsert
      have hassoc : stream ++ chunk :: chunks = stream ++ [chunk] ++ chunks := by simp
      have hnext : s.outputOffset + chunk.length = total (stream ++ [chunk]) := by
        simp [hs.offset]
      have hbound : s.outputOffset + chunk.length < 2 ^ 64 := by
        rw [hassoc, total_append (stream ++ [chunk]), ← hnext] at hoffset
        omega
      rw [hassoc] at hlong hne hoffset
      obtain ⟨s', hknows, hstats, hyields⟩ := ih
        (s := { s with
          stats := record.count s.stats, history := history
          outputOffset := s.outputOffset + chunk.length })
        ⟨hholds, hnext⟩ hlong hne hoffset
      refine ⟨s', by rw [hassoc]; exact hknows, by rw [hstats]; rfl,
        fun segment rest fault sawEnd => ?_⟩
      rw [List.map_cons, List.map_cons, List.flatten_cons, List.append_assoc, List.flatten_cons,
        ← List.append_assoc segment]
      refine (decodeChunk_yields hs hstream h _ fault sawEnd).bind_silent ?_
      refine (yields_ofExcept hinsert _).bind_silent ?_
      exact (checkedAdd_yields hbound _ _).bind_silent (hyields _ rest fault sawEnd)

/-- The header of a segment, without its tag. -/
def segmentHeaderBytes (index segmentSize records payloadLen : ℕ) (segmentHash : Bytes) : Bytes :=
  (segmentFields index segmentSize records payloadLen segmentHash).tail.flatten

theorem parseSegmentHeader_bytes {index segmentSize records payloadLen : ℕ} {segmentHash : Bytes}
    (hindex : index < 2 ^ 32) (hsize : segmentSize < 2 ^ 32) (hrecords : records * recordSize < 2 ^ 32)
    (hpayload : payloadLen < 2 ^ 32) (hhash : segmentHash.length = 32) :
    parseSegmentHeader (segmentHeaderBytes index segmentSize records payloadLen segmentHash) =
      { index := index, decodedLen := segmentSize, recordCount := records,
        descriptorLen := records * recordSize, payloadLen := payloadLen,
        expectedHash := segmentHash } := by
  have hcount : records < 2 ^ 32 := by
    unfold recordSize at hrecords
    omega
  let fields := (segmentFields index segmentSize records payloadLen segmentHash).tail
  have h₀ : slice fields.flatten 0 4 = u32Bytes index :=
    slice_field [] _ (fields.drop 1) rfl (by simp)
  have h₁ : slice fields.flatten 4 8 = u32Bytes segmentSize :=
    slice_field (fields.take 1) _ (fields.drop 2) (by simp [fields, segmentFields]) (by simp)
  have h₂ : slice fields.flatten 8 12 = u32Bytes records :=
    slice_field (fields.take 2) _ (fields.drop 3) (by simp [fields, segmentFields]) (by simp)
  have h₃ : slice fields.flatten 12 16 = u32Bytes (records * recordSize) :=
    slice_field (fields.take 3) _ (fields.drop 4) (by simp [fields, segmentFields]) (by simp)
  have h₄ : slice fields.flatten 16 20 = u32Bytes payloadLen :=
    slice_field (fields.take 4) _ (fields.drop 5) (by simp [fields, segmentFields]) (by simp)
  have h₅ : slice fields.flatten 20 52 = segmentHash :=
    slice_field (fields.take 5) _ [] (by simp [fields, segmentFields]) (by omega)
  change parseSegmentHeader fields.flatten = _
  rw [parseSegmentHeader, h₀, h₁, h₂, h₃, h₄, h₅, parseU32_u32Bytes hindex,
    parseU32_u32Bytes hsize, parseU32_u32Bytes hcount, parseU32_u32Bytes hrecords,
    parseU32_u32Bytes hpayload]

/-- The ceilings of the decoder are not met by a segment. -/
structure DecoderState.Room (s : DecoderState) (options : DecodeOptions) (chunks : List Bytes)
    (records : List EncodedRecord) : Prop where
  nonempty : 0 < total chunks
  size : total chunks ≤ maxSegmentSize
  few : chunks.length ≤ maxRecordsPerSegment
  segments_lt : s.stats.segments + 1 < 2 ^ 32
  records_lt : s.stats.records + chunks.length < 2 ^ 64
  original_lt : s.stats.originalBytes + total chunks < 2 ^ 64
  encoded_lt : s.stats.encodedBytes + (segmentOverhead records.length + payloadTotal records) <
    2 ^ 64
  allows : options.Allows (s.stats.segments + 1) (s.stats.records + records.length)
    (s.stats.originalBytes + total chunks)
    (s.stats.encodedBytes + (segmentOverhead records.length + payloadTotal records))

/-- The segment of the records is decoded under all options that leave room for
it; the state that follows does not depend on them. -/
theorem decodeRound_yields {codecs : Codecs} {s : DecoderState}
    {stream chunks : List Bytes} {records : List EncodedRecord} (hs : s.Knows stream)
    (h : DescribesAll codecs stream chunks records) (hchunks : ∀ c ∈ chunks, Fits c)
    (hlong : ∀ before chunk after, stream ++ chunks = before ++ chunk :: after → after ≠ [] →
      minChunkSize ≤ chunk.length)
    (hne : ∀ c ∈ stream ++ chunks, c ≠ []) (hoffset : total (stream ++ chunks) < 2 ^ 64) :
    ∃ s', s'.Knows (stream ++ chunks) ∧
      s'.stats = { s.stats.afterSegment chunks records with
        encodedBytes := s.stats.encodedBytes +
          (segmentOverhead records.length + payloadTotal records) } ∧
      s'.hashed = s.hashed ++ chunks.flatten ∧
      ∀ (options : DecodeOptions), s.Room options chunks records →
        ∀ (rest : Bytes) (fault : Option IoError) (sawEnd : Bool),
        (decodeRound codecs options s).Yields
          ⟨(segmentWrites s.stats.segments chunks records).flatten ++ rest, fault, sawEnd⟩
          (.inr s') [chunks.flatten] ⟨rest, fault, sawEnd⟩ := by
  have hlength := h.length_eq
  have hpayload : payloadTotal records ≤ total chunks := h.payload_le
  have hnext : s.stats.encodedBytes + 4 + segmentHeaderRest +
      (records.length * recordSize + payloadTotal records) =
        s.stats.encodedBytes + (segmentOverhead records.length + payloadTotal records) := by
    unfold segmentOverhead
    omega
  obtain ⟨s', hknows, hstats, hdecode⟩ := decodeRecords_yields h hs hlong hne hoffset
  refine ⟨{ s' with
      stats := { s'.stats with
        encodedBytes := s.stats.encodedBytes + 4 + segmentHeaderRest +
          (records.length * recordSize + payloadTotal records)
        originalBytes := s.stats.originalBytes + total chunks
        records := s.stats.records + records.length, segments := s.stats.segments + 1 }
      hashed := s.hashed ++ chunks.flatten },
    ⟨hknows.holds, hknows.offset⟩, by rw [hstats, ← hnext]; rfl, rfl,
    fun options hroom rest fault sawEnd => ?_⟩
  obtain ⟨hpos, hsize, hfew, hsegments, hrecords, horiginal, hencoded, hallows⟩ := hroom
  set header := segmentHeaderBytes s.stats.segments (total chunks) records.length
    (payloadTotal records) (sha256 chunks.flatten) with hheader
  have hbytes : (segmentWrites s.stats.segments chunks records).flatten ++ rest =
      segmentTag ++ (header ++ ((records.map EncodedRecord.descriptor).flatten ++
        ((records.map EncodedRecord.payload).flatten ++ rest))) := by
    simp only [segmentWrites, List.flatten_append, descriptorFields_flatten,
      payloadFields_flatten, hheader, segmentHeaderBytes, segmentFields, List.tail_cons,
      List.flatten_cons, List.append_assoc]
  have hheaderLen : header.length = segmentHeaderRest := by
    simp [hheader, segmentHeaderBytes, segmentFields, segmentHeaderRest]
  unfold maxSegmentSize maxRecordsPerSegment at *
  have hparse : parseSegmentHeader header =
      { index := s.stats.segments, decodedLen := total chunks, recordCount := records.length,
        descriptorLen := records.length * recordSize, payloadLen := payloadTotal records,
        expectedHash := sha256 chunks.flatten } :=
    parseSegmentHeader_bytes (by omega) (by omega) (by unfold recordSize; omega) (by omega)
      (by simp)
  have htable : parseDescriptors (chunksExact recordSize records.length
      (records.map EncodedRecord.descriptor).flatten) =
        .ok (records.map EncodedRecord.toDescriptor, total chunks, payloadTotal records) := by
    have hexact : chunksExact recordSize (records.map EncodedRecord.descriptor).length
        (records.map EncodedRecord.descriptor).flatten = records.map EncodedRecord.descriptor :=
      chunksExact_flatten (by simp)
    rw [List.length_map] at hexact
    rw [hexact]
    exact parseDescriptors_describes hchunks h
  have hbounds : (parseSegmentHeader header).InBounds s.stats.segments := by
    rw [hparse]
    refine ⟨rfl, ?_, ?_, ?_, ?_, rfl, hpayload⟩
    all_goals dsimp only
    · omega
    · unfold maxSegmentSize
      omega
    · rw [hlength]
      intro hzero
      rw [List.eq_nil_of_length_eq_zero hzero] at hpos
      simp at hpos
    · unfold maxRecordsPerSegment
      omega
  have hencodedLe := hallows.encoded
  rw [← hnext] at hallows hencoded hencodedLe
  rw [hbytes]
  unfold decodeRound
  refine (readExactFormat_yields (show segmentTag.length = 4 from rfl) _ _ _ _).bind_silent ?_
  refine (checkedAdd_yields (by omega) _ _).bind_silent ?_
  refine (yields_require (by omega) _ _).bind_silent ?_
  rw [if_neg (by decide)]
  refine (yields_require rfl _ _).bind_silent ?_
  refine Yields.bind_ret ?_
  unfold decodeSegment
  refine (readExactFormat_yields hheaderLen _ _ _ _).bind_silent ?_
  refine (checkedAdd_yields (by omega) _ _).bind_silent ?_
  refine (yields_require hbounds _ _).bind_silent ?_
  rw [hparse]
  refine (checkedAdd_yields hsegments _ _).bind_silent ?_
  refine (checkedAdd_yields (by rw [hlength]; exact hrecords) _ _).bind_silent ?_
  refine (checkedAdd_yields horiginal _ _).bind_silent ?_
  refine (checkedAdd_yields hencoded _ _).bind_silent ?_
  refine (yields_require hallows _ _).bind_silent ?_
  refine (readExactFormat_yields (descriptors_length records) _ _ _ _).bind_silent ?_
  refine (yields_ofExcept htable _).bind_silent ?_
  refine (yields_require ⟨rfl, rfl⟩ _ _).bind_silent ?_
  refine (hdecode [] rest fault sawEnd).bind_silent ?_
  refine (yields_require rfl _ _).bind_silent ?_
  exact yields_write _ (yields_ret _ _)

end MosaicArchive.Core
