import MosaicArchive.Bytes.ProgramRules
import MosaicArchive.Core.Codec
import MosaicArchive.Core.Dedup
import MosaicArchive.Core.WorkerPool

/-!
The encoder of the `M7R0` stream: chunks are packed into segments of at most
8 MiB, deduplicated in stream order, compressed by a pool of workers and
written as one segment after another, with a footer at the end.
-/

namespace MosaicArchive.Core

open FixedWidth Sha256 Gear IoProgram

inductive EncodedRecord where
  | data (codec : Codec) (rawLen : ℕ) (payload : Bytes)
  | reference (rawLen distance : ℕ)
  deriving DecidableEq

namespace EncodedRecord

def payload : EncodedRecord → Bytes
  | data _ _ payload => payload
  | reference _ _ => []

@[simp] theorem payload_data (codec : Codec) (rawLen : ℕ) (b : Bytes) :
    (data codec rawLen b).payload = b := rfl

@[simp] theorem payload_reference (rawLen distance : ℕ) :
    (reference rawLen distance).payload = [] := rfl

/-- The sixteen bytes of the record table. -/
def descriptorFields : EncodedRecord → List Bytes
  | data codec rawLen payload =>
      [[0, codec.toByte], [0, 0], u32Bytes rawLen, u64Bytes payload.length]
  | reference rawLen distance => [[1, 0, 0, 0], u32Bytes rawLen, u64Bytes distance]

def descriptor (record : EncodedRecord) : Bytes := record.descriptorFields.flatten

@[simp] theorem descriptor_length (record : EncodedRecord) :
    record.descriptor.length = recordSize := by
  cases record <;> simp [descriptor, descriptorFields, recordSize]

/-- The counter a record is counted by. -/
def count (stats : StreamStats) : EncodedRecord → StreamStats
  | data .raw _ _ => { stats with rawRecords := stats.rawRecords + 1 }
  | data .lzma2 _ _ => { stats with lzma2Records := stats.lzma2Records + 1 }
  | data .delta4Zstd _ _ => { stats with deltaZstdRecords := stats.deltaZstdRecords + 1 }
  | data .zstd _ _ => { stats with zstdRecords := stats.zstdRecords + 1 }
  | reference _ _ => { stats with deduplicatedRecords := stats.deduplicatedRecords + 1 }

end EncodedRecord

def encodeRecord (codecs : Codecs) : PreparedRecord → Except Error EncodedRecord
  | .data data =>
      match compressForLane codecs data (chooseLane data).1 (chooseLane data).2 with
      | .error error => .error error
      | .ok (codec, payload) => .ok (.data codec (data.length % 2 ^ 32) payload)
  | .reference rawLen distance => .ok (.reference rawLen distance)

/-- How far a prepared record moves the offset of the next chunk. -/
def PreparedRecord.rawLen : PreparedRecord → ℕ
  | .data chunk => chunk.length % 2 ^ 32
  | .reference rawLen _ => rawLen

/-- The chunks of a segment go through the window in order. -/
def prepareAll : DedupWindow → ℕ → List Bytes → DedupWindow × ℕ × List PreparedRecord
  | dedup, offset, [] => (dedup, offset, [])
  | dedup, offset, chunk :: rest =>
      let (dedup, record) := dedup.prepare chunk offset
      let (dedup, offset, records) := prepareAll dedup (offset + record.rawLen) rest
      (dedup, offset, record :: records)

/-- The inner loop that fills a segment: the chunks taken, their size, and the
chunks left; the first of these is the pending one. -/
def fillSegment : List Bytes → ℕ → List Bytes → List Bytes × ℕ × List Bytes
  | chunks, segmentSize, [] => (chunks, segmentSize, [])
  | chunks, segmentSize, chunk :: rest =>
      if segmentSize + chunk.length > maxSegmentSize then (chunks, segmentSize, chunk :: rest)
      else fillSegment (chunks ++ [chunk]) (segmentSize + chunk.length) rest

/-- The local variables of `encode`; `hashed` is what `original_hash` was fed. -/
structure EncoderState where
  encodedBytes : ℕ
  stats : StreamStats
  hashed : Bytes
  dedup : DedupWindow
  originalOffset : ℕ

def EncoderState.initial : EncoderState where
  encodedBytes := headerSize
  stats := .default
  hashed := []
  dedup := .new
  originalOffset := 0

/-- The calls of `write_all`, one after another. -/
def writeAll : List Bytes → IoProgram Error Unit
  | [] => .ret ()
  | b :: rest => .write b (writeAll rest)

theorem writeAll_yields (fields : List Bytes) (s : ByteSource) :
    (writeAll fields).Yields s () fields s := by
  induction fields with
  | nil => rfl
  | cons b rest ih => exact IoProgram.yields_write b ih

/-- The writes of `write_header`. -/
def headerFields : List Bytes :=
  [magic, u32Bytes headerSize, u32Bytes minChunkSize, u32Bytes avgChunkSize, u32Bytes maxChunkSize,
    u32Bytes maxSegmentSize, u32Bytes dedupWindowSize, u32Bytes 0]

/-- The writes before the record table of a segment. -/
def segmentFields (index segmentSize records payloadLen : ℕ) (segmentHash : Bytes) : List Bytes :=
  [segmentTag, u32Bytes index, u32Bytes segmentSize, u32Bytes records,
    u32Bytes (records * recordSize), u32Bytes payloadLen, segmentHash]

/-- The writes of the footer. -/
def footerFields (stats : StreamStats) (originalHash : Bytes) : List Bytes :=
  [footerTag, u32Bytes stats.segments, u64Bytes stats.originalBytes, u64Bytes stats.records,
    originalHash]

/-- The payloads that are written: one for every data record. -/
def payloadFields : List EncodedRecord → List Bytes
  | [] => []
  | .data _ _ payload :: rest => payload :: payloadFields rest
  | .reference _ _ :: rest => payloadFields rest

/-- One round of the outer loop. -/
def encodeSegment (codecs : Codecs) (pool : WorkerPool) (options : EncodeOptions)
    (s : EncoderState) (chunks : List Bytes) (segmentSize : ℕ) : IoProgram Error EncoderState := do
  .require (chunks.length ≤ maxRecordsPerSegment)
    (.codec "CDC produced too many records in one segment")
  let segmentHash := sha256 chunks.flatten
  let (dedup, originalOffset, prepared) := prepareAll s.dedup s.originalOffset chunks
  let records ← .ofExcept (pool.tryCollect (encodeRecord codecs) prepared)
  let payloadLen := (records.map fun record => record.payload.length).sum
  let nextSegments ← checkedAdd 32 s.stats.segments 1
    (.codec "segment count exceeds the wire limit")
  let nextRecords ← checkedAdd 64 s.stats.records records.length (.codec "record count overflows")
  let nextOriginalBytes ← checkedAdd 64 s.stats.originalBytes segmentSize
    (.codec "decoded byte count overflows")
  .require (nextOriginalBytes ≤ options.maxInputBytes)
    (.invalidOptions "encode input byte limit is exceeded")
  let segmentEncoded := 4 + segmentHeaderRest + records.length * recordSize + payloadLen
  let nextEncodedBytes ← checkedAdd 64 s.encodedBytes segmentEncoded
    (.codec "encoded byte count overflows")
  writeAll (segmentFields s.stats.segments segmentSize records.length payloadLen segmentHash)
  writeAll (records.flatMap EncodedRecord.descriptorFields)
  writeAll (payloadFields records)
  let counted := records.foldl EncodedRecord.count s.stats
  return {
    encodedBytes := nextEncodedBytes
    stats := { counted with
      segments := nextSegments, records := nextRecords, originalBytes := nextOriginalBytes }
    hashed := s.hashed ++ chunks.flatten
    dedup := dedup
    originalOffset := originalOffset }

/-- The outer loop over the chunks that `next_chunk` delivers. Every round
takes at least one of them. -/
def encodeLoop (codecs : Codecs) (pool : WorkerPool) (options : EncodeOptions) :
    ℕ → List Bytes → EncoderState → IoProgram Error EncoderState
  | 0, _, s => .ret s
  | _ + 1, [], s => .ret s
  | rounds + 1, first :: rest, s => do
      let (chunks, segmentSize, left) := fillSegment [first] first.length rest
      let s ← encodeSegment codecs pool options s chunks segmentSize
      encodeLoop codecs pool options rounds left s

/-- `encode`. The input is handed over as the reads its reader will deliver;
`build` makes the worker pool. -/
def encode (codecs : Codecs) (build : ℕ → Option WorkerPool) (options : EncodeOptions)
    (input : Reads) : IoProgram Error StreamStats := do
  validateEncodeOptions options
  match build options.threads with
  | none => .fail (.invalidOptions "could not construct worker pool")
  | some pool => do
      writeAll headerFields
      let chunks := GearChunker.drain input
      let s ← encodeLoop codecs pool options chunks.length chunks .initial
      writeAll (footerFields s.stats (sha256 s.hashed))
      let encodedBytes ← checkedAdd 64 s.encodedBytes (4 + footerRest)
        (.codec "encoded byte count overflows")
      return { s.stats with encodedBytes := encodedBytes }

/-- A run of the encoder: its result and the calls of `write_all`. -/
def encodeRun (codecs : Codecs) (build : ℕ → Option WorkerPool) (options : EncodeOptions)
    (input : Reads) : IoRun ByteSource Error StreamStats :=
  (encode codecs build options input).eval (.ofBytes [])

/-! ### The counters of a run that succeeded -/

/-- The counters of a core stream fit the fields of a footer. -/
structure CountersFit (core : StreamStats) : Prop where
  originalBytes : core.originalBytes < 2 ^ 64
  encodedBytes : core.encodedBytes < 2 ^ 64
  segments : core.segments < 2 ^ 32
  records : core.records < 2 ^ 64

/-- The counters of the encoder besides the bytes written. -/
structure StateFits (s : EncoderState) : Prop where
  originalBytes : s.stats.originalBytes < 2 ^ 64
  segments : s.stats.segments < 2 ^ 32
  records : s.stats.records < 2 ^ 64

theorem stateFits_encodeSegment {codecs : Codecs} {pool : WorkerPool} {options : EncodeOptions}
    {s s' : EncoderState} {chunks : List Bytes} {segmentSize : ℕ} {src src' : ByteSource}
    {written : List Bytes}
    (h : (encodeSegment codecs pool options s chunks segmentSize).Yields src s' written src') :
    StateFits s' := by
  unfold encodeSegment at h
  obtain ⟨-, h⟩ := require_bind_inv h
  generalize prepareAll s.dedup s.originalOffset chunks = prepared at h
  obtain ⟨dedup, offset, prepared⟩ := prepared
  obtain ⟨records, -, h⟩ := ofExcept_bind_inv h
  obtain ⟨hsegments, h⟩ := checkedAdd_bind_inv h
  obtain ⟨hrecords, h⟩ := checkedAdd_bind_inv h
  obtain ⟨horiginal, h⟩ := checkedAdd_bind_inv h
  obtain ⟨-, h⟩ := require_bind_inv h
  obtain ⟨-, h⟩ := checkedAdd_bind_inv h
  obtain ⟨_, hwrites, -⟩ := (writeAll_yields _ _).bind_inv_of h
  obtain ⟨_, hwrites, -⟩ := (writeAll_yields _ _).bind_inv_of hwrites
  obtain ⟨_, hwrites, -⟩ := (writeAll_yields _ _).bind_inv_of hwrites
  obtain ⟨rfl, -, -⟩ := ret_inv hwrites
  exact ⟨horiginal, hsegments, hrecords⟩

theorem stateFits_encodeLoop {codecs : Codecs} {pool : WorkerPool} {options : EncodeOptions}
    (rounds : ℕ) {s s' : EncoderState} (hs : StateFits s) {chunks : List Bytes}
    {src src' : ByteSource} {written : List Bytes}
    (h : (encodeLoop codecs pool options rounds chunks s).Yields src s' written src') :
    StateFits s' := by
  induction rounds generalizing s chunks src written with
  | zero =>
      obtain ⟨rfl, -, -⟩ := ret_inv h
      exact hs
  | succ rounds ih =>
      match chunks with
      | [] =>
          obtain ⟨rfl, -, -⟩ := ret_inv h
          exact hs
      | first :: rest =>
          rw [encodeLoop] at h
          generalize fillSegment [first] first.length rest = filled at h
          obtain ⟨taken, size, left⟩ := filled
          obtain ⟨s₁, _, _, _, hsegment, hloop, -⟩ := h.bind_inv
          exact ih (stateFits_encodeSegment hsegment) hloop

/-- The counters of any stream that was encoded fit a footer. -/
theorem countersFit_encode {codecs : Codecs} {build : ℕ → Option WorkerPool}
    {options : EncodeOptions} {input : Reads} {src src' : ByteSource} {stats : StreamStats}
    {written : List Bytes}
    (h : (encode codecs build options input).Yields src stats written src') :
    CountersFit stats := by
  have hinitial : StateFits .initial := by
    constructor <;> decide
  unfold encode at h
  obtain ⟨-, h⟩ := require_bind_inv h
  match hbuild : build options.threads with
  | none =>
      rw [hbuild] at h
      cases h.result
  | some pool =>
      rw [hbuild] at h
      obtain ⟨_, hloop, -⟩ := (writeAll_yields _ _).bind_inv_of h
      obtain ⟨s, _, _, _, hsegments, hfooter, -⟩ := hloop.bind_inv
      obtain ⟨_, htotal, -⟩ := (writeAll_yields _ _).bind_inv_of hfooter
      obtain ⟨hencoded, htotal⟩ := checkedAdd_bind_inv htotal
      obtain ⟨rfl, -, -⟩ := ret_inv htotal
      obtain ⟨horiginal, hcount, hrecords⟩ := stateFits_encodeLoop _ hinitial hsegments
      exact ⟨horiginal, hencoded, hcount, hrecords⟩

end MosaicArchive.Core
