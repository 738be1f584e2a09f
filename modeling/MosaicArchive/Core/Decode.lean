import MosaicArchive.Bytes.ProgramRules
import MosaicArchive.Core.Codec
import MosaicArchive.Core.Dedup

/-!
The decoder of the `M7R0` stream as a program over a reader and a writer. Each
round reads one segment, decodes its records against the history, checks the
digest and only then writes the segment.
-/

namespace MosaicArchive.Core

open FixedWidth Sha256 Gear

structure Descriptor where
  kind : UInt8
  codec : Codec
  rawLen : ℕ
  value : ℕ
  deriving DecidableEq

/-- `chunks_exact`: the first `count` pieces of `size` bytes. -/
def chunksExact (size : ℕ) : ℕ → Bytes → List Bytes
  | 0, _ => []
  | count + 1, b => b.take size :: chunksExact size count (b.drop size)

/-- One entry of the record table. -/
def parseDescriptor (bytes : Bytes) : Except Error Descriptor :=
  if slice bytes 2 4 ≠ [0, 0] then .error (.invalidFormat "record reserved bits are nonzero")
  else
    match Codec.parse (bytes.getD 1 0) with
    | .error error => .error error
    | .ok codec =>
        let kind := bytes.getD 0 0
        let rawLen := parseU32 (slice bytes 4 8)
        let value := parseU64 (slice bytes 8 16)
        if rawLen = 0 ∨ rawLen > maxChunkSize then
          .error (.invalidFormat "record decoded size is invalid")
        else if kind = 0 then
          if value = 0 ∨ value > rawLen then
            .error (.invalidFormat "record payload size is invalid")
          else .ok { kind := kind, codec := codec, rawLen := rawLen, value := value }
        else if kind = 1 then
          if codec ≠ .raw ∨ value = 0 ∨ value > dedupWindowSize then
            .error (.invalidFormat "dedup record is invalid")
          else .ok { kind := kind, codec := codec, rawLen := rawLen, value := value }
        else .error (.invalidFormat "record kind is unknown")

/-- The payload bytes that follow the table for a record. -/
def Descriptor.payloadLen (d : Descriptor) : ℕ := if d.kind = 0 then d.value else 0

/-- The loop over the record table: the descriptors and their two totals. No
sum can reach 2^64, since a table has at most 1024 entries of 256 KiB. -/
def parseDescriptors : List Bytes → Except Error (List Descriptor × ℕ × ℕ)
  | [] => .ok ([], 0, 0)
  | bytes :: rest =>
      match parseDescriptor bytes with
      | .error error => .error error
      | .ok d =>
          match parseDescriptors rest with
          | .error error => .error error
          | .ok (ds, rawTotal, payloadTotal) =>
              .ok (d :: ds, d.rawLen + rawTotal, d.payloadLen + payloadTotal)

/-- The local variables of `decode_with_options`; `hashed` is what
`stream_hash` was fed. -/
structure DecoderState where
  stats : StreamStats
  history : DecodeHistory
  hashed : Bytes
  outputOffset : ℕ

def DecoderState.initial : DecoderState where
  stats := { StreamStats.default with encodedBytes := headerSize }
  history := .new
  hashed := []
  outputOffset := 0

def StreamStats.countCodec (stats : StreamStats) : Codec → StreamStats
  | .raw => { stats with rawRecords := stats.rawRecords + 1 }
  | .lzma2 => { stats with lzma2Records := stats.lzma2Records + 1 }
  | .delta4Zstd => { stats with deltaZstdRecords := stats.deltaZstdRecords + 1 }
  | .zstd => { stats with zstdRecords := stats.zstdRecords + 1 }

def StreamStats.countDuplicate (stats : StreamStats) : StreamStats :=
  { stats with deduplicatedRecords := stats.deduplicatedRecords + 1 }

/-- The chunk a descriptor stands for, and the counters after it. -/
def decodeChunk (codecs : Codecs) (s : DecoderState) (d : Descriptor) :
    IoProgram Error (Bytes × StreamStats) :=
  if d.kind = 0 then do
    let payload ← readExactFormat d.value "record payload is truncated"
    let decoded ← .ofExcept (decodePayload codecs d.codec payload d.rawLen)
    return (decoded, s.stats.countCodec d.codec)
  else do
    .require (d.value ≤ s.outputOffset)
      (.invalidFormat "dedup reference points before the stream")
    let chunk ← .ofExcept (s.history.resolve (s.outputOffset - d.value) d.rawLen)
    return (chunk, s.stats.countDuplicate)

/-- The loop over the descriptors of a segment. -/
def decodeRecords (codecs : Codecs) :
    List Descriptor → Bytes → DecoderState → IoProgram Error (Bytes × DecoderState)
  | [], segment, s => .ret (segment, s)
  | d :: rest, segment, s => do
      let (chunk, stats) ← decodeChunk codecs s d
      let history ← .ofExcept (s.history.insert s.outputOffset chunk)
      let outputOffset ← checkedAdd 64 s.outputOffset chunk.length
        (.invalidFormat "decoded byte offset overflows")
      decodeRecords codecs rest (segment ++ chunk)
        { s with stats := stats, history := history, outputOffset := outputOffset }

/-- The fields of a segment header after the tag. -/
structure SegmentHeader where
  index : ℕ
  decodedLen : ℕ
  recordCount : ℕ
  descriptorLen : ℕ
  payloadLen : ℕ
  expectedHash : Bytes

def parseSegmentHeader (b : Bytes) : SegmentHeader where
  index := parseU32 (slice b 0 4)
  decodedLen := parseU32 (slice b 4 8)
  recordCount := parseU32 (slice b 8 12)
  descriptorLen := parseU32 (slice b 12 16)
  payloadLen := parseU32 (slice b 16 20)
  expectedHash := slice b 20 52

/-- The bounds a segment header must meet on its own. -/
structure SegmentHeader.InBounds (h : SegmentHeader) (segments : ℕ) : Prop where
  index : h.index = segments
  decoded_pos : h.decodedLen ≠ 0
  decoded_le : h.decodedLen ≤ maxSegmentSize
  records_pos : h.recordCount ≠ 0
  records_le : h.recordCount ≤ maxRecordsPerSegment
  table : h.descriptorLen = h.recordCount * recordSize
  payload_le : h.payloadLen ≤ h.decodedLen

instance (h : SegmentHeader) (segments : ℕ) : Decidable (h.InBounds segments) :=
  decidable_of_iff
    (h.index = segments ∧ h.decodedLen ≠ 0 ∧ h.decodedLen ≤ maxSegmentSize ∧ h.recordCount ≠ 0 ∧
      h.recordCount ≤ maxRecordsPerSegment ∧ h.descriptorLen = h.recordCount * recordSize ∧
      h.payloadLen ≤ h.decodedLen)
    ⟨fun ⟨a, b, c, d, e, f, g⟩ => ⟨a, b, c, d, e, f, g⟩,
      fun ⟨a, b, c, d, e, f, g⟩ => ⟨a, b, c, d, e, f, g⟩⟩

def saturatingMul (a b : ℕ) : ℕ := min (2 ^ 64 - 1) (a * b)
def saturatingAdd (a b : ℕ) : ℕ := min (2 ^ 64 - 1) (a + b)

def DecodeOptions.expansionLimit (options : DecodeOptions) (encodedBytes : ℕ) : ℕ :=
  saturatingAdd (saturatingMul encodedBytes options.maxExpansionRatio) maxSegmentSize

/-- The ceilings the counters must stay under after a segment. -/
structure DecodeOptions.Allows (options : DecodeOptions)
    (segments records outputBytes encodedBytes : ℕ) : Prop where
  segments : segments ≤ options.maxSegments
  records : records ≤ options.maxRecords
  output : outputBytes ≤ options.maxOutputBytes
  encoded : encodedBytes ≤ options.maxEncodedBytes
  expansion : outputBytes ≤ options.expansionLimit encodedBytes

instance (options : DecodeOptions) (segments records outputBytes encodedBytes : ℕ) :
    Decidable (options.Allows segments records outputBytes encodedBytes) :=
  decidable_of_iff
    (segments ≤ options.maxSegments ∧ records ≤ options.maxRecords ∧
      outputBytes ≤ options.maxOutputBytes ∧ encodedBytes ≤ options.maxEncodedBytes ∧
      outputBytes ≤ options.expansionLimit encodedBytes)
    ⟨fun ⟨a, b, c, d, e⟩ => ⟨a, b, c, d, e⟩, fun ⟨a, b, c, d, e⟩ => ⟨a, b, c, d, e⟩⟩

def overflow : Error := .invalidFormat "encoded byte count overflows"

/-- The branch of the loop for a footer. `encodedBytes` counts the tag. -/
def decodeFooter (options : DecodeOptions) (s : DecoderState) (encodedBytes : ℕ) :
    IoProgram Error StreamStats := do
  let footerEncodedBytes ← checkedAdd 64 encodedBytes footerRest overflow
  .require (footerEncodedBytes ≤ options.maxEncodedBytes)
    (.invalidFormat "encoded byte limit is exceeded")
  let footer ← readExactFormat footerRest "footer is truncated"
  .require (parseU32 (slice footer 0 4) = s.stats.segments ∧
      parseU64 (slice footer 4 12) = s.stats.originalBytes ∧
      parseU64 (slice footer 12 20) = s.stats.records ∧ slice footer 20 52 = sha256 s.hashed)
    (.invalidFormat "footer totals or digest are inconsistent")
  let trailing ← .probe .io .ret
  .require (trailing = []) (.invalidFormat "trailing bytes follow the footer")
  return { s.stats with encodedBytes := footerEncodedBytes }

/-- The branch of the loop for a segment. `encodedBytes` counts the tag. -/
def decodeSegment (codecs : Codecs) (options : DecodeOptions) (s : DecoderState)
    (encodedBytes : ℕ) : IoProgram Error DecoderState := do
  let header := parseSegmentHeader (← readExactFormat segmentHeaderRest
    "segment header is truncated")
  let encodedBytes ← checkedAdd 64 encodedBytes segmentHeaderRest overflow
  .require (header.InBounds s.stats.segments) (.invalidFormat "segment bounds are invalid")
  let nextSegments ← checkedAdd 32 s.stats.segments 1 (.invalidFormat "segment count overflows")
  let nextRecords ← checkedAdd 64 s.stats.records header.recordCount
    (.invalidFormat "record count overflows")
  let nextOutputBytes ← checkedAdd 64 s.stats.originalBytes header.decodedLen
    (.invalidFormat "decoded byte count overflows")
  let nextEncodedBytes ← checkedAdd 64 encodedBytes (header.descriptorLen + header.payloadLen)
    overflow
  .require (options.Allows nextSegments nextRecords nextOutputBytes nextEncodedBytes)
    (.invalidFormat "decode resource ceiling is exceeded")
  let table ← readExactFormat header.descriptorLen "record table is truncated"
  let (descriptors, rawTotal, payloadTotal) ←
    .ofExcept (parseDescriptors (chunksExact recordSize header.recordCount table))
  .require (rawTotal = header.decodedLen ∧ payloadTotal = header.payloadLen)
    (.invalidFormat "segment totals are inconsistent")
  let (segment, decoded) ← decodeRecords codecs descriptors [] s
  .require (sha256 segment = header.expectedHash) (.invalidFormat "segment digest is inconsistent")
  .write segment (.ret ())
  return { decoded with
    stats := { decoded.stats with
      encodedBytes := nextEncodedBytes, originalBytes := nextOutputBytes,
      records := nextRecords, segments := nextSegments }
    hashed := s.hashed ++ segment }

/-- One round of the loop: the final counters or the state for the next round. -/
def decodeRound (codecs : Codecs) (options : DecodeOptions) (s : DecoderState) :
    IoProgram Error (StreamStats ⊕ DecoderState) := do
  let tag ← readExactFormat 4 "stream terminator is missing"
  let encodedBytes ← checkedAdd 64 s.stats.encodedBytes 4 overflow
  .require (encodedBytes ≤ options.maxEncodedBytes)
    (.invalidFormat "encoded byte limit is exceeded")
  if tag = footerTag then
    return .inl (← decodeFooter options s encodedBytes)
  else do
    .require (tag = segmentTag) (.invalidFormat "segment tag is invalid")
    return .inr (← decodeSegment codecs options s encodedBytes)

/-- The loop. A round that does not end it counts one segment, so there are at
most `max_segments + 1` rounds; `decodeLoop_rounds` shows that more change
nothing. -/
def decodeLoop (codecs : Codecs) (options : DecodeOptions) :
    ℕ → DecoderState → IoProgram Error StreamStats
  | 0, _ => .fail (.invalidFormat "decode resource ceiling is exceeded")
  | rounds + 1, s => do
      match ← decodeRound codecs options s with
      | .inl stats => return stats
      | .inr s => decodeLoop codecs options rounds s

def headerValid (header : Bytes) : Prop :=
  slice header 0 4 = magic ∧ parseU32 (slice header 4 8) = headerSize ∧
    parseU32 (slice header 8 12) = minChunkSize ∧ parseU32 (slice header 12 16) = avgChunkSize ∧
    parseU32 (slice header 16 20) = maxChunkSize ∧ parseU32 (slice header 20 24) = maxSegmentSize ∧
    parseU32 (slice header 24 28) = dedupWindowSize ∧ parseU32 (slice header 28 32) = 0

instance (header : Bytes) : Decidable (headerValid header) :=
  inferInstanceAs (Decidable (_ ∧ _))

def decodeWithOptions (codecs : Codecs) (options : DecodeOptions) :
    IoProgram Error StreamStats := do
  validateDecodeOptions options
  let header ← readExactFormat headerSize "header is truncated"
  .require (headerValid header) (.invalidFormat "header is unsupported or malformed")
  decodeLoop codecs options (options.maxSegments + 1) .initial

def decode (codecs : Codecs) : IoProgram Error StreamStats :=
  decodeWithOptions codecs .default

end MosaicArchive.Core
