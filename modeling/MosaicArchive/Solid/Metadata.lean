import MosaicArchive.Bytes.Written
import MosaicArchive.Chunking.Gear
import MosaicArchive.Manifest.Dedup
import MosaicArchive.Solid.CompactInt
import MosaicArchive.Solid.LaneFrames

/-!
The metadata of the MSR2 container (`mosaic_archive/solid_archive_v2.py`): a manifest, the
lane of each unique chunk, and the sizes, frame counts and codecs of the lanes. A reader
meets it in three serializations, the plain one and two compact ones, each either bare or
in a compressed envelope.
-/

namespace MosaicArchive.Solid

open FixedWidth Utf8 ByteParser MosaicArchive.Manifest MosaicArchive.Container
open Gear (ChunkingConfig)

/-! ### Lanes -/

/-- One value for each lane. -/
structure Lanes (α : Type) where
  standard : α
  delta4 : α
  highEntropy : α
  deriving DecidableEq

def Lanes.toList {α : Type} (lanes : Lanes α) : List α :=
  [lanes.standard, lanes.delta4, lanes.highEntropy]

/-- `_LANE_COUNT` -/
def laneCount : ℕ := 3

/-- `_VALID_CODECS_BY_LANE` -/
def validCodecsByLane : Lanes (List ℕ) where
  standard := [codecLzma2, codecRaw]
  delta4 := [codecLzma2, codecRaw]
  highEntropy := [codecLzma2, codecRaw, codecZstd]

/-- The codecs of an archive that does not tell them. -/
def impliedCodecs : Lanes ℕ := ⟨codecLzma2, codecLzma2, codecLzma2⟩

/-- `raw_sizes[lane] += size` -/
def Lanes.add (sizes : Lanes ℕ) (lane : UInt8) (size : ℕ) : Lanes ℕ :=
  if lane = 0 then { sizes with standard := sizes.standard + size }
  else if lane = 1 then { sizes with delta4 := sizes.delta4 + size }
  else { sizes with highEntropy := sizes.highEntropy + size }

/-- The chunks that are their own source. -/
def uniqueRecords (m : DedupManifest) : List ChunkRecord :=
  (m.chunks.zipIdx.filter fun (c, index) => c.sourceIndex = index).map Prod.fst

/-- The sizes of the lanes for an assignment of the unique chunks. -/
def laneSizes (records : List ChunkRecord) (assignments : Bytes) : Lanes ℕ :=
  (records.zip assignments).foldl (fun sizes p => sizes.add p.2 p.1.size) ⟨0, 0, 0⟩

/-- What the metadata tells. -/
structure Metadata where
  manifest : DedupManifest
  assignments : Bytes
  rawSizes : Lanes ℕ
  frameCounts : Lanes ℕ
  codecs : Lanes ℕ
  deriving DecidableEq

/-! ### The plain form -/

/-- `struct.Struct(">QI")` -/
def metadataPrefix : Struct.Layout := [.uint 8, .uint 4]
/-- `struct.Struct(">QI")` -/
def laneRecord : Struct.Layout := [.uint 8, .uint 4]

/-- `_metadata`; `none` where a field does not fit its width. -/
def metadata (m : DedupManifest) (assignments : Bytes) (rawSizes frameCounts : Lanes ℕ) :
    Option Bytes := do
  let serialized ← serializeDedupManifest m
  let start ← Struct.pack metadataPrefix (serialized.length, assignments.length, ())
  let records ← encodeAll (fun p : ℕ × ℕ => Struct.pack laneRecord (p.1, p.2, ()))
    (rawSizes.toList.zip frameCounts.toList)
  pure (start ++ records ++ serialized ++ assignments)

/-! ### The compact forms -/

/-- `b"MC21"` -/
def compactMetadataMagicV1 : Bytes := [0x4d, 0x43, 0x32, 0x31]
/-- `b"MC22"` -/
def compactMetadataMagic : Bytes := [0x4d, 0x43, 0x32, 0x32]

/-- `(length << 1) | bit` -/
def descriptor (length : ℕ) (bit : Bool) : ℕ := 2 * length + bit.toNat

/-- The largest descriptor the parser takes: `(65_535 << 1) | 1`. -/
def maxDescriptor : ℕ := descriptor 65535 true

/-- The chunk count and the digest of a file. -/
def compactTail (e : Entry) : Except PyError Bytes :=
  if e.entryType = entryFile then (encodeCompactUint e.count).map (· ++ e.digest) else .ok []

/-- The bytes of an entry, which tell its modification time from the one before. -/
def compactEntry (previousMtimeNs : ℤ) (e : Entry) : Except PyError Bytes := do
  let path := encode e.relativePath
  Except.raiseIf (e.entryType ∉ [entryFile, entryDirectory])
    (.runtime "internal MSR2 entry type is invalid")
  let pathDescriptor ← encodeCompactUint (descriptor path.length e.isDirectory)
  let mode ← encodeCompactUint e.mode
  let mtimeDelta ← encodeCompactSint (e.mtimeNs - previousMtimeNs)
  let tail ← compactTail e
  .ok (pathDescriptor ++ path ++ mode ++ mtimeDelta ++ tail)

def compactEntries : ℤ → List Entry → Except PyError Bytes
  | _, [] => .ok []
  | previousMtimeNs, e :: es => do
      let b ← compactEntry previousMtimeNs e
      let bs ← compactEntries e.mtimeNs es
      .ok (b ++ bs)

def compactChunk (index : ℕ) (c : ChunkRecord) : Except PyError Bytes :=
  if c.sourceIndex = index then (encodeCompactUint c.size).map fun size => 0 :: (size ++ c.digest)
  else (encodeCompactUint c.sourceIndex).map fun source => 1 :: source

def compactChunks : ℕ → List ChunkRecord → Except PyError Bytes
  | _, [] => .ok []
  | index, c :: cs => do
      let b ← compactChunk index c
      let bs ← compactChunks (index + 1) cs
      .ok (b ++ bs)

/-- The loop that packs four lanes to a byte. -/
def packLanes : ℕ → (lanes packed : Bytes) → Except PyError Bytes
  | _, [], packed => .ok packed
  | index, lane :: lanes, packed => do
      Except.raiseIf (laneCount ≤ lane.toNat) (.runtime "internal MSR2 lane assignment is invalid")
      packLanes (index + 1) lanes
        (packed.modify (index / 4) (· ||| lane <<< UInt8.ofNat (index % 4 * 2)))

def packAssignments (assignments : Bytes) : Except PyError Bytes :=
  packLanes 0 assignments (List.replicate ((assignments.length + 3) / 4) 0)

/-- The frame counts, or the codecs, one after another. -/
def compactUints : List ℕ → Except PyError Bytes
  | [] => .ok []
  | value :: values => do
      let b ← encodeCompactUint value
      let bs ← compactUints values
      .ok (b ++ bs)

def compactCodecs (codecs : Lanes ℕ) : Except PyError Bytes := do
  Except.raiseIf (codecs.standard ∉ validCodecsByLane.standard ∨
      codecs.delta4 ∉ validCodecsByLane.delta4 ∨ codecs.highEntropy ∉ validCodecsByLane.highEntropy)
    (.runtime "internal MSR2 lane codec is invalid")
  compactUints codecs.toList

/-- The codecs, which the older form does not tell. -/
def compactLaneCodecs : Option (Lanes ℕ) → Except PyError Bytes
  | none => .ok []
  | some codecs => compactCodecs codecs

/-- `_compact_metadata` -/
def compactMetadata (m : DedupManifest) (assignments : Bytes) (frameCounts : Lanes ℕ)
    (laneCodecs : Option (Lanes ℕ)) : Except PyError Bytes := do
  let root := encode m.rootName
  Except.raiseIf (m.kind ∉ [kindFile, kindFolder]) (.runtime "internal MSR2 archive kind is invalid")
  let rootDescriptor ← encodeCompactUint (descriptor root.length (m.kind = kindFolder))
  let counts ← compactUints (m.entries.length :: m.chunks.length :: frameCounts.toList)
  let codecs ← compactLaneCodecs laneCodecs
  let entries ← compactEntries 0 m.entries
  let chunks ← compactChunks 0 m.chunks
  let packed ← packAssignments assignments
  .ok ((if laneCodecs = none then compactMetadataMagicV1 else compactMetadataMagic) ++
    rootDescriptor ++ root ++ counts ++ codecs ++ entries ++ chunks ++ packed)

/-! ### The envelope -/

/-- What `decompressobj().decompress(data, max_length)` leaves. -/
structure Inflated where
  decoded : Bytes
  unconsumedTail : Bytes
  eof : Bool
  unusedData : Bytes

/-- The `zlib` library; `none` is a `zlib.error`. -/
structure Zlib where
  compress : Bytes → Bytes
  decompress : Bytes → ℕ → Option Inflated

/-- `b"MDZ1"` -/
def metadataMagic : Bytes := [0x4d, 0x44, 0x5a, 0x31]
/-- `struct.Struct(">4sBQ")` -/
def metadataEnvelope : Struct.Layout := [.bytes 4, .uint 1, .uint 8]
/-- `_RAW_LZMA2_CODEC` -/
def rawLzma2Codec : ℕ := 1

section

variable (zlib : Zlib)

/-- `_encode_metadata_envelope` -/
def encodeMetadataEnvelope (payload : Bytes) : Option Bytes :=
  (Struct.pack metadataEnvelope (metadataMagic, rawLzma2Codec, payload.length, ())).map
    (· ++ zlib.compress payload)

/-- The checks on what was decompressed. -/
def checkInflated (expectedSize : ℕ) (inflated : Inflated) : Except PyError Bytes := do
  Except.raiseIf (expectedSize < inflated.decoded.length ∨ inflated.unconsumedTail ≠ [])
    (.archiveFormat "MSR2 compressed metadata exceeds its size bound")
  Except.raiseIf (inflated.decoded.length ≠ expectedSize ∨ ¬ inflated.eof ∨
      inflated.unusedData ≠ [] ∨ inflated.unconsumedTail ≠ [])
    (.archiveFormat "MSR2 compressed metadata size is inconsistent")
  .ok inflated.decoded

/-- `_decode_metadata_envelope` -/
def decodeMetadataEnvelope (payload : Bytes) : Except PyError (Bytes × Bool) :=
  if ¬ metadataMagic.isPrefixOf payload then .ok (payload, false)
  else do
    Except.raiseIf (payload.length < Struct.size metadataEnvelope)
      (.archiveFormat "MSR2 metadata envelope is truncated")
    let (magic, codec, expectedSize, ()) := Struct.unpack metadataEnvelope payload
    Except.raiseIf (magic ≠ metadataMagic ∨ codec ≠ rawLzma2Codec ∨ maxManifestCiphertext < expectedSize)
      (.archiveFormat "MSR2 metadata envelope is invalid")
    match zlib.decompress (payload.drop (Struct.size metadataEnvelope)) (expectedSize + 1) with
    | none => .error (.archiveFormat "MSR2 compressed metadata is malformed")
    | some inflated => (checkInflated expectedSize inflated).map fun decoded => (decoded, true)

end

/-! ### Parsing -/

/-- The keyword arguments of the parsers. -/
structure MetadataOptions where
  uniqueCount : ℕ
  config : ChunkingConfig
  paddingSize : ℕ
  salt : Bytes
  noncePrefix : Bytes

/-- `_metadata_compatibility_header` -/
def MetadataOptions.compatibilityHeader (o : MetadataOptions) : Msc3Header where
  version := msc6Version
  flags := msc3Flags
  kdfId := kdfScrypt
  aeadId := aeadChacha20Poly1305
  minChunkSize := o.config.minSize
  avgChunkSize := o.config.avgSize
  maxChunkSize := o.config.maxSize
  paddingSize := o.paddingSize
  salt := o.salt
  noncePrefix := o.noncePrefix
  kdfLogN := 14
  kdfR := 8
  kdfP := 1
  frameCount := o.uniqueCount + 1

/-- `DEFAULT_MAX_FRAME_COUNT` -/
def defaultMaxFrameCount : ℕ := 1000000

def compactInvalid (description : String) : PyError :=
  .archiveFormat ("MSR2 compact " ++ description ++ " is invalid")

/-- `_take_compact_bytes` -/
def takeCompactBytes (size : ℕ) (description : String) : ByteParser PyError Bytes :=
  exactly size (.archiveFormat ("MSR2 compact " ++ description ++ " is truncated"))

/-- Bytes that must be UTF-8. -/
def takeCompactText (size : ℕ) (description : String) (invalid : PyError) : ByteParser PyError Text := do
  let bytes ← takeCompactBytes size description
  lift (ofOption (decode bytes) invalid)

/-- A loop over the lanes. -/
def forLanes {α : Type} (body : ℕ → ByteParser PyError α) : ByteParser PyError (Lanes α) := do
  let standard ← body 0
  let delta4 ← body 1
  let highEntropy ← body 2
  pure ⟨standard, delta4, highEntropy⟩

def parseFrameCount (lane : ℕ) : ByteParser PyError ℕ :=
  decodeCompactUint defaultMaxFrameCount ("lane " ++ toString lane ++ " frame count")

def parseLaneCodec (lane : ℕ) : ByteParser PyError ℕ := do
  let codec ← decodeCompactUint codecZstd ("lane " ++ toString lane ++ " codec")
  raiseIf (codec ∉ validCodecsByLane.toList.getD lane [])
    (.archiveFormat ("MSR2 compact lane " ++ toString lane ++ " codec is invalid"))
  pure codec

def parseCodecs (modern : Bool) : ByteParser PyError (Lanes ℕ) :=
  if modern then forLanes parseLaneCodec else pure impliedCodecs

/-- `entry_specs` -/
structure EntrySpec where
  entryType : ℕ
  relativePath : Text
  mode : ℕ
  mtimeNs : ℤ
  count : ℕ
  digest : Bytes
  deriving DecidableEq

/-- The variables of the entry loop. -/
structure SpecTable where
  specs : List EntrySpec := []
  previousMtimeNs : ℤ := 0

def SpecTable.push (t : SpecTable) (spec : EntrySpec) : SpecTable :=
  ⟨t.specs ++ [spec], spec.mtimeNs⟩

/-- The chunk count and the digest of an entry. -/
def parseTail (chunkCount index entryType : ℕ) : ByteParser PyError (ℕ × Bytes) :=
  if entryType = entryFile then do
    let count ← decodeCompactUint chunkCount ("entry " ++ toString index ++ " chunk count")
    let digest ← takeCompactBytes 32 ("entry " ++ toString index ++ " digest")
    pure (count, digest)
  else pure (0, zeroHash)

def parseEntrySpec (chunkCount index : ℕ) (t : SpecTable) : ByteParser PyError SpecTable := do
  let pathDescriptor ← decodeCompactUint maxDescriptor
    ("entry " ++ toString index ++ " path descriptor")
  let entryType := if pathDescriptor % 2 = 1 then entryDirectory else entryFile
  let relativePath ← takeCompactText (pathDescriptor / 2) ("entry " ++ toString index ++ " path")
    (compactInvalid ("entry " ++ toString index ++ " path"))
  let mode ← decodeCompactUint 0o777 ("entry " ++ toString index ++ " mode")
  let mtimeDelta ← decodeCompactSint ("entry " ++ toString index ++ " modification time")
  let mtimeNs := t.previousMtimeNs + mtimeDelta
  raiseIf (¬ (-2 ^ 63 ≤ mtimeNs ∧ mtimeNs < 2 ^ 63))
    (compactInvalid ("entry " ++ toString index ++ " modification time"))
  let (count, digest) ← parseTail chunkCount index entryType
  pure (t.push ⟨entryType, relativePath, mode, mtimeNs, count, digest⟩)

/-- A chunk that is its own source. -/
def parseOwnChunk (maxSize index : ℕ) : ByteParser PyError ChunkRecord := do
  let size ← decodeCompactUint maxSize ("chunk " ++ toString index ++ " size")
  raiseIf (size = 0) (compactInvalid ("chunk " ++ toString index ++ " size"))
  let digest ← takeCompactBytes 32 ("chunk " ++ toString index ++ " digest")
  pure ⟨digest, size, index⟩

/-- A chunk that repeats an earlier one. -/
def parseDuplicate (index : ℕ) (chunks : List ChunkRecord) : ByteParser PyError ChunkRecord := do
  raiseIf (index = 0) (.archiveFormat "MSR2 compact first chunk cannot be duplicate")
  let source ← decodeCompactUint (index - 1) ("chunk " ++ toString index ++ " source")
  let canonical := chunks.getD source default
  raiseIf (canonical.sourceIndex ≠ source)
    (.archiveFormat "MSR2 compact duplicate chains are forbidden")
  pure ⟨canonical.digest, canonical.size, source⟩

def parseCompactChunk (maxSize index : ℕ) (t : ChunkTable) : ByteParser PyError ChunkTable := do
  let tag ← takeCompactBytes 1 ("chunk " ++ toString index ++ " tag")
  if tag = [0] then (t.push index ·) <$> parseOwnChunk maxSize index
  else if tag = [1] then (t.push index ·) <$> parseDuplicate index t.chunks
  else throw (compactInvalid ("chunk " ++ toString index ++ " tag"))

/-- `(packed[index // 4] >> ((index % 4) * 2)) & 0x03` -/
def laneAt (packed : Bytes) (index : ℕ) : UInt8 :=
  (packed.getD (index / 4) 0 >>> UInt8.ofNat (index % 4 * 2)) &&& 3

/-- The lanes of the packed assignments, which must be the rest of the payload. -/
def unpackAssignments (uniqueCount : ℕ) (packed : Bytes) : Except PyError Bytes := do
  Except.raiseIf (uniqueCount % 4 ≠ 0 ∧ packed ≠ [] ∧
      packed.getLastD 0 >>> UInt8.ofNat (uniqueCount % 4 * 2) ≠ 0)
    (.archiveFormat "MSR2 compact lane assignment padding is nonzero")
  let assignments := (List.range uniqueCount).map (laneAt packed)
  Except.raiseIf (∃ lane ∈ assignments, laneCount ≤ lane.toNat)
    (.archiveFormat "MSR2 compact lane assignment is invalid")
  .ok assignments

/-- The entries with the ranges of their chunks, and the chunk after the last range. -/
def rangeEntries (chunks : List ChunkRecord) : ℕ → List EntrySpec → Except PyError (List Entry × ℕ)
  | nextChunk, [] => .ok ([], nextChunk)
  | nextChunk, s :: specs =>
      if s.entryType = entryDirectory then do
        let (entries, final) ← rangeEntries chunks nextChunk specs
        .ok (⟨s.entryType, s.relativePath, s.mode, s.mtimeNs, 0, 0, 0, zeroHash⟩ :: entries, final)
      else do
        Except.raiseIf (chunks.length < nextChunk + s.count)
          (.archiveFormat "MSR2 compact file chunk range is invalid")
        let (entries, final) ← rangeEntries chunks (nextChunk + s.count) specs
        .ok (⟨s.entryType, s.relativePath, s.mode, s.mtimeNs, rangeSize chunks nextChunk s.count,
          nextChunk, s.count, s.digest⟩ :: entries, final)

/-- `zip(..., strict=True)` and the sums over it. -/
def strictLaneSizes (records : List ChunkRecord) (assignments : Bytes) : Except PyError (Lanes ℕ) := do
  Except.raiseIf (records.length ≠ assignments.length) (.value "zip() arguments differ in length")
  .ok (laneSizes records assignments)

/-- A lane has frames exactly when it has bytes. -/
def LaneFramed (rawSize frameCount : ℕ) : Prop := rawSize = 0 ↔ frameCount = 0

instance (rawSize frameCount : ℕ) : Decidable (LaneFramed rawSize frameCount) :=
  inferInstanceAs (Decidable (_ ↔ _))

def LanesFramed (rawSizes frameCounts : Lanes ℕ) : Prop :=
  LaneFramed rawSizes.standard frameCounts.standard ∧ LaneFramed rawSizes.delta4 frameCounts.delta4 ∧
    LaneFramed rawSizes.highEntropy frameCounts.highEntropy

instance (rawSizes frameCounts : Lanes ℕ) : Decidable (LanesFramed rawSizes frameCounts) :=
  inferInstanceAs (Decidable (_ ∧ _ ∧ _))

section

variable (u : Unicode) (o : MetadataOptions)

/-- The manifest a compact form tells, as the plain parser of manifests returns it. -/
def compactManifest (kind : ℕ) (rootName : Text) (specs : List EntrySpec) (chunks : List ChunkRecord) :
    Except PyError DedupManifest := do
  let (entries, nextChunk) ← rangeEntries chunks 0 specs
  Except.raiseIf (nextChunk ≠ chunks.length)
    (.archiveFormat "MSR2 compact file chunks are unreferenced")
  let serialized ← ofOption (serializeDedupManifest ⟨kind, rootName, entries, chunks⟩) .struct
  parseDedupManifest u serialized o.compatibilityHeader

/-- `_parse_compact_metadata` after the magic; `modern` says whether that is `MC22`. -/
def parseCompactFrom (modern : Bool) : ByteParser PyError Metadata := do
  let rootDescriptor ← decodeCompactUint maxDescriptor "root descriptor"
  let kind := if rootDescriptor % 2 = 1 then kindFolder else kindFile
  let rootName ← takeCompactText (rootDescriptor / 2) "root name" (compactInvalid "root name")
  let entryCount ← decodeCompactUint maxEntryCount "entry count"
  let chunkCount ← decodeCompactUint maxChunkRecords "chunk count"
  let frameCounts ← forLanes parseFrameCount
  let codecs ← parseCodecs modern
  let specTable ← forRange (parseEntrySpec chunkCount) entryCount 0 {}
  let chunkTable ← forRange (parseCompactChunk o.config.maxSize) chunkCount 0 {}
  raiseIf (chunkTable.uniqueCount ≠ o.uniqueCount)
    (.archiveFormat "MSR2 compact unique chunk count is inconsistent")
  let packed ← takeCompactBytes ((o.uniqueCount + 3) / 4) "lane assignments"
  let trailing ← remaining
  raiseIf (trailing ≠ []) (.archiveFormat "MSR2 compact metadata contains trailing bytes")
  let assignments ← lift (unpackAssignments o.uniqueCount packed)
  let manifest ← lift (compactManifest u o kind rootName specTable.specs chunkTable.chunks)
  let rawSizes ← lift (strictLaneSizes (uniqueRecords manifest) assignments)
  raiseIf (¬ LanesFramed rawSizes frameCounts)
    (.archiveFormat "MSR2 compact lane frame count is inconsistent")
  pure ⟨manifest, assignments, rawSizes, frameCounts, codecs⟩

/-- `_parse_compact_metadata` -/
def parseCompactMetadata (payload : Bytes) : Except PyError Metadata :=
  (parseCompactFrom u o (compactMetadataMagic.isPrefixOf payload)
    (payload.drop compactMetadataMagic.length)).map Prod.fst

/-- The record of one lane. -/
def parseLaneRecord (_lane : ℕ) : ByteParser PyError (ℕ × ℕ) := do
  let (rawSize, frameCount, ()) ← record laneRecord (.archiveFormat "MSR2 metadata is truncated")
  raiseIf (¬ LaneFramed rawSize frameCount)
    (.archiveFormat "MSR2 lane frame count is inconsistent")
  pure (rawSize, frameCount)

/-- The plain form of `_parse_metadata`. -/
def parsePlainFrom : ByteParser PyError Metadata := do
  let payload ← remaining
  raiseIf (payload.length < Struct.size metadataPrefix + laneCount * Struct.size laneRecord)
    (.archiveFormat "MSR2 metadata is truncated")
  let (manifestSize, assignmentCount, ()) ← record metadataPrefix
    (.archiveFormat "MSR2 metadata is truncated")
  let lanes ← forLanes parseLaneRecord
  let rawSizes : Lanes ℕ := ⟨lanes.standard.1, lanes.delta4.1, lanes.highEntropy.1⟩
  let frameCounts : Lanes ℕ := ⟨lanes.standard.2, lanes.delta4.2, lanes.highEntropy.2⟩
  raiseIf (assignmentCount ≠ o.uniqueCount ∨ maxManifestCiphertext < manifestSize)
    (.archiveFormat "MSR2 metadata counts are inconsistent")
  let rest ← remaining
  raiseIf (manifestSize + assignmentCount ≠ rest.length)
    (.archiveFormat "MSR2 metadata length is inconsistent")
  let assignments := rest.drop manifestSize
  raiseIf (∃ lane ∈ assignments, laneCount ≤ lane.toNat)
    (.archiveFormat "MSR2 lane assignment is invalid")
  let manifest ← lift (parseDedupManifest u (rest.take manifestSize) o.compatibilityHeader)
  raiseIf ((uniqueRecords manifest).length ≠ o.uniqueCount)
    (.archiveFormat "MSR2 unique chunk count is inconsistent")
  let calculated ← lift (strictLaneSizes (uniqueRecords manifest) assignments)
  raiseIf (calculated ≠ rawSizes) (.archiveFormat "MSR2 lane sizes are inconsistent")
  pure ⟨manifest, assignments, rawSizes, frameCounts, impliedCodecs⟩

/-- `payload.startswith((b"MC21", b"MC22"))` -/
def isCompact (payload : Bytes) : Bool :=
  compactMetadataMagicV1.isPrefixOf payload || compactMetadataMagic.isPrefixOf payload

/-- `_parse_metadata` -/
def parseMetadata (payload : Bytes) : Except PyError Metadata :=
  if isCompact payload then parseCompactMetadata u o payload
  else (parsePlainFrom u o payload).map Prod.fst

end

end MosaicArchive.Solid
