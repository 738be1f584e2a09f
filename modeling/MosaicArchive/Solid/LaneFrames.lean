import MosaicArchive.Bytes.ByteSource
import MosaicArchive.Container.Frames
import MosaicArchive.Effects.Routine

/-!
The frames of a solid lane (`mosaic_archive/solid_frames.py`). A lane is compressed as one
stream and cut into frames, each padded and encrypted under its own index; the last one is
marked. One writer compresses and cuts at once, the other cuts what was compressed before.
-/

namespace MosaicArchive.Solid

open FixedWidth MosaicArchive.Manifest MosaicArchive.Container
open Routine (raise raiseIf lift forEach)

def laneStandard : ℕ := 0
def laneDelta4 : ℕ := 1
def laneHighEntropy : ℕ := 2

def codecLzma2 : ℕ := 0
def codecRaw : ℕ := 1
def codecZstd : ℕ := 2

/-- `_VALID_LANES` -/
def validLanes : List ℕ := [laneStandard, laneDelta4, laneHighEntropy]

/-- `_FRAME_HEADER`: `struct.Struct(">IBBI")` -/
def laneFrameHeader : Struct.Layout := [.uint 4, .uint 1, .uint 1, .uint 4]

def flagFinal : ℕ := 1

/-- The keyword arguments that both writers and the reader take. -/
structure LaneOptions where
  key : Bytes
  noncePrefix : Bytes
  associatedData : Bytes
  lane : ℕ
  startIndex : ℕ
  framePayloadSize : ℕ
  paddingSize : ℕ

def solidLaneFramedSize (payloadSize : ℤ) (framePayloadSize paddingSize : ℕ) : Except PyError ℕ := do
  Except.raiseIf (payloadSize < 0) (.value "solid lane payload size cannot be negative")
  if payloadSize = 0 then pure 0
  else do
    Except.raiseIf (¬ (1024 ≤ framePayloadSize ∧ framePayloadSize ≤ 16 * 1024 * 1024))
      (.value "solid frame payload size must be between 1 KiB and 16 MiB")
    Except.raiseIf (¬ (256 ≤ paddingSize ∧ paddingSize ≤ framePayloadSize))
      (.value "solid frame padding size is invalid")
    let frameSize (size : ℕ) : ℕ :=
      Struct.size laneFrameHeader + roundUp (8 + size) paddingSize + aeadTagLength
    let fullFrames := payloadSize.toNat / framePayloadSize
    let remainder := payloadSize.toNat % framePayloadSize
    pure (fullFrames * frameSize framePayloadSize + if remainder = 0 then 0 else frameSize remainder)

/-! ### Compressors -/

structure IncrementalCompressor where
  State : Type
  initial : State
  compress : State → Bytes → Bytes × State
  flush : State → Bytes

structure IncrementalDecompressor where
  State : Type
  initial : State
  eof : State → Bool
  needsInput : State → Bool
  unusedData : State → Bytes
  /-- `decompress(data, max_length)`; it fails with `LZMAError` or `ZstdError`. -/
  decompress : State → Bytes → ℕ → Option (Bytes × State)

/-- What the libraries make for one direction. -/
structure Codecs (α : Type 1) where
  zstd : α
  delta4 : α
  rawLzma2 : α
  xz : α

/-- `_compressor` and `_decompressor`, which differ in the word of the message. -/
def Codecs.select {α : Type 1} (codecs : Codecs α) (word : String) (lane : ℕ) (rawLzma2 : Bool)
    (codec : Option ℕ) : Except PyError α :=
  if codec = some codecZstd then .ok codecs.zstd
  else
    match codec with
    | some (n + 1) => .error (.value ("unknown or non-" ++ word ++ " solid codec: " ++ toString (n + 1)))
    | _ =>
        if lane = laneDelta4 then .ok codecs.delta4
        else if rawLzma2 then .ok codecs.rawLzma2
        else .ok codecs.xz

/-! ### Writing -/

/-- A computation that appends to the destination. -/
abbrev Writing := Routine Bytes PyError

def write (b : Bytes) : Writing Unit := Routine.update (· ++ b)

structure SolidFrameWriteStats where
  frameCount : ℕ
  nextIndex : ℕ
  compressedSize : ℕ
  paddedSize : ℕ
  maxFramePayload : ℕ
  deriving DecidableEq, Repr

/-- The variables of a writer that `emit` updates. -/
structure Emitted where
  index : ℕ
  compressedSize : ℕ
  paddedSize : ℕ
  maximum : ℕ
  deriving DecidableEq, Repr

def LaneOptions.started (o : LaneOptions) : Emitted := ⟨o.startIndex, 0, 0, 0⟩

def LaneOptions.validate (o : LaneOptions) : Writing Unit := do
  raiseIf (o.lane ∉ validLanes) (.value ("unknown solid lane: " ++ toString o.lane))
  raiseIf (o.noncePrefix.length ≠ 4) (.value "solid frame nonce prefix must be four bytes")
  raiseIf (¬ (1024 ≤ o.framePayloadSize ∧ o.framePayloadSize ≤ 16 * 1024 * 1024))
    (.value "solid frame payload size must be between 1 KiB and 16 MiB")
  raiseIf (¬ (256 ≤ o.paddingSize ∧ o.paddingSize ≤ o.framePayloadSize))
    (.value "solid frame padding size is invalid")

section

variable (cipher : Aead) (urandom : ℕ → Urandom) (o : LaneOptions)

def packHeader (index : ℕ) (final : Bool) (paddedSize : ℕ) : Writing Bytes :=
  lift (ofOption (Struct.pack laneFrameHeader
    (index, o.lane, if final then flagFinal else 0, paddedSize + aeadTagLength, ())) .struct)

/-- `encrypt(key, frame_nonce(nonce_prefix, index), padded, associated_data + header)` -/
def encryptFrame (index : ℕ) (header padded : Bytes) : Writing Bytes := do
  let nonce ← lift (frameNonce o.noncePrefix index)
  lift (ofOption (cipher.encrypt o.key nonce (o.associatedData ++ header) padded) (.runtime "encrypt"))

/-- `emit` in `write_precompressed_solid_lane_frames`. The padding of a frame is drawn once. -/
def emitPrecompressed (e : Emitted) (payload : Bytes) (final : Bool) : Writing Emitted := do
  raiseIf (0xFFFFFFFF < e.index) (.value "solid frame index exceeds the uint32 range")
  let padded ← lift (padPayload (urandom e.index) payload o.paddingSize)
  let header ← packHeader o e.index final padded.length
  write header
  let ciphertext ← encryptFrame cipher o e.index header padded
  write ciphertext
  pure { e with
    index := e.index + 1
    paddedSize := e.paddedSize + padded.length
    maximum := max e.maximum payload.length }

/-- The loop over `remaining`, which every round makes smaller. -/
def emitRemaining : ℕ → Bytes → ℕ → Emitted → Writing (Bytes × Emitted)
  | 0, source, _, e => pure (source, e)
  | rounds + 1, source, remaining, e =>
      if remaining = 0 then pure (source, e)
      else do
        let size := min o.framePayloadSize remaining
        let payload := source.take size
        raiseIf (payload.length ≠ size) (.value "precompressed solid lane is truncated")
        let e ← emitPrecompressed cipher urandom o e payload (remaining - size = 0)
        emitRemaining rounds (source.drop size) (remaining - size) e

def writePrecompressedSolidLaneFrames (source : Bytes) (compressedSize : ℕ) :
    Writing SolidFrameWriteStats := do
  o.validate
  raiseIf (0xFFFFFFFF < o.startIndex) (.value "solid frame size or start index is invalid")
  let e ← if compressedSize = 0 then emitPrecompressed cipher urandom o o.started [] true
    else pure o.started
  let (left, e) ← emitRemaining cipher urandom o compressedSize source compressedSize e
  raiseIf (left ≠ []) (.value "precompressed solid lane exceeds its declared size")
  pure ⟨e.index - o.startIndex, e.index, compressedSize, e.paddedSize, e.maximum⟩

/-- `emit` in `write_solid_lane_frames`: it encrypts before it writes, and counts the payload. -/
def emit (e : Emitted) (payload : Bytes) (final : Bool) : Writing Emitted := do
  raiseIf (0xFFFFFFFF < e.index) (.value "solid frame index exceeds the uint32 range")
  let padded ← lift (padPayload (urandom e.index) payload o.paddingSize)
  let header ← packHeader o e.index final padded.length
  let ciphertext ← encryptFrame cipher o e.index header padded
  write header
  write ciphertext
  pure ⟨e.index + 1, e.compressedSize + payload.length, e.paddedSize + padded.length,
    max e.maximum payload.length⟩

/-- The loop over `pending`, which every round makes smaller. -/
def emitFull : ℕ → Emitted → Bytes → Writing (Emitted × Bytes)
  | 0, e, pending => pure (e, pending)
  | rounds + 1, e, pending =>
      if o.framePayloadSize < pending.length then do
        let e ← emit cipher urandom o e (pending.take o.framePayloadSize) false
        emitFull rounds e (pending.drop o.framePayloadSize)
      else pure (e, pending)

/-- The body of the loop over the blocks of the source. -/
def compressBlock (compressor : IncrementalCompressor)
    (t : compressor.State × Emitted × Bytes) (block : Bytes) :
    Writing (compressor.State × Emitted × Bytes) := do
  let (output, state) := compressor.compress t.1 block
  let pending := t.2.2 ++ output
  let (e, pending) ← emitFull cipher urandom o pending.length t.2.1 pending
  pure (state, e, pending)

def writeSolidLaneFrames (compressors : Codecs IncrementalCompressor) (source : Reads)
    (rawLzma2 : Bool) (codec : Option ℕ) : Writing SolidFrameWriteStats := do
  o.validate
  raiseIf (0xFFFFFFFF < o.startIndex) (.value "solid frame start index is outside the uint32 range")
  match compressors.select "compressing" o.lane rawLzma2 codec with
  | .error e => raise e
  | .ok compressor => do
      let (state, e, pending) ← forEach (compressBlock cipher urandom o compressor) source.blocks
        (compressor.initial, o.started, [])
      let pending := pending ++ compressor.flush state
      let (e, pending) ← emitFull cipher urandom o pending.length e pending
      let e ← emit cipher urandom o e pending true
      pure ⟨e.index - o.startIndex, e.index, e.compressedSize, e.paddedSize, e.maximum⟩

end

/-- The body of the loop of `compress_solid_lane`. -/
def spoolBlock (compressor : IncrementalCompressor) (t : compressor.State × ℕ) (block : Bytes) :
    Writing (compressor.State × ℕ) := do
  let (output, state) := compressor.compress t.1 block
  write output
  pure (state, t.2 + output.length)

/-- `compress_solid_lane`; the destination is a spool. -/
def compressSolidLane (compressors : Codecs IncrementalCompressor) (source : Reads) (lane : ℕ)
    (rawLzma2 : Bool) (codec : Option ℕ) : Writing ℕ := do
  raiseIf (lane ∉ validLanes) (.value ("unknown solid lane: " ++ toString lane))
  match compressors.select "compressing" lane rawLzma2 codec with
  | .error e => raise e
  | .ok compressor => do
      let (state, compressedSize) ← forEach (spoolBlock compressor) source.blocks
        (compressor.initial, 0)
      let output := compressor.flush state
      write output
      pure (compressedSize + output.length)

/-- A lane is compressed to an empty spool, which is then framed from its start. -/
def compressThenWrite (cipher : Aead) (urandom : ℕ → Urandom) (o : LaneOptions)
    (compressors : Codecs IncrementalCompressor) (source : Reads) (rawLzma2 : Bool)
    (codec : Option ℕ) : Writing SolidFrameWriteStats := do
  let (result, spool) := compressSolidLane compressors source o.lane rawLzma2 codec []
  let compressedSize ← lift result
  writePrecompressedSolidLaneFrames cipher urandom o spool compressedSize

/-! ### Reading -/

structure LaneStreams where
  source : Bytes
  destination : Bytes

abbrev Reading := Routine LaneStreams PyError

structure SolidFrameReadStats where
  frameCount : ℕ
  nextIndex : ℕ
  decodedSize : ℕ
  deriving DecidableEq, Repr

/-- `_read_exact` -/
def readExact (size : ℕ) (description : String) : Reading Bytes := do
  let streams ← Routine.get
  let data := streams.source.take size
  Routine.update fun s => { s with source := s.source.drop size }
  raiseIf (data.length ≠ size)
    (.archiveFormat ("solid frame stream is truncated at " ++ description))
  pure data

def deliver (b : Bytes) : Reading Unit :=
  Routine.update fun s => { s with destination := s.destination ++ b }

section

variable (cipher : Aead) (o : LaneOptions)

/-- The checks on a frame header. -/
def checkLaneHeader (index : ℕ) (final : Bool) (actualIndex actualLane flags ciphertextLength : ℕ) :
    Reading Unit :=
  let maximumPadded := roundUp (8 + o.framePayloadSize) o.paddingSize
  raiseIf (actualIndex ≠ index ∨ actualLane ≠ o.lane ∨ flags ≠ (if final then flagFinal else 0) ∨
      ciphertextLength < aeadTagLength ∨ maximumPadded + aeadTagLength < ciphertextLength ∨
      (ciphertextLength - aeadTagLength) % o.paddingSize ≠ 0)
    (.archiveFormat "solid frame header is inconsistent")

/-- The payload of one frame, still compressed. -/
def readLaneFrame (index : ℕ) (final : Bool) : Reading Bytes := do
  let header ← readExact (Struct.size laneFrameHeader) ("frame " ++ toString index ++ " header")
  let (actualIndex, actualLane, flags, ciphertextLength, _) := Struct.unpack laneFrameHeader header
  checkLaneHeader o index final actualIndex actualLane flags ciphertextLength
  let ciphertext ← readExact ciphertextLength ("frame " ++ toString index ++ " ciphertext")
  let nonce ← lift (frameNonce o.noncePrefix index)
  let padded ← lift (ofOption (cipher.decrypt o.key nonce (o.associatedData ++ header) ciphertext)
    (.authentication "wrong password or archive was modified"))
  let compressed ← lift (unpadPayload padded)
  raiseIf (o.framePayloadSize < compressed.length ∨
      (final = false ∧ compressed.length ≠ o.framePayloadSize))
    (.archiveFormat "solid frame payload exceeds its bound")
  pure compressed

/-- `_OUTPUT_BLOCK_SIZE` -/
def outputBlockSize : ℕ := 64 * 1024

/-- The loop that drains the decompressor, with a bound on its rounds. -/
def decompressLoop (d : IncrementalDecompressor) (expectedSize : ℕ) :
    ℕ → d.State → Bytes → ℕ → Reading (d.State × ℕ)
  | 0, _, _, _ => raise (.runtime "endless")
  | rounds + 1, state, input, decodedSize => do
      let remaining := expectedSize - decodedSize
      let (output, state) ← lift (ofOption
        (d.decompress state input (min outputBlockSize (remaining + 1)))
        (.archiveFormat "solid frame compressed payload is malformed"))
      raiseIf (remaining < output.length)
        (.archiveFormat "solid frame stream exceeds its declared size")
      deliver output
      if d.eof state ∨ d.needsInput state then pure (state, decodedSize + output.length)
      else decompressLoop d expectedSize rounds state [] (decodedSize + output.length)

/-- The body of the loop over the frames in passthrough mode. -/
def passFrame (frameCount expectedSize : ℕ) (decodedSize offset : ℕ) : Reading ℕ := do
  let compressed ← readLaneFrame cipher o (o.startIndex + offset) (offset = frameCount - 1)
  let remaining := expectedSize - decodedSize
  raiseIf (remaining < compressed.length)
    (.archiveFormat "solid frame stream exceeds its declared size")
  deliver compressed
  pure (decodedSize + compressed.length)

/-- The body of the loop over the frames with a decompressor. -/
def decodeFrame (d : IncrementalDecompressor) (rounds frameCount expectedSize : ℕ)
    (t : d.State × ℕ) (offset : ℕ) : Reading (d.State × ℕ) := do
  let final := decide (offset = frameCount - 1)
  let compressed ← readLaneFrame cipher o (o.startIndex + offset) final
  let (state, decodedSize) ← decompressLoop d expectedSize rounds t.1 compressed t.2
  raiseIf (d.eof state ≠ final ∨ d.unusedData state ≠ [])
    (.archiveFormat "solid frame stream terminates inconsistently")
  pure (state, decodedSize)

/-- The decoder that `read_solid_lane_frames` makes, none in passthrough mode. -/
def selectDecoder (decompressors : Codecs IncrementalDecompressor) (lane : ℕ) (rawLzma2 : Bool)
    (passthrough : Bool) (codec : Option ℕ) : Except PyError (Option IncrementalDecompressor) :=
  if passthrough then
    if codec = none ∨ codec = some codecRaw then .ok none
    else .error (.value "solid passthrough requires the raw codec")
  else if codec = some codecRaw then .error (.value "the raw solid codec requires passthrough")
  else (decompressors.select "decompressing" lane rawLzma2 codec).map some

/-- `_validate_options`, before anything is read. -/
def LaneOptions.validateReading (o : LaneOptions) : Reading Unit :=
  fun streams => ((o.validate []).1, streams)

def readSolidLaneFrames (decompressors : Codecs IncrementalDecompressor) (rounds : ℕ)
    (frameCount expectedSize : ℤ) (rawLzma2 passthrough : Bool) (codec : Option ℕ) :
    Reading SolidFrameReadStats := do
  o.validateReading
  raiseIf (frameCount ≤ 0 ∨ expectedSize < 0)
    (.archiveFormat "solid frame count or decoded size is invalid")
  let count := frameCount.toNat
  let expected := expectedSize.toNat
  match selectDecoder decompressors o.lane rawLzma2 passthrough codec with
  | .error e => raise e
  | .ok none => do
      let decodedSize ← forEach (passFrame cipher o count expected) (List.range count) 0
      raiseIf (decodedSize ≠ expected) (.archiveFormat "solid frame decoded size is inconsistent")
      pure ⟨count, o.startIndex + count, decodedSize⟩
  | .ok (some d) => do
      let (state, decodedSize) ← forEach (decodeFrame cipher o d rounds count expected)
        (List.range count) (d.initial, 0)
      raiseIf (decodedSize ≠ expected ∨ ¬ d.eof state)
        (.archiveFormat "solid frame decoded size is inconsistent")
      pure ⟨count, o.startIndex + count, decodedSize⟩

end

end MosaicArchive.Solid
