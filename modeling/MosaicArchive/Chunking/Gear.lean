import MosaicArchive.Bytes.ByteSource
import MosaicArchive.Chunking.Rule
import MosaicArchive.Crypto.Sha256

/-!
The two Gear chunkers: `cdc.py` over blocks of a binary stream, and the
`GearChunker` of `msc7-core` over the refills of a buffered reader. Both are
to agree with `referenceRule`, which looks at one byte at a time and keeps the
full 64-bit fingerprint.
-/

namespace MosaicArchive.Gear

open FixedWidth Sha256

/-- `_build_table`: eight digest bytes for each byte value, big-endian. -/
def gearTable (value : UInt8) : ℕ :=
  beNat ((sha256 ("Mosaic-Gear-v1/".toUTF8.toList ++ [7, value])).take 8)

def windowSize : ℕ := 64

/-- `ChunkingConfig`, with what `__post_init__` checks as its fields. -/
structure ChunkingConfig where
  minSize : ℕ
  avgSize : ℕ
  maxSize : ℕ
  window_le : windowSize ≤ minSize
  avg_power : avgSize &&& (avgSize - 1) = 0
  ordered : minSize ≤ avgSize ∧ avgSize ≤ maxSize
  max_le : maxSize ≤ 16 * 1024 * 1024

/-- The constructor of the class: the first failed check raises. -/
def ChunkingConfig.create (minSize avgSize maxSize : ℕ) : Except String ChunkingConfig :=
  if hwindow : windowSize ≤ minSize then
    if hpower : avgSize &&& (avgSize - 1) = 0 then
      if hordered : minSize ≤ avgSize ∧ avgSize ≤ maxSize then
        if hmax : maxSize ≤ 16 * 1024 * 1024 then
          .ok ⟨minSize, avgSize, maxSize, hwindow, hpower, hordered, hmax⟩
        else .error "maximum CDC chunk size must not exceed 16 MiB"
      else .error "CDC sizes must satisfy min <= average <= max"
    else .error "average CDC chunk size must be a power of two"
  else .error "minimum CDC chunk size must be at least 64 bytes"

/-- `DEFAULT_CHUNKING`, which is also the fixed configuration of `msc7-core`. -/
def defaultChunking : ChunkingConfig where
  minSize := 16 * 1024
  avgSize := 64 * 1024
  maxSize := 256 * 1024
  window_le := by decide
  avg_power := by decide
  ordered := by decide
  max_le := by decide

/-! ### The byte-at-a-time reference -/

/-- One byte of the reference: the state is the size of the open chunk and the
64-bit fingerprint, which starts at the `minSize`-th byte. -/
def referenceStep (config : ChunkingConfig) (s : ℕ × ℕ) (byte : UInt8) : (ℕ × ℕ) × Bool :=
  let size := s.1 + 1
  let fingerprint :=
    if config.minSize ≤ size then ((s.2 <<< 1) ^^^ gearTable byte) % 2 ^ 64 else s.2
  ((size, fingerprint),
    size = config.maxSize ∨ (config.minSize ≤ size ∧ fingerprint % config.avgSize = 0))

def referenceRule (config : ChunkingConfig) : ChunkRule (ℕ × ℕ) UInt8 where
  start := (0, 0)
  step := referenceStep config

/-! ### `iter_content_defined_chunks` -/

/-- The loop over `range(position, scan_end)`: the fingerprint it leaves and
the offset at which it became zero. -/
def scanBytes (boundaryMask : ℕ) : ℕ → ℕ → Bytes → ℕ × Option ℕ
  | fingerprint, _, [] => (fingerprint, none)
  | fingerprint, offset, byte :: rest =>
      let fingerprint := ((fingerprint <<< 1) ^^^ (gearTable byte &&& boundaryMask)) &&& boundaryMask
      if fingerprint = 0 then (fingerprint, some offset)
      else scanBytes boundaryMask fingerprint (offset + 1) rest

/-- The local variables of the generator that live across blocks, and what it
has yielded. -/
structure ScanState where
  chunk : Bytes
  chunkSize : ℕ
  emittedSize : ℕ
  fingerprint : ℕ
  yielded : List Bytes

def ScanState.initial : ScanState :=
  { chunk := [], chunkSize := 0, emittedSize := 0, fingerprint := 0, yielded := [] }

/-- Yield `chunk[emitted_size:current_end]` and start the next chunk. -/
def ScanState.emit (s : ScanState) : ScanState :=
  let currentEnd := s.emittedSize + s.chunkSize
  { s with
    emittedSize := currentEnd, chunkSize := 0, fingerprint := 0,
    yielded := s.yielded ++ [slice s.chunk s.emittedSize currentEnd] }

/-- One round of `while position < input_size`: the position and the state
after it. -/
def scanRound (config : ChunkingConfig) (block : Bytes) (position : ℕ) (s : ScanState) :
    ℕ × ScanState :=
  let skip := min (config.minSize - 1 - s.chunkSize) (block.length - position)
  let s := { s with chunkSize := s.chunkSize + skip }
  let position := position + skip
  if block.length ≤ position then (position, s)
  else
    let scanEnd := min block.length (position + config.maxSize - s.chunkSize)
    match scanBytes (config.avgSize - 1) s.fingerprint position (slice block position scanEnd) with
    | (fingerprint, none) =>
        let s := { s with
          chunkSize := s.chunkSize + (scanEnd - position), fingerprint := fingerprint }
        if s.chunkSize < config.maxSize then (scanEnd, s) else (scanEnd, s.emit)
    | (fingerprint, some boundaryOffset) =>
        let s := { s with
          chunkSize := s.chunkSize + (boundaryOffset - position + 1), fingerprint := fingerprint }
        (boundaryOffset + 1, s.emit)

/-- The loop over one block. Every round moves the position, so as many rounds
as the block has bytes are enough. -/
def scanBlock (config : ChunkingConfig) (block : Bytes) : ℕ → ℕ → ScanState → ScanState
  | 0, _, s => s
  | rounds + 1, position, s =>
      if position < block.length then
        scanBlock config block rounds (scanRound config block position s).1
          (scanRound config block position s).2
      else s

/-- One read: extend the buffer, scan, drop what was emitted. -/
def scanRead (config : ChunkingConfig) (s : ScanState) (block : Bytes) : ScanState :=
  let s := scanBlock config block block.length 0 { s with chunk := s.chunk ++ block }
  { s with chunk := s.chunk.drop s.emittedSize, emittedSize := 0 }

/-- The chunks yielded for a stream that delivers the given reads. -/
def iterContentDefinedChunks (config : ChunkingConfig) (reads : Reads) : List Bytes :=
  let s := reads.blocks.foldl (scanRead config) ScanState.initial
  s.yielded ++ (if s.chunk.isEmpty then [] else [s.chunk])

/-! ### `GearChunker` -/

def minChunkSize : ℕ := 16 * 1024
def avgChunkSize : ℕ := 64 * 1024
def maxChunkSize : ℕ := 256 * 1024

/-- The chunker. `buffers` is what `fill_buf` will deliver; the first block is
the unread part of the current buffer. -/
structure GearChunker where
  buffers : List Bytes
  chunk : Bytes
  fingerprint : ℕ
  finished : Bool

def GearChunker.new (reads : Reads) : GearChunker :=
  { buffers := reads.blocks, chunk := [], fingerprint := 0, finished := false }

/-- The loop over one buffer: the open chunk, the fingerprint, the bytes left
unread, and whether a boundary was met. -/
def scanAvailable : Bytes → ℕ → Bytes → Bytes × ℕ × Bytes × Bool
  | chunk, fingerprint, [] => (chunk, fingerprint, [], false)
  | chunk, fingerprint, byte :: available =>
      let chunk := chunk ++ [byte]
      if minChunkSize ≤ chunk.length then
        let fingerprint :=
          ((fingerprint <<< 1) ^^^ (gearTable byte &&& (avgChunkSize - 1))) &&& (avgChunkSize - 1)
        if fingerprint = 0 ∨ chunk.length = maxChunkSize then (chunk, fingerprint, available, true)
        else scanAvailable chunk fingerprint available
      else scanAvailable chunk fingerprint available

/-- The `loop` of `next_chunk`. -/
def nextChunkLoop : List Bytes → Bytes → ℕ → Option Bytes × GearChunker
  | [], chunk, fingerprint =>
      if chunk.isEmpty then
        (none, { buffers := [], chunk := [], fingerprint := fingerprint, finished := true })
      else (some chunk, { buffers := [], chunk := [], fingerprint := 0, finished := true })
  | available :: buffers, chunk, fingerprint =>
      match scanAvailable chunk fingerprint available with
      | (chunk, _, unread, true) =>
          (some chunk,
            { buffers := if unread.isEmpty then buffers else unread :: buffers,
              chunk := [], fingerprint := 0, finished := false })
      | (chunk, fingerprint, _, false) => nextChunkLoop buffers chunk fingerprint

def GearChunker.nextChunk (g : GearChunker) : Option Bytes × GearChunker :=
  if g.finished then (none, g) else nextChunkLoop g.buffers g.chunk g.fingerprint

/-- Call `next_chunk` until it returns nothing. -/
def GearChunker.drainLoop : ℕ → GearChunker → List Bytes
  | 0, _ => []
  | calls + 1, g =>
      match g.nextChunk with
      | (none, _) => []
      | (some chunk, g) => chunk :: drainLoop calls g

/-- Every chunk has at least one byte, so this many calls reach the end. -/
def GearChunker.drain (reads : Reads) : List Bytes :=
  drainLoop (reads.data.length + 1) (new reads)

end MosaicArchive.Gear
