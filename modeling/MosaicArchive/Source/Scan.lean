import MosaicArchive.Chunking.Gear
import MosaicArchive.Manifest.Dedup
import MosaicArchive.Manifest.Stream
import MosaicArchive.Source.Session

/-!
The scans of a captured source tree: `_scan_input` and the block loop of
`encode_stream_archive` (`mosaic_archive/stream_archive.py`), `_scan_manifest`
and the chunk loop of `encode_dedup_archive` (`dedup_archive.py`). The entries
of the session become the entries of the manifest, in order, under their
normalized paths; later loops find the source of an entry by that path.
-/

namespace MosaicArchive.Source

open Utf8 (Text)
open FixedWidth CallHistory MosaicArchive.Manifest MosaicArchive.Gear
open Routine (raise raiseIf lift forEach)

def ofPython {α : Type} (x : Except PyError α) : Except SourceError α :=
  x.mapError SourceError.python

section

variable (u : Unicode) (env : Environment Call Reply) (platform : Platform)

/-! ### `_scan_input` -/

/-- `_hash_file` -/
def hashFile (s : SourceSession) (relative : Text) : Run (ℕ × Bytes) := do
  let reads ← s.openFile env platform relative fun descriptor => readAll env descriptor
  let identity ← lift (s.identityFor relative)
  let path ← lift (s.pathFor relative)
  raiseIf (reads.data.length ≠ identity.metadata.size)
    (osError ("input changed while it was being scanned: " ++ path.text))
  pure (reads.data.length, sha256 reads.data)

/-- The size and digest of a file entry. -/
def sizeAndDigest (s : SourceSession) (e : SourceEntry) (hashFiles : Bool) : Run (ℕ × Bytes) :=
  if hashFiles then hashFile env platform s e.relativePath
  else pure (e.identity.metadata.size, zeroHash)

def directoryMetadata (e : SourceEntry) (entryType : ℕ) (relative : Text) (path : Path) : Run Entry := do
  let m := e.identity.metadata
  raiseIf (¬ m.isDirectory)
    (valueError ("expected a directory but found another file type: " ++ path.text))
  let validated ← lift (ofPython (validateRelativePath u relative))
  pure ⟨entryType, validated, permissionsOf m.mode &&& 0o777, m.mtimeNs, 0, 0, 0, zeroHash⟩

def fileMetadata (s : SourceSession) (e : SourceEntry) (entryType : ℕ) (relative : Text) (path : Path)
    (chunkSize firstFrame : ℕ) (hashFiles : Bool) : Run Entry := do
  let m := e.identity.metadata
  raiseIf (¬ m.isRegular) (valueError ("special files are not supported: " ++ path.text))
  let (size, digest) ← sizeAndDigest env platform s e hashFiles
  let frameCount ← lift (ofPython (requiredFrames size chunkSize))
  let validated ← lift (ofPython (validateRelativePath u relative))
  pure ⟨entryType, validated, permissionsOf m.mode &&& 0o777, m.mtimeNs, size, firstFrame, frameCount,
    digest⟩

/-- `_entry_metadata` -/
def entryMetadata (s : SourceSession) (e : SourceEntry) (entryType : ℕ) (relative : Text)
    (chunkSize firstFrame : ℕ) (hashFiles : Bool) : Run Entry := do
  let path ← lift (s.pathFor e.relativePath)
  if entryType = entryDirectory then directoryMetadata u e entryType relative path
  else fileMetadata u env platform s e entryType relative path chunkSize firstFrame hashFiles

/-- The variables of the loop of `_scan_input`. -/
structure InputTable where
  entries : List Entry := []
  casefolded : List Text := []
  nextFrame : ℕ := 1

def scanEntry (s : SourceSession) (chunkSize : ℕ) (hashFiles : Bool) (t : InputTable)
    (e : SourceEntry) : Run InputTable := do
  let entryType := if e.isDirectory then entryDirectory else entryFile
  let normalized ← lift (ofPython (validateRelativePath u e.relativePath))
  let collisionKey := u.casefold normalized
  raiseIf (collisionKey ∈ t.casefolded)
    (valueError ("portable path collision in input tree: " ++ String.ofList e.relativePath))
  let entry ← entryMetadata u env platform s e entryType normalized chunkSize t.nextFrame hashFiles
  pure ⟨t.entries ++ [entry], collisionKey :: t.casefolded,
    if entry.entryType = entryFile then t.nextFrame + entry.count else t.nextFrame⟩

/-- The manifest of a single file. -/
def scanFile (s : SourceSession) (chunkSize : ℕ) (hashFiles : Bool) (rootName : Text) :
    Run StreamManifest :=
  match s.entries with
  | [] => raise (.python (.runtime "tuple index out of range"))
  | e :: _ => do
      let entry ← entryMetadata u env platform s e entryFile rootName chunkSize 1 hashFiles
      pure ⟨kindFile, rootName, [entry]⟩

/-- The manifest of a folder. -/
def scanFolder (s : SourceSession) (chunkSize : ℕ) (hashFiles : Bool) (rootName : Text) :
    Run StreamManifest := do
  let t ← forEach (scanEntry u env platform s chunkSize hashFiles) s.entries {}
  raiseIf (maxEntryCount < t.entries.length) (valueError "input tree has too many entries for MSC2")
  pure ⟨kindFolder, rootName, t.entries⟩

/-- `_scan_input` -/
def scanInput (s : SourceSession) (chunkSize : ℕ) (hashFiles : Bool) : Run StreamManifest := do
  let rootName ← lift (ofPython (validateRelativePath u (s.source.getLastD [])))
  if s.rootIsFile then scanFile u env platform s chunkSize hashFiles rootName
  else scanFolder u env platform s chunkSize hashFiles rootName

/-! ### The block loop of `encode_stream_archive` -/

/-- The data frames of one entry: its index with each block. -/
def encodeStreamEntry (s : SourceSession) (kind : ℕ) (frames : List (ℕ × Bytes))
    (item : Entry × ℕ) : Run (List (ℕ × Bytes)) :=
  if item.1.entryType ≠ entryFile then pure frames
  else do
    let relative := if kind = kindFile then [] else item.1.relativePath
    let path ← lift (s.pathFor relative)
    let reads ← s.openFile env platform relative fun descriptor => readAll env descriptor
    raiseIf (reads.data.length ≠ item.1.size ∨ sha256 reads.data ≠ item.1.digest)
      (osError ("input changed while it was being encoded: " ++ path.text))
    pure (frames ++ reads.blocks.map fun block => (item.2, block))

def encodeStreamFrames (s : SourceSession) (m : StreamManifest) : Run (List (ℕ × Bytes)) :=
  forEach (encodeStreamEntry env platform s m.kind) m.entries.zipIdx []

/-! ### `_scan_manifest` -/

/-- The variables of the loop of `_scan_manifest`; `canonical` maps a digest and
a size to the first chunk that has them. -/
structure ChunkScan where
  chunks : List ChunkRecord := []
  entries : List Entry := []
  canonical : List ((Bytes × ℕ) × ℕ) := []
  owners : List ℕ := []

/-- `canonical.setdefault(key, len(chunks))` -/
def ChunkScan.sourceOf (t : ChunkScan) (key : Bytes × ℕ) : ℕ :=
  match t.canonical.find? fun p => p.1 = key with
  | none => t.chunks.length
  | some p => p.2

def ChunkScan.push (fileIndex : ℕ) (t : ChunkScan) (chunk : Bytes) : ChunkScan :=
  let key := (sha256 chunk, chunk.length)
  let source := t.sourceOf key
  { t with
    chunks := t.chunks ++ [⟨sha256 chunk, chunk.length, source⟩]
    canonical := if source = t.chunks.length then (key, source) :: t.canonical else t.canonical
    owners := t.owners ++ [fileIndex] }

def directoryEntry (e : Entry) : Entry :=
  ⟨e.entryType, e.relativePath, e.mode, e.mtimeNs, 0, 0, 0, zeroHash⟩

def scanChunksOf (config : ChunkingConfig) (s : SourceSession) (t : ChunkScan) (item : Entry × ℕ) :
    Run ChunkScan :=
  if item.1.entryType = entryDirectory then
    pure { t with entries := t.entries ++ [directoryEntry item.1] }
  else do
    let first := t.chunks.length
    let relative := if s.rootIsFile then [] else item.1.relativePath
    let path ← lift (s.pathFor relative)
    let (t', digest, size) ← s.openFile env platform relative fun descriptor => do
      let reads ← readAll env descriptor
      let chunks := iterContentDefinedChunks config reads
      pure (chunks.foldl (ChunkScan.push item.2) t, sha256 chunks.flatten, chunks.flatten.length)
    raiseIf (size ≠ item.1.size)
      (osError ("input changed while content-defined chunks were scanned: " ++ path.text))
    pure { t' with
      entries := t'.entries ++ [⟨item.1.entryType, item.1.relativePath, item.1.mode, item.1.mtimeNs,
        item.1.size, first, t'.chunks.length - first, digest⟩] }

/-- `_scan_manifest`: the manifest, and the entry each chunk belongs to. -/
def scanManifest (config : ChunkingConfig) (s : SourceSession) : Run (DedupManifest × List ℕ) := do
  let base ← scanInput u env platform s config.maxSize false
  let t ← forEach (scanChunksOf env platform config s) base.entries.zipIdx {}
  pure (⟨base.kind, base.rootName, t.entries, t.chunks⟩, t.owners)

/-! ### The chunk loop of `encode_dedup_archive` -/

/-- The next occurrence, and the data frames so far: an occurrence with its chunk. -/
structure ChunkFrames where
  occurrence : ℕ := 0
  frames : List (ℕ × Bytes) := []

def encodeChunk (m : DedupManifest) (path : Path) (t : ChunkFrames) (chunk : Bytes) :
    Run ChunkFrames :=
  match m.chunks[t.occurrence]? with
  | none => raise (.python (.runtime "tuple index out of range"))
  | some record => do
      raiseIf (chunk.length ≠ record.size ∨ sha256 chunk ≠ record.digest)
        (osError ("input changed while it was encoded: " ++ path.text))
      pure ⟨t.occurrence + 1,
        if record.sourceIndex = t.occurrence then t.frames ++ [(t.occurrence, chunk)] else t.frames⟩

def encodeDedupEntry (config : ChunkingConfig) (s : SourceSession) (m : DedupManifest)
    (t : ChunkFrames) (e : Entry) : Run ChunkFrames :=
  if e.entryType ≠ entryFile then pure t
  else do
    let relative := if s.rootIsFile then [] else e.relativePath
    let path ← lift (s.pathFor relative)
    let (t', digest) ← s.openFile env platform relative fun descriptor => do
      let reads ← readAll env descriptor
      let chunks := iterContentDefinedChunks config reads
      let t' ← forEach (encodeChunk m path) chunks t
      pure (t', sha256 chunks.flatten)
    raiseIf (digest ≠ e.digest) (osError ("input changed while it was encoded: " ++ path.text))
    pure t'

def encodeDedupFrames (config : ChunkingConfig) (s : SourceSession) (m : DedupManifest) :
    Run (List (ℕ × Bytes)) := do
  let t ← forEach (encodeDedupEntry env platform config s m) m.entries {}
  pure t.frames

end

end MosaicArchive.Source
