import MosaicArchive.Container.Headers
import MosaicArchive.Manifest.Entries

/-!
The `M3MF` manifest of the deduplicating containers
(`mosaic_archive/dedup_archive.py`): a prefix, the root name, the table of
entries and the table of chunk occurrences. Each parsing step is shown to
accept exactly the encodings of the items that may follow.
-/

namespace MosaicArchive.Manifest

open FixedWidth Utf8 ByteParser MosaicArchive.Container

/-- `b"M3MF"` -/
def dedupManifestMagic : Bytes := [0x4d, 0x33, 0x4d, 0x46]
/-- `struct.Struct(">4sBHIQ")` -/
def dedupManifestPrefix : Struct.Layout := [.bytes 4, .uint 1, .uint 2, .uint 4, .uint 8]
/-- `struct.Struct(">32sIQ")` -/
def chunkRecordLayout : Struct.Layout := [.bytes 32, .uint 4, .uint 8]
def maxChunkRecords : ℕ := 16777215

structure ChunkRecord where
  digest : Bytes
  size : ℕ
  sourceIndex : ℕ
  deriving DecidableEq, Inhabited

structure DedupManifest where
  kind : ℕ
  rootName : Text
  entries : List Entry
  chunks : List ChunkRecord
  deriving DecidableEq

/-! ### Serializing -/

def ChunkRecord.pack (c : ChunkRecord) : Option Bytes :=
  Struct.pack chunkRecordLayout (c.digest, c.size, c.sourceIndex, ())

def DedupManifest.packPrefix (m : DedupManifest) : Option Bytes :=
  Struct.pack dedupManifestPrefix (dedupManifestMagic, m.kind, (encode m.rootName).length,
    m.entries.length, m.chunks.length, ())

/-- The serialized manifest; `none` where a field does not fit its width. -/
def serializeDedupManifest (m : DedupManifest) : Option Bytes := do
  let start ← m.packPrefix
  let entries ← encodeAll Entry.pack m.entries
  let chunks ← encodeAll ChunkRecord.pack m.chunks
  pure (start ++ encode m.rootName ++ entries ++ chunks)

theorem serializeDedupManifest_eq_some {m : DedupManifest} {b : Bytes} :
    serializeDedupManifest m = some b ↔ ∃ start entries chunks, m.packPrefix = some start ∧
      encodeAll Entry.pack m.entries = some entries ∧
      encodeAll ChunkRecord.pack m.chunks = some chunks ∧
      b = start ++ encode m.rootName ++ entries ++ chunks := by
  simp only [serializeDedupManifest, Option.bind_eq_bind, Option.bind_eq_some_iff,
    Option.pure_def, Option.some.injEq, exists_and_left]
  constructor
  · rintro ⟨start, hstart, entries, hentries, chunks, hchunks, rfl⟩
    exact ⟨start, hstart, entries, hentries, chunks, hchunks, rfl⟩
  · rintro ⟨start, hstart, entries, hentries, chunks, hchunks, rfl⟩
    exact ⟨start, hstart, entries, hentries, chunks, hchunks, rfl⟩

/-! ### Parsing the entries -/

/-- The exception of `_read_exact`. -/
def msc3Truncated (description : String) : PyError :=
  .archiveFormat ("MSC3 is truncated at " ++ description)

/-- The range checks of one entry. -/
def checkDedupEntry (index nextChunk : ℕ) (e : Entry) : ByteParser PyError Unit :=
  if e.entryType = entryDirectory then
    raiseIf (e.size ≠ 0 ∨ e.first ≠ 0 ∨ e.count ≠ 0 ∨ e.digest ≠ zeroHash)
      (.archiveFormat ("MSC3 directory entry " ++ toString index ++ " is malformed"))
  else
    raiseIf (e.first ≠ nextChunk ∨ ¬ (e.size = 0 ↔ e.count = 0))
      (.archiveFormat ("MSC3 file entry " ++ toString index ++ " chunk range is invalid"))

def parseDedupEntry (u : Unicode) (index : ℕ) (t : EntryTable) : ByteParser PyError EntryTable := do
  let (entryType, pathLength, mode, mtimeNs, size, firstChunk, count, digest, ()) ←
    record entryFixed (msc3Truncated ("entry " ++ toString index))
  raiseIf (entryType ∉ [entryFile, entryDirectory] ∨ 511 < mode)
    (.archiveFormat ("MSC3 entry " ++ toString index ++ " metadata is invalid"))
  let (rawPath, relative) ← parsePath u pathLength
    (msc3Truncated ("entry " ++ toString index ++ " path"))
    (.archiveFormat ("MSC3 entry " ++ toString index ++ " path is unsafe"))
  raiseIf (rawPath ≠ relative ∨ u.casefold relative ∈ t.collisions)
    (.archiveFormat "MSC3 manifest has a noncanonical path collision")
  let entry : Entry :=
    { entryType, relativePath := relative, mode, mtimeNs, size, first := firstChunk, count, digest }
  checkDedupEntry index t.next entry
  pure (t.push u entry)

/-- A file has chunks exactly when it has bytes. -/
def HasChunks (e : Entry) : Prop := e.size = 0 ↔ e.count = 0

theorem accepts_checkDedupEntry {index nextChunk : ℕ} {e : Entry} {input rest : Bytes} {r : Unit}
    (htype : e.entryType = entryFile ∨ e.entryType = entryDirectory) :
    (checkDedupEntry index nextChunk e).Accepts input r rest ↔
      ((e.isDirectory → e.size = 0 ∧ e.first = 0 ∧ e.count = 0 ∧ e.digest = zeroHash) ∧
        (e.isFile → HasChunks e) ∧ (e.isFile → e.first = nextChunk)) ∧ input = rest := by
  unfold checkDedupEntry HasChunks
  rw [isDirectory_iff, isFile_iff htype]
  split
  · rename_i hdir
    simp [hdir, and_assoc]
  · rename_i hfile
    simp [hfile, and_comm]

/-- The body of the entry loop accepts the encodings of the entries that may follow. -/
theorem accepts_parseDedupEntry (u : Unicode) (index : ℕ) (t : EntryTable) (input : Bytes)
    (next : EntryTable) (rest : Bytes) : (parseDedupEntry u index t).Accepts input next rest ↔
      ∃ e b, EntryOk u HasChunks t e ∧ e.pack = some b ∧ next = t.push u e ∧ input = b ++ rest := by
  simp only [parseDedupEntry, accepts_bind, accepts_record]
  constructor
  · rintro ⟨⟨entryType, pathLength, mode, mtimeNs, size, firstChunk, count, digest, ⟨⟩⟩, _,
      ⟨hexact, fixed, hfixed, rfl⟩, hrest⟩
    simp only [accepts_bind, accepts_raiseIf, Prod.exists, accepts_parsePath, accepts_pure, not_or,
      not_not, not_lt] at hrest
    obtain ⟨_, _, ⟨⟨htype, hmode⟩, rfl⟩, raw, relative, _, ⟨hlen, rfl, hvalid⟩, _, _,
      ⟨⟨rfl, hfresh⟩, rfl⟩, _, _, hcheck, rfl, rfl⟩ := hrest
    subst hlen
    let e : Entry := ⟨entryType, raw, mode, mtimeNs, size, firstChunk, count, digest⟩
    have hpath : Canonical u e.relativePath := hvalid
    have htype' : e.entryType = entryFile ∨ e.entryType = entryDirectory := by simpa using htype
    obtain ⟨⟨hdir, hfile, hfirst⟩, rfl⟩ := (accepts_checkDedupEntry htype').mp hcheck
    have hfits : e.Fits := (Entry.exact_fixed (e := e) htype hmode hpath.length_lt).mp hexact
    exact ⟨e, fixed ++ encode raw, ⟨⟨htype', hmode, hpath, hdir, hfile, hfits⟩, hfresh, hfirst⟩,
      Entry.pack_eq_some.mpr ⟨fixed, hfixed, rfl⟩, rfl, (List.append_assoc ..).symm⟩
  · rintro ⟨e, b, ⟨hl, hfresh, hfirst⟩, hb, rfl, rfl⟩
    obtain ⟨fixed, hfixed, rfl⟩ := Entry.pack_eq_some.mp hb
    have htype : e.entryType ∈ [entryFile, entryDirectory] := by simpa using hl.entryType
    have hexact := (Entry.exact_fixed htype hl.mode hl.path.length_lt).mpr hl.fits
    refine ⟨e.fixed, _, ⟨hexact, fixed, hfixed, List.append_assoc ..⟩, ?_⟩
    simp only [Entry.fixed, accepts_bind, accepts_raiseIf, Prod.exists, accepts_parsePath,
      accepts_pure, not_or, not_not, not_lt]
    exact ⟨(), _, ⟨⟨htype, hl.mode⟩, rfl⟩, e.relativePath, e.relativePath, rest,
      ⟨rfl, rfl, hl.path⟩, (), rest, ⟨⟨rfl, hfresh⟩, rfl⟩, (), rest,
      (accepts_checkDedupEntry hl.entryType).mpr ⟨⟨hl.directory, hl.file, hfirst⟩, rfl⟩, rfl, rfl⟩

/-- The entry loop accepts the encodings of the lists that may be pushed. -/
theorem accepts_entryLoop {u : Unicode} {count : ℕ} {t : EntryTable} {input rest : Bytes} :
    (forRange (parseDedupEntry u) count 0 {}).Accepts input t rest ↔
      ∃ es b, es.length = count ∧
        Along (fun _ => EntryOk u HasChunks) (fun _ => EntryTable.push u) 0 {} es ∧
        encodeAll Entry.pack es = some b ∧
        t = pushAll (fun _ => EntryTable.push u) 0 {} es ∧ input = b ++ rest :=
  accepts_forRange (accepts_parseDedupEntry u)

/-! ### Parsing the chunks -/

/-- The variables of the chunk loop. -/
structure ChunkTable where
  chunks : List ChunkRecord := []
  uniqueCount : ℕ := 0

def ChunkTable.push (index : ℕ) (t : ChunkTable) (c : ChunkRecord) : ChunkTable where
  chunks := t.chunks ++ [c]
  uniqueCount := if c.sourceIndex = index then t.uniqueCount + 1 else t.uniqueCount

/-- The checks of a reference to an earlier chunk. -/
def checkReference (index : ℕ) (chunks : List ChunkRecord) (c : ChunkRecord) :
    ByteParser PyError Unit :=
  if c.sourceIndex = index then pure ()
  else do
    raiseIf (index ≤ c.sourceIndex) (.archiveFormat "MSC3 dedup references must point backward")
    let canonical := chunks.getD c.sourceIndex default
    raiseIf (canonical.sourceIndex ≠ c.sourceIndex)
      (.archiveFormat "MSC3 dedup reference chains are forbidden")
    raiseIf (canonical.digest ≠ c.digest ∨ canonical.size ≠ c.size)
      (.archiveFormat "MSC3 dedup reference metadata is inconsistent")

def parseChunk (maxChunkSize index : ℕ) (t : ChunkTable) : ByteParser PyError ChunkTable := do
  let (digest, size, source, ()) ←
    record chunkRecordLayout (msc3Truncated ("chunk " ++ toString index))
  raiseIf (¬ (1 ≤ size ∧ size ≤ maxChunkSize))
    (.archiveFormat ("MSC3 chunk " ++ toString index ++ " has an invalid size"))
  checkReference index t.chunks ⟨digest, size, source⟩
  pure (t.push index ⟨digest, size, source⟩)

/-- A chunk that may follow the chunks of the table. -/
structure ChunkOk (maxChunkSize index : ℕ) (t : ChunkTable) (c : ChunkRecord) : Prop where
  size : 1 ≤ c.size ∧ c.size ≤ maxChunkSize
  source : c.sourceIndex = index ∨ c.sourceIndex < index ∧
    (t.chunks.getD c.sourceIndex default).sourceIndex = c.sourceIndex ∧
    (t.chunks.getD c.sourceIndex default).digest = c.digest ∧
    (t.chunks.getD c.sourceIndex default).size = c.size
  fits : c.digest.length = 32 ∧ c.size < 256 ^ 4 ∧ c.sourceIndex < 256 ^ 8

theorem accepts_checkReference {index : ℕ} {chunks : List ChunkRecord} {c : ChunkRecord}
    {input rest : Bytes} {r : Unit} : (checkReference index chunks c).Accepts input r rest ↔
      (c.sourceIndex = index ∨ c.sourceIndex < index ∧
        (chunks.getD c.sourceIndex default).sourceIndex = c.sourceIndex ∧
        (chunks.getD c.sourceIndex default).digest = c.digest ∧
        (chunks.getD c.sourceIndex default).size = c.size) ∧ input = rest := by
  unfold checkReference
  split
  · rename_i hself
    simp [hself]
  · rename_i hother
    simp [hother, and_assoc]

/-- The body of the chunk loop accepts the encodings of the chunks that may follow. -/
theorem accepts_parseChunk (maxChunkSize index : ℕ) (t : ChunkTable) (input : Bytes)
    (next : ChunkTable) (rest : Bytes) :
    (parseChunk maxChunkSize index t).Accepts input next rest ↔
      ∃ c b, ChunkOk maxChunkSize index t c ∧ c.pack = some b ∧ next = t.push index c ∧
        input = b ++ rest := by
  simp only [parseChunk, accepts_bind, accepts_record]
  constructor
  · rintro ⟨⟨digest, size, source, ⟨⟩⟩, _, ⟨hexact, b, hb, rfl⟩, hrest⟩
    simp only [accepts_bind, accepts_raiseIf, accepts_checkReference, accepts_pure, not_not]
      at hrest
    obtain ⟨_, _, ⟨hsize, rfl⟩, _, _, ⟨hsource, rfl⟩, rfl, rfl⟩ := hrest
    exact ⟨⟨digest, size, source⟩, b, ⟨hsize, hsource, hexact.1, hexact.2.1, hexact.2.2.1⟩, hb,
      rfl, rfl⟩
  · rintro ⟨c, b, hok, hb, rfl, rfl⟩
    obtain ⟨hdigest, hsize, hsource⟩ := hok.fits
    have hexact : Struct.Exact chunkRecordLayout (c.digest, c.size, c.sourceIndex, ()) :=
      ⟨hdigest, hsize, hsource, trivial⟩
    refine ⟨_, _, ⟨hexact, b, hb, rfl⟩, ?_⟩
    simp only [accepts_bind, accepts_raiseIf, accepts_checkReference, accepts_pure, not_not]
    exact ⟨(), rest, ⟨hok.size, rfl⟩, (), rest, ⟨hok.source, rfl⟩, trivial, rfl⟩

/-- The chunk loop accepts the encodings of the lists that may be pushed. -/
theorem accepts_chunkLoop {maxChunkSize count : ℕ} {t : ChunkTable} {input rest : Bytes} :
    (forRange (parseChunk maxChunkSize) count 0 {}).Accepts input t rest ↔
      ∃ cs b, cs.length = count ∧ Along (ChunkOk maxChunkSize) ChunkTable.push 0 {} cs ∧
        encodeAll ChunkRecord.pack cs = some b ∧ t = pushAll ChunkTable.push 0 {} cs ∧
        input = b ++ rest :=
  accepts_forRange (accepts_parseChunk maxChunkSize)

/-! ### The manifest -/

/-- `sum(chunk.size for chunk in chunks[first : first + count])` -/
def rangeSize (chunks : List ChunkRecord) (first count : ℕ) : ℕ :=
  (((chunks.drop first).take count).map ChunkRecord.size).sum

/-- The checks of the manifest after both tables, in order. -/
def checkDedupManifest (header : Msc3Header) (uniqueCount : ℕ) (trailing : Bytes)
    (m : DedupManifest) : Except PyError Unit := do
  Except.raiseIf (trailing ≠ []) (.archiveFormat "MSC3 manifest contains trailing bytes")
  Except.raiseIf (uniqueCount + 1 ≠ header.frameCount)
    (.archiveFormat "MSC3 unique chunks do not match the public frame count")
  Except.raiseIf (∃ e ∈ m.entries, e.isFile ∧
      rangeSize m.chunks e.first e.count ≠ e.size)
    (.archiveFormat "MSC3 chunk sizes do not match their file size")
  Except.raiseIf (m.kind = kindFile ∧ ¬ SingleFile m.entries m.rootName)
    (.archiveFormat "MSC3 single-file manifest is malformed")
  Except.raiseIf (m.kind = kindFolder ∧ OmitsParent m.entries)
    (.archiveFormat "MSC3 manifest omits a required parent directory")

def parseDedupManifestFrom (u : Unicode) (header : Msc3Header) :
    ByteParser PyError DedupManifest := do
  let (magic, kind, rootLength, entryCount, chunkCount, ()) ←
    record dedupManifestPrefix (msc3Truncated "manifest prefix")
  raiseIf (magic ≠ dedupManifestMagic ∨ kind ∉ [kindFile, kindFolder])
    (.archiveFormat "MSC3 manifest prefix is invalid")
  raiseIf (maxEntryCount < entryCount ∨ maxChunkRecords < chunkCount)
    (.archiveFormat "MSC3 manifest exceeds entry or chunk limits")
  let (rawRoot, rootName) ← parsePath u rootLength (msc3Truncated "root name")
    (.archiveFormat "MSC3 root name is invalid")
  raiseIf (rawRoot ≠ rootName ∨ '/' ∈ rootName)
    (.archiveFormat "MSC3 root name is not canonical")
  let entryTable ← forRange (parseDedupEntry u) entryCount 0 {}
  raiseIf (entryTable.next ≠ chunkCount)
    (.archiveFormat "MSC3 file chunk ranges do not cover the chunk table")
  let chunkTable ← forRange (parseChunk header.maxChunkSize) chunkCount 0 {}
  let manifest : DedupManifest :=
    { kind, rootName, entries := entryTable.entries, chunks := chunkTable.chunks }
  let trailing ← read 1
  lift (checkDedupManifest header chunkTable.uniqueCount trailing manifest)
  pure manifest

/-- `parse_dedup_manifest(data, header)` -/
def parseDedupManifest (u : Unicode) (data : Bytes) (header : Msc3Header) :
    Except PyError DedupManifest :=
  (parseDedupManifestFrom u header data).map Prod.fst

end MosaicArchive.Manifest
