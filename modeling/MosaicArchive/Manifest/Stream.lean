import MosaicArchive.Container.Headers
import MosaicArchive.Manifest.Entries

/-!
The `M2MF` manifest of the framed container (`mosaic_archive/stream_archive.py`):
a prefix, the root name and the entries with their ranges of data frames. The
parser accepts exactly the serializations of the manifests whose ranges are
those of the header's chunk size.
-/

namespace MosaicArchive.Manifest

open FixedWidth Utf8 ByteParser MosaicArchive.Container

/-- `b"M2MF"` -/
def manifestMagic : Bytes := [0x4d, 0x32, 0x4d, 0x46]
/-- `struct.Struct(">4sBHI")` -/
def manifestPrefix : Struct.Layout := [.bytes 4, .uint 1, .uint 2, .uint 4]

structure StreamManifest where
  kind : ℕ
  rootName : Text
  entries : List Entry
  deriving DecidableEq

/-- The files of a manifest in order. -/
def StreamManifest.files (m : StreamManifest) : List Entry := m.entries.filter Entry.isFile

def StreamManifest.packPrefix (m : StreamManifest) : Option Bytes :=
  Struct.pack manifestPrefix (manifestMagic, m.kind, (encode m.rootName).length,
    m.entries.length, ())

/-- The serialized manifest; `none` where a field does not fit its width. -/
def serializeManifest (m : StreamManifest) : Option Bytes := do
  let start ← m.packPrefix
  let entries ← encodeAll Entry.pack m.entries
  pure (start ++ encode m.rootName ++ entries)

theorem serializeManifest_eq_some {m : StreamManifest} {b : Bytes} :
    serializeManifest m = some b ↔ ∃ start entries, m.packPrefix = some start ∧
      encodeAll Entry.pack m.entries = some entries ∧ b = start ++ encode m.rootName ++ entries := by
  simp only [serializeManifest, Option.bind_eq_bind, Option.bind_eq_some_iff, Option.pure_def,
    Option.some.injEq, exists_and_left]
  constructor
  · rintro ⟨start, hstart, entries, hentries, rfl⟩
    exact ⟨start, hstart, entries, hentries, rfl⟩
  · rintro ⟨start, hstart, entries, hentries, rfl⟩
    exact ⟨start, hstart, entries, hentries, rfl⟩

/-! ### Parsing the entries -/

/-- The exception of `_read_exact`. -/
def msc2Truncated (description : String) : PyError :=
  .archiveFormat ("MSC2 metadata is truncated at " ++ description)

/-- `(size + chunk_size - 1) // chunk_size` -/
def requiredFrames (size chunkSize : ℕ) : Except PyError ℕ :=
  if chunkSize = 0 then .error .zeroDivision else .ok ((size + chunkSize - 1) / chunkSize)

/-- The range checks of one entry. -/
def checkEntry (chunkSize index nextFrame : ℕ) (e : Entry) : ByteParser PyError Unit :=
  if e.entryType = entryDirectory then
    raiseIf (e.size ≠ 0 ∨ e.first ≠ 0 ∨ e.count ≠ 0 ∨ e.digest ≠ zeroHash)
      (.archiveFormat ("MSC2 directory entry " ++ toString index ++ " is malformed"))
  else do
    let required ← lift (requiredFrames e.size chunkSize)
    raiseIf (e.count ≠ required ∨ e.first ≠ nextFrame)
      (.archiveFormat ("MSC2 file entry " ++ toString index ++ " frame range is invalid"))

def parseEntry (u : Unicode) (chunkSize index : ℕ) (t : EntryTable) :
    ByteParser PyError EntryTable := do
  let (entryType, pathLength, mode, mtimeNs, size, firstFrame, frameCount, digest, ()) ←
    record entryFixed (msc2Truncated ("entry " ++ toString index))
  raiseIf (entryType ∉ [entryFile, entryDirectory])
    (.archiveFormat ("MSC2 entry " ++ toString index ++ " has an unknown type"))
  let (rawPath, relativePath) ← parsePath u pathLength
    (msc2Truncated ("entry " ++ toString index ++ " path"))
    (.archiveFormat ("MSC2 entry " ++ toString index ++ " has an unsafe path"))
  raiseIf (relativePath ≠ rawPath)
    (.archiveFormat ("MSC2 entry " ++ toString index ++ " path is not canonical"))
  raiseIf (u.casefold relativePath ∈ t.collisions)
    (.archiveFormat "MSC2 manifest contains a portable path collision")
  raiseIf (511 < mode) (.archiveFormat ("MSC2 entry " ++ toString index ++ " mode is invalid"))
  let entry : Entry :=
    { entryType, relativePath, mode, mtimeNs, size, first := firstFrame, count := frameCount,
      digest }
  checkEntry chunkSize index t.next entry
  pure (t.push u entry)

/-- A file has the frames its size needs. -/
def HasFrames (chunkSize : ℕ) (e : Entry) : Prop :=
  chunkSize ≠ 0 ∧ e.count = (e.size + chunkSize - 1) / chunkSize

theorem requiredFrames_eq_ok {size chunkSize n : ℕ} :
    requiredFrames size chunkSize = .ok n ↔
      chunkSize ≠ 0 ∧ n = (size + chunkSize - 1) / chunkSize := by
  unfold requiredFrames
  split
  · rename_i h
    simp [h]
  · rename_i h
    simp [h, eq_comm]

theorem accepts_checkEntry {chunkSize index nextFrame : ℕ} {e : Entry} {input rest : Bytes}
    {r : Unit} (htype : e.entryType = entryFile ∨ e.entryType = entryDirectory) :
    (checkEntry chunkSize index nextFrame e).Accepts input r rest ↔
      ((e.isDirectory → e.size = 0 ∧ e.first = 0 ∧ e.count = 0 ∧ e.digest = zeroHash) ∧
        (e.isFile → HasFrames chunkSize e) ∧ (e.isFile → e.first = nextFrame)) ∧
      input = rest := by
  unfold checkEntry HasFrames
  rw [isDirectory_iff, isFile_iff htype]
  split
  · rename_i hdir
    simp [hdir, and_assoc]
  · rename_i hfile
    simp only [accepts_bind, accepts_lift, requiredFrames_eq_ok, accepts_raiseIf, not_or, not_not]
    constructor
    · rintro ⟨_, _, ⟨⟨hchunk, rfl⟩, rfl⟩, ⟨hcount, hfirst⟩, rfl⟩
      exact ⟨⟨fun h => absurd h hfile, fun _ => ⟨hchunk, hcount⟩, fun _ => hfirst⟩, rfl⟩
    · rintro ⟨⟨-, hframes, hfirst⟩, rfl⟩
      obtain ⟨hchunk, hcount⟩ := hframes hfile
      exact ⟨_, _, ⟨⟨hchunk, rfl⟩, rfl⟩, ⟨hcount, hfirst hfile⟩, rfl⟩

/-- The body of the entry loop accepts the encodings of the entries that may follow. -/
theorem accepts_parseEntry (u : Unicode) (chunkSize index : ℕ) (t : EntryTable) (input : Bytes)
    (next : EntryTable) (rest : Bytes) :
    (parseEntry u chunkSize index t).Accepts input next rest ↔
      ∃ e b, EntryOk u (HasFrames chunkSize) t e ∧ e.pack = some b ∧ next = t.push u e ∧
        input = b ++ rest := by
  simp only [parseEntry, accepts_bind, accepts_record]
  constructor
  · rintro ⟨⟨entryType, pathLength, mode, mtimeNs, size, firstFrame, frameCount, digest, ⟨⟩⟩, _,
      ⟨hexact, fixed, hfixed, rfl⟩, hrest⟩
    simp only [accepts_bind, accepts_raiseIf, Prod.exists, accepts_parsePath, accepts_pure,
      not_not, not_lt] at hrest
    obtain ⟨_, _, ⟨htype, rfl⟩, raw, relative, _, ⟨hlen, rfl, hvalid⟩, _, _, ⟨rfl, rfl⟩, _, _,
      ⟨hfresh, rfl⟩, _, _, ⟨hmode, rfl⟩, _, _, hcheck, rfl, rfl⟩ := hrest
    subst hlen
    let e : Entry := ⟨entryType, relative, mode, mtimeNs, size, firstFrame, frameCount, digest⟩
    have hpath : Canonical u e.relativePath := hvalid
    have htype' : e.entryType = entryFile ∨ e.entryType = entryDirectory := by simpa using htype
    obtain ⟨⟨hdir, hfile, hfirst⟩, rfl⟩ := (accepts_checkEntry htype').mp hcheck
    have hfits : e.Fits := (Entry.exact_fixed (e := e) htype hmode hpath.length_lt).mp hexact
    exact ⟨e, fixed ++ encode relative, ⟨⟨htype', hmode, hpath, hdir, hfile, hfits⟩, hfresh, hfirst⟩,
      Entry.pack_eq_some.mpr ⟨fixed, hfixed, rfl⟩, rfl, (List.append_assoc ..).symm⟩
  · rintro ⟨e, b, ⟨hl, hfresh, hfirst⟩, hb, rfl, rfl⟩
    obtain ⟨fixed, hfixed, rfl⟩ := Entry.pack_eq_some.mp hb
    have htype : e.entryType ∈ [entryFile, entryDirectory] := by simpa using hl.entryType
    have hexact := (Entry.exact_fixed htype hl.mode hl.path.length_lt).mpr hl.fits
    refine ⟨e.fixed, _, ⟨hexact, fixed, hfixed, List.append_assoc ..⟩, ?_⟩
    simp only [Entry.fixed, accepts_bind, accepts_raiseIf, Prod.exists, accepts_parsePath,
      accepts_pure, not_not, not_lt]
    exact ⟨(), _, ⟨htype, rfl⟩, e.relativePath, e.relativePath, rest, ⟨rfl, rfl, hl.path⟩, (), rest,
      ⟨rfl, rfl⟩, (), rest, ⟨hfresh, rfl⟩, (), rest, ⟨hl.mode, rfl⟩, (), rest,
      (accepts_checkEntry hl.entryType).mpr ⟨⟨hl.directory, hl.file, hfirst⟩, rfl⟩, rfl, rfl⟩

/-- The entry loop, which starts at frame 1, accepts the encodings of the lists
that may be pushed. -/
theorem accepts_streamLoop {u : Unicode} {chunkSize count : ℕ} {t : EntryTable}
    {input rest : Bytes} :
    (forRange (parseEntry u chunkSize) count 0 { next := 1 }).Accepts input t rest ↔
      ∃ es b, es.length = count ∧ Along (fun _ => EntryOk u (HasFrames chunkSize))
          (fun _ => EntryTable.push u) 0 { next := 1 } es ∧
        encodeAll Entry.pack es = some b ∧
        t = pushAll (fun _ => EntryTable.push u) 0 { next := 1 } es ∧ input = b ++ rest :=
  accepts_forRange (accepts_parseEntry u chunkSize)

/-! ### The manifest -/

/-- The checks of the manifest after its entries, in order. -/
def checkManifest (header : Msc2Header) (nextFrame : ℕ) (trailing : Bytes) (m : StreamManifest) :
    Except PyError Unit := do
  Except.raiseIf (trailing ≠ []) (.archiveFormat "MSC2 manifest contains trailing bytes")
  Except.raiseIf (nextFrame ≠ header.frameCount)
    (.archiveFormat "MSC2 manifest frame ranges do not match the public header")
  Except.raiseIf (m.kind = kindFile ∧ ¬ SingleFile m.entries m.rootName)
    (.archiveFormat "MSC2 single-file manifest is malformed")
  Except.raiseIf (m.kind ≠ kindFile ∧ OmitsParent m.entries)
    (.archiveFormat "MSC2 manifest omits a required parent directory")

def parseManifestFrom (u : Unicode) (header : Msc2Header) : ByteParser PyError StreamManifest := do
  let (magic, kind, rootLength, entryCount, ()) ←
    record manifestPrefix (msc2Truncated "manifest prefix")
  raiseIf (magic ≠ manifestMagic ∨ kind ∉ [kindFile, kindFolder])
    (.archiveFormat "MSC2 manifest prefix is invalid")
  raiseIf (maxEntryCount < entryCount) (.archiveFormat "MSC2 manifest has too many entries")
  let (rawRootName, rootName) ← parsePath u rootLength (msc2Truncated "root name")
    (.archiveFormat "MSC2 root name is invalid")
  raiseIf ('/' ∈ rootName ∨ rootName ≠ rawRootName)
    (.archiveFormat "MSC2 root name is not a canonical basename")
  let table ← forRange (parseEntry u header.chunkSize) entryCount 0 { next := 1 }
  let manifest : StreamManifest := { kind, rootName, entries := table.entries }
  let trailing ← read 1
  lift (checkManifest header table.next trailing manifest)
  pure manifest

/-- `parse_manifest(data, header)` -/
def parseManifest (u : Unicode) (data : Bytes) (header : Msc2Header) :
    Except PyError StreamManifest :=
  (parseManifestFrom u header data).map Prod.fst

/-- What the parser checks, in terms of the finished manifest. -/
structure StreamParsed (u : Unicode) (h : Msc2Header) (m : StreamManifest) : Prop where
  kind : m.kind = kindFile ∨ m.kind = kindFolder
  limit : m.entries.length ≤ maxEntryCount
  rootName : Canonical u m.rootName ∧ '/' ∉ m.rootName
  entries : ∀ e ∈ m.entries, Listed u (HasFrames h.chunkSize) e
  paths : (m.entries.map fun e => u.casefold e.relativePath).Nodup
  ranges : Consecutive 1 m.files h.frameCount
  single : m.kind = kindFile → ∃ e, m.entries = [e] ∧ e.isFile ∧ e.relativePath = m.rootName
  parents : m.kind = kindFolder → ∀ e ∈ m.entries, parentPosix e.relativePath = ['.'] ∨
    ∃ d ∈ m.entries, d.isDirectory ∧ d.relativePath = parentPosix e.relativePath

theorem checkManifest_eq_ok {header : Msc2Header} {nextFrame : ℕ} {trailing : Bytes}
    {m : StreamManifest} {r : Unit} : checkManifest header nextFrame trailing m = .ok r ↔
      trailing = [] ∧ nextFrame = header.frameCount ∧
        (m.kind = kindFile → ∃ e, m.entries = [e] ∧ e.isFile ∧ e.relativePath = m.rootName) ∧
        (m.kind ≠ kindFile → ∀ e ∈ m.entries, parentPosix e.relativePath = ['.'] ∨
          ∃ d ∈ m.entries, d.isDirectory ∧ d.relativePath = parentPosix e.relativePath) := by
  simp only [checkManifest, Except.bind_eq_ok_iff, Except.raiseIf_eq_ok, not_not, not_and,
    singleFile_iff, not_omitsParent_iff, exists_and_left, exists_const]

/-- The conditions of the loop, in terms of its table. -/
theorem streamParsed_iff {u : Unicode} {h : Msc2Header} {m : StreamManifest} :
    StreamParsed u h m ↔ m.kind ∈ [kindFile, kindFolder] ∧ m.entries.length ≤ maxEntryCount ∧
      (Canonical u m.rootName ∧ '/' ∉ m.rootName) ∧
      Along (fun _ => EntryOk u (HasFrames h.chunkSize)) (fun _ => EntryTable.push u) 0 { next := 1 }
        m.entries ∧
      checkManifest h (pushAll (fun _ => EntryTable.push u) 0 { next := 1 } m.entries).next [] m
        = .ok () := by
  rw [along_entryOk, checkManifest_eq_ok]
  constructor
  · intro hm
    have hnext := @pushAll_next u 0 { next := 1 } _ _
      (fun e he => (hm.entries e he).entryType) hm.ranges
    refine ⟨by simpa using hm.kind, hm.limit, hm.rootName, ⟨hm.entries, hm.paths, by simp, ?_⟩,
      rfl, hnext, hm.single, fun hk => hm.parents (hm.kind.resolve_left hk)⟩
    rw [hnext]
    exact hm.ranges
  · rintro ⟨hkind, hlimit, hroot, ⟨hentries, hpaths, -, hranges⟩, -, hnext, hsingle, hparents⟩
    rw [hnext] at hranges
    refine ⟨by simpa using hkind, hlimit, hroot, hentries, hpaths, hranges, hsingle, ?_⟩
    intro hfolder
    apply hparents
    rw [hfolder]
    decide

theorem StreamParsed.exact_prefix {u : Unicode} {h : Msc2Header} {m : StreamManifest}
    (hm : StreamParsed u h m) : Struct.Exact manifestPrefix (manifestMagic, m.kind,
      (encode m.rootName).length, m.entries.length, ()) := by
  have hlimit := hm.limit
  simp only [maxEntryCount] at hlimit
  have hkind : m.kind < 256 ^ 1 := by
    rcases hm.kind with h | h <;> rw [h] <;> decide
  have hroot := hm.rootName.1.length_lt
  exact ⟨rfl, hkind, hroot, by show m.entries.length < 256 ^ 4; omega, trivial⟩

/-- The parser accepts exactly the serializations of the manifests that pass its checks. -/
theorem parseManifest_eq_ok {u : Unicode} {b : Bytes} {h : Msc2Header} {m : StreamManifest} :
    parseManifest u b h = .ok m ↔ StreamParsed u h m ∧ serializeManifest m = some b := by
  have haccepts : parseManifest u b h = .ok m ↔
      ∃ rest, (parseManifestFrom u h).Accepts b m rest := by
    unfold parseManifest Accepts
    rcases parseManifestFrom u h b with e | ⟨m', rest⟩ <;> simp [Except.map]
  rw [haccepts]
  simp only [parseManifestFrom, accepts_bind, accepts_record]
  constructor
  · rintro ⟨_, ⟨magic, kind, rootLength, entryCount, ⟨⟩⟩, _, ⟨_, start, hstart, rfl⟩, hrest⟩
    simp only [accepts_bind, accepts_raiseIf, Prod.exists, accepts_parsePath, accepts_read,
      accepts_lift, accepts_pure, accepts_streamLoop, not_or, not_not, not_lt] at hrest
    obtain ⟨_, _, ⟨⟨rfl, hkind⟩, rfl⟩, _, _, ⟨hcount, rfl⟩, raw, root, _,
      ⟨hlen, rfl, hroot⟩, _, _, ⟨⟨hslash, rfl⟩, rfl⟩, table, _,
      ⟨entries, entryBytes, rfl, hentries, hentryBytes, rfl, rfl⟩, trailing, _,
      ⟨rfl, rfl⟩, _, _, ⟨hcheck, rfl⟩, rfl, rfl⟩ := hrest
    subst hlen
    simp only [pushAll_entries, List.nil_append] at hcheck ⊢
    have htrailing := (checkManifest_eq_ok.mp hcheck).1
    rw [htrailing] at hcheck
    refine ⟨streamParsed_iff.mpr ⟨hkind, hcount, ⟨hroot, hslash⟩, hentries, hcheck⟩, ?_⟩
    rw [serializeManifest_eq_some]
    refine ⟨start, entryBytes, hstart, hentryBytes, ?_⟩
    have hrest : ∀ rest : Bytes, rest.take 1 = [] → rest = [] := by
      intro rest hrest
      simpa using hrest
    rw [hrest _ htrailing]
    simp
  · rintro ⟨hm, hb⟩
    obtain ⟨start, entryBytes, hstart, hentryBytes, rfl⟩ := serializeManifest_eq_some.mp hb
    obtain ⟨hkind, hcount, ⟨hroot, hslash⟩, hentries, hcheck⟩ := streamParsed_iff.mp hm
    refine ⟨[], _, encode m.rootName ++ (entryBytes ++ []),
      ⟨hm.exact_prefix, start, hstart, by simp⟩, ?_⟩
    simp only [accepts_bind, accepts_raiseIf, Prod.exists, accepts_parsePath, accepts_read,
      accepts_lift, accepts_pure, accepts_streamLoop, not_or, not_not, not_lt]
    have hmanifest : m = ⟨m.kind, m.rootName,
        (pushAll (fun _ => EntryTable.push u) 0 { next := 1 } m.entries).entries⟩ := by
      rw [pushAll_entries]
      rfl
    refine ⟨(), _, ⟨⟨trivial, hkind⟩, rfl⟩, (), _, ⟨hcount, rfl⟩, m.rootName, m.rootName, _,
      ⟨rfl, rfl, hroot⟩, (), _, ⟨⟨hslash, rfl⟩, rfl⟩, _, _,
      ⟨m.entries, entryBytes, rfl, hentries, hentryBytes, rfl, rfl⟩, [], [], ⟨rfl, rfl⟩, (), [],
      ⟨?_, rfl⟩, hmanifest, rfl⟩
    rw [← hmanifest]
    exact hcheck

end MosaicArchive.Manifest
