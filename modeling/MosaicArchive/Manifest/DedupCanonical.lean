import MosaicArchive.Manifest.Dedup

/-!
The `M3MF` codec is exact: the parser accepts a byte string with a manifest
just when the manifest is well formed for the header, its fields are within the
limits of the format, and the byte string is its serialization. The loops give
conditions on running tables; these are turned here into conditions on the
finished manifest.
-/

namespace MosaicArchive.Manifest

open FixedWidth Utf8 ByteParser MosaicArchive.Container

/-! ### Well-formed manifests -/

/-- The files of a manifest in order. -/
def DedupManifest.files (m : DedupManifest) : List Entry := m.entries.filter Entry.isFile

/-- The occurrence is its own source, or repeats an earlier one that is. -/
def OccurrenceOk (chunks : List ChunkRecord) (index : ℕ) (c : ChunkRecord) : Prop :=
  c.sourceIndex = index ∨
    c.sourceIndex < index ∧ ∃ canonical, chunks[c.sourceIndex]? = some canonical ∧
      canonical.sourceIndex = c.sourceIndex ∧ canonical.digest = c.digest ∧
      canonical.size = c.size

/-- The number of occurrences that are their own source. -/
def DedupManifest.uniqueCount (m : DedupManifest) : ℕ :=
  (m.chunks.zipIdx.filter fun (c, index) => c.sourceIndex = index).length

/-- The manifests a header admits, apart from the limits of the format. -/
structure WellFormed (u : Unicode) (h : Msc3Header) (m : DedupManifest) : Prop where
  kind : m.kind = kindFile ∨ m.kind = kindFolder
  entryTypes : ∀ e ∈ m.entries, e.entryType = entryFile ∨ e.entryType = entryDirectory
  /-- File chunk ranges are consecutive and cover the chunk table. -/
  ranges : Consecutive 0 m.files m.chunks.length
  fileSizes : ∀ e ∈ m.files, e.size = rangeSize m.chunks e.first e.count ∧
    (e.size = 0 ↔ e.count = 0)
  occurrences : ∀ index c, m.chunks[index]? = some c → OccurrenceOk m.chunks index c
  chunkSizes : ∀ c ∈ m.chunks, 1 ≤ c.size ∧ c.size ≤ h.maxChunkSize
  frameCount : m.uniqueCount + 1 = h.frameCount
  paths : (m.entries.map fun e => u.casefold e.relativePath).Nodup
  parents : ∀ e ∈ m.entries, parentPosix e.relativePath = ['.'] ∨
    ∃ d ∈ m.entries, d.isDirectory ∧ d.relativePath = parentPosix e.relativePath
  directories : ∀ e ∈ m.entries, e.isDirectory →
    e.size = 0 ∧ e.first = 0 ∧ e.count = 0 ∧ e.digest = zeroHash
  single : m.kind = kindFile → ∃ e, m.entries = [e] ∧ e.isFile ∧ e.relativePath = m.rootName

/-- The limits of the format: canonical names, permission bits, table sizes and
the widths of the fields. -/
structure Representable (u : Unicode) (m : DedupManifest) : Prop where
  rootName : Canonical u m.rootName ∧ '/' ∉ m.rootName
  entryLimit : m.entries.length ≤ maxEntryCount
  chunkLimit : m.chunks.length ≤ maxChunkRecords
  entries : ∀ e ∈ m.entries, Canonical u e.relativePath ∧ e.mode ≤ 511 ∧
    -2 ^ 63 ≤ e.mtimeNs ∧ e.mtimeNs < 2 ^ 63 ∧ e.size < 256 ^ 8 ∧ e.digest.length = 32
  chunks : ∀ c ∈ m.chunks, c.digest.length = 32 ∧ c.size < 256 ^ 4

/-! ### The chunk loop -/

theorem pushAll_chunks (index : ℕ) (t : ChunkTable) (cs : List ChunkRecord) :
    (pushAll ChunkTable.push index t cs).chunks = t.chunks ++ cs := by
  induction cs generalizing index t with
  | nil => simp
  | cons c cs ih => simp [ih, ChunkTable.push]

theorem pushAll_uniqueCount (index : ℕ) (t : ChunkTable) (cs : List ChunkRecord) :
    (pushAll ChunkTable.push index t cs).uniqueCount =
      t.uniqueCount +
        ((cs.zipIdx index).filter fun (c, index) => c.sourceIndex = index).length := by
  induction cs generalizing index t with
  | nil => simp
  | cons c cs ih =>
      rw [pushAll_cons, ih, List.zipIdx_cons, List.filter_cons]
      by_cases h : c.sourceIndex = index
      · simp only [ChunkTable.push, h, if_true, decide_true, List.length_cons]
        omega
      · simp [ChunkTable.push, h]

/-- Looking a chunk up among those read so far is looking it up in the whole table. -/
theorem occurrenceOk_append {before after : List ChunkRecord} {c : ChunkRecord} :
    OccurrenceOk (before ++ after) before.length c ↔
      c.sourceIndex = before.length ∨ c.sourceIndex < before.length ∧
        (before.getD c.sourceIndex default).sourceIndex = c.sourceIndex ∧
        (before.getD c.sourceIndex default).digest = c.digest ∧
        (before.getD c.sourceIndex default).size = c.size := by
  apply or_congr_right
  apply and_congr_right
  intro hlt
  have hget : (before ++ after)[c.sourceIndex]? = some (before.getD c.sourceIndex default) := by
    rw [List.getElem?_append_left hlt, List.getD_eq_getElem?_getD,
      List.getElem?_eq_getElem hlt]
    rfl
  rw [hget]
  simp

/-- Running the chunk loop along a list is possible exactly when every size is
in range and every reference is sound in the finished table. -/
theorem along_chunkOk {maxChunkSize index : ℕ} {t : ChunkTable} {cs : List ChunkRecord}
    (hindex : t.chunks.length = index) :
    Along (ChunkOk maxChunkSize) ChunkTable.push index t cs ↔
      (∀ c ∈ cs, (1 ≤ c.size ∧ c.size ≤ maxChunkSize) ∧
        c.digest.length = 32 ∧ c.size < 256 ^ 4 ∧ c.sourceIndex < 256 ^ 8) ∧
      ∀ i c, cs[i]? = some c → OccurrenceOk (t.chunks ++ cs) (index + i) c := by
  induction cs generalizing index t with
  | nil => simp
  | cons c cs ih =>
      have hlen : (ChunkTable.push index t c).chunks.length = index + 1 := by
        simp [ChunkTable.push, hindex]
      have hchunks : (ChunkTable.push index t c).chunks ++ cs = t.chunks ++ c :: cs := by
        simp [ChunkTable.push]
      have hfirst : ChunkOk maxChunkSize index t c ↔
          ((1 ≤ c.size ∧ c.size ≤ maxChunkSize) ∧
            c.digest.length = 32 ∧ c.size < 256 ^ 4 ∧ c.sourceIndex < 256 ^ 8) ∧
          OccurrenceOk (t.chunks ++ c :: cs) index c := by
        subst hindex
        rw [occurrenceOk_append]
        constructor
        · intro h
          exact ⟨⟨h.size, h.fits⟩, h.source⟩
        · rintro ⟨⟨hsize, hfits⟩, hsource⟩
          exact ⟨hsize, hsource, hfits⟩
      rw [along_cons, ih hlen, hchunks, hfirst, List.forall_mem_cons]
      constructor
      · rintro ⟨⟨hbounds, hsource⟩, hall, hrest⟩
        refine ⟨⟨hbounds, hall⟩, ?_⟩
        intro i c' hc'
        cases i with
        | zero =>
            obtain rfl := Option.some.inj hc'
            exact hsource
        | succ i =>
            have hrest' := hrest i c' hc'
            rwa [Nat.add_right_comm] at hrest'
      · rintro ⟨⟨hbounds, hall⟩, hrest⟩
        refine ⟨⟨hbounds, hrest 0 c rfl⟩, hall, ?_⟩
        intro i c' hc'
        have hrest' := hrest (i + 1) c' hc'
        rwa [← Nat.add_assoc, Nat.add_right_comm] at hrest'

/-! ### The final checks -/

theorem checkDedupManifest_eq_ok {header : Msc3Header} {unique : ℕ} {trailing : Bytes}
    {m : DedupManifest} {r : Unit} : checkDedupManifest header unique trailing m = .ok r ↔
      trailing = [] ∧ unique + 1 = header.frameCount ∧
        (∀ e ∈ m.files, e.size = rangeSize m.chunks e.first e.count) ∧
        (m.kind = kindFile → ∃ e, m.entries = [e] ∧ e.isFile ∧ e.relativePath = m.rootName) ∧
        (m.kind = kindFolder → ∀ e ∈ m.entries, parentPosix e.relativePath = ['.'] ∨
          ∃ d ∈ m.entries, d.isDirectory ∧ d.relativePath = parentPosix e.relativePath) := by
  have hsizes : (¬ ∃ e ∈ m.entries, e.isFile = true ∧
      rangeSize m.chunks e.first e.count ≠ e.size) ↔
        ∀ e ∈ m.files, e.size = rangeSize m.chunks e.first e.count := by
    push Not
    simp only [DedupManifest.files, List.mem_filter, and_imp]
    apply forall_congr'
    intro e
    rw [eq_comm (a := e.size)]
  simp only [checkDedupManifest, Except.bind_eq_ok_iff, Except.raiseIf_eq_ok, not_not, hsizes,
    not_and, singleFile_iff, not_omitsParent_iff, exists_and_left, exists_const]

/-! ### The whole parser -/

/-- What the parser checks, in terms of the finished manifest. -/
structure Parsed (u : Unicode) (h : Msc3Header) (m : DedupManifest) : Prop where
  kind : m.kind ∈ [kindFile, kindFolder]
  limits : m.entries.length ≤ maxEntryCount ∧ m.chunks.length ≤ maxChunkRecords
  rootName : Canonical u m.rootName ∧ '/' ∉ m.rootName
  entries : ∀ e ∈ m.entries, Listed u HasChunks e
  paths : (m.entries.map fun e => u.casefold e.relativePath).Nodup
  ranges : Consecutive 0 m.files m.chunks.length
  chunks : ∀ c ∈ m.chunks, (1 ≤ c.size ∧ c.size ≤ h.maxChunkSize) ∧
    c.digest.length = 32 ∧ c.size < 256 ^ 4 ∧ c.sourceIndex < 256 ^ 8
  occurrences : ∀ index c, m.chunks[index]? = some c → OccurrenceOk m.chunks index c
  final : checkDedupManifest h m.uniqueCount [] m = .ok ()

theorem DedupManifest.exact_prefix {u : Unicode} {h : Msc3Header} {m : DedupManifest}
    (hm : Parsed u h m) : Struct.Exact dedupManifestPrefix (dedupManifestMagic, m.kind,
      (encode m.rootName).length, m.entries.length, m.chunks.length, ()) := by
  obtain ⟨hentries, hchunks⟩ := hm.limits
  simp only [maxEntryCount, maxChunkRecords] at hentries hchunks
  have hkind : m.kind < 256 ^ 1 := by
    have hall : ∀ k ∈ [kindFile, kindFolder], k < 256 ^ 1 := by decide
    exact hall _ hm.kind
  have hroot := hm.rootName.1.length_lt
  exact ⟨rfl, hkind, hroot, by show m.entries.length < 256 ^ 4; omega,
    by show m.chunks.length < 256 ^ 8; omega, trivial⟩

/-- The conditions of the two loops, in terms of their tables. -/
theorem parsed_iff {u : Unicode} {h : Msc3Header} {m : DedupManifest} : Parsed u h m ↔
    m.kind ∈ [kindFile, kindFolder] ∧
    (m.entries.length ≤ maxEntryCount ∧ m.chunks.length ≤ maxChunkRecords) ∧
    (Canonical u m.rootName ∧ '/' ∉ m.rootName) ∧
    Along (fun _ => EntryOk u HasChunks) (fun _ => EntryTable.push u) 0 {} m.entries ∧
    (pushAll (fun _ => EntryTable.push u) 0 {} m.entries).next = m.chunks.length ∧
    Along (ChunkOk h.maxChunkSize) ChunkTable.push 0 {} m.chunks ∧
    checkDedupManifest h (pushAll ChunkTable.push 0 {} m.chunks).uniqueCount [] m = .ok () := by
  have hunique : (pushAll ChunkTable.push 0 {} m.chunks).uniqueCount = m.uniqueCount := by
    rw [pushAll_uniqueCount]
    exact Nat.zero_add _
  have hloop := @along_chunkOk h.maxChunkSize 0 {} m.chunks rfl
  simp only [List.nil_append, Nat.zero_add] at hloop
  rw [along_entryOk, hloop, hunique]
  constructor
  · intro hm
    have hnext := @pushAll_next u 0 {} _ _
      (fun e he => (hm.entries e he).entryType) hm.ranges
    refine ⟨hm.kind, hm.limits, hm.rootName, ⟨hm.entries, hm.paths, by simp, ?_⟩, hnext,
      ⟨hm.chunks, hm.occurrences⟩, hm.final⟩
    rw [hnext]
    exact hm.ranges
  · rintro ⟨hkind, hlimits, hroot, ⟨hentries, hpaths, -, hranges⟩, hnext, ⟨hchunks, hoccur⟩, hcheck⟩
    rw [hnext] at hranges
    exact ⟨hkind, hlimits, hroot, hentries, hpaths, hranges, hchunks, hoccur, hcheck⟩

theorem parseDedupManifest_iff_accepts {u : Unicode} {b : Bytes} {h : Msc3Header}
    {m : DedupManifest} : parseDedupManifest u b h = .ok m ↔
      ∃ rest, (parseDedupManifestFrom u h).Accepts b m rest := by
  unfold parseDedupManifest Accepts
  rcases parseDedupManifestFrom u h b with e | ⟨m', rest⟩ <;> simp [Except.map]

/-- The parser accepts exactly the serializations of the manifests that pass its checks. -/
theorem parseDedupManifest_eq_ok {u : Unicode} {b : Bytes} {h : Msc3Header} {m : DedupManifest} :
    parseDedupManifest u b h = .ok m ↔ Parsed u h m ∧ serializeDedupManifest m = some b := by
  rw [parseDedupManifest_iff_accepts]
  simp only [parseDedupManifestFrom, accepts_bind, accepts_record]
  constructor
  · rintro ⟨_, ⟨magic, kind, rootLength, entryCount, chunkCount, ⟨⟩⟩, _,
      ⟨_, start, hstart, rfl⟩, hrest⟩
    simp only [accepts_bind, accepts_raiseIf, Prod.exists, accepts_parsePath, accepts_read,
      accepts_lift, accepts_pure, accepts_entryLoop, accepts_chunkLoop, not_or, not_not, not_lt]
      at hrest
    obtain ⟨_, _, ⟨⟨rfl, hkind⟩, rfl⟩, _, _, ⟨⟨hentryCount, hchunkCount⟩, rfl⟩, raw, root, _,
      ⟨hlen, rfl, hroot⟩, _, _, ⟨⟨rfl, hslash⟩, rfl⟩, entryTable, _,
      ⟨entries, entryBytes, rfl, hentries, hentryBytes, rfl, rfl⟩, _, _, ⟨hcover, rfl⟩, chunkTable,
      _, ⟨chunks, chunkBytes, hchunksLen, hchunks, hchunkBytes, rfl, rfl⟩, trailing, _,
      ⟨rfl, rfl⟩, _, _, ⟨hcheck, rfl⟩, rfl, rfl⟩ := hrest
    subst hlen hchunksLen
    simp only [pushAll_entries, pushAll_chunks, List.nil_append] at hcheck ⊢
    have htrailing := (checkDedupManifest_eq_ok.mp hcheck).1
    rw [htrailing] at hcheck
    refine ⟨parsed_iff.mpr ⟨hkind, ⟨hentryCount, hchunkCount⟩, ⟨hroot, hslash⟩, hentries, hcover,
      hchunks, hcheck⟩, ?_⟩
    rw [serializeDedupManifest_eq_some]
    refine ⟨start, entryBytes, chunkBytes, hstart, hentryBytes, hchunkBytes, ?_⟩
    have hrest : ∀ rest : Bytes, rest.take 1 = [] → rest = [] := by
      intro rest hrest
      simpa using hrest
    rw [hrest _ htrailing]
    simp
  · rintro ⟨hm, hb⟩
    obtain ⟨start, entryBytes, chunkBytes, hstart, hentryBytes, hchunkBytes, rfl⟩ :=
      serializeDedupManifest_eq_some.mp hb
    obtain ⟨hkind, ⟨hentryCount, hchunkCount⟩, ⟨hroot, hslash⟩, hentries, hcover, hchunks, hcheck⟩ :=
      parsed_iff.mp hm
    refine ⟨[], _, encode m.rootName ++ (entryBytes ++ (chunkBytes ++ [])),
      ⟨DedupManifest.exact_prefix hm, start, hstart, by simp⟩, ?_⟩
    simp only [accepts_bind, accepts_raiseIf, Prod.exists, accepts_parsePath, accepts_read,
      accepts_lift, accepts_pure, accepts_entryLoop, accepts_chunkLoop, not_or, not_not, not_lt]
    have hmanifest : m = ⟨m.kind, m.rootName,
        (pushAll (fun _ => EntryTable.push u) 0 {} m.entries).entries,
        (pushAll ChunkTable.push 0 {} m.chunks).chunks⟩ := by
      rw [pushAll_entries, pushAll_chunks]
      rfl
    refine ⟨(), _, ⟨⟨trivial, hkind⟩, rfl⟩, (), _, ⟨⟨hentryCount, hchunkCount⟩, rfl⟩, m.rootName,
      m.rootName, _, ⟨rfl, rfl, hroot⟩, (), _, ⟨⟨rfl, hslash⟩, rfl⟩, _, _,
      ⟨m.entries, entryBytes, rfl, hentries, hentryBytes, rfl, rfl⟩, (), _, ⟨hcover, rfl⟩, _, _,
      ⟨m.chunks, chunkBytes, rfl, hchunks, hchunkBytes, rfl, rfl⟩, [], [], ⟨rfl, rfl⟩, (), [],
      ⟨?_, rfl⟩, hmanifest, rfl⟩
    rw [← hmanifest]
    exact hcheck

/-! ### Well-formedness is what the parser checks -/

theorem Parsed.wellFormed {u : Unicode} {h : Msc3Header} {m : DedupManifest} (hm : Parsed u h m) :
    WellFormed u h m := by
  obtain ⟨-, hframes, hsizes, hsingle, hparents⟩ := checkDedupManifest_eq_ok.mp hm.final
  have hkind : m.kind = kindFile ∨ m.kind = kindFolder := by simpa using hm.kind
  refine ⟨hkind, fun e he => (hm.entries e he).entryType, hm.ranges, ?_, hm.occurrences,
    fun c hc => (hm.chunks c hc).1, hframes, hm.paths, ?_,
    fun e he => (hm.entries e he).directory, hsingle⟩
  · intro e he
    have hmem := List.mem_filter.mp he
    exact ⟨hsizes e he, (hm.entries e hmem.1).file hmem.2⟩
  · rcases hkind with hfile | hfolder
    · -- the only entry of a single-file manifest is at the root
      obtain ⟨e, hentries, -, hpath⟩ := hsingle hfile
      intro e' he'
      obtain rfl : e' = e := by simpa [hentries] using he'
      left
      rw [hpath]
      exact parentPosix_of_no_slash hm.rootName.1 hm.rootName.2
    · exact hparents hfolder

theorem Parsed.representable {u : Unicode} {h : Msc3Header} {m : DedupManifest}
    (hm : Parsed u h m) : Representable u m := by
  refine ⟨hm.rootName, hm.limits.1, hm.limits.2, ?_, ?_⟩
  · intro e he
    have hlisted := hm.entries e he
    exact ⟨hlisted.path, hlisted.mode, hlisted.fits.mtimeNs.1, hlisted.fits.mtimeNs.2,
      hlisted.fits.size, hlisted.fits.digest⟩
  · intro c hc
    have hchunk := (hm.chunks c hc).2
    exact ⟨hchunk.1, hchunk.2.1⟩

/-- The widths of the ranges follow from the table limits. -/
theorem Representable.fits {u : Unicode} {h : Msc3Header} {m : DedupManifest}
    (hr : Representable u m) (hw : WellFormed u h m) {e : Entry} (he : e ∈ m.entries) :
    e.Fits := by
  obtain ⟨-, -, hlow, hhigh, hsize, hdigest⟩ := hr.entries e he
  have hlimit := hr.chunkLimit
  simp only [maxChunkRecords] at hlimit
  rcases isFile_or_isDirectory (hw.entryTypes e he) with ⟨hfile, -⟩ | ⟨-, hdir⟩
  · have hrange := hw.ranges.bounds.2 e (List.mem_filter.mpr ⟨he, hfile⟩)
    refine ⟨⟨hlow, hhigh⟩, hsize, ?_, ?_, hdigest⟩
    · show e.first < 256 ^ 8
      omega
    · show e.count < 256 ^ 4
      omega
  · obtain ⟨-, hfirst, hcount, -⟩ := hw.directories e he hdir
    refine ⟨⟨hlow, hhigh⟩, hsize, ?_, ?_, hdigest⟩
    · show e.first < 256 ^ 8
      omega
    · show e.count < 256 ^ 4
      omega

theorem Parsed.of_wellFormed {u : Unicode} {h : Msc3Header} {m : DedupManifest}
    (hw : WellFormed u h m) (hr : Representable u m) : Parsed u h m := by
  refine ⟨by simpa using hw.kind, ⟨hr.entryLimit, hr.chunkLimit⟩, hr.rootName, ?_, hw.paths,
    hw.ranges, ?_, hw.occurrences, checkDedupManifest_eq_ok.mpr
      ⟨rfl, hw.frameCount, fun e he => (hw.fileSizes e he).1, hw.single, fun _ => hw.parents⟩⟩
  · intro e he
    obtain ⟨hpath, hmode, -⟩ := hr.entries e he
    exact ⟨hw.entryTypes e he, hmode, hpath, hw.directories e he,
      fun hf => (hw.fileSizes e (List.mem_filter.mpr ⟨he, hf⟩)).2, hr.fits hw he⟩
  · intro c hc
    obtain ⟨hdigest, hsize⟩ := hr.chunks c hc
    refine ⟨hw.chunkSizes c hc, hdigest, hsize, ?_⟩
    obtain ⟨index, hindex⟩ := List.getElem?_of_mem hc
    have hlt := (List.getElem?_eq_some_iff.mp hindex).1
    have hlimit := hr.chunkLimit
    simp only [maxChunkRecords] at hlimit
    rcases hw.occurrences index c hindex with hself | ⟨hback, -⟩ <;> omega

/-! ### Serializing succeeds on what the parser accepts -/

theorem Parsed.serializes {u : Unicode} {h : Msc3Header} {m : DedupManifest} (hm : Parsed u h m) :
    ∃ b, serializeDedupManifest m = some b := by
  obtain ⟨start, hstart, -⟩ := Struct.unpack_pack (DedupManifest.exact_prefix hm)
  have hentries : ∀ e ∈ m.entries, ∃ b, e.pack = some b := fun e he => (hm.entries e he).packs
  have hchunks : ∀ c ∈ m.chunks, ∃ b, c.pack = some b := by
    intro c hc
    obtain ⟨-, hdigest, hsize, hsource⟩ := hm.chunks c hc
    have hexact : Struct.Exact chunkRecordLayout (c.digest, c.size, c.sourceIndex, ()) :=
      ⟨hdigest, hsize, hsource, trivial⟩
    obtain ⟨b, hb, -⟩ := Struct.unpack_pack hexact
    exact ⟨b, hb⟩
  obtain ⟨entryBytes, hentryBytes⟩ := encodeAll_isSome hentries
  obtain ⟨chunkBytes, hchunkBytes⟩ := encodeAll_isSome hchunks
  exact ⟨_, serializeDedupManifest_eq_some.mpr
    ⟨start, entryBytes, chunkBytes, hstart, hentryBytes, hchunkBytes, rfl⟩⟩

/-! ### The main result -/

/-- The manifest of one empty file. -/
def emptyFileManifest (mode : ℕ) : DedupManifest where
  kind := kindFile
  rootName := ['a']
  entries := [⟨entryFile, ['a'], mode, 0, 0, 0, 0, zeroHash⟩]
  chunks := []

/-- A header of an archive without data frames. -/
def manifestOnlyHeader : Msc3Header where
  version := msc6Version
  flags := msc3Flags
  kdfId := kdfScrypt
  aeadId := aeadChacha20Poly1305
  minChunkSize := 64
  avgChunkSize := 64
  maxChunkSize := 64
  paddingSize := 256
  salt := List.replicate 16 0
  noncePrefix := List.replicate 4 0
  kdfLogN := 15
  kdfR := 8
  kdfP := 1
  frameCount := 1

theorem emptyFileManifest_wellFormed (mode : ℕ) :
    WellFormed asciiUnicode manifestOnlyHeader (emptyFileManifest mode) := by
  have hentries : (emptyFileManifest mode).entries =
      [⟨entryFile, ['a'], mode, 0, 0, 0, 0, zeroHash⟩] := rfl
  have hchunks : (emptyFileManifest mode).chunks = [] := rfl
  have hfiles : (emptyFileManifest mode).files = (emptyFileManifest mode).entries := rfl
  refine ⟨.inl rfl, ?_, ?_, ?_, ?_, ?_, rfl, ?_, ?_, ?_, fun _ => ⟨_, hentries, rfl, rfl⟩⟩
  · simp [hentries]
  · simp [hfiles, hentries, hchunks, Consecutive]
  · simp [hfiles, hentries, rangeSize]
  · simp [hchunks]
  · simp [hchunks]
  · simp [hentries]
  · have hparent : parentPosix ['a'] = ['.'] := by decide
    simp [hentries, hparent]
  · simp [hentries]

end MosaicArchive.Manifest
