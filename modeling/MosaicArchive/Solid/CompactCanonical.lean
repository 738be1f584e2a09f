import MosaicArchive.Solid.CompactMetadata

/-!
The manifest that a compact form tells has the ranges that are left out, and it is the one
that the plain parser of manifests finds in its serialization. With this, what the whole
parser of the compact forms accepts is what their serializer writes.
-/

namespace MosaicArchive.Solid

open FixedWidth Utf8 ByteParser MosaicArchive.Manifest MosaicArchive.Container

/-! ### Manifests are told by their serializations -/

theorem lt_of_pack_uint {width n : ℕ} {b : Bytes} (h : (Struct.Field.uint width).pack n = some b) :
    n < 256 ^ width := by
  by_contra hge
  have hnone : (Struct.Field.uint width).pack n = none := if_neg hge
  rw [hnone] at h
  cases h

theorem range_of_packInt64 {z : ℤ} {b : Bytes} (h : Struct.Field.int64.pack z = some b) :
    -2 ^ 63 ≤ z ∧ z < 2 ^ 63 := by
  by_contra hout
  have hnone : Struct.Field.int64.pack z = none := if_neg hout
  rw [hnone] at h
  cases h

theorem exact_of_packEntry {e : Entry} {b : Bytes} (h : Struct.pack entryFixed e.fixed = some b)
    (hdigest : e.digest.length = 32) : Struct.Exact entryFixed e.fixed := by
  simp only [entryFixed, Entry.fixed, Struct.pack_cons] at h
  obtain ⟨_, _, htype, ⟨_, _, hpath, ⟨_, _, hmode, ⟨_, _, hmtime, ⟨_, _, hsize, ⟨_, _, hfirst,
    ⟨_, _, hcount, -, -⟩, -⟩, -⟩, -⟩, -⟩, -⟩, -⟩ := h
  exact ⟨lt_of_pack_uint htype, lt_of_pack_uint hpath, lt_of_pack_uint hmode, range_of_packInt64 hmtime,
    lt_of_pack_uint hsize, lt_of_pack_uint hfirst, lt_of_pack_uint hcount, hdigest, trivial⟩

theorem packEntry_inj {e e' : Entry} {b b' rest rest' : Bytes} (hdigest : e.digest.length = 32)
    (hdigest' : e'.digest.length = 32) (hb : e.pack = some b) (hb' : e'.pack = some b')
    (h : b ++ rest = b' ++ rest') : e = e' ∧ rest = rest' := by
  obtain ⟨fixed, hfixed, rfl⟩ := Entry.pack_eq_some.mp hb
  obtain ⟨fixed', hfixed', rfl⟩ := Entry.pack_eq_some.mp hb'
  rw [List.append_assoc, List.append_assoc] at h
  obtain ⟨rfl, htail⟩ := List.append_inj h
    ((Struct.pack_length hfixed).trans (Struct.pack_length hfixed').symm)
  have hsame : ((_, _, _, _, _, _, _, _, ()) : ℕ × ℕ × ℕ × ℤ × ℕ × ℕ × ℕ × Bytes × Unit) = _ :=
    Struct.pack_inj (exact_of_packEntry hfixed hdigest) (exact_of_packEntry hfixed' hdigest') hfixed
      hfixed'
  simp only [Entry.fixed, Prod.mk.injEq] at hsame
  obtain ⟨htype, hlen, hmode, hmtime, hsize, hfirst, hcount, hdigests, -⟩ := hsame
  obtain ⟨hpath, hrest⟩ := List.append_inj htail hlen
  cases e
  cases e'
  obtain rfl := encode_inj hpath
  subst htype hmode hmtime hsize hfirst hcount hdigests
  exact ⟨rfl, hrest⟩

theorem packChunk_inj {c c' : ChunkRecord} {b b' rest rest' : Bytes} (hdigest : c.digest.length = 32)
    (hdigest' : c'.digest.length = 32) (hb : c.pack = some b) (hb' : c'.pack = some b')
    (h : b ++ rest = b' ++ rest') : c = c' ∧ rest = rest' := by
  have hexact : ∀ {c : ChunkRecord} {b : Bytes}, c.digest.length = 32 → c.pack = some b →
      Struct.Exact chunkRecordLayout (c.digest, c.size, c.sourceIndex, ()) := by
    intro c b hdigest hb
    simp only [ChunkRecord.pack, chunkRecordLayout, Struct.pack_cons] at hb
    obtain ⟨_, _, -, ⟨_, _, hsize, ⟨_, _, hsource, -, -⟩, -⟩, -⟩ := hb
    exact ⟨hdigest, lt_of_pack_uint hsize, lt_of_pack_uint hsource, trivial⟩
  obtain ⟨rfl, hrest⟩ := List.append_inj h
    ((Struct.pack_length hb).trans (Struct.pack_length hb').symm)
  have hsame : ((_, _, _, ()) : Bytes × ℕ × ℕ × Unit) = _ :=
    Struct.pack_inj (hexact hdigest hb) (hexact hdigest' hb') hb hb'
  simp only [Prod.mk.injEq] at hsame
  obtain ⟨hdigests, hsize, hsource, -⟩ := hsame
  cases c
  cases c'
  subst hdigests hsize hsource
  exact ⟨rfl, hrest⟩

/-- The digests of a manifest have the length of their field. -/
def DigestsFit (m : DedupManifest) : Prop :=
  (∀ e ∈ m.entries, e.digest.length = 32) ∧ ∀ c ∈ m.chunks, c.digest.length = 32

theorem serializeDedupManifest_inj {m m' : DedupManifest} {b : Bytes} (hm : DigestsFit m)
    (hm' : DigestsFit m') (hb : serializeDedupManifest m = some b)
    (hb' : serializeDedupManifest m' = some b) : m = m' := by
  have hexact : ∀ {m : DedupManifest} {b : Bytes}, m.packPrefix = some b →
      Struct.Exact dedupManifestPrefix (dedupManifestMagic, m.kind, (encode m.rootName).length,
        m.entries.length, m.chunks.length, ()) := by
    intro m b hb
    simp only [DedupManifest.packPrefix, dedupManifestPrefix, Struct.pack_cons] at hb
    obtain ⟨_, _, -, ⟨_, _, hkind, ⟨_, _, hroot, ⟨_, _, hentries, ⟨_, _, hchunks, -, -⟩, -⟩, -⟩, -⟩, -⟩ := hb
    exact ⟨rfl, lt_of_pack_uint hkind, lt_of_pack_uint hroot, lt_of_pack_uint hentries,
      lt_of_pack_uint hchunks, trivial⟩
  obtain ⟨start, entries, chunks, hstart, hentries, hchunks, rfl⟩ := serializeDedupManifest_eq_some.mp hb
  obtain ⟨start', entries', chunks', hstart', hentries', hchunks', hsame⟩ :=
    serializeDedupManifest_eq_some.mp hb'
  simp only [List.append_assoc] at hsame
  obtain ⟨rfl, htail⟩ := List.append_inj hsame
    ((Struct.pack_length hstart).trans (Struct.pack_length hstart').symm)
  have hprefix : ((_, _, _, _, _, ()) : Bytes × ℕ × ℕ × ℕ × ℕ × Unit) = _ :=
    Struct.pack_inj (hexact hstart) (hexact hstart') hstart hstart'
  simp only [Prod.mk.injEq, true_and] at hprefix
  obtain ⟨hkind, hroot, hentryCount, hchunkCount, -⟩ := hprefix
  obtain ⟨hname, htables⟩ := List.append_inj htail hroot
  obtain ⟨hentrySame, hchunkBytes⟩ := encodeAll_inj packEntry_inj hm.1 hm'.1 hentryCount hentries hentries'
    htables
  obtain ⟨hchunkSame, -⟩ := encodeAll_inj packChunk_inj hm.2 hm'.2 hchunkCount hchunks hchunks'
    (congrArg (· ++ ([] : Bytes)) hchunkBytes)
  cases m
  cases m'
  obtain rfl := encode_inj hname
  subst hkind hentrySame hchunkSame
  rfl

/-! ### Ranges -/

/-- The ranges that were left out are found again. -/
theorem rangeEntries_specOf {chunks : List ChunkRecord} {es : List Entry} {start stop : ℕ}
    (htypes : ∀ e ∈ es, e.entryType = entryFile ∨ e.entryType = entryDirectory)
    (hdirectories : ∀ e ∈ es, e.isDirectory → e.size = 0 ∧ e.first = 0 ∧ e.count = 0 ∧ e.digest = zeroHash)
    (hsizes : ∀ e ∈ es, e.isFile → e.size = rangeSize chunks e.first e.count)
    (hranges : Consecutive start (es.filter Entry.isFile) stop) (hstop : stop ≤ chunks.length) :
    rangeEntries chunks start (es.map specOf) = .ok (es, stop) := by
  induction es generalizing start with
  | nil =>
      obtain rfl : start = stop := hranges
      rfl
  | cons e es ih =>
      rw [List.forall_mem_cons] at htypes hdirectories hsizes
      rw [List.map_cons, rangeEntries]
      rcases isFile_or_isDirectory htypes.1 with ⟨hfile, hdir⟩ | ⟨hfile, hdir⟩
      · have hne : (specOf e).entryType ≠ entryDirectory := (isFile_iff htypes.1).mp hfile
        rw [List.filter_cons_of_pos hfile] at hranges
        obtain ⟨hfirst, hrest⟩ := hranges
        have hbound := hrest.bounds.1
        have htail := ih htypes.2 hdirectories.2 hsizes.2 hrest
        have hsize := hsizes.1 hfile
        have hcount : ¬ chunks.length < start + (specOf e).count := by
          show ¬ chunks.length < start + e.count
          omega
        rw [if_neg hne, Except.raiseIf, if_neg hcount]
        show (rangeEntries chunks (start + e.count) (es.map specOf) >>= _) = _
        rw [htail]
        subst hfirst
        show Except.ok (({ e with size := rangeSize chunks e.first e.count } : Entry) :: es, stop) = _
        rw [← hsize]
      · have hentry : (specOf e).entryType = entryDirectory := isDirectory_iff.mp hdir
        rw [List.filter_cons_of_neg (by rw [hfile]; decide)] at hranges
        obtain ⟨hsize, hfirst, hcount, hdigest⟩ := hdirectories.1 hdir
        have htail := ih htypes.2 hdirectories.2 hsizes.2 hranges
        have hself : ({ e with size := 0, first := 0, count := 0, digest := zeroHash } : Entry) = e := by
          cases e
          subst hsize hfirst hcount hdigest
          rfl
        rw [if_pos hentry]
        show (rangeEntries chunks start (es.map specOf) >>= _) = _
        rw [htail]
        show Except.ok (({ e with size := 0, first := 0, count := 0, digest := zeroHash } : Entry) :: es,
          stop) = _
        rw [hself]

/-- The entries that get ranges are told by the specifications. -/
theorem specs_of_rangeEntries {chunks : List ChunkRecord} {specs : List EntrySpec} {es : List Entry}
    {start stop : ℕ} (h : rangeEntries chunks start specs = .ok (es, stop))
    (hdirectories : ∀ s ∈ specs, s.entryType = entryDirectory → s.count = 0 ∧ s.digest = zeroHash) :
    es.map specOf = specs := by
  induction specs generalizing start es with
  | nil =>
      cases h
      rfl
  | cons s specs ih =>
      rw [List.forall_mem_cons] at hdirectories
      rw [rangeEntries] at h
      split_ifs at h with hdir
      · obtain ⟨hcount, hdigest⟩ := hdirectories.1 hdir
        obtain ⟨⟨entries, final⟩, hrest, hcons⟩ := Except.bind_eq_ok_iff.mp h
        cases hcons
        have hself : (⟨s.entryType, s.relativePath, s.mode, s.mtimeNs, 0, zeroHash⟩ : EntrySpec) = s := by
          cases s
          subst hcount hdigest
          rfl
        show (⟨s.entryType, s.relativePath, s.mode, s.mtimeNs, 0, zeroHash⟩ : EntrySpec) ::
          entries.map specOf = _
        rw [hself, ih hrest hdirectories.2]
      · obtain ⟨_, -, htail⟩ := Except.bind_eq_ok_iff.mp h
        obtain ⟨⟨entries, final⟩, hrest, hcons⟩ := Except.bind_eq_ok_iff.mp htail
        cases hcons
        show s :: entries.map specOf = _
        rw [ih hrest hdirectories.2]

/-- The chunk loop pushes chunks with whole digests only. -/
theorem digests_of_along {maxSize index : ℕ} {t : ChunkTable} {cs : List ChunkRecord}
    (hindex : t.chunks.length = index) (ht : ∀ c ∈ t.chunks, c.digest.length = 32)
    (h : Along (CompactChunkOk maxSize) ChunkTable.push index t cs) :
    ∀ c ∈ cs, c.digest.length = 32 := by
  induction cs generalizing index t with
  | nil => exact List.forall_mem_nil _
  | cons c cs ih =>
      obtain ⟨hc, hrest⟩ := h
      have hdigest : c.digest.length = 32 := by
        rcases hc with ⟨-, -, -, hlen⟩ | ⟨hlt, -, hsame, -⟩
        · exact hlen
        · have hsource : c.sourceIndex < t.chunks.length := by omega
          rw [← hsame, List.getD_eq_getElem _ _ hsource]
          exact ht _ (List.getElem_mem hsource)
      rw [List.forall_mem_cons]
      refine ⟨hdigest, ih ?_ ?_ hrest⟩
      · show (t.chunks ++ [c]).length = index + 1
        rw [List.length_append, hindex, List.length_singleton]
      · show ∀ c' ∈ t.chunks ++ [c], _
        rw [List.forall_mem_append, List.forall_mem_singleton]
        exact ⟨ht, hdigest⟩

theorem compactChunkOk_of_chunkOk {maxSize index : ℕ} {t : ChunkTable} {c : ChunkRecord}
    (h : ChunkOk maxSize index t c) : CompactChunkOk maxSize index t c := by
  obtain ⟨⟨hpos, hmax⟩, hsource, hdigest, -⟩ := h
  rcases hsource with hself | hback
  · exact Or.inl ⟨hself, Nat.ne_of_gt hpos, hmax, hdigest⟩
  · exact Or.inr hback

theorem along_compact {maxSize index : ℕ} {t : ChunkTable} {cs : List ChunkRecord}
    (h : Along (ChunkOk maxSize) ChunkTable.push index t cs) :
    Along (CompactChunkOk maxSize) ChunkTable.push index t cs := by
  induction cs generalizing index t with
  | nil => trivial
  | cons c cs ih => exact ⟨compactChunkOk_of_chunkOk h.1, ih h.2⟩

/-! ### The manifest -/

theorem length_zeroHash : zeroHash.length = 32 := rfl

theorem SpecOk.digest {chunkCount : ℕ} {s : EntrySpec} (h : SpecOk chunkCount s) :
    s.digest.length = 32 := by
  rcases h.entryType with hfile | hdir
  · exact (h.file hfile).2
  · rw [(h.directory hdir).2]
    exact length_zeroHash

theorem digestsFit_of_parsed {u : Unicode} {h : Msc3Header} {m : DedupManifest} (hm : Parsed u h m) :
    DigestsFit m :=
  ⟨fun e he => (hm.entries e he).fits.digest, fun c hc => (hm.chunks c hc).2.1⟩

/-- What a compact form tells of an entry of a parsed manifest is in the ranges of the parser. -/
theorem specOk_of_parsed {u : Unicode} {h : Msc3Header} {m : DedupManifest} (hm : Parsed u h m)
    {e : Entry} (he : e ∈ m.entries) : SpecOk m.chunks.length (specOf e) := by
  have hlisted := hm.entries e he
  have hpath : (encode e.relativePath).length < 256 ^ 2 := hlisted.path.length_lt
  refine ⟨hlisted.entryType, by show (encode e.relativePath).length ≤ 65535; omega, hlisted.mode,
    hlisted.fits.mtimeNs, ?_, ?_⟩
  · intro hfile
    have hmem : e ∈ m.files := List.mem_filter.mpr ⟨he, decide_eq_true hfile⟩
    have hrange := hm.ranges.bounds.2 e hmem
    exact ⟨by show e.count ≤ _; omega, hlisted.fits.digest⟩
  · intro hdir
    obtain ⟨-, -, hcount, hdigest⟩ := hlisted.directory (isDirectory_iff.mpr hdir)
    exact ⟨hcount, hdigest⟩

/-- The manifest that a compact form tells is the parsed manifest with its entries and chunks. -/
theorem compactManifest_eq_ok {u : Unicode} {o : MetadataOptions} {kind chunkCount : ℕ} {rootName : Text}
    {specs : List EntrySpec} {chunks : List ChunkRecord} {m : DedupManifest}
    (hspecs : ∀ s ∈ specs, SpecOk chunkCount s) (hchunks : ∀ c ∈ chunks, c.digest.length = 32) :
    compactManifest u o kind rootName specs chunks = .ok m ↔ Parsed u o.compatibilityHeader m ∧
      m.kind = kind ∧ m.rootName = rootName ∧ m.entries.map specOf = specs ∧ m.chunks = chunks := by
  constructor
  · intro h
    obtain ⟨⟨es, stop⟩, hes, h⟩ := Except.bind_eq_ok_iff.mp h
    obtain ⟨_, -, h⟩ := Except.bind_eq_ok_iff.mp h
    obtain ⟨b, hb, hparse⟩ := Except.bind_eq_ok_iff.mp h
    obtain ⟨hm, hb'⟩ := parseDedupManifest_eq_ok.mp hparse
    have htold := specs_of_rangeEntries hes fun s hs => (hspecs s hs).directory
    have hfit : DigestsFit ⟨kind, rootName, es, chunks⟩ := by
      refine ⟨?_, hchunks⟩
      intro e he
      have hmem : specOf e ∈ specs := htold ▸ List.mem_map_of_mem he
      exact (hspecs _ hmem).digest
    obtain rfl := serializeDedupManifest_inj (digestsFit_of_parsed hm) hfit hb' (ofOption_eq_ok.mp hb)
    exact ⟨hm, rfl, rfl, htold, rfl⟩
  · rintro ⟨hm, rfl, rfl, rfl, rfl⟩
    obtain ⟨b, hb⟩ := hm.serializes
    obtain ⟨-, -, hsizes, -⟩ := checkDedupManifest_eq_ok.mp hm.final
    have hes := rangeEntries_specOf (fun e he => (hm.entries e he).entryType)
      (fun e he => (hm.entries e he).directory)
      (fun e he hfile => hsizes e (List.mem_filter.mpr ⟨he, hfile⟩)) hm.ranges le_rfl
    refine Except.bind_eq_ok_iff.mpr ⟨_, hes, Except.bind_eq_ok_iff.mpr ⟨(), ?_,
      Except.bind_eq_ok_iff.mpr ⟨b, ofOption_eq_ok.mpr hb, parseDedupManifest_eq_ok.mpr ⟨hm, hb⟩⟩⟩⟩
    exact Except.raiseIf_eq_ok.mpr fun h => h rfl

/-! ### The whole parser -/

/-- The magic of the newer or of the older compact form. -/
def compactMagic (modern : Bool) : Bytes :=
  if modern then compactMetadataMagic else compactMetadataMagicV1

/-- The codecs that the newer or the older compact form tells. -/
def toldCodecs (modern : Bool) (codecs : Lanes ℕ) : Option (Lanes ℕ) :=
  if modern then some codecs else none

/-- What the parser of the compact forms checks, in terms of its result. -/
structure CompactOk (u : Unicode) (o : MetadataOptions) (r : Metadata) : Prop where
  manifest : Parsed u o.compatibilityHeader r.manifest
  assignments : r.assignments.length = o.uniqueCount
  rawSizes : r.rawSizes = laneSizes (uniqueRecords r.manifest) r.assignments
  frameCounts : FrameCountsBounded r.frameCounts
  framed : LanesFramed r.rawSizes r.frameCounts

theorem compactMetadata_eq_ok {m : DedupManifest} {assignments payload : Bytes} {frameCounts : Lanes ℕ}
    {laneCodecs : Option (Lanes ℕ)} :
    compactMetadata m assignments frameCounts laneCodecs = .ok payload ↔
      m.kind ∈ [kindFile, kindFolder] ∧ ∃ root entryCount chunkCount counts codecs entries chunks packed,
        encodeCompactUint (descriptor (encode m.rootName).length (m.kind = kindFolder)) = .ok root ∧
        encodeCompactUint m.entries.length = .ok entryCount ∧
        encodeCompactUint m.chunks.length = .ok chunkCount ∧
        compactUints frameCounts.toList = .ok counts ∧ compactLaneCodecs laneCodecs = .ok codecs ∧
        compactEntries 0 m.entries = .ok entries ∧ compactChunks 0 m.chunks = .ok chunks ∧
        packAssignments assignments = .ok packed ∧
        payload = (if laneCodecs = none then compactMetadataMagicV1 else compactMetadataMagic) ++
          (root ++ (encode m.rootName ++ (entryCount ++ (chunkCount ++ (counts ++
            (codecs ++ (entries ++ (chunks ++ packed)))))))) := by
  simp only [compactMetadata, Except.bind_eq_ok_iff, Except.raiseIf_eq_ok, not_not, Except.ok.injEq,
    compactUints_cons, exists_const]
  apply and_congr_right
  intro _
  constructor
  · rintro ⟨root, hroot, _, ⟨entryCount, _, hentryCount, ⟨chunkCount, counts, hchunkCount, hcounts, rfl⟩,
      rfl⟩, codecs, hcodecs, entries, hentries, chunks, hchunks, packed, hpacked, rfl⟩
    refine ⟨root, entryCount, chunkCount, counts, codecs, entries, chunks, packed, hroot, hentryCount,
      hchunkCount, hcounts, hcodecs, hentries, hchunks, hpacked, ?_⟩
    simp only [List.append_assoc]
  · rintro ⟨root, entryCount, chunkCount, counts, codecs, entries, chunks, packed, hroot, hentryCount,
      hchunkCount, hcounts, hcodecs, hentries, hchunks, hpacked, rfl⟩
    refine ⟨root, hroot, _, ⟨entryCount, _, hentryCount, ⟨chunkCount, counts, hchunkCount, hcounts, rfl⟩,
      rfl⟩, codecs, hcodecs, entries, hentries, chunks, hchunks, packed, hpacked, ?_⟩
    simp only [List.append_assoc]

theorem accepts_parseCodecs {modern : Bool} {codecs : Lanes ℕ} {input rest : Bytes} :
    (parseCodecs modern).Accepts input codecs rest ↔ (modern = false → codecs = impliedCodecs) ∧
      ∃ b, compactLaneCodecs (toldCodecs modern codecs) = .ok b ∧ input = b ++ rest := by
  cases modern with
  | false =>
      show (pure impliedCodecs : ByteParser PyError (Lanes ℕ)).Accepts input codecs rest ↔
        _ ∧ ∃ b, (Except.ok [] : Except PyError Bytes) = .ok b ∧ _
      simp only [accepts_pure, Except.ok.injEq, exists_eq_left', List.nil_append, forall_const]
  | true =>
      show (forLanes parseLaneCodec).Accepts input codecs rest ↔
        _ ∧ ∃ b, compactCodecs codecs = .ok b ∧ _
      rw [accepts_codecs]
      simp only [Bool.true_eq_false, false_implies, true_and]

theorem length_uniqueRecords (m : DedupManifest) : (uniqueRecords m).length = m.uniqueCount :=
  List.length_map _

theorem strictLaneSizes_eq_ok {records : List ChunkRecord} {assignments : Bytes} {sizes : Lanes ℕ} :
    strictLaneSizes records assignments = .ok sizes ↔
      records.length = assignments.length ∧ sizes = laneSizes records assignments := by
  simp only [strictLaneSizes, Except.bind_eq_ok_iff, Except.raiseIf_eq_ok, not_not, Except.ok.injEq,
    exists_const, eq_comm (b := sizes)]

/-- The specification of a list of entries is encoded like the list. -/
theorem compactEntries_specOf (previousMtimeNs : ℤ) (es : List Entry) :
    compactEntries previousMtimeNs ((es.map specOf).map EntrySpec.toEntry) =
      compactEntries previousMtimeNs es := by
  induction es generalizing previousMtimeNs with
  | nil => rfl
  | cons e es ih =>
      rw [List.map_cons, List.map_cons, compactEntries, compactEntries, compactEntry_specOf, ← ih]
      rfl

theorem uniqueCount_of_parsed {u : Unicode} {o : MetadataOptions} {m : DedupManifest}
    (hm : Parsed u o.compatibilityHeader m) : m.uniqueCount = o.uniqueCount :=
  Nat.succ.inj (checkDedupManifest_eq_ok.mp hm.final).2.1

theorem compactMagic_eq (modern : Bool) (codecs : Lanes ℕ) :
    (if toldCodecs modern codecs = none then compactMetadataMagicV1 else compactMetadataMagic) =
      compactMagic modern := by
  cases modern <;> rfl

/-- The kind that the lowest bit of a root descriptor stands for. -/
theorem decide_kindOfBit (value : ℕ) :
    decide ((if value % 2 = 1 then kindFolder else kindFile) = kindFolder) = decide (value % 2 = 1) := by
  split
  · rename_i h
    rw [decide_eq_true h]
    rfl
  · rename_i h
    rw [decide_eq_false h]
    rfl

theorem kind_of_bit {kind : ℕ} (h : kind ∈ [kindFile, kindFolder]) :
    (if (decide (kind = kindFolder)).toNat = 1 then kindFolder else kindFile) = kind := by
  rcases List.mem_pair.mp h with rfl | rfl
  · rfl
  · rfl

/-- The parser accepts exactly what the serializer makes of the results that pass its checks. -/
theorem accepts_parseCompactFrom {u : Unicode} {o : MetadataOptions} {modern : Bool}
    {body rest : Bytes} {r : Metadata} : (parseCompactFrom u o modern).Accepts body r rest ↔
      (CompactOk u o r ∧ (modern = false → r.codecs = impliedCodecs)) ∧
        compactMetadata r.manifest r.assignments r.frameCounts (toldCodecs modern r.codecs) =
          .ok (compactMagic modern ++ body) ∧ rest = [] := by
  simp only [parseCompactFrom, accepts_bind, accepts_decodeCompactUint, accepts_takeCompactText,
    accepts_takeCompactBytes, accepts_frameCounts, accepts_parseCodecs, accepts_specLoop,
    accepts_compactChunkLoop, accepts_raiseIf, accepts_remaining, accepts_lift, accepts_pure, not_not,
    strictLaneSizes_eq_ok]
  constructor
  · rintro ⟨value, _, ⟨hvalue, root, hroot, hinput⟩, rootName, _, ⟨hrootName, hname⟩, _, _,
      ⟨hentryCount, entryCount, hentryCountBytes, hentryRest⟩, _, _,
      ⟨hchunkCount, chunkCount, hchunkCountBytes, hchunkRest⟩, frameCounts, _,
      ⟨hbounded, counts, hcounts, hcountsRest⟩, codecs, _, ⟨himplied, codecBytes, hcodecs, hcodecsRest⟩,
      specTable, _, ⟨entries, hspecsLen, hspecs, hentries, -, hentriesRest⟩, chunkTable, _,
      ⟨chunks, hchunksLen, halong, hchunks, htable, hchunksRest⟩, _, _, ⟨hunique, hraised⟩, packed, _,
      ⟨hpacked, hpackedRest⟩, trailing, _, ⟨htrailing, hseen⟩, _, _, ⟨hempty, hkept⟩, assignments, _,
      ⟨hassignments, hlifted⟩, m, _, ⟨hmanifest, hlifted'⟩, rawSizes, _, ⟨⟨hlen, hsizes⟩, hlifted''⟩, _, _,
      ⟨hframed, hdone⟩, hresult, hrest⟩
    subst hinput hname hentryRest hchunkRest hcountsRest hcodecsRest hspecsLen hentriesRest hchunksLen
      hchunksRest hraised hpackedRest htrailing hseen hempty hkept hlifted hlifted' hlifted'' hdone
      hresult hrest
    have hdigests := digests_of_along (t := {}) rfl (List.forall_mem_nil _) halong
    obtain ⟨hm, hkind, rfl, hspecsOf, hchunksOf⟩ := (compactManifest_eq_ok hspecs hdigests).mp hmanifest
    obtain ⟨hcount, hpack⟩ := (unpackAssignments_eq_ok hpacked).mp hassignments
    refine ⟨⟨⟨hm, hcount, hsizes, hbounded, hframed⟩, himplied⟩, compactMetadata_eq_ok.mpr ⟨hm.kind, root,
      entryCount, chunkCount, counts, codecBytes, entries, chunks, packed, ?_, ?_, ?_, hcounts, hcodecs, ?_, ?_,
      hpack, ?_⟩, rfl⟩
    · have hbit : decide (m.kind = kindFolder) = decide (value % 2 = 1) := by
        rw [hkind, decide_kindOfBit]
      rw [hbit, hrootName, descriptor_div_mod, hroot]
    · rw [← hentryCountBytes, ← hspecsOf, List.length_map]
    · rw [hchunksOf, hchunkCountBytes]
    · rw [← hentries, ← hspecsOf, compactEntries_specOf]
    · rw [hchunksOf, hchunks]
    · rw [compactMagic_eq, List.append_nil]
  · rintro ⟨⟨⟨hm, hcount, hsizes, hbounded, hframed⟩, himplied⟩, hpayload, rfl⟩
    obtain ⟨hkind, root, entryCount, chunkCount, counts, codecBytes, entries, chunks, packed, hroot,
      hentryCountBytes, hchunkCountBytes, hcounts, hcodecs, hentries, hchunks, hpack, hbytes⟩ :=
      compactMetadata_eq_ok.mp hpayload
    rw [compactMagic_eq] at hbytes
    obtain rfl := List.append_cancel_left hbytes
    have hunique := uniqueCount_of_parsed hm
    have halong := along_compact (parsed_iff.mp hm).2.2.2.2.2.1
    have hspecs : ∀ s ∈ r.manifest.entries.map specOf, SpecOk r.manifest.chunks.length s := by
      rw [List.forall_mem_map]
      exact fun e he => specOk_of_parsed hm he
    have htold : compactManifest u o r.manifest.kind r.manifest.rootName
        (r.manifest.entries.map specOf) r.manifest.chunks = .ok r.manifest :=
      (compactManifest_eq_ok hspecs fun c hc => (hm.chunks c hc).2.1).mpr ⟨hm, rfl, rfl, rfl, rfl⟩
    have hroot' := hm.rootName.1.length_lt
    let specTable : SpecTable := pushAll (fun _ => SpecTable.push) 0 {} (r.manifest.entries.map specOf)
    let chunkTable : ChunkTable := pushAll ChunkTable.push 0 {} r.manifest.chunks
    have hspecTable : specTable.specs = r.manifest.entries.map specOf := pushAll_specs 0 {} _
    have hchunkTable : chunkTable.chunks = r.manifest.chunks := pushAll_chunks 0 {} _
    have htableUnique : chunkTable.uniqueCount = o.uniqueCount := by
      rw [← hunique]
      exact (pushAll_uniqueCount 0 {} _).trans (Nat.zero_add _)
    obtain ⟨-, hpackedLen, -⟩ := packAssignments_eq_ok.mp hpack
    rw [hcount] at hpackedLen
    refine ⟨_, _, ⟨?_, root, hroot, rfl⟩, r.manifest.rootName, _, ⟨(descriptor_div _ _).symm, rfl⟩, _, _,
      ⟨hm.limits.1, entryCount, hentryCountBytes, rfl⟩, _, _,
      ⟨hm.limits.2, chunkCount, hchunkCountBytes, rfl⟩, r.frameCounts, _, ⟨hbounded, counts, hcounts, rfl⟩,
      r.codecs, _, ⟨himplied, codecBytes, hcodecs, rfl⟩, specTable, _,
      ⟨entries, ?_, ?_, ?_, ?_, rfl⟩, chunkTable, _, ⟨chunks, ?_, ?_, ?_, ?_, rfl⟩, (), _,
      ⟨htableUnique, rfl⟩, packed, [], ⟨hpackedLen, (List.append_nil _).symm⟩, [], [], ⟨rfl, rfl⟩, (), [],
      ⟨rfl, rfl⟩, r.assignments, [], ⟨(unpackAssignments_eq_ok hpackedLen).mpr ⟨hcount, hpack⟩, rfl⟩,
      r.manifest, [], ⟨?_, rfl⟩, r.rawSizes, [], ⟨⟨?_, hsizes⟩, rfl⟩, (), [], ⟨hframed, rfl⟩, rfl, rfl⟩
    · have hbit := Bool.toNat_le (decide (r.manifest.kind = kindFolder))
      have hvalue : maxDescriptor = 131071 := rfl
      rw [descriptor]
      omega
    · rw [hspecTable, List.length_map]
    · rw [hspecTable]
      exact hspecs
    · rw [hspecTable, compactEntries_specOf, hentries]
    · rw [hspecTable]
    · rw [hchunkTable]
    · rw [hchunkTable]
      exact halong
    · rw [hchunkTable, hchunks]
    · rw [hchunkTable]
    · rw [hspecTable, hchunkTable, descriptor_mod, kind_of_bit hkind, htold]
    · rw [length_uniqueRecords, hunique, hcount]

theorem parseCompactMetadata_eq_ok {u : Unicode} {o : MetadataOptions} {modern : Bool} {body : Bytes}
    {r : Metadata} : parseCompactMetadata u o (compactMagic modern ++ body) = .ok r ↔
      (CompactOk u o r ∧ (modern = false → r.codecs = impliedCodecs)) ∧
        compactMetadata r.manifest r.assignments r.frameCounts (toldCodecs modern r.codecs) =
          .ok (compactMagic modern ++ body) := by
  have hmodern : compactMetadataMagic.isPrefixOf (compactMagic modern ++ body) = modern := by
    cases modern <;> rfl
  have hbody : (compactMagic modern ++ body).drop compactMetadataMagic.length = body := by
    cases modern <;> rfl
  rw [parseCompactMetadata, hmodern, hbody, except_map_eq_ok]
  constructor
  · rintro ⟨⟨_, rest⟩, h, rfl⟩
    obtain ⟨hok, hpayload, -⟩ := accepts_parseCompactFrom.mp (accepts_iff.mpr h)
    exact ⟨hok, hpayload⟩
  · rintro ⟨hok, hpayload⟩
    exact ⟨(r, []), accepts_iff.mp (accepts_parseCompactFrom.mpr ⟨hok, hpayload, rfl⟩), rfl⟩

/-- The serializer starts with the magic of its form. -/
theorem magic_of_compactMetadata {m : DedupManifest} {assignments payload : Bytes}
    {frameCounts codecs : Lanes ℕ} {modern : Bool}
    (h : compactMetadata m assignments frameCounts (toldCodecs modern codecs) = .ok payload) :
    ∃ body, payload = compactMagic modern ++ body := by
  obtain ⟨-, _, _, _, _, _, _, _, _, -, -, -, -, -, -, -, -, rfl⟩ := compactMetadata_eq_ok.mp h
  exact ⟨_, congrArg (· ++ _) (compactMagic_eq modern codecs)⟩

/-! ### The codec is canonical -/

/-- The metadata of an archive of one empty file. -/
def emptyFileMetadata : Metadata where
  manifest := emptyFileManifest 420
  assignments := []
  rawSizes := ⟨0, 0, 0⟩
  frameCounts := ⟨0, 0, 0⟩
  codecs := impliedCodecs

/-- The options of an archive without unique chunks. -/
def noUniqueOptions : MetadataOptions where
  uniqueCount := 0
  config := ⟨64, 64, 64, by decide, by decide, by decide, by decide⟩
  paddingSize := 256
  salt := List.replicate 16 0
  noncePrefix := List.replicate 4 0

theorem emptyFile_wellFormed (mode : ℕ) :
    WellFormed asciiUnicode noUniqueOptions.compatibilityHeader (emptyFileManifest mode) := by
  have hm := emptyFileManifest_wellFormed mode
  exact ⟨hm.kind, hm.entryTypes, hm.ranges, hm.fileSizes, hm.occurrences, List.forall_mem_nil _, rfl,
    hm.paths, hm.parents, hm.directories, hm.single⟩

theorem emptyFile_representable : Representable asciiUnicode (emptyFileManifest 420) := by
  refine ⟨by decide, by decide, by decide, ?_, List.forall_mem_nil _⟩
  intro e he
  obtain rfl := List.mem_singleton.mp he
  decide

/-- What follows the magic in the payload of the older or newer form for an archive of one
empty file. -/
def emptyFileBody (modern : Bool) (mode : List UInt8) : Bytes :=
  [2, 0x61, 1, 0, 0, 0, 0] ++ (if modern then [0, 0, 0] else []) ++ [2, 0x61] ++ mode ++ [0, 0] ++
    zeroHash

theorem emptyFile_compactOk : CompactOk asciiUnicode noUniqueOptions emptyFileMetadata :=
  ⟨Parsed.of_wellFormed (emptyFile_wellFormed 420) emptyFile_representable, rfl, rfl,
    ⟨by decide, by decide, by decide⟩, by decide⟩

end MosaicArchive.Solid
