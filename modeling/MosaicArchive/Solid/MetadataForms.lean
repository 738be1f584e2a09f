import MosaicArchive.Solid.CompactCanonical

/-!
The reader tells the serializations of the metadata apart by their leading bytes. The plain
one has no magic: it starts with a 64-bit length whose upper half is zero within the limits,
so it cannot be taken for a compact one or for an envelope.
-/

namespace MosaicArchive.Solid

open FixedWidth Utf8 ByteParser MosaicArchive.Manifest MosaicArchive.Container

/-- The serializations that the reader supports. -/
inductive Form where
  | plain
  | compactV1
  | compact
  deriving DecidableEq

/-- The bytes of a form, bare. -/
def Form.serialize : Form → Metadata → Except PyError Bytes
  | .plain, r => ofOption (metadata r.manifest r.assignments r.rawSizes r.frameCounts) .struct
  | .compactV1, r => compactMetadata r.manifest r.assignments r.frameCounts none
  | .compact, r => compactMetadata r.manifest r.assignments r.frameCounts (some r.codecs)

/-- What a reader finds in a form; only the newer compact one tells the codecs. -/
def Form.told : Form → Metadata → Metadata
  | .compact, r => r
  | _, r => { r with codecs := impliedCodecs }

/-- The parser of a form. -/
def Form.parse (u : Unicode) (o : MetadataOptions) : Form → Bytes → Except PyError Metadata
  | .plain, payload => (parsePlainFrom u o payload).map Prod.fst
  | _, payload => parseCompactMetadata u o payload

/-- The limits of the reader that depend on the form. -/
def Form.Limits : Form → Metadata → Prop
  | .plain, r => ∀ b, serializeDedupManifest r.manifest = some b → b.length ≤ maxManifestCiphertext
  | _, r => FrameCountsBounded r.frameCounts

/-- Metadata of an archive: a well-formed manifest, a lane for each unique chunk, the sizes of
the lanes, and frames in the lanes that have bytes. -/
structure Sound (u : Unicode) (o : MetadataOptions) (r : Metadata) : Prop where
  manifest : WellFormed u o.compatibilityHeader r.manifest
  representable : Representable u r.manifest
  assignments : r.assignments.length = o.uniqueCount
  lanes : ∀ lane ∈ r.assignments, lane.toNat < laneCount
  rawSizes : r.rawSizes = laneSizes (uniqueRecords r.manifest) r.assignments
  framed : LanesFramed r.rawSizes r.frameCounts

/-- A decompressor gives back what was compressed, as long as its bound is not reached. -/
def Zlib.Inverts (zlib : Zlib) : Prop :=
  ∀ payload limit, payload.length < limit →
    zlib.decompress (zlib.compress payload) limit = some ⟨payload, [], true, []⟩

/-! ### Leading bytes -/

theorem metadata_eq_some {m : DedupManifest} {assignments payload : Bytes}
    {rawSizes frameCounts : Lanes ℕ} : metadata m assignments rawSizes frameCounts = some payload ↔
      ∃ serialized start records, serializeDedupManifest m = some serialized ∧
        Struct.pack metadataPrefix (serialized.length, assignments.length, ()) = some start ∧
        encodeAll (fun p : ℕ × ℕ => Struct.pack laneRecord (p.1, p.2, ()))
          (rawSizes.toList.zip frameCounts.toList) = some records ∧
        payload = start ++ records ++ serialized ++ assignments := by
  simp only [metadata, Option.bind_eq_bind, Option.bind_eq_some_iff, Option.pure_def,
    Option.some.injEq, exists_and_left, eq_comm (b := payload)]

/-- A length within the limits is packed with a leading zero. -/
theorem head_pack_metadataPrefix {manifestSize count : ℕ} {start : Bytes}
    (hsize : manifestSize ≤ maxManifestCiphertext)
    (h : Struct.pack metadataPrefix (manifestSize, count, ()) = some start) :
    ∃ tail, start = 0 :: tail := by
  simp only [metadataPrefix, Struct.pack_cons] at h
  obtain ⟨b, bs, hb, -, rfl⟩ := h
  have hlt : manifestSize < 256 ^ 7 := by
    have hlimit : maxManifestCiphertext < 256 ^ 7 := by decide
    omega
  have hwide : manifestSize < 256 ^ 8 := by omega
  rw [Struct.Field.pack_uint hwide, Option.some.injEq] at hb
  rw [← hb, beBytes_succ_of_lt hlt]
  exact ⟨beBytes 7 manifestSize ++ bs, rfl⟩

/-- The leading bytes of a form: it is no envelope, and compact exactly if its magic says so. -/
theorem Form.leading {form : Form} {r : Metadata} {payload : Bytes} (hlimits : form.Limits r)
    (h : form.serialize r = .ok payload) : metadataMagic.isPrefixOf payload = false ∧
      isCompact payload = decide (form ≠ .plain) := by
  cases form with
  | plain =>
      obtain ⟨serialized, start, records, hserialized, hstart, -, rfl⟩ :=
        metadata_eq_some.mp (ofOption_eq_ok.mp h)
      obtain ⟨tail, rfl⟩ := head_pack_metadataPrefix (hlimits _ hserialized) hstart
      exact ⟨rfl, rfl⟩
  | compactV1 =>
      obtain ⟨body, rfl⟩ := @magic_of_compactMetadata _ _ _ _ r.codecs false h
      exact ⟨rfl, rfl⟩
  | compact =>
      obtain ⟨body, rfl⟩ := @magic_of_compactMetadata _ _ _ _ r.codecs true h
      exact ⟨rfl, rfl⟩

/-! ### The plain form -/

theorem accepts_parseLaneRecord {lane rawSize frameCount : ℕ} {input rest : Bytes} :
    (parseLaneRecord lane).Accepts input (rawSize, frameCount) rest ↔
      LaneFramed rawSize frameCount ∧ Struct.Exact laneRecord (rawSize, frameCount, ()) ∧
        ∃ b, Struct.pack laneRecord (rawSize, frameCount, ()) = some b ∧ input = b ++ rest := by
  simp only [parseLaneRecord, accepts_bind, accepts_record]
  constructor
  · rintro ⟨⟨size, count, ⟨⟩⟩, _, ⟨hexact, b, hb, rfl⟩, h⟩
    simp only [accepts_bind, accepts_raiseIf, accepts_pure, not_not] at h
    obtain ⟨_, _, ⟨hframed, rfl⟩, hsame, rfl⟩ := h
    cases hsame
    exact ⟨hframed, hexact, b, hb, rfl⟩
  · rintro ⟨hframed, hexact, b, hb, rfl⟩
    refine ⟨(rawSize, frameCount, ()), rest, ⟨hexact, b, hb, rfl⟩, ?_⟩
    simp only [accepts_bind, accepts_raiseIf, accepts_pure, not_not]
    exact ⟨(), rest, ⟨hframed, rfl⟩, trivial, rfl⟩

theorem exact_of_packPair {width width' n k : ℕ} {b : Bytes}
    (h : Struct.pack [.uint width, .uint width'] (n, k, ()) = some b) :
    Struct.Exact [.uint width, .uint width'] (n, k, ()) := by
  simp only [Struct.pack_cons] at h
  obtain ⟨_, _, hn, ⟨_, _, hk, -, -⟩, -⟩ := h
  exact ⟨lt_of_pack_uint hn, lt_of_pack_uint hk, trivial⟩

/-- The records of the lanes are read back. -/
theorem accepts_laneRecords {rawSizes frameCounts : Lanes ℕ} {records rest : Bytes}
    (hframed : LanesFramed rawSizes frameCounts)
    (h : encodeAll (fun p : ℕ × ℕ => Struct.pack laneRecord (p.1, p.2, ()))
      (rawSizes.toList.zip frameCounts.toList) = some records) :
    (forLanes parseLaneRecord).Accepts (records ++ rest)
      ⟨(rawSizes.standard, frameCounts.standard), (rawSizes.delta4, frameCounts.delta4),
        (rawSizes.highEntropy, frameCounts.highEntropy)⟩ rest := by
  obtain ⟨b₀, _, hb₀, h₁, rfl⟩ := encodeAll_cons.mp h
  obtain ⟨b₁, _, hb₁, h₂, rfl⟩ := encodeAll_cons.mp h₁
  obtain ⟨b₂, _, hb₂, h₃, rfl⟩ := encodeAll_cons.mp h₂
  cases h₃
  obtain ⟨hstandard, hdelta4, hhighEntropy⟩ := hframed
  simp only [forLanes, accepts_bind, accepts_pure]
  refine ⟨_, b₁ ++ (b₂ ++ rest), accepts_parseLaneRecord.mpr ⟨hstandard, exact_of_packPair hb₀, b₀, hb₀, ?_⟩,
    _, b₂ ++ rest, accepts_parseLaneRecord.mpr ⟨hdelta4, exact_of_packPair hb₁, b₁, hb₁, rfl⟩,
    _, rest, accepts_parseLaneRecord.mpr ⟨hhighEntropy, exact_of_packPair hb₂, b₂, hb₂, rfl⟩, rfl, rfl⟩
  simp only [List.append_assoc, List.nil_append]

theorem length_laneRecords {pairs : List (ℕ × ℕ)} {records : Bytes}
    (h : encodeAll (fun p : ℕ × ℕ => Struct.pack laneRecord (p.1, p.2, ())) pairs = some records) :
    records.length = pairs.length * Struct.size laneRecord := by
  induction pairs generalizing records with
  | nil =>
      cases h
      exact (Nat.zero_mul _).symm
  | cons p pairs ih =>
      obtain ⟨b, bs, hb, hbs, rfl⟩ := encodeAll_cons.mp h
      rw [List.length_append, Struct.pack_length hb, ih hbs, List.length_cons, Nat.succ_mul,
        Nat.add_comm]

/-- The plain parser gives back what the plain serializer was given. -/
theorem parse_plain {u : Unicode} {o : MetadataOptions} {r : Metadata} {payload : Bytes}
    (hr : Sound u o r) (hlimits : Form.Limits .plain r)
    (h : Form.serialize .plain r = .ok payload) :
    Form.parse u o .plain payload = .ok (Form.told .plain r) := by
  obtain ⟨serialized, start, records, hserialized, hstart, hrecords, rfl⟩ :=
    metadata_eq_some.mp (ofOption_eq_ok.mp h)
  have hm := Parsed.of_wellFormed hr.manifest hr.representable
  have hunique : (uniqueRecords r.manifest).length = o.uniqueCount := by
    rw [length_uniqueRecords, uniqueCount_of_parsed hm]
  have hsize := hlimits _ hserialized
  have hlength : start.length = Struct.size metadataPrefix := Struct.pack_length hstart
  have hrecordsLength : records.length = laneCount * Struct.size laneRecord := length_laneRecords hrecords
  have haccepts : (parsePlainFrom u o).Accepts (start ++ records ++ serialized ++ r.assignments)
      (Form.told .plain r) (serialized ++ r.assignments) := by
    simp only [parsePlainFrom, accepts_bind, accepts_remaining, accepts_raiseIf, accepts_record, not_lt]
    refine ⟨_, _, ⟨rfl, rfl⟩, (), _, ⟨?_, rfl⟩, (serialized.length, r.assignments.length, ()),
      records ++ (serialized ++ r.assignments), ⟨exact_of_packPair hstart, start, hstart, ?_⟩, ?_⟩
    · simp only [List.length_append, hlength, hrecordsLength]
      omega
    · simp only [List.append_assoc]
    simp only [accepts_bind, accepts_remaining, accepts_raiseIf, accepts_lift, accepts_pure, not_not,
      not_or, not_lt, strictLaneSizes_eq_ok]
    refine ⟨_, _, accepts_laneRecords hr.framed hrecords, (), _, ⟨⟨hr.assignments, hsize⟩, rfl⟩, _, _,
      ⟨rfl, rfl⟩, (), _, ⟨List.length_append.symm, rfl⟩, (), _, ⟨?_, rfl⟩, r.manifest, _, ⟨?_, rfl⟩, (), _,
      ⟨hunique, rfl⟩, laneSizes (uniqueRecords r.manifest) r.assignments, _, ⟨⟨?_, ?_⟩, rfl⟩, (), _,
      ⟨hr.rawSizes.symm, rfl⟩, ?_, rfl⟩
    · rintro ⟨lane, hlane, hlarge⟩
      rw [List.drop_left] at hlane
      exact absurd (hr.lanes lane hlane) (by omega)
    · rw [List.take_left]
      exact parseDedupManifest_eq_ok.mpr ⟨hm, hserialized⟩
    · rw [List.drop_left, hunique, hr.assignments]
    · rw [List.drop_left]
    · rw [List.drop_left]
      rfl
  show ((parsePlainFrom u o) (start ++ records ++ serialized ++ r.assignments)).map Prod.fst = _
  rw [accepts_iff.mp haccepts]
  rfl

/-! ### All forms -/

/-- The parser of a form gives back what its serializer was given. -/
theorem Form.parse_serialize {u : Unicode} {o : MetadataOptions} {form : Form} {r : Metadata}
    {payload : Bytes} (hr : Sound u o r) (hlimits : form.Limits r)
    (h : form.serialize r = .ok payload) : form.parse u o payload = .ok (form.told r) := by
  have hm := Parsed.of_wellFormed hr.manifest hr.representable
  cases form with
  | plain => exact parse_plain hr hlimits h
  | compactV1 =>
      obtain ⟨body, rfl⟩ := @magic_of_compactMetadata _ _ _ _ r.codecs false h
      exact parseCompactMetadata_eq_ok.mpr
        ⟨⟨⟨hm, hr.assignments, hr.rawSizes, hlimits, hr.framed⟩, fun _ => rfl⟩, h⟩
  | compact =>
      obtain ⟨body, rfl⟩ := @magic_of_compactMetadata _ _ _ _ r.codecs true h
      exact parseCompactMetadata_eq_ok.mpr
        ⟨⟨⟨hm, hr.assignments, hr.rawSizes, hlimits, hr.framed⟩, fun h => nomatch h⟩, h⟩

theorem Form.parseMetadata_eq {u : Unicode} {o : MetadataOptions} {form : Form} {payload : Bytes}
    (h : isCompact payload = decide (form ≠ .plain)) :
    parseMetadata u o payload = form.parse u o payload := by
  rw [parseMetadata, h]
  cases form <;> rfl

/-- What is put into an envelope within the limit is taken out again. -/
theorem decode_encode_envelope {zlib : Zlib} (hzlib : zlib.Inverts) {payload : Bytes}
    (hsize : payload.length ≤ maxManifestCiphertext) :
    ∃ envelope, encodeMetadataEnvelope zlib payload = some envelope ∧
      decodeMetadataEnvelope zlib envelope = .ok (payload, true) := by
  have hexact : Struct.Exact metadataEnvelope (metadataMagic, rawLzma2Codec, payload.length, ()) := by
    have hlimit : maxManifestCiphertext < 256 ^ 8 := by decide
    have hcodec : rawLzma2Codec < 256 ^ 1 := by decide
    exact ⟨rfl, hcodec, by show payload.length < 256 ^ 8; omega, trivial⟩
  obtain ⟨start, hstart, hunpack⟩ := Struct.unpack_pack hexact
  have hlength : start.length = Struct.size metadataEnvelope := Struct.pack_length hstart
  refine ⟨start ++ zlib.compress payload, by rw [encodeMetadataEnvelope, hstart]; rfl, ?_⟩
  have hmagic : metadataMagic.isPrefixOf (start ++ zlib.compress payload) = true := by
    have hfirst := hstart
    simp only [metadataEnvelope, Struct.pack_cons] at hfirst
    obtain ⟨b, bs, hb, -, rfl⟩ := hfirst
    obtain rfl := Option.some.inj ((Struct.Field.pack_bytes (by rfl)).symm.trans hb)
    rw [List.append_assoc]
    exact List.isPrefixOf_iff_prefix.mpr (List.prefix_append _ _)
  have hshort : ¬ (start ++ zlib.compress payload).length < Struct.size metadataEnvelope := by
    rw [List.length_append, hlength]
    omega
  have hbody : (start ++ zlib.compress payload).drop (Struct.size metadataEnvelope) =
      zlib.compress payload := List.drop_left' hlength
  have hinflated := hzlib payload (payload.length + 1) (Nat.lt_succ_self _)
  have hvalid : ¬ (metadataMagic ≠ metadataMagic ∨ rawLzma2Codec ≠ rawLzma2Codec ∨
      maxManifestCiphertext < payload.length) := by
    rintro (h | h | h)
    · exact h rfl
    · exact h rfl
    · omega
  rw [decodeMetadataEnvelope, hmagic, if_neg (by decide), Struct.unpack_append hlength, hunpack,
    Except.raiseIf, if_neg hshort, hbody]
  show (Except.raiseIf _ _ >>= fun _ => _) = _
  rw [Except.raiseIf, if_neg hvalid]
  simp only [bind, Except.bind, hinflated]
  show (checkInflated payload.length ⟨payload, [], true, []⟩).map _ = _
  have hchecked : checkInflated payload.length ⟨payload, [], true, []⟩ = .ok payload := by
    simp [checkInflated, Except.raiseIf]
  rw [hchecked]
  rfl

/-- A library that stores what it compresses. -/
def storedZlib : Zlib where
  compress := id
  decompress := fun data limit => some ⟨data.take limit, data.drop limit, true, []⟩

theorem storedZlib_inverts : storedZlib.Inverts := by
  intro payload limit hlimit
  have htake : payload.take limit = payload := List.take_of_length_le (by omega)
  have hdrop : payload.drop limit = [] := List.drop_of_length_le (by omega)
  show some (Inflated.mk (payload.take limit) (payload.drop limit) true []) = _
  rw [htake, hdrop]

end MosaicArchive.Solid
