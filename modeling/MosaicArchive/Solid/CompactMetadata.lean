import MosaicArchive.Manifest.DedupCanonical
import MosaicArchive.Solid.PackedLanes

/-!
The compact metadata codec is canonical: the parser accepts a payload with the magic of one
of the compact forms exactly if it is what the serializer makes of the result. Each part of
the parser is shown to accept exactly the encodings of its items.
-/

namespace MosaicArchive.Solid

open FixedWidth Utf8 ByteParser MosaicArchive.Manifest MosaicArchive.Container

/-! ### Texts, counts and codecs -/

theorem accepts_takeCompactBytes {size : ℕ} {description : String} {input rest b : Bytes} :
    (takeCompactBytes size description).Accepts input b rest ↔ b.length = size ∧ input = b ++ rest :=
  accepts_exactly

theorem accepts_takeCompactText {size : ℕ} {description : String} {invalid : PyError}
    {input rest : Bytes} {text : Text} :
    (takeCompactText size description invalid).Accepts input text rest ↔
      (encode text).length = size ∧ input = encode text ++ rest := by
  simp only [takeCompactText, accepts_bind, accepts_takeCompactBytes, accepts_lift, ofOption_eq_ok,
    decode_eq_some]
  constructor
  · rintro ⟨_, _, ⟨hlen, rfl⟩, rfl, rfl⟩
    exact ⟨hlen, rfl⟩
  · rintro ⟨hlen, rfl⟩
    exact ⟨_, _, ⟨hlen, rfl⟩, rfl, rfl⟩

theorem compactUints_cons {value : ℕ} {values : List ℕ} {bytes : Bytes} :
    compactUints (value :: values) = .ok bytes ↔ ∃ b bs, encodeCompactUint value = .ok b ∧
      compactUints values = .ok bs ∧ bytes = b ++ bs := by
  simp only [compactUints, Except.bind_eq_ok_iff, Except.ok.injEq, exists_and_left, eq_comm (b := bytes)]

/-- A loop over the lanes accepts the encodings of three numbers, where its body accepts that of one. -/
theorem accepts_forLanes {body : ℕ → ByteParser PyError ℕ} {ok : ℕ → ℕ → Prop}
    (hbody : ∀ lane value input rest, (body lane).Accepts input value rest ↔
      ok lane value ∧ ∃ b, encodeCompactUint value = .ok b ∧ input = b ++ rest)
    {lanes : Lanes ℕ} {input rest : Bytes} : (forLanes body).Accepts input lanes rest ↔
      (ok 0 lanes.standard ∧ ok 1 lanes.delta4 ∧ ok 2 lanes.highEntropy) ∧
        ∃ b, compactUints lanes.toList = .ok b ∧ input = b ++ rest := by
  simp only [forLanes, accepts_bind, accepts_pure, hbody, Lanes.toList, compactUints_cons]
  constructor
  · rintro ⟨_, _, ⟨h₀, b₀, hb₀, rfl⟩, _, _, ⟨h₁, b₁, hb₁, rfl⟩, _, _, ⟨h₂, b₂, hb₂, rfl⟩, rfl, rfl⟩
    exact ⟨⟨h₀, h₁, h₂⟩, b₀ ++ (b₁ ++ (b₂ ++ [])),
      ⟨b₀, _, hb₀, ⟨b₁, _, hb₁, ⟨b₂, [], hb₂, rfl, rfl⟩, rfl⟩, rfl⟩, by simp⟩
  · rintro ⟨⟨h₀, h₁, h₂⟩, _, ⟨b₀, _, hb₀, ⟨b₁, _, hb₁, ⟨b₂, b₃, hb₂, hb₃, rfl⟩, rfl⟩, rfl⟩, rfl⟩
    cases hb₃
    exact ⟨_, b₁ ++ (b₂ ++ rest), ⟨h₀, b₀, hb₀, by simp⟩, _, b₂ ++ rest, ⟨h₁, b₁, hb₁, rfl⟩, _, rest,
      ⟨h₂, b₂, hb₂, rfl⟩, rfl, rfl⟩

/-- What the frame counts of a parsed archive satisfy. -/
def FrameCountsBounded (counts : Lanes ℕ) : Prop :=
  counts.standard ≤ defaultMaxFrameCount ∧ counts.delta4 ≤ defaultMaxFrameCount ∧
    counts.highEntropy ≤ defaultMaxFrameCount

theorem accepts_frameCounts {counts : Lanes ℕ} {input rest : Bytes} :
    (forLanes parseFrameCount).Accepts input counts rest ↔
      FrameCountsBounded counts ∧ ∃ b, compactUints counts.toList = .ok b ∧ input = b ++ rest :=
  @accepts_forLanes parseFrameCount (fun _ count => count ≤ defaultMaxFrameCount)
    (fun _ _ _ _ => accepts_decodeCompactUint) counts input rest

theorem compactCodecs_eq_ok {codecs : Lanes ℕ} {b : Bytes} : compactCodecs codecs = .ok b ↔
    (codecs.standard ∈ validCodecsByLane.standard ∧ codecs.delta4 ∈ validCodecsByLane.delta4 ∧
      codecs.highEntropy ∈ validCodecsByLane.highEntropy) ∧ compactUints codecs.toList = .ok b := by
  simp only [compactCodecs, Except.bind_eq_ok_iff, Except.raiseIf_eq_ok, not_or, not_not, exists_const]

theorem accepts_codecs {codecs : Lanes ℕ} {input rest : Bytes} :
    (forLanes parseLaneCodec).Accepts input codecs rest ↔
      ∃ b, compactCodecs codecs = .ok b ∧ input = b ++ rest := by
  have hbody : ∀ lane value input rest, (parseLaneCodec lane).Accepts input value rest ↔
      (value ≤ codecZstd ∧ value ∈ validCodecsByLane.toList.getD lane []) ∧
        ∃ b, encodeCompactUint value = .ok b ∧ input = b ++ rest := by
    intro lane value input rest
    simp only [parseLaneCodec, accepts_bind, accepts_raiseIf, accepts_pure, accepts_decodeCompactUint,
      not_not]
    constructor
    · rintro ⟨_, _, ⟨hle, b, hb, rfl⟩, _, _, ⟨hvalid, rfl⟩, rfl, rfl⟩
      exact ⟨⟨hle, hvalid⟩, b, hb, rfl⟩
    · rintro ⟨⟨hle, hvalid⟩, b, hb, rfl⟩
      exact ⟨value, rest, ⟨hle, b, hb, rfl⟩, (), rest, ⟨hvalid, rfl⟩, rfl, rfl⟩
  have hle : ∀ codecList ∈ validCodecsByLane.toList, ∀ codec ∈ codecList, codec ≤ codecZstd := by decide
  have hstandard := hle validCodecsByLane.standard (by simp [Lanes.toList])
  have hdelta4 := hle validCodecsByLane.delta4 (by simp [Lanes.toList])
  have hhighEntropy := hle validCodecsByLane.highEntropy (by simp [Lanes.toList])
  rw [accepts_forLanes hbody]
  simp only [compactCodecs_eq_ok]
  constructor
  · rintro ⟨⟨⟨-, h₀⟩, ⟨-, h₁⟩, -, h₂⟩, b, hb, rfl⟩
    exact ⟨b, ⟨⟨h₀, h₁, h₂⟩, hb⟩, rfl⟩
  · rintro ⟨b, ⟨⟨h₀, h₁, h₂⟩, hb⟩, rfl⟩
    exact ⟨⟨⟨hstandard _ h₀, h₀⟩, ⟨hdelta4 _ h₁, h₁⟩, hhighEntropy _ h₂, h₂⟩, b, hb, rfl⟩

/-! ### Entries -/

/-- The entry of a specification, with the range of chunks still open. -/
def EntrySpec.toEntry (s : EntrySpec) : Entry :=
  ⟨s.entryType, s.relativePath, s.mode, s.mtimeNs, 0, 0, s.count, s.digest⟩

/-- What a compact form tells of an entry. -/
def specOf (e : Entry) : EntrySpec :=
  ⟨e.entryType, e.relativePath, e.mode, e.mtimeNs, e.count, e.digest⟩

/-- What the parser checks of one specification. -/
structure SpecOk (chunkCount : ℕ) (s : EntrySpec) : Prop where
  entryType : s.entryType = entryFile ∨ s.entryType = entryDirectory
  path : (encode s.relativePath).length ≤ 65535
  mode : s.mode ≤ 0o777
  mtimeNs : -2 ^ 63 ≤ s.mtimeNs ∧ s.mtimeNs < 2 ^ 63
  file : s.entryType = entryFile → s.count ≤ chunkCount ∧ s.digest.length = 32
  directory : s.entryType = entryDirectory → s.count = 0 ∧ s.digest = zeroHash

theorem compactEntry_eq_ok {previousMtimeNs : ℤ} {e : Entry} {bytes : Bytes} :
    compactEntry previousMtimeNs e = .ok bytes ↔
      e.entryType ∈ [entryFile, entryDirectory] ∧ ∃ pathDescriptor mode mtimeDelta tail,
        encodeCompactUint (descriptor (encode e.relativePath).length e.isDirectory) = .ok pathDescriptor ∧
        encodeCompactUint e.mode = .ok mode ∧
        encodeCompactSint (e.mtimeNs - previousMtimeNs) = .ok mtimeDelta ∧
        compactTail e = .ok tail ∧
        bytes = pathDescriptor ++ encode e.relativePath ++ mode ++ mtimeDelta ++ tail := by
  simp only [compactEntry, Except.bind_eq_ok_iff, Except.raiseIf_eq_ok, not_not, Except.ok.injEq,
    exists_const, exists_and_left, eq_comm (b := bytes)]

/-- The specification of an entry is encoded like the entry. -/
theorem compactEntry_specOf (previousMtimeNs : ℤ) (e : Entry) :
    compactEntry previousMtimeNs (specOf e).toEntry = compactEntry previousMtimeNs e := rfl

theorem except_map_eq_ok {α β : Type} {f : α → β} {x : Except PyError α} {b : β} :
    x.map f = .ok b ↔ ∃ a, x = .ok a ∧ b = f a := by
  cases x <;> simp [Except.map, eq_comm]

theorem accepts_parseTail {chunkCount index : ℕ} {s : EntrySpec} {input rest : Bytes}
    (htype : s.entryType = entryFile ∨ s.entryType = entryDirectory) :
    (parseTail chunkCount index s.entryType).Accepts input (s.count, s.digest) rest ↔
      ((s.entryType = entryFile → s.count ≤ chunkCount ∧ s.digest.length = 32) ∧
        (s.entryType = entryDirectory → s.count = 0 ∧ s.digest = zeroHash)) ∧
      ∃ tail, compactTail s.toEntry = .ok tail ∧ input = tail ++ rest := by
  have hne : entryFile ≠ entryDirectory := by decide
  rw [parseTail, compactTail]
  show _ ↔ _ ∧ ∃ tail, (if s.entryType = entryFile then (encodeCompactUint s.count).map (· ++ s.digest)
    else .ok []) = .ok tail ∧ _
  rcases htype with hfile | hdir
  · simp only [hfile, if_true, accepts_bind, accepts_decodeCompactUint, accepts_takeCompactBytes,
      accepts_pure, except_map_eq_ok, Prod.mk.injEq, forall_const, hne, false_implies, and_true]
    constructor
    · rintro ⟨_, _, ⟨hle, b, hb, rfl⟩, _, _, ⟨hlen, rfl⟩, ⟨rfl, rfl⟩, rfl⟩
      exact ⟨⟨hle, hlen⟩, _, ⟨b, hb, rfl⟩, (List.append_assoc ..).symm⟩
    · rintro ⟨⟨hle, hlen⟩, _, ⟨b, hb, rfl⟩, rfl⟩
      exact ⟨_, _, ⟨hle, b, hb, List.append_assoc ..⟩, _, _, ⟨hlen, rfl⟩, ⟨rfl, rfl⟩, rfl⟩
  · simp only [hdir, hne.symm, if_false, accepts_pure, Prod.mk.injEq, false_implies, forall_const,
      true_and, Except.ok.injEq]
    constructor
    · rintro ⟨hzero, rfl⟩
      exact ⟨hzero, [], rfl, rfl⟩
    · rintro ⟨hzero, _, rfl, rfl⟩
      exact ⟨hzero, rfl⟩

theorem descriptor_div (length : ℕ) (bit : Bool) : descriptor length bit / 2 = length := by
  cases bit <;> simp only [descriptor, Bool.toNat_true, Bool.toNat_false] <;> omega

theorem descriptor_mod (length : ℕ) (bit : Bool) : descriptor length bit % 2 = bit.toNat := by
  cases bit <;> simp only [descriptor, Bool.toNat_true, Bool.toNat_false] <;> omega

theorem descriptor_div_mod (value : ℕ) : descriptor (value / 2) (value % 2 = 1) = value := by
  rcases Nat.mod_two_eq_zero_or_one value with h | h <;>
    simp only [descriptor, h] <;> simp <;> omega

/-- The type that the lowest bit of a descriptor stands for. -/
theorem kindOfBit (value : ℕ) : (if value % 2 = 1 then entryDirectory else entryFile) = entryFile ∨
    (if value % 2 = 1 then entryDirectory else entryFile) = entryDirectory := by
  split
  · exact Or.inr rfl
  · exact Or.inl rfl

theorem isDirectory_of_bit (value : ℕ) :
    decide ((if value % 2 = 1 then entryDirectory else entryFile) = entryDirectory) =
      decide (value % 2 = 1) := by
  split
  · rename_i h
    rw [decide_eq_true h]
    rfl
  · rename_i h
    rw [decide_eq_false h]
    rfl

theorem bitOfKind {entryType : ℕ} (h : entryType = entryFile ∨ entryType = entryDirectory) :
    (if (decide (entryType = entryDirectory)).toNat = 1 then entryDirectory else entryFile) =
      entryType := by
  rcases h with rfl | rfl
  · rfl
  · rfl

/-- The body of the entry loop accepts the encodings of the specifications it may take. -/
theorem accepts_parseEntrySpec (chunkCount index : ℕ) (t : SpecTable) (input : Bytes) (next : SpecTable)
    (rest : Bytes) : (parseEntrySpec chunkCount index t).Accepts input next rest ↔
      ∃ s b, (SpecOk chunkCount s ∧ compactEntry t.previousMtimeNs s.toEntry = .ok b) ∧
        next = t.push s ∧ input = b ++ rest := by
  simp only [parseEntrySpec, accepts_bind, accepts_decodeCompactUint, accepts_takeCompactText,
    accepts_decodeCompactSint, accepts_raiseIf, accepts_pure, not_not, Prod.exists]
  constructor
  · rintro ⟨value, _, ⟨hvalue, b₀, hb₀, rfl⟩, path, _, ⟨hpath, rfl⟩, mode, _, ⟨hmode, b₁, hb₁, rfl⟩,
      delta, _, ⟨b₂, hb₂, rfl⟩, _, _, ⟨hmtime, rfl⟩, count, digest, _, htail, rfl, rfl⟩
    let s : EntrySpec := ⟨if value % 2 = 1 then entryDirectory else entryFile, path, mode,
      t.previousMtimeNs + delta, count, digest⟩
    have htype : s.entryType = entryFile ∨ s.entryType = entryDirectory := kindOfBit value
    obtain ⟨⟨hfile, hdirectory⟩, tail, htailBytes, rfl⟩ := (accepts_parseTail (s := s) htype).mp htail
    have hdescriptor : descriptor (encode path).length s.toEntry.isDirectory = value := by
      have hbit : s.toEntry.isDirectory = decide (value % 2 = 1) := isDirectory_of_bit value
      rw [hbit, hpath, descriptor_div_mod]
    have hdelta : t.previousMtimeNs + delta - t.previousMtimeNs = delta := by omega
    have hlength : (encode path).length ≤ 65535 := by
      rw [hpath]
      have hmax : maxDescriptor = 131071 := rfl
      omega
    refine ⟨s, b₀ ++ encode path ++ b₁ ++ b₂ ++ tail, ⟨⟨htype, hlength, hmode, hmtime, hfile, hdirectory⟩,
      compactEntry_eq_ok.mpr ⟨List.mem_pair.mpr htype, b₀, b₁, b₂, tail, ?_, hb₁, ?_, htailBytes, rfl⟩⟩, rfl,
      ?_⟩
    · rw [← hb₀, ← hdescriptor]
      rfl
    · rw [← hb₂, ← hdelta]
      rfl
    · simp only [List.append_assoc]
  · rintro ⟨s, b, ⟨hs, hb⟩, rfl, rfl⟩
    obtain ⟨-, b₀, b₁, b₂, tail, hb₀, hb₁, hb₂, htail, rfl⟩ := compactEntry_eq_ok.mp hb
    have hkind : (if descriptor (encode s.relativePath).length s.toEntry.isDirectory % 2 = 1 then
        entryDirectory else entryFile) = s.entryType := by
      rw [descriptor_mod]
      exact bitOfKind hs.entryType
    have hmax : descriptor (encode s.relativePath).length s.toEntry.isDirectory ≤ maxDescriptor := by
      have hpath := hs.path
      have hbit := Bool.toNat_le s.toEntry.isDirectory
      have hvalue : maxDescriptor = 131071 := rfl
      rw [descriptor]
      omega
    have hnext : t.previousMtimeNs + (s.toEntry.mtimeNs - t.previousMtimeNs) = s.mtimeNs := by
      show t.previousMtimeNs + (s.mtimeNs - t.previousMtimeNs) = s.mtimeNs
      omega
    refine ⟨_, _, ⟨hmax, b₀, hb₀, ?_⟩, s.relativePath, b₁ ++ (b₂ ++ (tail ++ rest)),
      ⟨(descriptor_div _ _).symm, rfl⟩, s.mode, _, ⟨hs.mode, b₁, hb₁, rfl⟩, _, _, ⟨b₂, hb₂, rfl⟩, (), _,
      ⟨by rw [hnext]; exact hs.mtimeNs, rfl⟩, s.count, s.digest, rest, ?_, ?_, rfl⟩
    · show b₀ ++ encode s.relativePath ++ b₁ ++ b₂ ++ tail ++ rest = _
      simp only [List.append_assoc]
    · rw [hkind]
      exact (accepts_parseTail hs.entryType).mpr ⟨⟨hs.file, hs.directory⟩, tail, htail, rfl⟩
    · rw [hkind, hnext]

theorem compactEntries_cons {previousMtimeNs : ℤ} {e : Entry} {es : List Entry} {bytes : Bytes} :
    compactEntries previousMtimeNs (e :: es) = .ok bytes ↔ ∃ b bs,
      compactEntry previousMtimeNs e = .ok b ∧ compactEntries e.mtimeNs es = .ok bs ∧
        bytes = b ++ bs := by
  simp only [compactEntries, Except.bind_eq_ok_iff, Except.ok.injEq, exists_and_left, eq_comm (b := bytes)]

theorem pushAll_specs (index : ℕ) (t : SpecTable) (specs : List EntrySpec) :
    (pushAll (fun _ => SpecTable.push) index t specs).specs = t.specs ++ specs := by
  induction specs generalizing index t with
  | nil => exact (List.append_nil _).symm
  | cons s specs ih => rw [pushAll_cons, ih, SpecTable.push, List.append_assoc, List.singleton_append]

/-- The entry loop accepts the encodings of the lists of specifications. -/
theorem accepts_specLoop {chunkCount count : ℕ} {t : SpecTable} {input rest : Bytes} :
    (forRange (parseEntrySpec chunkCount) count 0 {}).Accepts input t rest ↔
      ∃ b, t.specs.length = count ∧ (∀ s ∈ t.specs, SpecOk chunkCount s) ∧
        compactEntries 0 (t.specs.map EntrySpec.toEntry) = .ok b ∧
        t = pushAll (fun _ => SpecTable.push) 0 {} t.specs ∧ input = b ++ rest := by
  have hwritten : ∀ (specs : List EntrySpec) (index : ℕ) (t : SpecTable) (b : Bytes),
      Written (fun _ t s b => SpecOk chunkCount s ∧ compactEntry t.previousMtimeNs s.toEntry = .ok b)
        (fun _ => SpecTable.push) index t specs b ↔ (∀ s ∈ specs, SpecOk chunkCount s) ∧
          compactEntries t.previousMtimeNs (specs.map EntrySpec.toEntry) = .ok b := by
    intro specs
    induction specs with
    | nil =>
        intro index t b
        rw [written_nil, List.map_nil, compactEntries, Except.ok.injEq, eq_comm]
        exact (and_iff_right (List.forall_mem_nil _)).symm
    | cons s specs ih =>
        intro index t b
        rw [written_cons, List.map_cons, compactEntries_cons, List.forall_mem_cons]
        simp only [ih]
        constructor
        · rintro ⟨b, bs, ⟨hs, hb⟩, ⟨hall, hbs⟩, rfl⟩
          exact ⟨⟨hs, hall⟩, b, bs, hb, hbs, rfl⟩
        · rintro ⟨⟨hs, hall⟩, b, bs, hb, hbs, rfl⟩
          exact ⟨b, bs, ⟨hs, hb⟩, ⟨hall, hbs⟩, rfl⟩
  rw [accepts_forRange_written (accepts_parseEntrySpec chunkCount)]
  simp only [hwritten]
  constructor
  · rintro ⟨specs, b, rfl, ⟨hall, hb⟩, rfl, rfl⟩
    have hspecs : (pushAll (fun _ => SpecTable.push) 0 {} specs).specs = specs := pushAll_specs 0 {} specs
    rw [hspecs]
    exact ⟨b, rfl, hall, hb, rfl, rfl⟩
  · rintro ⟨b, rfl, hall, hb, ht, rfl⟩
    exact ⟨t.specs, b, rfl, ⟨hall, hb⟩, ht, rfl⟩

/-! ### Chunks -/

/-- What the parser checks of one chunk. -/
def CompactChunkOk (maxSize index : ℕ) (t : ChunkTable) (c : ChunkRecord) : Prop :=
  (c.sourceIndex = index ∧ c.size ≠ 0 ∧ c.size ≤ maxSize ∧ c.digest.length = 32) ∨
    (c.sourceIndex < index ∧ (t.chunks.getD c.sourceIndex default).sourceIndex = c.sourceIndex ∧
      (t.chunks.getD c.sourceIndex default).digest = c.digest ∧
      (t.chunks.getD c.sourceIndex default).size = c.size)

theorem accepts_map {α β : Type} {f : α → β} {p : ByteParser PyError α} {input rest : Bytes} {b : β} :
    (f <$> p).Accepts input b rest ↔ ∃ a, p.Accepts input a rest ∧ b = f a := by
  rw [← bind_pure_comp, accepts_bind]
  simp only [accepts_pure]
  constructor
  · rintro ⟨a, _, ha, rfl, rfl⟩
    exact ⟨a, ha, rfl⟩
  · rintro ⟨a, ha, rfl⟩
    exact ⟨a, rest, ha, rfl, rfl⟩

theorem accepts_parseOwnChunk {maxSize index : ℕ} {c : ChunkRecord} {input rest : Bytes} :
    (parseOwnChunk maxSize index).Accepts input c rest ↔
      (c.sourceIndex = index ∧ c.size ≠ 0 ∧ c.size ≤ maxSize ∧ c.digest.length = 32) ∧
        ∃ b, encodeCompactUint c.size = .ok b ∧ input = b ++ c.digest ++ rest := by
  simp only [parseOwnChunk, accepts_bind, accepts_decodeCompactUint, accepts_raiseIf,
    accepts_takeCompactBytes, accepts_pure]
  constructor
  · rintro ⟨size, _, ⟨hle, b, hb, rfl⟩, _, _, ⟨hne, rfl⟩, digest, _, ⟨hlen, rfl⟩, rfl, rfl⟩
    exact ⟨⟨rfl, hne, hle, hlen⟩, b, hb, (List.append_assoc ..).symm⟩
  · rintro ⟨⟨rfl, hne, hle, hlen⟩, b, hb, rfl⟩
    exact ⟨c.size, _, ⟨hle, b, hb, List.append_assoc ..⟩, (), _, ⟨hne, rfl⟩, c.digest, rest, ⟨hlen, rfl⟩,
      rfl, rfl⟩

theorem accepts_parseDuplicate {index : ℕ} {chunks : List ChunkRecord} {c : ChunkRecord}
    {input rest : Bytes} : (parseDuplicate index chunks).Accepts input c rest ↔
      (c.sourceIndex < index ∧ (chunks.getD c.sourceIndex default).sourceIndex = c.sourceIndex ∧
        (chunks.getD c.sourceIndex default).digest = c.digest ∧
        (chunks.getD c.sourceIndex default).size = c.size) ∧
      ∃ b, encodeCompactUint c.sourceIndex = .ok b ∧ input = b ++ rest := by
  simp only [parseDuplicate, accepts_bind, accepts_decodeCompactUint, accepts_raiseIf, accepts_pure, not_not]
  constructor
  · rintro ⟨_, _, ⟨hpos, rfl⟩, source, _, ⟨hle, b, hb, rfl⟩, _, _, ⟨hown, rfl⟩, rfl, rfl⟩
    exact ⟨⟨Nat.lt_of_le_pred (Nat.pos_of_ne_zero hpos) hle, hown, rfl, rfl⟩, b, hb, rfl⟩
  · rintro ⟨⟨hlt, hown, hdigest, hsize⟩, b, hb, rfl⟩
    refine ⟨(), _, ⟨by omega, rfl⟩, c.sourceIndex, _, ⟨by omega, b, hb, rfl⟩, (), _, ⟨hown, rfl⟩, ?_, rfl⟩
    rw [hdigest, hsize]

/-- The body of the chunk loop accepts the encodings of the chunks that may follow. -/
theorem accepts_parseCompactChunk (maxSize index : ℕ) (t : ChunkTable) (input : Bytes)
    (next : ChunkTable) (rest : Bytes) : (parseCompactChunk maxSize index t).Accepts input next rest ↔
      ∃ c b, (CompactChunkOk maxSize index t c ∧ compactChunk index c = .ok b) ∧
        next = t.push index c ∧ input = b ++ rest := by
  have hown : ∀ c : ChunkRecord, c.sourceIndex = index → compactChunk index c =
      (encodeCompactUint c.size).map fun size => 0 :: (size ++ c.digest) := fun c h => if_pos h
  have hdup : ∀ c : ChunkRecord, c.sourceIndex < index → compactChunk index c =
      (encodeCompactUint c.sourceIndex).map fun source => 1 :: source := fun c h => if_neg (by omega)
  simp only [parseCompactChunk, accepts_bind, accepts_takeCompactBytes]
  constructor
  · rintro ⟨tag, mid, ⟨-, rfl⟩, h⟩
    split_ifs at h with hzero hone
    · simp only [accepts_map, accepts_parseOwnChunk] at h
      obtain ⟨c, ⟨hc, b, hb, rfl⟩, rfl⟩ := h
      refine ⟨c, 0 :: (b ++ c.digest), ⟨Or.inl hc, ?_⟩, rfl, ?_⟩
      · rw [hown c hc.1, hb]
        rfl
      · rw [hzero, List.singleton_append, List.cons_append]
    · simp only [accepts_map, accepts_parseDuplicate] at h
      obtain ⟨c, ⟨hc, b, hb, rfl⟩, rfl⟩ := h
      refine ⟨c, 1 :: b, ⟨Or.inr hc, ?_⟩, rfl, ?_⟩
      · rw [hdup c hc.1, hb]
        rfl
      · rw [hone, List.singleton_append, List.cons_append]
    · exact absurd h accepts_throw
  · rintro ⟨c, bytes, ⟨hc | hc, hbytes⟩, rfl, rfl⟩
    · rw [hown c hc.1, except_map_eq_ok] at hbytes
      obtain ⟨b, hb, rfl⟩ := hbytes
      refine ⟨[0], b ++ c.digest ++ rest, ⟨rfl, rfl⟩, ?_⟩
      rw [if_pos rfl, accepts_map]
      exact ⟨c, accepts_parseOwnChunk.mpr ⟨hc, b, hb, rfl⟩, rfl⟩
    · rw [hdup c hc.1, except_map_eq_ok] at hbytes
      obtain ⟨b, hb, rfl⟩ := hbytes
      refine ⟨[1], b ++ rest, ⟨rfl, rfl⟩, ?_⟩
      rw [if_neg (by decide), if_pos rfl, accepts_map]
      exact ⟨c, accepts_parseDuplicate.mpr ⟨hc, b, hb, rfl⟩, rfl⟩

theorem compactChunks_cons {index : ℕ} {c : ChunkRecord} {cs : List ChunkRecord} {bytes : Bytes} :
    compactChunks index (c :: cs) = .ok bytes ↔ ∃ b bs, compactChunk index c = .ok b ∧
      compactChunks (index + 1) cs = .ok bs ∧ bytes = b ++ bs := by
  simp only [compactChunks, Except.bind_eq_ok_iff, Except.ok.injEq, exists_and_left, eq_comm (b := bytes)]

/-- The chunk loop accepts the encodings of the lists of chunks that may be pushed. -/
theorem accepts_compactChunkLoop {maxSize count : ℕ} {t : ChunkTable} {input rest : Bytes} :
    (forRange (parseCompactChunk maxSize) count 0 {}).Accepts input t rest ↔
      ∃ b, t.chunks.length = count ∧ Along (CompactChunkOk maxSize) ChunkTable.push 0 {} t.chunks ∧
        compactChunks 0 t.chunks = .ok b ∧ t = pushAll ChunkTable.push 0 {} t.chunks ∧
        input = b ++ rest := by
  have hwritten : ∀ (cs : List ChunkRecord) (index : ℕ) (t : ChunkTable) (b : Bytes),
      Written (fun index t c b => CompactChunkOk maxSize index t c ∧ compactChunk index c = .ok b)
        ChunkTable.push index t cs b ↔ Along (CompactChunkOk maxSize) ChunkTable.push index t cs ∧
          compactChunks index cs = .ok b := by
    intro cs
    induction cs with
    | nil =>
        intro index t b
        rw [written_nil, compactChunks, Except.ok.injEq, eq_comm]
        exact (and_iff_right trivial).symm
    | cons c cs ih =>
        intro index t b
        rw [written_cons, compactChunks_cons, along_cons]
        simp only [ih]
        constructor
        · rintro ⟨b, bs, ⟨hc, hb⟩, ⟨hall, hbs⟩, rfl⟩
          exact ⟨⟨hc, hall⟩, b, bs, hb, hbs, rfl⟩
        · rintro ⟨⟨hc, hall⟩, b, bs, hb, hbs, rfl⟩
          exact ⟨b, bs, ⟨hc, hb⟩, ⟨hall, hbs⟩, rfl⟩
  rw [accepts_forRange_written (accepts_parseCompactChunk maxSize)]
  simp only [hwritten]
  constructor
  · rintro ⟨cs, b, rfl, ⟨hall, hb⟩, rfl, rfl⟩
    have hchunks : (pushAll ChunkTable.push 0 {} cs).chunks = cs := pushAll_chunks 0 {} cs
    rw [hchunks]
    exact ⟨b, rfl, hall, hb, rfl, rfl⟩
  · rintro ⟨b, rfl, hall, hb, ht, rfl⟩
    exact ⟨t.chunks, b, rfl, ⟨hall, hb⟩, ht, rfl⟩

end MosaicArchive.Solid
