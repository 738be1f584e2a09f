import MosaicArchive.Encoder.StreamArchive

/-!
`encode_dedup_archive` (`mosaic_archive/dedup_archive.py`): the source is cut into chunks twice, once
for the manifest and once for the frames, and only a chunk that is its own source gets a frame.
-/

namespace MosaicArchive.Encoder

open CallHistory MosaicArchive.Manifest MosaicArchive.Container MosaicArchive.Source MosaicArchive.Modes
open MosaicArchive.Gear (ChunkingConfig ScanState scanRead iterContentDefinedChunks)
open Routine (lift raise raiseIf forEach)
open FixedWidth (Bytes)
open Utf8 (Text)

structure DedupOptions where
  config : ChunkingConfig
  paddingSize : ℕ := 4096
  kdfLogN : ℕ := 15
  profile : Profile := .balanced

def dedupHeader (o : DedupOptions) (draws : FramedDraws) (frameCount : ℕ) : Msc3Header where
  version := msc6Version
  flags := msc3Flags
  kdfId := kdfScrypt
  aeadId := aeadChacha20Poly1305
  minChunkSize := o.config.minSize
  avgChunkSize := o.config.avgSize
  maxChunkSize := o.config.maxSize
  paddingSize := o.paddingSize
  salt := draws.salt
  noncePrefix := draws.noncePrefix
  kdfLogN := o.kdfLogN
  kdfR := 8
  kdfP := 1
  frameCount := frameCount

/-- The chunks that are yielded; what follows the last boundary is lost if a read fails. -/
def yieldedChunks (config : ChunkingConfig) (content : Content) : List Bytes :=
  if content.failed then
    (content.reads.blocks.foldl (scanRead config) ScanState.initial).yielded
  else iterContentDefinedChunks config content.reads

/-- The variables of the loop over the entries: the next occurrence and the next frame. -/
structure DedupEncoded where
  occurrence : ℕ := 0
  frameIndex : ℕ := 1

section

variable (u : Unicode) (zlib : Zlib) (scrypt : Scrypt) (env : Environment Call Reply)
  (platform : Platform) (routing : Bytes → Routing)

/-- The payload of a data frame. -/
def dedupPayload (profile : Profile) (occurrence : ℕ) (chunk : Bytes) : Except PyError Bytes := do
  let selected ← chooseRoutedMode zlib.encoder (routing chunk) profile chunk
  let start ← ofOption
    (Struct.pack dedupDataPrefix (occurrence, chunk.length, selected.mode.toNat, ())) .struct
  .ok (start ++ selected.payload)

/-- One chunk. -/
def putChunk (draws : FramedDraws) (f : FrameFormat) (key : Bytes) (profile : Profile)
    (m : DedupManifest) (path : Path) (t : DedupEncoded) (chunk : Bytes) : Run DedupEncoded :=
  match m.chunks[t.occurrence]? with
  | none => raise (.python (.runtime "tuple index out of range"))
  | some record => do
      raiseIf (chunk.length ≠ record.size ∨ sha256 chunk ≠ record.digest)
        (osError ("input changed while it was encoded: " ++ path.text))
      if record.sourceIndex = t.occurrence then do
        let payload ← lift (ofPython (dedupPayload zlib routing profile t.occurrence chunk))
        putFrame env draws.padding f key t.frameIndex frameData payload
        pure ⟨t.occurrence + 1, t.frameIndex + 1⟩
      else pure { t with occurrence := t.occurrence + 1 }

/-- The body of `with source_session.open_file(relative)`. -/
def putChunks (draws : FramedDraws) (f : FrameFormat) (key : Bytes) (o : DedupOptions)
    (m : DedupManifest) (path : Path) (t : DedupEncoded) (descriptor : ℕ) :
    Run (Bytes × DedupEncoded) := do
  let content ← readContent env descriptor
  let chunks := yieldedChunks o.config content
  let t' ← forEach (putChunk zlib env routing draws f key o.profile m path) chunks t
  raiseIf (content.failed = true) (systemError "read")
  pure (sha256 chunks.flatten, t')

/-- The body of the loop over the entries. -/
def putDedupEntry (draws : FramedDraws) (f : FrameFormat) (key : Bytes) (o : DedupOptions)
    (s : SourceSession) (m : DedupManifest) (t : DedupEncoded) (e : Entry) : Run DedupEncoded :=
  if e.entryType ≠ entryFile then pure t
  else do
    let relative := if s.rootIsFile then [] else e.relativePath
    let path ← lift (s.pathFor relative)
    let (digest, t') ← openFile env platform s relative
      (putChunks zlib env routing draws f key o m path t)
    raiseIf (digest ≠ e.digest) (osError ("input changed while it was encoded: " ++ path.text))
    pure t'

/-- What is written to the temporary file. -/
def writeDedup (draws : FramedDraws) (h : Msc3Header) (globalHeader key payload : Bytes)
    (o : DedupOptions) (s : SourceSession) (m : DedupManifest) : Run DedupEncoded := do
  output env (.write globalHeader)
  let f := h.frameFormat globalHeader
  putFrame env draws.padding f key 0 frameManifest payload
  forEach (putDedupEntry zlib env platform routing draws f key o s m) m.entries {}

/-- The checks between closing the temporary file and replacing the destination. -/
def checkDedup (directories : ℕ) (h : Msc3Header) (s : SourceSession) (m : DedupManifest)
    (t : DedupEncoded) : Run Unit := do
  raiseIf (t.occurrence ≠ m.chunks.length ∨ t.frameIndex ≠ h.frameCount)
    (.python (.runtime "internal MSC3 occurrence/frame mismatch"))
  source env fun env => s.verifyBindings env directories

/-- `encode_dedup_archive`: the manifest. A session is captured and verified with bounds on the
directories visited. -/
def encodeDedupArchive (directories : ℕ) (inputPath : Text) (password : Password) (o : DedupOptions)
    (draws : FramedDraws) : Run DedupManifest := do
  raiseIf (¬ (256 ≤ o.paddingSize ∧ o.paddingSize ≤ 16 * 1024 * 1024) ∨
      ¬ (14 ≤ o.kdfLogN ∧ o.kdfLogN ≤ 18))
    (valueError "padding or scrypt cost is outside supported limits")
  let s ← source env fun env => SourceSession.capture env u directories (posixParts inputPath)
  let (m, _) ← source env fun env => scanManifest u env platform o.config s
  let unique := m.chunks.zipIdx.countP fun item => item.1.sourceIndex = item.2
  raiseIf (16777216 < unique + 1) (valueError "input produces too many unique MSC3 chunks")
  let h := dedupHeader o draws (unique + 1)
  let globalHeader ← lift (ofPython (ofOption h.pack .struct))
  let key ← lift (ofPython (deriveKey scrypt password draws.salt o.kdfLogN 8 1))
  let payload ← lift (ofPython (ofOption (serializeDedupManifest m) .struct))
  lift (ofPython (checkDedupManifestSize h payload))
  let _ ← publish env (writeDedup zlib env platform routing draws h globalHeader key payload o s m)
    (checkDedup env directories h s m)
  pure m

end

/-! ### What is encrypted and written -/

/-- The occurrence is its own source. -/
def isOwn (m : DedupManifest) (occurrence : ℕ) : Bool :=
  (m.chunks[occurrence]?).any fun record => record.sourceIndex = occurrence

/-- The chunks that go into the data frames, each with its occurrence. -/
def ownChunks (m : DedupManifest) (start : ℕ) (chunks : List Bytes) : List (ℕ × Bytes) :=
  ((chunks.zipIdx start).filter fun item => isOwn m item.2).map fun item => (item.2, item.1)

/-- The chunks are those of the table from an occurrence on. -/
def MatchesTable (m : DedupManifest) (start : ℕ) (chunks : List Bytes) : Prop :=
  ∀ item ∈ chunks.zipIdx start, ∃ record, m.chunks[item.2]? = some record ∧
    item.1.length = record.size ∧ sha256 item.1 = record.digest

theorem ownChunks_append (m : DedupManifest) (start : ℕ) (chunks more : List Bytes) :
    ownChunks m start (chunks ++ more) =
      ownChunks m start chunks ++ ownChunks m (start + chunks.length) more := by
  rw [ownChunks, ownChunks, ownChunks, List.zipIdx_append, List.filter_append, List.map_append]

theorem matchesTable_append {m : DedupManifest} {start : ℕ} {chunks more : List Bytes} :
    MatchesTable m start (chunks ++ more) ↔
      MatchesTable m start chunks ∧ MatchesTable m (start + chunks.length) more := by
  simp only [MatchesTable, List.zipIdx_append, List.mem_append, or_imp, forall_and]

/-- The chunks of an entry are those of a file with its digest. -/
def ChunksOf (config : ChunkingConfig) (e : Entry) (chunks : Option (List Bytes)) : Prop :=
  if e.entryType ≠ entryFile then chunks = none
  else ∃ reads, chunks = some (iterContentDefinedChunks config reads) ∧
    sha256 (iterContentDefinedChunks config reads).flatten = e.digest

/-- All chunks in the order of their occurrences. -/
def allChunks (contents : List (Option (List Bytes))) : List Bytes :=
  contents.flatMap fun chunks => chunks.getD []

theorem allChunks_append (contents : List (Option (List Bytes))) (chunks : Option (List Bytes)) :
    allChunks (contents ++ [chunks]) = allChunks contents ++ chunks.getD [] := by
  rw [allChunks, allChunks, List.flatMap_append, List.flatMap_singleton]

/-- The frame holds the chunk of an occurrence. -/
def HoldsChunk (zlib : Zlib) (routing : Bytes → Routing) (profile : Profile) (item : ℕ × Bytes)
    (x : SealedFrame) : Prop :=
  x.frameType = frameData ∧ dedupPayload zlib routing profile item.1 item.2 = .ok x.payload

section

variable {u : Unicode} {zlib : Zlib} {scrypt : Scrypt} {env : Environment Call Reply}
  {platform : Platform} {routing : Bytes → Routing} {draws : FramedDraws} {f : FrameFormat}
  {key : Bytes} {o : DedupOptions} {m : DedupManifest}
  {answers : Bytes → Bytes → Bytes → Bytes → Bytes → Prop} (henv : Encrypts env answers)

include henv

theorem putChunk_emits {profile : Profile} {path : Path} {t : DedupEncoded} {chunk : Bytes} :
    Emits outputDeeds (frames answers draws.padding f key) t.frameIndex
      (putChunk zlib env routing draws f key profile m path t chunk) fun t' xs =>
        t'.occurrence = t.occurrence + 1 ∧ t'.frameIndex = t.frameIndex + xs.length ∧
          MatchesTable m t.occurrence [chunk] ∧
          List.Forall₂ (HoldsChunk zlib routing profile) (ownChunks m t.occurrence [chunk]) xs := by
  rw [putChunk]
  cases hrecord : m.chunks[t.occurrence]? with
  | none => exact Emits.raise
  | some record =>
      refine Emits.guard fun hsame => ?_
      push Not at hsame
      have hmatches : MatchesTable m t.occurrence [chunk] := by
        intro item hitem
        rw [List.zipIdx_singleton, List.mem_singleton] at hitem
        subst hitem
        exact ⟨record, hrecord, hsame⟩
      split
      · rename_i hown
        have hone : ownChunks m t.occurrence [chunk] = [(t.occurrence, chunk)] := by
          simp [ownChunks, isOwn, hrecord, hown]
        rw [hone]
        refine Emits.before lift_quietly fun payload hpayload => ?_
        refine Emits.bind (putFrame_emits henv) ?_
        rintro _ _ ⟨x, rfl, htype, rfl⟩
        exact Emits.pure ⟨rfl, rfl, hmatches, .cons ⟨htype, ofPython_eq_ok.mp hpayload⟩ .nil⟩
      · rename_i hother
        have hnone : ownChunks m t.occurrence [chunk] = [] := by
          simp [ownChunks, isOwn, hrecord, hother]
        rw [hnone]
        exact Emits.pure ⟨rfl, rfl, hmatches, .nil⟩

theorem putChunks_emits {path : Path} {t : DedupEncoded} {descriptor : ℕ} :
    Emits outputDeeds (frames answers draws.padding f key) t.frameIndex
      (putChunks zlib env routing draws f key o m path t descriptor) fun r xs =>
        ∃ reads, r.1 = sha256 (iterContentDefinedChunks o.config reads).flatten ∧
          r.2.occurrence = t.occurrence + (iterContentDefinedChunks o.config reads).length ∧
          r.2.frameIndex = t.frameIndex + xs.length ∧
          MatchesTable m t.occurrence (iterContentDefinedChunks o.config reads) ∧
          List.Forall₂ (HoldsChunk zlib routing o.profile)
            (ownChunks m t.occurrence (iterContentDefinedChunks o.config reads)) xs := by
  refine Emits.before (source_any _) fun content _ => ?_
  refine Emits.bind (Emits.loop (I := fun before (t' : DedupEncoded) xs =>
    t'.occurrence = t.occurrence + before.length ∧ t'.frameIndex = t.frameIndex + xs.length ∧
      MatchesTable m t.occurrence before ∧
      List.Forall₂ (HoldsChunk zlib routing o.profile) (ownChunks m t.occurrence before) xs) ?_
    ⟨rfl, rfl, fun _ h => absurd h List.not_mem_nil, .nil⟩) ?_
  · rintro before t' chunk xs ⟨hoccurrence, hindex, hmatches, hxs⟩
    rw [← hindex]
    refine Emits.mono (putChunk_emits henv) ?_
    rintro t'' more ⟨hoccurrence', hindex', hmatches', hmore⟩
    rw [hoccurrence] at hmatches' hmore
    refine ⟨?_, ?_, matchesTable_append.mpr ⟨hmatches, hmatches'⟩, ?_⟩
    · rw [hoccurrence', hoccurrence, List.length_append, List.length_singleton, Nat.add_assoc]
    · rw [hindex', hindex, List.length_append, Nat.add_assoc]
    · rw [ownChunks_append]
      exact List.rel_append hxs hmore
  · rintro t' xs ⟨hoccurrence, hindex, hmatches, hxs⟩
    refine Emits.guard fun hfailed => Emits.pure ?_
    rw [yieldedChunks, if_neg hfailed] at hoccurrence hmatches hxs ⊢
    rw [List.append_nil]
    exact ⟨content.reads, rfl, hoccurrence, hindex, hmatches, hxs⟩

theorem putDedupEntry_emits {s : SourceSession} {t : DedupEncoded} {e : Entry} :
    Emits outputDeeds (frames answers draws.padding f key) t.frameIndex
      (putDedupEntry zlib env platform routing draws f key o s m t e) fun t' xs =>
        ∃ chunks, ChunksOf o.config e chunks ∧
          t'.occurrence = t.occurrence + (chunks.getD []).length ∧
          t'.frameIndex = t.frameIndex + xs.length ∧ MatchesTable m t.occurrence (chunks.getD []) ∧
          List.Forall₂ (HoldsChunk zlib routing o.profile)
            (ownChunks m t.occurrence (chunks.getD [])) xs := by
  rw [putDedupEntry]
  split
  · rename_i htype
    refine Emits.pure ⟨none, ?_, rfl, rfl, fun _ h => absurd h List.not_mem_nil, .nil⟩
    rw [ChunksOf, if_pos htype]
  · rename_i htype
    refine Emits.before lift_quietly fun path _ => ?_
    refine Emits.bind (openFile_emits fun descriptor => putChunks_emits henv) ?_
    rintro ⟨digest, t'⟩ xs ⟨reads, rfl, hoccurrence, hindex, hmatches, hxs⟩
    refine Emits.guard fun hdigest => Emits.pure ?_
    rw [List.append_nil]
    refine ⟨some (iterContentDefinedChunks o.config reads), ?_, hoccurrence, hindex, hmatches, hxs⟩
    rw [ChunksOf, if_neg htype]
    exact ⟨reads, rfl, not_not.mp hdigest⟩

/-- The frames of an archive: the manifest, and every chunk that is its own source. -/
structure DedupFrames (zlib : Zlib) (routing : Bytes → Routing) (o : DedupOptions) (h : Msc3Header)
    (m : DedupManifest) (payload : Bytes) (contents : List (Option (List Bytes)))
    (xs : List SealedFrame) : Prop where
  entries : List.Forall₂ (ChunksOf o.config) m.entries contents
  table : MatchesTable m 0 (allChunks contents)
  occurrences : (allChunks contents).length = m.chunks.length
  frames : ∃ first rest, xs = first :: rest ∧ first.frameType = frameManifest ∧
    first.payload = payload ∧
    List.Forall₂ (HoldsChunk zlib routing o.profile) (ownChunks m 0 (allChunks contents)) rest
  count : xs.length = h.frameCount

/-- The frames after the first one hold the chunks in the order of their occurrences. -/
theorem putDedupEntries_emits {s : SourceSession} :
    Emits outputDeeds (frames answers draws.padding f key) 1
      (forEach (putDedupEntry zlib env platform routing draws f key o s m) m.entries {}) fun t xs =>
        ∃ contents, List.Forall₂ (ChunksOf o.config) m.entries contents ∧
          t.occurrence = (allChunks contents).length ∧ t.frameIndex = 1 + xs.length ∧
          MatchesTable m 0 (allChunks contents) ∧
          List.Forall₂ (HoldsChunk zlib routing o.profile) (ownChunks m 0 (allChunks contents)) xs := by
  refine Emits.loop (I := fun before (t : DedupEncoded) xs => ∃ contents,
    List.Forall₂ (ChunksOf o.config) before contents ∧ t.occurrence = (allChunks contents).length ∧
      t.frameIndex = 1 + xs.length ∧ MatchesTable m 0 (allChunks contents) ∧
      List.Forall₂ (HoldsChunk zlib routing o.profile) (ownChunks m 0 (allChunks contents)) xs) ?_
    ⟨[], .nil, rfl, rfl, fun _ h => absurd h List.not_mem_nil, .nil⟩
  rintro before t e xs ⟨contents, hcontents, hoccurrence, hindex, hmatches, hxs⟩
  rw [← hindex]
  refine Emits.mono (putDedupEntry_emits henv) ?_
  rintro t' more ⟨chunks, hchunks, hoccurrence', hindex', hmatches', hmore⟩
  rw [hoccurrence, ← Nat.zero_add (allChunks contents).length] at hmatches' hmore
  refine ⟨contents ++ [chunks], List.rel_append hcontents (.cons hchunks .nil), ?_, ?_, ?_, ?_⟩
  · rw [hoccurrence', hoccurrence, allChunks_append, List.length_append]
  · rw [hindex', hindex, List.length_append, Nat.add_assoc]
  · rw [allChunks_append]
    exact matchesTable_append.mpr ⟨hmatches, hmatches'⟩
  · rw [allChunks_append, ownChunks_append]
    exact List.rel_append hxs hmore

theorem writeDedup_traces {directories : ℕ} {h : Msc3Header} {globalHeader payload : Bytes}
    {s : SourceSession} : Traces outputDeeds
      (publish env (writeDedup zlib env platform routing draws h globalHeader key payload o s m)
        (checkDedup env directories h s m))
      (fun _ t => ∃ xs,
        (frames answers draws.padding (h.frameFormat globalHeader) key).Valid 0 xs ∧
        t = .wrote globalHeader ::
          (frames answers draws.padding (h.frameFormat globalHeader) key).deeds 0 xs ∧
        ∃ contents, DedupFrames zlib routing o h m payload contents xs)
      fun _ t => t = [] ∨ ∃ xs last,
        (frames answers draws.padding (h.frameFormat globalHeader) key).Valid 0 xs ∧
        (frames answers draws.padding (h.frameFormat globalHeader) key).broken xs.length last ∧
        t = .wrote globalHeader ::
          ((frames answers draws.padding (h.frameFormat globalHeader) key).deeds 0 xs ++ last) := by
  have hbody : Emits outputDeeds (frames answers draws.padding (h.frameFormat globalHeader) key) 0 (do
        putFrame env draws.padding (h.frameFormat globalHeader) key 0 frameManifest payload
        forEach (putDedupEntry zlib env platform routing draws (h.frameFormat globalHeader) key o s m)
          m.entries {}) fun t xs =>
      ∃ first rest contents, xs = first :: rest ∧ first.frameType = frameManifest ∧
        first.payload = payload ∧ List.Forall₂ (ChunksOf o.config) m.entries contents ∧
        t.occurrence = (allChunks contents).length ∧ t.frameIndex = 1 + rest.length ∧
        MatchesTable m 0 (allChunks contents) ∧
        List.Forall₂ (HoldsChunk zlib routing o.profile) (ownChunks m 0 (allChunks contents)) rest := by
    refine Emits.bind (putFrame_emits henv) ?_
    rintro _ _ ⟨first, rfl, htype, hpayload⟩
    refine Emits.mono (putDedupEntries_emits henv) ?_
    rintro t rest ⟨contents, hrest⟩
    exact ⟨first, rest, contents, rfl, htype, hpayload, hrest⟩
  have hcheck : ∀ t, Quietly outputDeeds (checkDedup env directories h s m t) fun _ =>
      t.occurrence = m.chunks.length ∧ t.frameIndex = h.frameCount := by
    intro t
    refine Quietly.bind (Quietly.raiseIf (Q := fun _ => ¬ _) fun h => h) fun _ hcounts => ?_
    push Not at hcounts
    exact Quietly.mono (source_any _) fun _ _ => hcounts
  refine Traces.mono (publish_traces hbody hcheck) ?_ fun _ _ ht => ht
  rintro t deeds ⟨xs, hvalid, rfl, ⟨first, rest, contents, rfl, htype, hpayload, hcontents,
    hoccurrence, hindex, hmatches, hrest⟩, htable, hcount⟩
  refine ⟨_, hvalid, rfl, contents, hcontents, hmatches, hoccurrence.symm.trans htable,
    ⟨first, rest, rfl, htype, hpayload, hrest⟩, ?_⟩
  rw [← hcount, hindex, List.length_cons, Nat.add_comm]

end

/-! ### The whole run -/

/-- The manifest is the scan of a source that was captured. -/
def DedupScanned (u : Unicode) (env : Environment Call Reply) (platform : Platform) (directories : ℕ)
    (inputPath : Text) (config : ChunkingConfig) (m : DedupManifest) : Prop :=
  ∃ s : SourceSession,
    (∃ before, (SourceSession.capture (inner env before) u directories (posixParts inputPath) []).1 =
      .ok s) ∧
    ∃ before owners, (scanManifest u (inner env before) platform config s []).1 = .ok (m, owners)

/-- What is fixed when the first byte is written. -/
structure DedupPlan where
  header : Msc3Header
  globalHeader : Bytes
  key : Bytes
  manifest : DedupManifest
  payload : Bytes

def DedupPlan.format (p : DedupPlan) : FrameFormat := p.header.frameFormat p.globalHeader

/-- `sum(index == chunk.source_index for index, chunk in enumerate(manifest.chunks))` -/
def uniqueChunks (m : DedupManifest) : ℕ :=
  m.chunks.zipIdx.countP fun item => item.1.sourceIndex = item.2

section

variable (u : Unicode) (scrypt : Scrypt) (env : Environment Call Reply) (platform : Platform)
  (directories : ℕ) (inputPath : Text) (password : Password) (o : DedupOptions) (draws : FramedDraws)

/-- The plan is made from the source, the options and the draws. -/
structure DedupPlan.Made (p : DedupPlan) : Prop where
  options : (256 ≤ o.paddingSize ∧ o.paddingSize ≤ 16 * 1024 * 1024) ∧
    14 ≤ o.kdfLogN ∧ o.kdfLogN ≤ 18
  scanned : DedupScanned u env platform directories inputPath o.config p.manifest
  limit : uniqueChunks p.manifest + 1 ≤ 16777216
  header : p.header = dedupHeader o draws (uniqueChunks p.manifest + 1)
  packed : p.header.pack = some p.globalHeader
  key : deriveKey scrypt password draws.salt o.kdfLogN 8 1 = .ok p.key
  payload : serializeDedupManifest p.manifest = some p.payload
  size : checkDedupManifestSize p.header p.payload = .ok ()

variable (zlib : Zlib) (routing : Bytes → Routing)
  (answers : Bytes → Bytes → Bytes → Bytes → Bytes → Prop)

/-- The deeds of a run that returned: the archive, with the chunks of its files. -/
def DedupPlan.Finished (p : DedupPlan) (contents : List (Option (List Bytes)))
    (t : List OutputDeed) : Prop :=
  p.Made u scrypt env platform directories inputPath password o draws ∧ ∃ xs,
    (frames answers draws.padding p.format p.key).Valid 0 xs ∧
    t = .wrote p.globalHeader :: (frames answers draws.padding p.format p.key).deeds 0 xs ∧
    DedupFrames zlib routing o p.header p.manifest p.payload contents xs

/-- The deeds of a run that was broken off after the header. -/
def DedupPlan.BrokenOff (p : DedupPlan) (t : List OutputDeed) : Prop :=
  p.Made u scrypt env platform directories inputPath password o draws ∧ ∃ xs last,
    (frames answers draws.padding p.format p.key).Valid 0 xs ∧
    (frames answers draws.padding p.format p.key).broken xs.length last ∧
    t = .wrote p.globalHeader ::
      ((frames answers draws.padding p.format p.key).deeds 0 xs ++ last)

variable {u scrypt env platform directories inputPath password o draws zlib routing answers}

theorem DedupPlan.Made.header_valid {p : DedupPlan}
    (h : p.Made u scrypt env platform directories inputPath password o draws) : p.header.Valid := by
  obtain ⟨hpadding, hlogN⟩ := h.options
  have hversion : versionOf (magicOf msc6Version) = some msc6Version := by decide
  rw [h.header]
  exact ⟨hversion, rfl, rfl, rfl, o.config.window_le, o.config.avg_power, o.config.ordered.1,
    o.config.ordered.2, o.config.max_le, hpadding, draws.salt_length, draws.noncePrefix_length, hlogN,
    rfl, rfl, Nat.le_add_left 1 _, h.limit⟩

theorem encodeDedupArchive_traces (henv : Encrypts env answers) : Traces outputDeeds
    (encodeDedupArchive u zlib scrypt env platform routing directories inputPath password o draws)
    (fun m t => ∃ p : DedupPlan, p.manifest = m ∧ ∃ contents,
      p.Finished u scrypt env platform directories inputPath password o draws zlib routing answers
        contents t)
    fun _ t => t = [] ∨ ∃ p : DedupPlan,
      p.BrokenOff u scrypt env platform directories inputPath password o draws answers t := by
  refine Quietly.before (Quietly.raiseIf (Q := fun _ => ¬ _) fun h => h) (fun _ hoptions => ?_)
    fun _ => .inl rfl
  push Not at hoptions
  refine Quietly.before (source_any _) (fun s hcapture => ?_) fun _ => .inl rfl
  refine Quietly.before (source_any _) (fun scanned hscan => ?_) fun _ => .inl rfl
  obtain ⟨m, owners⟩ := scanned
  refine Quietly.before (Quietly.raiseIf (Q := fun _ => ¬ _) fun h => h) (fun _ hlimit => ?_)
    fun _ => .inl rfl
  refine Quietly.before lift_quietly (fun globalHeader hpacked => ?_) fun _ => .inl rfl
  refine Quietly.before lift_quietly (fun key hkey => ?_) fun _ => .inl rfl
  refine Quietly.before lift_quietly (fun payload hpayload => ?_) fun _ => .inl rfl
  refine Quietly.before lift_quietly (fun _ hsize => ?_) fun _ => .inl rfl
  obtain ⟨before, hscan⟩ := hscan
  let p : DedupPlan := ⟨dedupHeader o draws (uniqueChunks m + 1), globalHeader, key, m, payload⟩
  have hmade : p.Made u scrypt env platform directories inputPath password o draws :=
    ⟨hoptions, ⟨s, hcapture, before, owners, hscan⟩, Nat.not_lt.mp hlimit, rfl,
      ofOption_eq_ok.mp (ofPython_eq_ok.mp hpacked), ofPython_eq_ok.mp hkey,
      ofOption_eq_ok.mp (ofPython_eq_ok.mp hpayload), ofPython_eq_ok.mp hsize⟩
  refine Traces.bind (writeDedup_traces henv) ?_ ?_
  · rintro t _ ⟨xs, hvalid, rfl, contents, hframes⟩
    refine Traces.pure ⟨p, rfl, contents, hmade, xs, hvalid, ?_, hframes⟩
    rw [List.append_nil]
    rfl
  · rintro e t (rfl | ⟨xs, last, hvalid, hlast, rfl⟩)
    · exact .inl rfl
    · exact .inr ⟨p, hmade, xs, last, hvalid, hlast, rfl⟩

/-- However a run ends, it encrypts under one key and never twice under one nonce. -/
theorem encodeDedupArchive_freshNonces : Traces outputDeeds
    (encodeDedupArchive u zlib scrypt env platform routing directories inputPath password o draws)
    (fun _ t => FreshNonces t) fun _ t => FreshNonces t := by
  refine Traces.mono (encodeDedupArchive_traces (encrypts_true env)) ?_ ?_
  · rintro result _ ⟨p, -, contents, -, xs, hvalid, rfl, -⟩
    have hfresh := freshNonces_of_frames hvalid (.inl rfl)
    rw [List.append_nil] at hfresh
    exact hfresh.cons_wrote
  · rintro e t (rfl | ⟨p, -, xs, last, hvalid, hlast, rfl⟩)
    · exact FreshNonces.of_sealings_eq_nil rfl
    · rw [← Nat.zero_add xs.length] at hlast
      exact (freshNonces_of_frames hvalid hlast).cons_wrote

end

end MosaicArchive.Encoder
