import MosaicArchive.Container.FrameLimits
import MosaicArchive.Container.Msc1
import MosaicArchive.Encoder.Output

/-!
`encode_stream_archive` (`mosaic_archive/stream_archive.py`): the source is scanned, and then read
once more while a frame is written for the manifest and for each block of each file.
-/

namespace MosaicArchive.Encoder

open CallHistory MosaicArchive.Manifest MosaicArchive.Container MosaicArchive.Source MosaicArchive.Modes
open Routine (lift raise raiseIf forEach)
open FixedWidth (Bytes)
open Utf8 (Text)

/-- What `os.urandom` gives one run of an encoder. -/
structure FramedDraws where
  salt : Bytes
  noncePrefix : Bytes
  padding : Urandom
  salt_length : salt.length = saltLength
  noncePrefix_length : noncePrefix.length = noncePrefixLength

def validateStreamOptions (o : EncodeOptions) : Except PyError Unit := do
  Except.raiseIf (¬ (1 ≤ o.chunkSize ∧ o.chunkSize ≤ 16 * 1024 * 1024))
    (.value "chunk size must be between 1 byte and 16 MiB")
  Except.raiseIf (¬ (256 ≤ o.paddingSize ∧ o.paddingSize ≤ 16 * 1024 * 1024))
    (.value "padding size must be between 256 bytes and 16 MiB")
  Except.raiseIf (¬ (14 ≤ o.kdfLogN ∧ o.kdfLogN ≤ 18))
    (.value "scrypt log2(N) must be between 14 and 18")
  Except.raiseIf (o.kdfR ≠ 8 ∨ o.kdfP ≠ 1) (.value "MSC2 supports only scrypt r=8 and p=1")

def streamHeader (o : EncodeOptions) (draws : FramedDraws) (frameCount : ℕ) : Msc2Header where
  version := msc2Version
  flags := msc2Flags
  kdfId := kdfScrypt
  aeadId := aeadChacha20Poly1305
  chunkSize := o.chunkSize
  paddingSize := o.paddingSize
  salt := draws.salt
  noncePrefix := draws.noncePrefix
  kdfLogN := o.kdfLogN
  kdfR := o.kdfR
  kdfP := o.kdfP
  frameCount := frameCount

/-- The blocks `read(chunk_size)` returns; the last one is lost if a read fails. -/
def blocksOf (chunkSize : ℕ) (content : Content) : List Bytes :=
  let blocks := readBlocks chunkSize content.reads.data
  if content.failed then blocks.filter fun block => block.length = chunkSize else blocks

/-- The variables of the loop over the entries: the next frame, and the blocks of each entry so far,
of which the source keeps only the statistics. -/
structure Encoded where
  frameIndex : ℕ
  blocks : List (Option (List Bytes)) := []

section

variable (u : Unicode) (zlib : Zlib) (scrypt : Scrypt) (env : Environment Call Reply)
  (platform : Platform)

/-- The payload of a data frame. -/
def streamPayload (position : ℕ) (block : Bytes) : Except PyError Bytes := do
  let selected ← chooseBestMode zlib.encoder block
  let start ← ofOption
    (Struct.pack streamDataPrefix (position, block.length, selected.mode.toNat, ())) .struct
  .ok (start ++ selected.payload)

/-- One block; the index of the next frame. -/
def putBlock (draws : FramedDraws) (f : FrameFormat) (key : Bytes) (position index : ℕ) (block : Bytes) :
    Run ℕ := do
  let payload ← lift (ofPython (streamPayload zlib position block))
  putFrame env draws.padding f key index frameData payload
  pure (index + 1)

/-- The body of `with source_session.open_file(relative_path)`. -/
def putBlocks (draws : FramedDraws) (f : FrameFormat) (key : Bytes) (chunkSize position index : ℕ)
    (descriptor : ℕ) : Run (List Bytes × ℕ) := do
  let content ← readContent env descriptor
  let blocks := blocksOf chunkSize content
  let next ← forEach (putBlock zlib env draws f key position) blocks index
  raiseIf (content.failed = true) (systemError "read")
  pure (blocks, next)

/-- The body of the loop over the entries. -/
def putEntry (draws : FramedDraws) (f : FrameFormat) (key : Bytes) (chunkSize : ℕ) (s : SourceSession)
    (kind : ℕ) (t : Encoded) (item : Entry × ℕ) : Run Encoded := do
  let (e, position) := item
  if e.entryType ≠ entryFile then pure { t with blocks := t.blocks ++ [none] }
  else do
    let relative := if kind = kindFile then [] else e.relativePath
    let path ← lift (s.pathFor relative)
    let (blocks, next) ← openFile env platform s relative
      (putBlocks zlib env draws f key chunkSize position t.frameIndex)
    raiseIf (blocks.flatten.length ≠ e.size ∨ sha256 blocks.flatten ≠ e.digest)
      (osError ("input changed while it was being encoded: " ++ path.text))
    pure ⟨next, t.blocks ++ [some blocks]⟩

/-- What is written to the temporary file; the blocks of the entries. -/
def writeStream (draws : FramedDraws) (h : Msc2Header) (globalHeader key payload : Bytes)
    (s : SourceSession) (m : StreamManifest) : Run (List (Option (List Bytes))) := do
  output env (.write globalHeader)
  let f := h.frameFormat globalHeader
  putFrame env draws.padding f key 0 frameManifest payload
  let t ← forEach (putEntry zlib env platform draws f key h.chunkSize s m.kind) m.entries.zipIdx
    { frameIndex := 1 }
  raiseIf (t.frameIndex ≠ h.frameCount) (.python (.runtime "internal MSC2 frame-count mismatch"))
  pure t.blocks

/-- `encode_stream_archive`: the manifest and the blocks of its entries. A session is captured and
verified with bounds on the directories visited. -/
def encodeStreamArchive (directories : ℕ) (inputPath : Text) (password : Password) (o : EncodeOptions)
    (draws : FramedDraws) : Run (StreamManifest × List (Option (List Bytes))) := do
  let _ ← lift (ofPython (normalizePassword password))
  lift (ofPython (validateStreamOptions o))
  let s ← source env fun env => SourceSession.capture env u directories (posixParts inputPath)
  let m ← source env fun env => scanInput u env platform s o.chunkSize true
  let dataFrameCount := (m.files.map Entry.count).sum
  raiseIf (16777216 < 1 + dataFrameCount) (valueError "input produces too many frames for MSC2")
  let h := streamHeader o draws (1 + dataFrameCount)
  let globalHeader ← lift (ofPython (ofOption h.pack .struct))
  let key ← lift (ofPython (deriveKey scrypt password draws.salt o.kdfLogN o.kdfR o.kdfP))
  let payload ← lift (ofPython (ofOption (serializeManifest m) .struct))
  lift (ofPython (checkStreamManifestSize h payload))
  let blocks ← publish env (writeStream zlib env platform draws h globalHeader key payload s m)
    fun _ => source env fun env => s.verifyBindings env directories
  pure (m, blocks)

end

/-! ### What is encrypted and written -/

/-- The blocks that go into the data frames, each with the position of its entry. -/
def dataBlocks (items : List (Entry × ℕ)) (blocks : List (Option (List Bytes))) : List (ℕ × Bytes) :=
  (items.zip blocks).flatMap fun item => (item.2.getD []).map fun block => (item.1.2, block)

theorem dataBlocks_append {items : List (Entry × ℕ)} {blocks : List (Option (List Bytes))}
    (h : items.length = blocks.length) (item : Entry × ℕ) (bs : Option (List Bytes)) :
    dataBlocks (items ++ [item]) (blocks ++ [bs]) =
      dataBlocks items blocks ++ (bs.getD []).map fun block => (item.2, block) := by
  rw [dataBlocks, dataBlocks, List.zip_append h, List.flatMap_append, List.zip_cons_cons, List.zip_nil_right,
    List.flatMap_singleton]

/-- The blocks of an entry are those of a file with its size and digest. -/
def BlocksOf (chunkSize : ℕ) (item : Entry × ℕ) (blocks : Option (List Bytes)) : Prop :=
  if item.1.entryType ≠ entryFile then blocks = none
  else ∃ data, blocks = some (readBlocks chunkSize data) ∧
    (readBlocks chunkSize data).flatten.length = item.1.size ∧
    sha256 (readBlocks chunkSize data).flatten = item.1.digest

/-- The frame holds the block of the entry at a position. -/
def HoldsBlock (zlib : Zlib) (item : ℕ × Bytes) (x : SealedFrame) : Prop :=
  x.frameType = frameData ∧ streamPayload zlib item.1 item.2 = .ok x.payload

section

variable {u : Unicode} {zlib : Zlib} {scrypt : Scrypt} {env : Environment Call Reply}
  {platform : Platform} {draws : FramedDraws} {f : FrameFormat} {key : Bytes}
  {answers : Bytes → Bytes → Bytes → Bytes → Bytes → Prop} (henv : Encrypts env answers)

include henv

theorem putBlock_emits {position index : ℕ} {block : Bytes} :
    Emits outputDeeds (frames answers draws.padding f key) index
      (putBlock zlib env draws f key position index block) fun next xs =>
        next = index + xs.length ∧ ∃ x, xs = [x] ∧ HoldsBlock zlib (position, block) x := by
  refine Emits.before lift_quietly fun payload hpayload => ?_
  refine Emits.bind (putFrame_emits henv) ?_
  rintro _ _ ⟨x, rfl, htype, rfl⟩
  exact Emits.pure ⟨rfl, x, rfl, htype, ofPython_eq_ok.mp hpayload⟩

theorem putBlocks_emits {chunkSize position index descriptor : ℕ} :
    Emits outputDeeds (frames answers draws.padding f key) index
      (putBlocks zlib env draws f key chunkSize position index descriptor) fun r xs =>
        r.2 = index + xs.length ∧ (∃ data, r.1 = readBlocks chunkSize data) ∧
          List.Forall₂ (HoldsBlock zlib) (r.1.map fun block => (position, block)) xs := by
  refine Emits.before (source_any _) fun content _ => ?_
  refine Emits.bind (Emits.loop (I := fun before next xs => next = index + xs.length ∧
    List.Forall₂ (HoldsBlock zlib) (before.map fun block => (position, block)) xs) ?_ ⟨rfl, .nil⟩) ?_
  · rintro before _ block xs ⟨rfl, hxs⟩
    refine Emits.mono (putBlock_emits henv) ?_
    rintro _ _ ⟨rfl, x, rfl, hx⟩
    refine ⟨?_, ?_⟩
    · rw [List.length_append, Nat.add_assoc]
    · rw [List.map_append]
      exact List.rel_append hxs (.cons hx .nil)
  · rintro next xs ⟨rfl, hxs⟩
    refine Emits.guard fun hfailed => Emits.pure ?_
    rw [List.append_nil]
    refine ⟨rfl, ⟨content.reads.data, ?_⟩, hxs⟩
    rw [blocksOf, if_neg hfailed]

theorem putEntry_emits {chunkSize kind : ℕ} {s : SourceSession} {t : Encoded} {item : Entry × ℕ} :
    Emits outputDeeds (frames answers draws.padding f key) t.frameIndex
      (putEntry zlib env platform draws f key chunkSize s kind t item) fun t' xs =>
        t'.frameIndex = t.frameIndex + xs.length ∧ ∃ bs, t'.blocks = t.blocks ++ [bs] ∧
          BlocksOf chunkSize item bs ∧
          List.Forall₂ (HoldsBlock zlib) ((bs.getD []).map fun block => (item.2, block)) xs := by
  obtain ⟨e, position⟩ := item
  simp only [putEntry]
  split
  · rename_i htype
    refine Emits.pure ⟨rfl, none, rfl, ?_, .nil⟩
    rw [BlocksOf, if_pos htype]
  · rename_i htype
    refine Emits.before lift_quietly fun path _ => ?_
    refine Emits.bind (openFile_emits fun descriptor => putBlocks_emits henv) ?_
    rintro ⟨blocks, next⟩ xs ⟨hnext, ⟨data, hdata⟩, hxs⟩
    dsimp only at hnext hdata hxs
    subst hnext hdata
    refine Emits.guard fun hsame => Emits.pure ?_
    push Not at hsame
    rw [List.append_nil]
    refine ⟨rfl, some (readBlocks chunkSize data), rfl, ?_, hxs⟩
    rw [BlocksOf, if_neg htype]
    exact ⟨data, rfl, hsame⟩

/-- The frames after the first one hold the blocks of the files in order. -/
theorem putEntries_emits {chunkSize : ℕ} {s : SourceSession} {m : StreamManifest} :
    Emits outputDeeds (frames answers draws.padding f key) 1
      (forEach (putEntry zlib env platform draws f key chunkSize s m.kind) m.entries.zipIdx
        { frameIndex := 1 }) fun t xs =>
        t.frameIndex = 1 + xs.length ∧ List.Forall₂ (BlocksOf chunkSize) m.entries.zipIdx t.blocks ∧
          List.Forall₂ (HoldsBlock zlib) (dataBlocks m.entries.zipIdx t.blocks) xs := by
  refine Emits.loop (I := fun before (t : Encoded) xs => t.frameIndex = 1 + xs.length ∧
    List.Forall₂ (BlocksOf chunkSize) before t.blocks ∧
    List.Forall₂ (HoldsBlock zlib) (dataBlocks before t.blocks) xs) ?_ ⟨rfl, .nil, .nil⟩
  rintro before t item xs ⟨hindex, hblocks, hxs⟩
  rw [← hindex]
  refine Emits.mono (putEntry_emits henv) ?_
  rintro t' more ⟨hindex', bs, hbs, hitem, hmore⟩
  refine ⟨?_, ?_, ?_⟩
  · rw [hindex', hindex, List.length_append, Nat.add_assoc]
  · rw [hbs]
    exact List.rel_append hblocks (.cons hitem .nil)
  · rw [hbs, dataBlocks_append hblocks.length_eq]
    exact List.rel_append hxs hmore

/-- The frames of an archive: the manifest, and the blocks of its files. -/
structure StreamFrames (zlib : Zlib) (h : Msc2Header) (m : StreamManifest) (payload : Bytes)
    (blocks : List (Option (List Bytes))) (xs : List SealedFrame) : Prop where
  contents : List.Forall₂ (BlocksOf h.chunkSize) m.entries.zipIdx blocks
  frames : ∃ first rest, xs = first :: rest ∧ first.frameType = frameManifest ∧
    first.payload = payload ∧ List.Forall₂ (HoldsBlock zlib) (dataBlocks m.entries.zipIdx blocks) rest
  count : xs.length = h.frameCount

theorem writeStream_traces {h : Msc2Header} {globalHeader payload : Bytes} {s : SourceSession}
    {m : StreamManifest} {verify : List (Option (List Bytes)) → Run Unit}
    (hverify : ∀ blocks, Quietly outputDeeds (verify blocks) fun _ => True) :
    Traces outputDeeds
      (publish env (writeStream zlib env platform draws h globalHeader key payload s m) verify)
      (fun blocks t => ∃ xs,
        (frames answers draws.padding (h.frameFormat globalHeader) key).Valid 0 xs ∧
        t = .wrote globalHeader ::
          (frames answers draws.padding (h.frameFormat globalHeader) key).deeds 0 xs ∧
        StreamFrames zlib h m payload blocks xs)
      fun _ t => t = [] ∨ ∃ xs last,
        (frames answers draws.padding (h.frameFormat globalHeader) key).Valid 0 xs ∧
        (frames answers draws.padding (h.frameFormat globalHeader) key).broken xs.length last ∧
        t = .wrote globalHeader ::
          ((frames answers draws.padding (h.frameFormat globalHeader) key).deeds 0 xs ++ last) := by
  refine Traces.mono (publish_traces (V := fun _ => True)
    (Q := fun blocks xs => StreamFrames zlib h m payload blocks xs) ?_ hverify)
    (fun blocks t ⟨xs, hvalid, ht, hframes, _⟩ => ⟨xs, hvalid, ht, hframes⟩) fun _ _ ht => ht
  refine Emits.bind (putFrame_emits henv) ?_
  rintro _ _ ⟨first, rfl, htype, hpayload⟩
  refine Emits.bind (putEntries_emits henv) fun t rest hrest => ?_
  obtain ⟨hindex, hblocks, hframes⟩ := hrest
  refine Emits.guard fun hcount => Emits.pure ?_
  rw [not_not] at hcount
  rw [List.append_nil]
  refine ⟨hblocks, ⟨first, rest, rfl, htype, hpayload, hframes⟩, ?_⟩
  rw [← hcount, hindex, List.length_append, List.length_singleton]

end

/-! ### The whole run -/

/-- The manifest is the scan of a source that was captured. -/
def StreamScanned (u : Unicode) (env : Environment Call Reply) (platform : Platform) (directories : ℕ)
    (inputPath : Text) (chunkSize : ℕ) (m : StreamManifest) : Prop :=
  ∃ s : SourceSession,
    (∃ before, (SourceSession.capture (inner env before) u directories (posixParts inputPath) []).1 =
      .ok s) ∧
    ∃ before, (scanInput u (inner env before) platform s chunkSize true []).1 = .ok m

/-- What is fixed when the first byte is written. -/
structure StreamPlan where
  header : Msc2Header
  globalHeader : Bytes
  key : Bytes
  manifest : StreamManifest
  payload : Bytes

def StreamPlan.format (p : StreamPlan) : FrameFormat := p.header.frameFormat p.globalHeader

section

variable (u : Unicode) (scrypt : Scrypt) (env : Environment Call Reply) (platform : Platform)
  (directories : ℕ) (inputPath : Text) (password : Password) (o : EncodeOptions) (draws : FramedDraws)

/-- The plan is made from the source, the options and the draws. -/
structure StreamPlan.Made (p : StreamPlan) : Prop where
  accepted : ∃ normal, normalizePassword password = .ok normal
  options : validateStreamOptions o = .ok ()
  scanned : StreamScanned u env platform directories inputPath o.chunkSize p.manifest
  limit : 1 + (p.manifest.files.map Entry.count).sum ≤ 16777216
  header : p.header = streamHeader o draws (1 + (p.manifest.files.map Entry.count).sum)
  packed : p.header.pack = some p.globalHeader
  key : deriveKey scrypt password draws.salt o.kdfLogN o.kdfR o.kdfP = .ok p.key
  payload : serializeManifest p.manifest = some p.payload
  size : checkStreamManifestSize p.header p.payload = .ok ()

variable (zlib : Zlib) (answers : Bytes → Bytes → Bytes → Bytes → Bytes → Prop)

/-- The deeds of a run that returned: the archive, with the blocks of its files. -/
def StreamPlan.Finished (p : StreamPlan) (blocks : List (Option (List Bytes)))
    (t : List OutputDeed) : Prop :=
  p.Made u scrypt env platform directories inputPath password o draws ∧ ∃ xs,
    (frames answers draws.padding p.format p.key).Valid 0 xs ∧
    t = .wrote p.globalHeader :: (frames answers draws.padding p.format p.key).deeds 0 xs ∧
    StreamFrames zlib p.header p.manifest p.payload blocks xs

/-- The deeds of a run that was broken off after the header. -/
def StreamPlan.BrokenOff (p : StreamPlan) (t : List OutputDeed) : Prop :=
  p.Made u scrypt env platform directories inputPath password o draws ∧ ∃ xs last,
    (frames answers draws.padding p.format p.key).Valid 0 xs ∧
    (frames answers draws.padding p.format p.key).broken xs.length last ∧
    t = .wrote p.globalHeader ::
      ((frames answers draws.padding p.format p.key).deeds 0 xs ++ last)

variable {u scrypt env platform directories inputPath password o draws zlib answers}

theorem validateStreamOptions_eq_ok : validateStreamOptions o = .ok () ↔
    (1 ≤ o.chunkSize ∧ o.chunkSize ≤ 16 * 1024 * 1024) ∧
      (256 ≤ o.paddingSize ∧ o.paddingSize ≤ 16 * 1024 * 1024) ∧
      (14 ≤ o.kdfLogN ∧ o.kdfLogN ≤ 18) ∧ o.kdfR = 8 ∧ o.kdfP = 1 := by
  simp only [validateStreamOptions, Except.bind_eq_ok_iff, Except.raiseIf_eq_ok, not_not, not_or,
    exists_and_left, exists_const]

theorem StreamPlan.Made.header_valid {p : StreamPlan}
    (h : p.Made u scrypt env platform directories inputPath password o draws) : p.header.Valid := by
  obtain ⟨hchunk, hpadding, hlogN, hr, hp⟩ := validateStreamOptions_eq_ok.mp h.options
  rw [h.header]
  exact ⟨rfl, rfl, rfl, rfl, hchunk, hpadding, draws.salt_length, draws.noncePrefix_length, hlogN, hr, hp,
    Nat.le_add_right 1 _, h.limit⟩

theorem encodeStreamArchive_traces (henv : Encrypts env answers) : Traces outputDeeds
    (encodeStreamArchive u zlib scrypt env platform directories inputPath password o draws)
    (fun result t => ∃ p : StreamPlan, p.manifest = result.1 ∧
      p.Finished u scrypt env platform directories inputPath password o draws zlib answers result.2 t)
    fun _ t => t = [] ∨ ∃ p : StreamPlan,
      p.BrokenOff u scrypt env platform directories inputPath password o draws answers t := by
  refine Quietly.before lift_quietly (fun normal hnormal => ?_) fun _ => .inl rfl
  refine Quietly.before lift_quietly (fun _ hoptions => ?_) fun _ => .inl rfl
  refine Quietly.before (source_any _) (fun s hcapture => ?_) fun _ => .inl rfl
  refine Quietly.before (source_any _) (fun m hscan => ?_) fun _ => .inl rfl
  refine Quietly.before (Quietly.raiseIf (Q := fun _ => ¬ _) fun h => h) (fun _ hlimit => ?_)
    fun _ => .inl rfl
  refine Quietly.before lift_quietly (fun globalHeader hpacked => ?_) fun _ => .inl rfl
  refine Quietly.before lift_quietly (fun key hkey => ?_) fun _ => .inl rfl
  refine Quietly.before lift_quietly (fun payload hpayload => ?_) fun _ => .inl rfl
  refine Quietly.before lift_quietly (fun _ hsize => ?_) fun _ => .inl rfl
  let p : StreamPlan := ⟨streamHeader o draws (1 + (m.files.map Entry.count).sum), globalHeader, key, m,
    payload⟩
  have hmade : p.Made u scrypt env platform directories inputPath password o draws :=
    ⟨⟨normal, ofPython_eq_ok.mp hnormal⟩, ofPython_eq_ok.mp hoptions, ⟨s, hcapture, hscan⟩,
      Nat.not_lt.mp hlimit, rfl, ofOption_eq_ok.mp (ofPython_eq_ok.mp hpacked),
      ofPython_eq_ok.mp hkey, ofOption_eq_ok.mp (ofPython_eq_ok.mp hpayload), ofPython_eq_ok.mp hsize⟩
  refine Traces.bind (writeStream_traces henv fun _ => Quietly.mono (source_any _) fun _ _ => trivial)
    ?_ ?_
  · rintro blocks _ ⟨xs, hvalid, rfl, hframes⟩
    refine Traces.pure ⟨p, rfl, hmade, xs, hvalid, ?_, hframes⟩
    rw [List.append_nil]
    rfl
  · rintro e t (rfl | ⟨xs, last, hvalid, hlast, rfl⟩)
    · exact .inl rfl
    · exact .inr ⟨p, hmade, xs, last, hvalid, hlast, rfl⟩

/-- However a run ends, it encrypts under one key and never twice under one nonce. -/
theorem encodeStreamArchive_freshNonces : Traces outputDeeds
    (encodeStreamArchive u zlib scrypt env platform directories inputPath password o draws)
    (fun _ t => FreshNonces t) fun _ t => FreshNonces t := by
  refine Traces.mono (encodeStreamArchive_traces (encrypts_true env)) ?_ ?_
  · rintro result _ ⟨p, -, -, xs, hvalid, rfl, -⟩
    have hfresh := freshNonces_of_frames hvalid (.inl rfl)
    rw [List.append_nil] at hfresh
    exact hfresh.cons_wrote
  · rintro e t (rfl | ⟨p, -, xs, last, hvalid, hlast, rfl⟩)
    · exact FreshNonces.of_sealings_eq_nil rfl
    · rw [← Nat.zero_add xs.length] at hlast
      exact (freshNonces_of_frames hvalid hlast).cons_wrote

end

end MosaicArchive.Encoder
