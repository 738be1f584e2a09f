import MosaicArchive.Container.Msc1
import MosaicArchive.Restore.FolderTree
import MosaicArchive.Restore.Inspection

/-!
The decoder of MSC2 archives (`mosaic_archive/stream_archive.py`): the public header, the frame of
the manifest, and a frame for each block of each file.
-/

namespace MosaicArchive.Restore

open CallHistory MosaicArchive.Manifest MosaicArchive.Container MosaicArchive.Modes
open Routine (lift)
open FixedWidth (Bytes)

/-- `DEFAULT_MAX_LEGACY_ARCHIVE_SIZE` -/
def defaultMaxLegacyArchiveSize : ℤ := 1024 * 1024 * 1024

/-- What is left of the archive, and the index of its next frame. -/
structure FrameReader where
  rest : Bytes
  frameIndex : ℕ := 1

/-- What is known once the manifest has been read. -/
structure OpenedStream where
  header : Msc2Header
  globalHeader : Bytes
  key : Bytes
  manifest : StreamManifest

section

variable (u : Unicode) (zlib : Zlib) (cipher : Aead) (scrypt : Scrypt)

/-- The part of `_decode_or_inspect` before the output is prepared. -/
def openStream (limits : DecodeLimits) (password : Password) : ByteParser PyError OpenedStream := do
  let globalHeader ← ByteParser.exactly (Struct.size msc2HeaderLayout) (msc2Truncated "public header")
  let header ← ByteParser.lift (parseMsc2Header globalHeader)
  ByteParser.raiseIf (limits.maxFrameCount < header.frameCount - 1)
    (.archiveFormat "MSC2 frame count exceeds the decode limit")
  let key ← ByteParser.lift
    (deriveKey scrypt password header.salt header.kdfLogN header.kdfR header.kdfP)
  let (payload, _) ← readFrame cipher (header.frameFormat globalHeader) key 0 frameManifest
  let manifest ← ByteParser.lift (parseManifest u payload header)
  ByteParser.raiseIf (limits.maxOutputSize < (manifest.entries.map Entry.size).sum)
    (.archiveFormat "MSC2 restored size exceeds the decode limit")
  pure ⟨header, globalHeader, key, manifest⟩

/-- The block in a data frame. -/
def openBlock (header : Msc2Header) (frameIndex position : ℕ) (e : Entry) (localFrame : ℕ)
    (payload : Bytes) : Except PyError Bytes := do
  Except.raiseIf (payload.length < Struct.size streamDataPrefix)
    (.archiveFormat ("MSC2 data frame " ++ toString frameIndex ++ " is truncated"))
  let (actualEntry, originalSize, modeId, ()) := Struct.unpack streamDataPrefix payload
  let expectedSize : ℤ := min header.chunkSize (e.size - localFrame * header.chunkSize)
  Except.raiseIf (actualEntry ≠ position ∨ (originalSize : ℤ) ≠ expectedSize)
    (.archiveFormat ("MSC2 data frame " ++ toString frameIndex ++ " metadata is inconsistent"))
  let mode ← getMode modeId
  mode.decode zlib (payload.drop (Struct.size streamDataPrefix)) originalSize

def readBlock (opened : OpenedStream) (position : ℕ) (e : Entry) (localFrame : ℕ) (r : FrameReader) :
    Except PyError (Bytes × FrameReader) := do
  let ((payload, _), rest) ← readFrame cipher (opened.header.frameFormat opened.globalHeader)
    opened.key r.frameIndex frameData r.rest
  let block ← openBlock zlib opened.header r.frameIndex position e localFrame payload
  pure (block, ⟨rest, r.frameIndex + 1⟩)

/-- The check of a file when all of its blocks are written. -/
def verifyFile (e : Entry) (content : Bytes) : Except PyError Unit :=
  Except.raiseIf (content.length ≠ e.size ∨ sha256 content ≠ e.digest)
    (.integrity ("restored file failed SHA-256 verification: " ++ String.ofList e.relativePath))

/-- The checks after the last entry. -/
def finishStream (header : Msc2Header) (r : FrameReader) : Except PyError Unit := do
  Except.raiseIf (r.frameIndex ≠ header.frameCount)
    (.archiveFormat "MSC2 data frames do not match the manifest")
  Except.raiseIf (r.rest.take 1 ≠ []) (.archiveFormat "MSC2 archive contains trailing bytes")

def streamJob (opened : OpenedStream) : Job FrameReader where
  kind := opened.manifest.kind
  entries := opened.manifest.entries
  block position e localFrame r := lift (readBlock zlib cipher opened position e localFrame r)
  verify := verifyFile
  finish := finishStream opened.header

variable (env : Environment Call Reply)

/-- `_prepare_output` -/
def prepareOutput (destination : String) (kind : ℕ) : Run Unit := do
  call env .makeParent
  inFolder kind do
    let there ← destinationExists env
    Routine.raiseIf (there = true)
      (.os ("folder destination already exists; refusing to merge: " ++ destination))
  call env .makeRoot

/-- `_decode_or_inspect`: `decode_stream_archive` with a destination, `inspect_stream_archive`
without one. -/
def decodeOrInspect (destination : Option String) (limits : DecodeLimits) (password : Password)
    (archive : Bytes) : Run (OpenedStream × Progress FrameReader) := do
  lift (validateDecodeLimits { limits with maxArchiveSize := defaultMaxLegacyArchiveSize })
  let _ ← lift (normalizePassword password)
  publishing destination (refuseSameFile env)
  let (opened, rest) ← lift (openStream u cipher scrypt limits password archive)
  let t ← restore env destination (streamJob zlib cipher opened)
    (prepareOutput env (destination.getD "") opened.manifest.kind) { rest }
  pure (opened, t)

end

/-! ### What a run of the decoder amounts to -/

section

variable {u : Unicode} {zlib : Zlib} {cipher : Aead} {scrypt : Scrypt} {env : Environment Call Reply}
  {destination : String} {limits : DecodeLimits} {password : Password} {archive : Bytes}

theorem streamJob_pure {opened : OpenedStream} : (streamJob zlib cipher opened).Pure :=
  fun position e localFrame r => ⟨readBlock zlib cipher opened position e localFrame r, rfl⟩

theorem prepareOutput_prepares {kind : ℕ} : Prepares (prepareOutput env destination kind) := by
  refine Quietly.before (call_quietly fun _ => rfl) (fun _ _ => ?_) fun _ => rfl
  refine Quietly.before (Q := fun _ => True) ?_ (fun _ _ => ?_) fun _ => rfl
  · rw [inFolder]
    split
    · refine Quietly.bind (Q := fun _ => True) (call_quietly fun _ => rfl) fun there _ => ?_
      exact Quietly.raiseIf fun _ => trivial
    · exact Quietly.pure trivial
  · exact call_traces (fun _ => rfl) fun _ => rfl

theorem prepareOutput_settles {kind : ℕ} (hcalm : Calm env) :
    Settles (prepareOutput env destination kind) (.ok ()) := by
  have hunit : Subsingleton Unit := inferInstance
  refine (hcalm.settles .makeParent hunit ()).bind (Settles.bind (a := ()) ?_ ?_)
  · rw [inFolder]
    split
    · have hfree : Settles (destinationExists env) (.ok false) := call_settles hcalm.free
      exact hfree.bind (Settles.raiseIf_neg Bool.false_ne_true)
    · exact Settles.pure
  · exact hcalm.settles .makeRoot hunit ()

theorem decodeOrInspect_traces :
    Traces deedsOf (decodeOrInspect u zlib cipher scrypt env (some destination) limits password archive)
      (fun result deeds => (∃ rest, openStream u cipher scrypt limits password archive =
          .ok (result.1, rest)) ∧
        Completed (streamJob zlib cipher result.1) result.2.items deeds)
      fun _ deeds => Abandoned deeds := by
  refine Quietly.before (Q := fun _ => True) (Quietly.lift fun _ _ => trivial) (fun _ _ => ?_)
    fun _ => .inl rfl
  refine Quietly.before (Q := fun _ => True) (Quietly.lift fun _ _ => trivial) (fun _ _ => ?_)
    fun _ => .inl rfl
  refine Quietly.before refuseSameFile_quietly (fun _ _ => ?_) fun _ => .inl rfl
  refine Quietly.before (Quietly.lift fun opened hopened => hopened) ?_ fun _ => .inl rfl
  rintro ⟨opened, rest⟩ hopened
  refine Traces.bind (restore_traces streamJob_pure.quiet prepareOutput_prepares) ?_ fun _ _ h => h
  intro t deeds hdeeds
  refine Traces.pure ⟨⟨rest, hopened⟩, ?_⟩
  rwa [List.append_nil]

/-- Inspecting is a dry run of decoding. -/
theorem decodeOrInspect_dryRun :
    DryRun (Calm env)
      (decodeOrInspect u zlib cipher scrypt env (some destination) limits password archive)
      (decodeOrInspect u zlib cipher scrypt env none limits password archive) := by
  refine DryRun.bind (DryRun.lift _) fun _ => DryRun.bind (DryRun.lift _) fun _ => ?_
  refine DryRun.bind (DryRun.skip ((Does.returns refuseSameFile_quietly).mono fun _ _ _ => trivial)
    refuseSameFile_settles) fun _ => ?_
  refine DryRun.bind (DryRun.lift _) fun opened => ?_
  exact DryRun.bind (restore_dryRun streamJob_pure prepareOutput_prepares prepareOutput_settles _)
    fun _ => DryRun.pure _

theorem inspect_settles (u : Unicode) (zlib : Zlib) (cipher : Aead) (scrypt : Scrypt)
    (limits : DecodeLimits) (password : Password) (archive : Bytes) :
    ∃ x, ∀ env, Settles (decodeOrInspect u zlib cipher scrypt env none limits password archive) x := by
  have hsame : ∀ env env' : Environment Call Reply,
      decodeOrInspect u zlib cipher scrypt env none limits password archive =
        decodeOrInspect u zlib cipher scrypt env' none limits password archive := fun _ _ => rfl
  let quiet : Environment Call Reply := fun _ _ => .error (.os "")
  obtain ⟨x, hx, -⟩ := @decodeOrInspect_dryRun u zlib cipher scrypt quiet "" limits password archive
  refine ⟨x, fun env => ?_⟩
  rw [hsame env quiet]
  exact hx

/-- Whatever the system, an inspection ends in one way. Decoding can only return what it returns, and
where every call succeeds it ends as the inspection does, with the same result or exception. -/
theorem inspect_predicts_decode (u : Unicode) (zlib : Zlib) (cipher : Aead) (scrypt : Scrypt)
    (limits : DecodeLimits) (password : Password) (archive : Bytes) :
    ∃ x, (∀ env, Settles
        (decodeOrInspect u zlib cipher scrypt env none limits password archive) x) ∧
      ∀ env destination,
        (Calm env → Settles
          (decodeOrInspect u zlib cipher scrypt env (some destination) limits password archive) x) ∧
        Returns
          (decodeOrInspect u zlib cipher scrypt env (some destination) limits password archive)
          fun result _ => x = .ok result := by
  obtain ⟨x, hx⟩ := inspect_settles u zlib cipher scrypt limits password archive
  refine ⟨x, hx, fun env destination => ?_⟩
  obtain ⟨y, hy, hcalm, hreturns⟩ :=
    @decodeOrInspect_dryRun u zlib cipher scrypt env destination limits password archive
  obtain rfl : y = x := (hy []).symm.trans (hx env [])
  exact ⟨hcalm, hreturns⟩

/-! ### What is published -/

/-- What the decoder has checked when it prepares the output. -/
structure StreamOpens (u : Unicode) (cipher : Aead) (scrypt : Scrypt) (limits : DecodeLimits)
    (password : Password) (archive : Bytes) (opened : OpenedStream) (rest : Bytes) : Prop where
  header : parseMsc2Header opened.globalHeader = .ok opened.header
  frames : ¬ limits.maxFrameCount < opened.header.frameCount - 1
  key : deriveKey scrypt password opened.header.salt opened.header.kdfLogN opened.header.kdfR
    opened.header.kdfP = .ok opened.key
  manifest : ∃ first payload padded, archive = opened.globalHeader ++ first ∧
    (readFrame cipher (opened.header.frameFormat opened.globalHeader) opened.key 0
      frameManifest).Accepts first (payload, padded) rest ∧
    parseManifest u payload opened.header = .ok opened.manifest
  size : ¬ limits.maxOutputSize < (opened.manifest.entries.map Entry.size).sum

theorem openStream_eq_ok {opened : OpenedStream} {rest : Bytes} :
    openStream u cipher scrypt limits password archive = .ok (opened, rest) ↔
      StreamOpens u cipher scrypt limits password archive opened rest := by
  rw [← ByteParser.accepts_iff]
  simp only [openStream, ByteParser.accepts_bind, ByteParser.accepts_lift,
    ByteParser.accepts_raiseIf, ByteParser.accepts_pure, ByteParser.accepts_exactly]
  constructor
  · rintro ⟨globalHeader, _, ⟨-, rfl⟩, header, _, ⟨hheader, rfl⟩, _, _, ⟨hframes, rfl⟩, key, _,
      ⟨hkey, rfl⟩, ⟨payload, padded⟩, _, hread, hrest⟩
    dsimp only at hrest
    obtain ⟨manifest, _, ⟨hparsed, rfl⟩, _, _, ⟨hsize, rfl⟩, rfl, rfl⟩ := hrest
    exact ⟨hheader, hframes, hkey, ⟨_, payload, padded, rfl, hread, hparsed⟩, hsize⟩
  · intro h
    obtain ⟨first, payload, padded, rfl, hread, hparsed⟩ := h.manifest
    have hlength := Struct.pack_length (parseMsc2Header_eq_ok.mp h.header).2
    refine ⟨opened.globalHeader, first, ⟨hlength, rfl⟩, opened.header, first, ⟨h.header, rfl⟩, (), first,
      ⟨h.frames, rfl⟩, opened.key, first, ⟨h.key, rfl⟩, (payload, padded), rest, hread, ?_⟩
    dsimp only
    exact ⟨opened.manifest, rest, ⟨hparsed, rfl⟩, (), rest, ⟨h.size, rfl⟩, rfl, rfl⟩

theorem openStream_parsed {opened : OpenedStream} {rest : Bytes}
    (h : openStream u cipher scrypt limits password archive = .ok (opened, rest)) :
    StreamParsed u opened.header opened.manifest := by
  obtain ⟨first, payload, padded, -, -, hparsed⟩ := (openStream_eq_ok.mp h).manifest
  exact (parseManifest_eq_ok.mp hparsed).1

theorem catalog_of_streamParsed {h : Msc2Header} {m : StreamManifest} (hm : StreamParsed u h m) :
    Catalog u m.kind m.entries := by
  refine ⟨fun e he => (hm.entries e he).entryType, hm.paths, hm.parents, fun hkind => ?_⟩
  obtain ⟨e, hentries, hfile, -⟩ := hm.single hkind
  exact ⟨e, hentries, hfile⟩

end

end MosaicArchive.Restore
