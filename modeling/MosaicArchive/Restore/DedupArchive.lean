import MosaicArchive.Manifest.DedupCanonical
import MosaicArchive.Restore.StreamArchive

/-!
The decoder of MSC3 to MSC6 archives (`mosaic_archive/dedup_archive.py`). A chunk that occurs again
is kept in a temporary directory when its frame is read, and taken from there when it is repeated.
-/

namespace MosaicArchive.Restore

open CallHistory MosaicArchive.Manifest MosaicArchive.Container MosaicArchive.Modes
open Routine (lift raise finally')
open FixedWidth (Bytes)

/-- What is known once the manifest has been read. -/
structure OpenedDedup where
  header : Msc3Header
  globalHeader : Bytes
  key : Bytes
  manifest : DedupManifest

/-- The occurrences that are repeated. -/
def referenced (m : DedupManifest) : List ℕ :=
  (m.chunks.zipIdx.filter fun item => item.1.sourceIndex ≠ item.2).map fun item => item.1.sourceIndex

/-- The check of a file when all of its chunks are written. -/
def verifyDigest (e : Entry) (content : Bytes) : Except PyError Unit :=
  Except.raiseIf (sha256 content ≠ e.digest)
    (.integrity ("MSC3 file digest failed: " ++ String.ofList e.relativePath))

/-- The check after the last entry. -/
def finishDedup (header : Msc3Header) (r : FrameReader) : Except PyError Unit :=
  Except.raiseIf (r.frameIndex ≠ header.frameCount ∨ r.rest.take 1 ≠ [])
    (.archiveFormat "MSC3 frame count or archive termination is invalid")

section

variable (u : Unicode) (zlib : Zlib) (cipher : Aead) (scrypt : Scrypt)

/-- The part of `_decode` before the output is prepared. -/
def openDedup (limits : DecodeLimits) (password : Password) : ByteParser PyError OpenedDedup := do
  let globalHeader ← ByteParser.exactly (Struct.size msc3HeaderLayout) (msc3Truncated "public header")
  let header ← ByteParser.lift (parseMsc3Header globalHeader)
  ByteParser.raiseIf (limits.maxFrameCount < header.frameCount - 1)
    (.archiveFormat "MSC3 frame count exceeds the decode limit")
  let key ← ByteParser.lift (deriveKey scrypt password header.salt header.kdfLogN 8 1)
  let (payload, _) ← readFrame cipher (header.frameFormat globalHeader) key 0 frameManifest
  let manifest ← ByteParser.lift (parseDedupManifest u payload header)
  ByteParser.raiseIf (limits.maxOutputSize < (manifest.entries.map Entry.size).sum)
    (.archiveFormat "MSC3 restored size exceeds the decode limit")
  pure ⟨header, globalHeader, key, manifest⟩

/-- The chunk in a data frame. -/
def openChunk (occurrence : ℕ) (record : ChunkRecord) (payload : Bytes) : Except PyError Bytes := do
  Except.raiseIf (payload.length < Struct.size dedupDataPrefix)
    (.archiveFormat "MSC3 data frame is truncated")
  let (actualIndex, size, modeId, ()) := Struct.unpack dedupDataPrefix payload
  Except.raiseIf (actualIndex ≠ occurrence ∨ size ≠ record.size)
    (.archiveFormat "MSC3 data frame metadata is inconsistent")
  let mode ← getMode modeId
  mode.decode zlib (payload.drop (Struct.size dedupDataPrefix)) size

def readChunk (opened : OpenedDedup) (occurrence : ℕ) (record : ChunkRecord) (r : FrameReader) :
    Except PyError (Bytes × FrameReader) := do
  let ((payload, _), rest) ← readFrame cipher (opened.header.frameFormat opened.globalHeader)
    opened.key r.frameIndex frameData r.rest
  let chunk ← openChunk zlib occurrence record payload
  Except.raiseIf (sha256 chunk ≠ record.digest) (.integrity "MSC3 unique chunk digest failed")
  pure (chunk, ⟨rest, r.frameIndex + 1⟩)

variable (env : Environment Call Reply)

def writeCache (index : ℕ) (chunk : Bytes) : Run Unit := call env (.writeCache index chunk)

def readCache (index : ℕ) : Run Bytes := call env (.readCache index)

/-- A chunk that is repeated is kept. -/
def keepChunk (m : DedupManifest) (occurrence : ℕ) (chunk : Bytes) : Run Unit :=
  if occurrence ∈ referenced m then writeCache env occurrence chunk else pure ()

/-- The body of the loop over the occurrences, before the chunk is written. -/
def nextChunk (opened : OpenedDedup) (e : Entry) (i : ℕ) (r : FrameReader) : Run (Bytes × FrameReader) :=
  match opened.manifest.chunks[e.first + i]? with
  | none => raise (.runtime "tuple index out of range")
  | some record =>
      if record.sourceIndex = e.first + i then do
        let (chunk, r') ← lift (readChunk zlib cipher opened (e.first + i) record r)
        keepChunk env opened.manifest (e.first + i) chunk
        pure (chunk, r')
      else do
        let chunk ← readCache env record.sourceIndex
        pure (chunk, r)

def dedupJob (opened : OpenedDedup) : Job FrameReader where
  kind := opened.manifest.kind
  entries := opened.manifest.entries
  block _ e i r := nextChunk zlib cipher env opened e i r
  verify := verifyDigest
  finish := finishDedup opened.header

def prepareDedup (destination : String) (kind : ℕ) : Run Unit := do
  inFolder kind do
    let there ← destinationExists env
    Routine.raiseIf (there = true)
      (.os ("folder destination already exists: " ++ destination))
  call env .makeParent
  call env .makeRoot

/-- `with tempfile.TemporaryDirectory(prefix="msc3-chunk-cache-")` -/
def withCache {α : Type} (p : Run α) : Run α := do
  call env .makeCache
  finally' p (call env .removeCache)

/-- `_decode`: `decode_dedup_archive` with a destination, `inspect_dedup_archive` without one. -/
def decodeDedup (destination : Option String) (limits : DecodeLimits) (password : Password)
    (archive : Bytes) : Run (OpenedDedup × Progress FrameReader) := do
  lift (validateDecodeLimits { limits with maxArchiveSize := defaultMaxLegacyArchiveSize })
  publishing destination (refuseSameFile env)
  withCache env do
    let (opened, rest) ← lift (openDedup u cipher scrypt limits password archive)
    let t ← restore env destination (dedupJob zlib cipher env opened)
      (prepareDedup env (destination.getD "") opened.manifest.kind) { rest }
    pure (opened, t)

end

/-! ### What is published -/

section

variable {u : Unicode} {zlib : Zlib} {cipher : Aead} {scrypt : Scrypt} {env : Environment Call Reply}
  {destination : String} {limits : DecodeLimits} {password : Password} {archive : Bytes}

theorem keepChunk_quietly {m : DedupManifest} {occurrence : ℕ} {chunk : Bytes} :
    Quietly deedsOf (keepChunk env m occurrence chunk) fun _ => True := by
  rw [keepChunk]
  split
  · exact call_quietly fun _ => rfl
  · exact Quietly.pure trivial

theorem dedupJob_quiet {opened : OpenedDedup} : (dedupJob zlib cipher env opened).Quiet := by
  intro position e i r
  show Quietly deedsOf (nextChunk zlib cipher env opened e i r) fun _ => True
  rw [nextChunk]
  cases opened.manifest.chunks[e.first + i]? with
  | none => exact Quietly.raise
  | some record =>
      dsimp only
      split
      · refine Quietly.bind (Q := fun _ => True) (Quietly.lift fun _ _ => trivial) fun read _ => ?_
        exact Quietly.bind keepChunk_quietly fun _ _ => Quietly.pure trivial
      · exact Quietly.bind (Q := fun _ => True) (call_quietly fun _ => rfl) fun chunk _ =>
          Quietly.pure trivial

theorem prepareDedup_prepares {kind : ℕ} : Prepares (prepareDedup env destination kind) := by
  refine Quietly.before (Q := fun _ => True) ?_ (fun _ _ => ?_) fun _ => rfl
  · rw [inFolder]
    split
    · refine Quietly.bind (Q := fun _ => True) (call_quietly fun _ => rfl) fun there _ => ?_
      exact Quietly.raiseIf fun _ => trivial
    · exact Quietly.pure trivial
  · refine Quietly.before (call_quietly fun _ => rfl) (fun _ _ => ?_) fun _ => rfl
    exact call_traces (fun _ => rfl) fun _ => rfl

/-- What the decoder has checked when it prepares the output. -/
structure DedupOpens (u : Unicode) (cipher : Aead) (scrypt : Scrypt) (limits : DecodeLimits)
    (password : Password) (archive : Bytes) (opened : OpenedDedup) (rest : Bytes) : Prop where
  header : parseMsc3Header opened.globalHeader = .ok opened.header
  frames : ¬ limits.maxFrameCount < opened.header.frameCount - 1
  key : deriveKey scrypt password opened.header.salt opened.header.kdfLogN 8 1 = .ok opened.key
  manifest : ∃ first payload padded, archive = opened.globalHeader ++ first ∧
    (readFrame cipher (opened.header.frameFormat opened.globalHeader) opened.key 0
      frameManifest).Accepts first (payload, padded) rest ∧
    parseDedupManifest u payload opened.header = .ok opened.manifest
  size : ¬ limits.maxOutputSize < (opened.manifest.entries.map Entry.size).sum

theorem openDedup_eq_ok {opened : OpenedDedup} {rest : Bytes} :
    openDedup u cipher scrypt limits password archive = .ok (opened, rest) ↔
      DedupOpens u cipher scrypt limits password archive opened rest := by
  rw [← ByteParser.accepts_iff]
  simp only [openDedup, ByteParser.accepts_bind, ByteParser.accepts_lift,
    ByteParser.accepts_raiseIf, ByteParser.accepts_pure, ByteParser.accepts_exactly]
  constructor
  · rintro ⟨globalHeader, _, ⟨-, rfl⟩, header, _, ⟨hheader, rfl⟩, _, _, ⟨hframes, rfl⟩, key, _,
      ⟨hkey, rfl⟩, ⟨payload, padded⟩, _, hread, hrest⟩
    dsimp only at hrest
    obtain ⟨manifest, _, ⟨hparsed, rfl⟩, _, _, ⟨hsize, rfl⟩, rfl, rfl⟩ := hrest
    exact ⟨hheader, hframes, hkey, ⟨_, payload, padded, rfl, hread, hparsed⟩, hsize⟩
  · intro h
    obtain ⟨first, payload, padded, rfl, hread, hparsed⟩ := h.manifest
    have hlength := Struct.pack_length (parseMsc3Header_eq_ok.mp h.header).2
    refine ⟨opened.globalHeader, first, ⟨hlength, rfl⟩, opened.header, first, ⟨h.header, rfl⟩, (), first,
      ⟨h.frames, rfl⟩, opened.key, first, ⟨h.key, rfl⟩, (payload, padded), rest, hread, ?_⟩
    dsimp only
    exact ⟨opened.manifest, rest, ⟨hparsed, rfl⟩, (), rest, ⟨h.size, rfl⟩, rfl, rfl⟩

theorem openDedup_parsed {opened : OpenedDedup} {rest : Bytes}
    (h : openDedup u cipher scrypt limits password archive = .ok (opened, rest)) :
    Parsed u opened.header opened.manifest := by
  obtain ⟨first, payload, padded, -, -, hparsed⟩ := (openDedup_eq_ok.mp h).manifest
  exact (parseDedupManifest_eq_ok.mp hparsed).1

theorem catalog_of_parsed {h : Msc3Header} {m : DedupManifest} (hm : Parsed u h m) :
    Catalog u m.kind m.entries := by
  have hwell := hm.wellFormed
  refine ⟨hwell.entryTypes, hwell.paths, fun _ => hwell.parents, fun hkind => ?_⟩
  obtain ⟨e, hentries, hfile, -⟩ := hwell.single hkind
  exact ⟨e, hentries, hfile⟩

/-- What is built and published for an archive that was opened. -/
def Published (m : DedupManifest) (deeds : List Deed) : Prop :=
  ∃ built, Rebuilds verifyDigest m.kind m.entries built ∧
    deeds = .rootMade :: built.map .tree ++ [.published]

theorem decodeDedup_inside (limits : DecodeLimits) (password : Password) (archive : Bytes) :
    Traces deedsOf (do
        let (opened, rest) ← lift (openDedup u cipher scrypt limits password archive)
        let t ← restore env (some destination) (dedupJob zlib cipher env opened)
          (prepareDedup env destination opened.manifest.kind) { rest }
        pure (opened, t))
      (fun result deeds => (∃ rest, openDedup u cipher scrypt limits password archive =
          .ok (result.1, rest)) ∧ Published result.1.manifest deeds)
      fun _ deeds => Abandoned deeds := by
  refine Quietly.before (Quietly.lift fun opened hopened => hopened) ?_ fun _ => .inl rfl
  rintro ⟨opened, rest⟩ hopened
  refine Traces.bind (restore_traces dedupJob_quiet prepareDedup_prepares) ?_ fun _ _ h => h
  rintro t deeds ⟨hrestored, rfl⟩
  refine Traces.pure ⟨⟨rest, hopened⟩, _,
    (catalog_of_parsed (openDedup_parsed hopened)).rebuilds hrestored, ?_⟩
  rw [List.append_nil]

end

end MosaicArchive.Restore
