import MosaicArchive.Container.SealedFrames
import MosaicArchive.Restore.DedupArchive

/-!
The decoders of the framed containers under an ideal scheme, which opens nothing but what encoders
have sealed. The first frame binds the reader to one archive, by the public header; from there on
it can only go from one frame of that archive to the next.
-/

namespace MosaicArchive.Restore

open CallHistory MosaicArchive.Manifest MosaicArchive.Container MosaicArchive.Modes
open FixedWidth (Bytes)

/-- The keys that are derived from a password. -/
def derivedKeys (scrypt : Scrypt) (password : Password) : Set Bytes :=
  {key | ∃ salt logN r p, deriveKey scrypt password salt logN r p = .ok key}

/-- The reader has read some frames of the archive that was sealed. -/
def ReadUpTo (archive : Bytes) (a : SealedArchive) (r : FrameReader) : Prop :=
  archive = a.upTo r.frameIndex ++ r.rest ∧ r.frameIndex ≤ a.frames.length

/-- Different archives have different public headers. -/
def HeadersDiffer (archives : Set SealedArchive) : Prop :=
  ∀ a ∈ archives, ∀ a' ∈ archives, a.format.globalHeader = a'.format.globalHeader → a = a'

section

variable {u : Unicode} {zlib : Zlib} {cipher : Aead} {scrypt : Scrypt} {env : Environment Call Reply}
  {destination : Option String} {limits : DecodeLimits} {password : Password} {archive : Bytes}
  {archives : Set SealedArchive}

theorem prepareOutput_returns {name : String} {kind : ℕ} :
    Returns (prepareOutput env name kind) fun _ _ => True :=
  (Does.returns prepareOutput_prepares).mono fun _ _ _ => trivial

theorem prepareDedup_returns {name : String} {kind : ℕ} :
    Returns (prepareDedup env name kind) fun _ _ => True :=
  (Does.returns prepareDedup_prepares).mono fun _ _ _ => trivial

theorem refuseSameFile_returns : Returns (refuseSameFile env) fun _ _ => True :=
  (Does.returns refuseSameFile_quietly).mono fun _ _ _ => trivial

section

variable (hopens : cipher.OpensOnly (derivedKeys scrypt password) {s | ∃ a ∈ archives, s ∈ a.log})
  (hvalid : ∀ a ∈ archives, a.Valid) (hheaders : HeadersDiffer archives)

include hopens hvalid

/-- The frame of the manifest. -/
theorem first_readUpTo {f : FrameFormat} {key first payload rest : Bytes} {padded : ℕ}
    (hkey : key ∈ derivedKeys scrypt password)
    (h : (readFrame cipher f key 0 frameManifest).Accepts first (payload, padded) rest) :
    ∃ a ∈ archives, a.format.globalHeader = f.globalHeader ∧
      ReadUpTo (f.globalHeader ++ first) a ⟨rest, 1⟩ := by
  obtain ⟨a, ha, hheader, x, hx, rfl, -⟩ := readFrame_sealed hopens hvalid hkey h
  refine ⟨a, ha, hheader, ?_, (List.getElem?_eq_some_iff.mp hx).1⟩
  show f.globalHeader ++ (x.bytes ++ rest) = a.upTo (0 + 1) ++ rest
  rw [SealedArchive.upTo_succ hx, SealedArchive.upTo_zero, hheader, List.append_assoc]

include hheaders

/-- The frame of a block. -/
theorem next_readUpTo {f : FrameFormat} {key payload rest : Bytes} {padded : ℕ} {a : SealedArchive}
    {r : FrameReader} (hkey : key ∈ derivedKeys scrypt password) (ha : a ∈ archives)
    (hheader : a.format.globalHeader = f.globalHeader) (hr : ReadUpTo archive a r)
    (h : (readFrame cipher f key r.frameIndex frameData).Accepts r.rest (payload, padded) rest) :
    ReadUpTo archive a ⟨rest, r.frameIndex + 1⟩ := by
  obtain ⟨hnext, hlt⟩ := readFrame_next hopens hvalid hheaders hkey ha hheader h
  exact ⟨hr.1.trans hnext, hlt⟩

omit hopens hvalid hheaders in
theorem readBlock_eq_ok {opened : OpenedStream} {position : ℕ} {e : Entry} {i : ℕ} {r r' : FrameReader}
    {block : Bytes} (h : readBlock zlib cipher opened position e i r = .ok (block, r')) :
    ∃ payload padded, (readFrame cipher (opened.header.frameFormat opened.globalHeader) opened.key
        r.frameIndex frameData).Accepts r.rest (payload, padded) r'.rest ∧
      openBlock zlib opened.header r.frameIndex position e i payload = .ok block ∧
      r'.frameIndex = r.frameIndex + 1 := by
  simp only [readBlock, Except.bind_eq_ok_iff, Prod.exists] at h
  obtain ⟨payload, padded, rest, hread, block', hblock, hlast⟩ := h
  obtain ⟨rfl, rfl⟩ := Prod.mk.inj (Except.ok.inj hlast)
  exact ⟨payload, padded, hread, hblock, rfl⟩

omit hopens hvalid hheaders in
theorem readChunk_eq_ok {opened : OpenedDedup} {occurrence : ℕ} {record : ChunkRecord}
    {r r' : FrameReader} {chunk : Bytes}
    (h : readChunk zlib cipher opened occurrence record r = .ok (chunk, r')) :
    ∃ payload padded, (readFrame cipher (opened.header.frameFormat opened.globalHeader) opened.key
        r.frameIndex frameData).Accepts r.rest (payload, padded) r'.rest ∧
      openChunk zlib occurrence record payload = .ok chunk ∧ sha256 chunk = record.digest ∧
      r'.frameIndex = r.frameIndex + 1 := by
  simp only [readChunk, Except.bind_eq_ok_iff, Prod.exists, Except.raiseIf_eq_ok, not_not] at h
  obtain ⟨payload, padded, rest, hread, chunk', hchunk, _, hdigest, hlast⟩ := h
  obtain ⟨rfl, rfl⟩ := Prod.mk.inj (Except.ok.inj hlast)
  exact ⟨payload, padded, hread, hchunk, hdigest, rfl⟩

/-- Whatever `decode_stream_archive` and `inspect_stream_archive` accept is an archive that was sealed,
up to the number of frames in its header. -/
theorem decodeOrInspect_sealed : Returns
    (decodeOrInspect u zlib cipher scrypt env destination limits password archive)
    fun result _ => ∃ a ∈ archives, parseMsc2Header a.format.globalHeader = .ok result.1.header ∧
      archive = a.upTo result.1.header.frameCount ∧
      result.1.header.frameCount ≤ a.frames.length := by
  refine Returns.bind_lift fun _ _ => Returns.bind_lift fun _ _ => ?_
  refine Returns.bind (publishing_returns fun _ => refuseSameFile_returns) fun _ _ _ => ?_
  refine Returns.bind_lift fun result hopened => ?_
  obtain ⟨opened, rest⟩ := result
  have hopen := openStream_eq_ok.mp hopened
  obtain ⟨first, payload, padded, rfl, hread, -⟩ := hopen.manifest
  have hkey : opened.key ∈ derivedKeys scrypt password := ⟨_, _, _, _, hopen.key⟩
  obtain ⟨a, ha, hheader, hfirst⟩ := first_readUpTo hopens hvalid hkey hread
  refine Returns.bind (restore_reader (I := ReadUpTo (opened.globalHeader ++ first) a) ?_
    prepareOutput_returns hfirst) ?_
  · intro position e i r hr
    refine Returns.lift fun result hblock => ?_
    obtain ⟨payload', padded', hnext, -, hindex⟩ := readBlock_eq_ok hblock
    have hup := next_readUpTo hopens hvalid hheaders hkey ha hheader hr hnext
    rwa [← hindex] at hup
  · rintro t _ ⟨hend, hfinish⟩
    refine Returns.pure ⟨a, ha, ?_, ?_⟩
    · rw [hheader]
      exact hopen.header
    · simp only [streamJob, finishStream, Except.bind_eq_ok_iff, Except.raiseIf_eq_ok, not_not,
        exists_const, List.take_eq_nil_iff, Nat.one_ne_zero, false_or] at hfinish
      obtain ⟨hcount, hrest⟩ := hfinish
      rw [ReadUpTo, hcount, hrest, List.append_nil] at hend
      exact hend

/-- The same of `decode_dedup_archive` and `inspect_dedup_archive`. -/
theorem decodeDedup_sealed : Returns
    (decodeDedup u zlib cipher scrypt env destination limits password archive)
    fun result _ => ∃ a ∈ archives, parseMsc3Header a.format.globalHeader = .ok result.1.header ∧
      archive = a.upTo result.1.header.frameCount ∧
      result.1.header.frameCount ≤ a.frames.length := by
  refine Returns.bind_lift fun _ _ => ?_
  refine Returns.bind (publishing_returns fun _ => refuseSameFile_returns) fun _ _ _ => ?_
  refine Returns.bind call_returns fun _ _ _ => ?_
  refine Returns.mono (Returns.finally' (Q := fun (result : OpenedDedup × Progress FrameReader) _ =>
    ∃ a ∈ archives, parseMsc3Header a.format.globalHeader = .ok result.1.header ∧
      archive = a.upTo result.1.header.frameCount ∧
      result.1.header.frameCount ≤ a.frames.length) ?_ call_returns) ?_
  · refine Returns.bind_lift fun result hopened => ?_
    obtain ⟨opened, rest⟩ := result
    have hopen := openDedup_eq_ok.mp hopened
    obtain ⟨first, payload, padded, rfl, hread, -⟩ := hopen.manifest
    have hkey : opened.key ∈ derivedKeys scrypt password := ⟨_, _, _, _, hopen.key⟩
    obtain ⟨a, ha, hheader, hfirst⟩ := first_readUpTo hopens hvalid hkey hread
    refine Returns.bind (restore_reader (I := ReadUpTo (opened.globalHeader ++ first) a) ?_
      prepareDedup_returns hfirst) ?_
    · intro position e i r hr
      show Returns (nextChunk zlib cipher env opened e i r) _
      rw [nextChunk]
      cases opened.manifest.chunks[e.first + i]? with
      | none => exact Returns.raise
      | some record =>
          dsimp only
          split
          · refine Returns.bind_lift fun result hchunk => ?_
            obtain ⟨payload', padded', hnext, -, -, hindex⟩ := readChunk_eq_ok hchunk
            have hup := next_readUpTo hopens hvalid hheaders hkey ha hheader hr hnext
            rw [← hindex] at hup
            exact Returns.bind ((Does.returns keepChunk_quietly).mono fun _ _ _ => trivial)
              (Q := fun _ _ => True) fun _ _ _ => Returns.pure hup
          · exact Returns.bind call_returns fun _ _ _ => Returns.pure hr
    · rintro t _ ⟨hend, hfinish⟩
      refine Returns.pure ⟨a, ha, ?_, ?_⟩
      · rw [hheader]
        exact hopen.header
      · simp only [dedupJob, finishDedup, Except.raiseIf_eq_ok, not_or, not_not,
          List.take_eq_nil_iff, Nat.one_ne_zero, false_or] at hfinish
        obtain ⟨hcount, hrest⟩ := hfinish
        rw [ReadUpTo, hcount, hrest, List.append_nil] at hend
        exact hend
  · rintro result made ⟨body, final, -, hresult, -⟩
    exact hresult

end

end

end MosaicArchive.Restore
