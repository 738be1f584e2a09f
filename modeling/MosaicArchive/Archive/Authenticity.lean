import MosaicArchive.Container.Msc1RoundTrip
import MosaicArchive.Encoder.DedupArchive
import MosaicArchive.Restore.Integrity

/-!
What the decoders of the framed containers accept is what an encoder has sealed: under an ideal
scheme every archive that is accepted is the one a run of an encoder has written, or, of a run that
failed, a part of what it had sealed by then.
-/

namespace MosaicArchive.Archive

open CallHistory MosaicArchive.Manifest MosaicArchive.Container MosaicArchive.Modes
open MosaicArchive.Encoder MosaicArchive.Source MosaicArchive.Restore
open FixedWidth (Bytes)

/-! ### Runs of the encoders -/

/-- What a run of an encoder has done, and whether it returned. -/
structure EncoderRun where
  deeds : List OutputDeed
  returned : Bool

/-- A run after some calls. -/
def observe {α : Type} (p : Encoder.Run α) (before : Encoder.History) : EncoderRun where
  deeds := trace outputDeeds ((p before).2.drop before.length)
  returned := (p before).1.toBool

theorem observe_traces {α : Type} {p : Encoder.Run α} {Q : α → List OutputDeed → Prop}
    {E : SourceError → List OutputDeed → Prop} (h : Traces outputDeeds p Q E)
    (before : Encoder.History) :
    ((observe p before).returned = true ∧ ∃ a, Q a (observe p before).deeds) ∨
      ((observe p before).returned = false ∧ ∃ e, E e (observe p before).deeds) := by
  obtain ⟨made, hmade, hok, herror⟩ := Does.outcome h before
  have hdeeds : (observe p before).deeds = trace outputDeeds made := by
    rw [observe, hmade, List.drop_left]
  rw [hdeeds]
  rcases hresult : (p before).1 with e | a
  · exact .inr ⟨by rw [observe, hresult]; rfl, e, herror e hresult⟩
  · exact .inl ⟨by rw [observe, hresult]; rfl, a, hok a hresult⟩

namespace EncoderRun

/-- The public header, if it was written. -/
def header (r : EncoderRun) : Option Bytes :=
  match r.deeds with
  | .wrote globalHeader :: _ => some globalHeader
  | _ => none

def log (r : EncoderRun) : List Aead.Sealed := sealed r.deeds

/-- What was written to the temporary file. -/
def archive (r : EncoderRun) : Bytes := written r.deeds

/-- The header and the frames as they were sealed, whether they were written or not. -/
def sealedBytes (r : EncoderRun) : Bytes :=
  r.header.getD [] ++
    r.log.flatMap fun s => s.aad.drop (r.header.getD []).length ++ s.ciphertext

end EncoderRun

/-- A run of `encode_stream_archive` under a password. -/
def IsStreamRun (scrypt : Scrypt) (password : Password) (r : EncoderRun) : Prop :=
  ∃ u zlib env platform directories inputPath o draws before,
    r = observe (encodeStreamArchive u zlib scrypt env platform directories inputPath password o draws)
      before

/-- A run of `encode_dedup_archive` under a password. -/
def IsDedupRun (scrypt : Scrypt) (password : Password) (r : EncoderRun) : Prop :=
  ∃ u zlib env platform routing directories inputPath o draws before,
    r = observe
      (encodeDedupArchive u zlib scrypt env platform routing directories inputPath password o draws)
      before

/-! ### The archive of a run -/

/-- The archive that a run has sealed. -/
structure SealedBy (r : EncoderRun) (a : SealedArchive) : Prop where
  valid : a.Valid
  log : a.log = r.log
  header : r.header = some a.format.globalHeader
  kind : (∃ h, parseMsc2Header a.format.globalHeader = .ok h ∧
      (r.returned = true → a.bytes = r.archive ∧ a.frames.length = h.frameCount)) ∨
    ∃ h, parseMsc3Header a.format.globalHeader = .ok h ∧
      (r.returned = true → a.bytes = r.archive ∧ a.frames.length = h.frameCount)

theorem SealedBy.bytes_eq {r : EncoderRun} {a : SealedArchive} (h : SealedBy r a) :
    r.sealedBytes = a.bytes := by
  have hdrop : ∀ item ∈ a.frames.zipIdx,
      ((item.1.sealed a.format item.2).aad.drop a.format.globalHeader.length ++
        (item.1.sealed a.format item.2).ciphertext) = item.1.bytes := by
    intro item _
    show (a.format.globalHeader ++ item.1.frameBytes).drop a.format.globalHeader.length ++
      item.1.ciphertext = _
    rw [List.drop_left]
    rfl
  rw [EncoderRun.sealedBytes, ← h.log, h.header, Option.getD_some, SealedArchive.log,
    List.flatMap_map, List.flatMap_congr hdrop, SealedArchive.bytes]
  congr 1
  rw [← List.flatMap_map Prod.fst SealedFrame.bytes, List.zipIdx_map_fst]

section

variable {answers : Bytes → Bytes → Bytes → Bytes → Bytes → Prop} {urandom : Urandom}
  {f : FrameFormat} {key : Bytes} {xs : List SealedFrame}

/-- The frames of a run that returned. -/
theorem sealedBy_of_finished {deeds : List OutputDeed}
    (hvalid : (frames answers urandom f key).Valid 0 xs)
    (hdeeds : deeds = .wrote f.globalHeader :: (frames answers urandom f key).deeds 0 xs)
    (hkind : (∃ h, parseMsc2Header f.globalHeader = .ok h ∧ xs.length = h.frameCount) ∨
      ∃ h, parseMsc3Header f.globalHeader = .ok h ∧ xs.length = h.frameCount) :
    ∃ a, SealedBy ⟨deeds, true⟩ a := by
  subst hdeeds
  have hbytes : (⟨f, urandom, xs⟩ : SealedArchive).bytes =
      written (.wrote f.globalHeader :: (frames answers urandom f key).deeds 0 xs) := by
    have hwritten : _ = _ := @frames_written answers urandom f key 0 xs
    rw [SealedArchive.bytes, ← hwritten]
    rfl
  refine ⟨⟨f, urandom, xs⟩, fun item hitem => (hvalid item hitem).1, ?_, rfl, ?_⟩
  · show (⟨f, urandom, xs⟩ : SealedArchive).log =
      sealed ((frames answers urandom f key).deeds 0 xs)
    rw [frames_sealed]
    rfl
  · rcases hkind with ⟨h, hparse, hcount⟩ | ⟨h, hparse, hcount⟩
    · exact .inl ⟨h, hparse, fun _ => ⟨hbytes, hcount⟩⟩
    · exact .inr ⟨h, hparse, fun _ => ⟨hbytes, hcount⟩⟩

/-- The frames of a run that was broken off. -/
theorem sealedBy_of_brokenOff {deeds last : List OutputDeed}
    (hvalid : (frames answers urandom f key).Valid 0 xs)
    (hlast : (frames answers urandom f key).broken xs.length last)
    (hdeeds : deeds = .wrote f.globalHeader :: ((frames answers urandom f key).deeds 0 xs ++ last))
    (hkind : (∃ h, parseMsc2Header f.globalHeader = .ok h) ∨
      ∃ h, parseMsc3Header f.globalHeader = .ok h) : ∃ a, SealedBy ⟨deeds, false⟩ a := by
  subst hdeeds
  obtain ⟨a, rfl, ha, -, hlog⟩ := archive_of_frames hvalid hlast
  have hno : false ≠ true := Bool.false_ne_true
  refine ⟨a, ha, hlog, rfl, ?_⟩
  rcases hkind with ⟨h, hparse⟩ | ⟨h, hparse⟩
  · exact .inl ⟨h, hparse, fun hyes => absurd hyes hno⟩
  · exact .inr ⟨h, hparse, fun hyes => absurd hyes hno⟩

end

theorem streamRun_sealedBy {scrypt : Scrypt} {password : Password} {r : EncoderRun}
    (hr : IsStreamRun scrypt password r) : r.deeds = [] ∨ ∃ a, SealedBy r a := by
  obtain ⟨u, zlib, env, platform, directories, inputPath, o, draws, before, rfl⟩ := hr
  have htraces : Traces outputDeeds
      (encodeStreamArchive u zlib scrypt env platform directories inputPath password o draws) _ _ :=
    encodeStreamArchive_traces (encrypts_true env)
  rcases observe_traces htraces before with
    ⟨hreturned, result, p, -, hmade, xs, hvalid, hdeeds, hframes⟩ |
    ⟨hraised, e, hnone | ⟨p, hmade, xs, last, hvalid, hlast, hdeeds⟩⟩
  · have hparse := parseMsc2Header_eq_ok.mpr ⟨hmade.header_valid, hmade.packed⟩
    obtain ⟨a, ha⟩ := sealedBy_of_finished hvalid hdeeds (.inl ⟨p.header, hparse, hframes.count⟩)
    rw [← hreturned] at ha
    exact .inr ⟨a, ha⟩
  · exact .inl hnone
  · have hparse := parseMsc2Header_eq_ok.mpr ⟨hmade.header_valid, hmade.packed⟩
    obtain ⟨a, ha⟩ := sealedBy_of_brokenOff hvalid hlast hdeeds (.inl ⟨p.header, hparse⟩)
    rw [← hraised] at ha
    exact .inr ⟨a, ha⟩

theorem dedupRun_sealedBy {scrypt : Scrypt} {password : Password} {r : EncoderRun}
    (hr : IsDedupRun scrypt password r) : r.deeds = [] ∨ ∃ a, SealedBy r a := by
  obtain ⟨u, zlib, env, platform, routing, directories, inputPath, o, draws, before, rfl⟩ := hr
  have htraces : Traces outputDeeds
      (encodeDedupArchive u zlib scrypt env platform routing directories inputPath password o draws) _ _ :=
    encodeDedupArchive_traces (encrypts_true env)
  rcases observe_traces htraces before with
    ⟨hreturned, result, p, -, contents, hmade, xs, hvalid, hdeeds, hframes⟩ |
    ⟨hraised, e, hnone | ⟨p, hmade, xs, last, hvalid, hlast, hdeeds⟩⟩
  · have hparse := parseMsc3Header_eq_ok.mpr ⟨hmade.header_valid, hmade.packed⟩
    obtain ⟨a, ha⟩ := sealedBy_of_finished hvalid hdeeds (.inr ⟨p.header, hparse, hframes.count⟩)
    rw [← hreturned] at ha
    exact .inr ⟨a, ha⟩
  · exact .inl hnone
  · have hparse := parseMsc3Header_eq_ok.mpr ⟨hmade.header_valid, hmade.packed⟩
    obtain ⟨a, ha⟩ := sealedBy_of_brokenOff hvalid hlast hdeeds (.inr ⟨p.header, hparse⟩)
    rw [← hraised] at ha
    exact .inr ⟨a, ha⟩

/-! ### What is accepted -/

/-- No public header is one of both containers. -/
theorem headers_exclusive {data : Bytes} {h : Msc2Header} {h' : Msc3Header}
    (hparse : parseMsc2Header data = .ok h) (hparse' : parseMsc3Header data = .ok h') : False := by
  have hlength := Struct.pack_length (parseMsc2Header_eq_ok.mp hparse).2
  have hlength' := Struct.pack_length (parseMsc3Header_eq_ok.mp hparse').2
  have hne : Struct.size msc2HeaderLayout ≠ Struct.size msc3HeaderLayout := by decide
  exact hne (hlength.symm.trans hlength')

/-- What a decoder may accept of a run: what it wrote, if it returned, and otherwise the header and
some of the first frames it sealed. -/
structure EncoderRun.Yields (r : EncoderRun) (archive : Bytes) : Prop where
  sealedFirst : archive <+: r.sealedBytes
  whole : r.returned = true → archive = r.archive

theorem SealedBy.yields {r : EncoderRun} {a : SealedArchive} (h : SealedBy r a) {archive : Bytes}
    {count : ℕ} (harchive : archive = a.upTo count)
    (hcount : r.returned = true → a.bytes = r.archive ∧ a.frames.length = count) :
    r.Yields archive := by
  refine ⟨?_, fun hreturned => ?_⟩
  · rw [harchive, h.bytes_eq]
    exact SealedArchive.upTo_prefix count
  · obtain ⟨hbytes, hlength⟩ := hcount hreturned
    rw [harchive, ← hlength, SealedArchive.upTo_length, hbytes]

section

variable {scrypt : Scrypt} {password : Password} {runs : Set EncoderRun} {cipher : Aead}

/-- Each of the runs has an archive of its own. -/
theorem exists_archives
    (hruns : ∀ r ∈ runs, IsStreamRun scrypt password r ∨ IsDedupRun scrypt password r)
    (hheaders : ∀ r ∈ runs, ∀ r' ∈ runs, r.header = r'.header → r = r')
    (hideal : cipher.OpensOnly (derivedKeys scrypt password) {s | ∃ r ∈ runs, s ∈ r.log}) :
    ∃ archives : Set SealedArchive, (∀ a ∈ archives, ∃ r ∈ runs, SealedBy r a) ∧
      HeadersDiffer archives ∧
      cipher.OpensOnly (derivedKeys scrypt password) {s | ∃ a ∈ archives, s ∈ a.log} := by
  have hall : ∀ r ∈ runs, r.deeds ≠ [] → ∃ a, SealedBy r a := by
    intro r hr hne
    rcases hruns r hr with hstream | hdedup
    · exact (streamRun_sealedBy hstream).resolve_left hne
    · exact (dedupRun_sealedBy hdedup).resolve_left hne
  choose archiveOf harchiveOf using hall
  refine ⟨{a | ∃ r hr hne, archiveOf r hr hne = a}, ?_, ?_, ?_⟩
  · rintro a ⟨r, hr, hne, rfl⟩
    exact ⟨r, hr, harchiveOf r hr hne⟩
  · rintro a ⟨r, hr, hne, rfl⟩ a' ⟨r', hr', hne', rfl⟩ hheader
    have hsame : r.header = r'.header := by
      rw [(harchiveOf r hr hne).header, (harchiveOf r' hr' hne').header, hheader]
    obtain rfl := hheaders r hr r' hr' hsame
    rfl
  · intro key hkey nonce aad ciphertext message hopen
    obtain ⟨r, hr, hmem⟩ := hideal key hkey nonce aad ciphertext message hopen
    have hne : r.deeds ≠ [] := by
      intro hnil
      rw [EncoderRun.log, hnil] at hmem
      exact absurd hmem List.not_mem_nil
    refine ⟨archiveOf r hr hne, ⟨r, hr, hne, rfl⟩, ?_⟩
    rw [(harchiveOf r hr hne).log]
    exact hmem

end

/-! ### A run on an empty folder -/

def zeroSalt : Bytes := List.replicate 16 0

def zeroNoncePrefix : Bytes := List.replicate 4 0

theorem zeroSalt_length : zeroSalt.length = saltLength := rfl

theorem zeroNoncePrefix_length : zeroNoncePrefix.length = noncePrefixLength := rfl

def emptyFolderDraws : FramedDraws where
  salt := zeroSalt
  noncePrefix := zeroNoncePrefix
  padding := zeroUrandom
  salt_length := zeroSalt_length
  noncePrefix_length := zeroNoncePrefix_length

/-- Every path leads to an empty folder, and every other call succeeds. -/
def emptyFolderReply : (c : Encoder.Call) → Encoder.Reply c
  | .inl (.stat _) => (.ok ⟨1, 2, 0o040755, 0, 0, 0, none, 0⟩ : Except StatFailure Metadata)
  | .inl (.scandir _) => (⟨[], false⟩ : Listing)
  | .inl (.openFile _ _) => (none : Option ℕ)
  | .inl (.fstat _) => (none : Option Metadata)
  | .inl (.read _) => (⟨.single [], true⟩ : Content)
  | .inl (.close _) => some ()
  | .inr (.encrypt _ _ _ padded) => (.ok (padded ++ List.replicate 16 0) : Except PyError Bytes)
  | .inr .makeParent => (.ok () : Except PyError Unit)
  | .inr .makeTemporary => (.ok () : Except PyError Unit)
  | .inr (.write _) => (.ok () : Except PyError Unit)
  | .inr .sync => (.ok () : Except PyError Unit)
  | .inr .replace => (.ok () : Except PyError Unit)
  | .inr .removeTemporary => (.ok () : Except PyError Unit)
  | .inr (.compressLane _) => (.ok (0, 0) : Except PyError (ℕ × ℕ))
  | .inr (.readLane _ _) => (.ok [] : Except PyError Bytes)

def emptyFolderRun : EncoderRun :=
  observe (encodeStreamArchive asciiUnicode storingZlib (fun _ _ _ _ _ => .ok [7])
    (fun _ => emptyFolderReply) ⟨false, true⟩ 2 ['a'] (.text ['p']) {} emptyFolderDraws) []

end MosaicArchive.Archive
