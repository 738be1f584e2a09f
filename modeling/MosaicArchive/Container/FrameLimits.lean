import MosaicArchive.Container.Frames
import MosaicArchive.Crypto.Sha256
import MosaicArchive.Manifest.DedupCanonical
import MosaicArchive.Modes.Selection

/-!
The limits the two sides put on a frame. The encoder bounds the manifest before
it is padded, the decoder bounds the ciphertext. The two bounds agree unless the
limit of the decoder is nine to fifteen bytes above a multiple of the padding
size; data frames always stay within theirs.
-/

namespace MosaicArchive.Container

open FixedWidth Except MosaicArchive.Manifest MosaicArchive.Modes

/-! ### The encoder's bound on the manifest -/

/-- The check before the manifest is written. -/
def checkManifestSize (message : String) (paddingSize : ℕ) (payload : Bytes) :
    Except PyError Unit :=
  raiseIf (maxManifestCiphertext - paddingSize - aeadTagLength < payload.length) (.value message)

/-- The check of `encode_stream_archive` -/
def checkStreamManifestSize (h : Msc2Header) (payload : Bytes) : Except PyError Unit :=
  checkManifestSize "folder manifest is too large for MSC2 resource limits" h.paddingSize payload

/-- The check of `encode_dedup_archive` -/
def checkDedupManifestSize (h : Msc3Header) (payload : Bytes) : Except PyError Unit :=
  checkManifestSize "MSC3 manifest exceeds its resource limit" h.paddingSize payload

theorem checkManifestSize_eq_ok {message : String} {paddingSize : ℕ} {payload : Bytes} {r : Unit} :
    checkManifestSize message paddingSize payload = .ok r ↔
      payload.length ≤ maxManifestCiphertext - paddingSize - aeadTagLength := by
  rw [checkManifestSize, raiseIf_eq_ok, not_lt]

/-- The last multiple of the padding size leaves less room for a tag than the encoder counts on,
and the manifest reaches beyond the one before. -/
def Overhangs (paddingSize length : ℕ) : Prop :=
  (9 ≤ maxManifestCiphertext % paddingSize ∧ maxManifestCiphertext % paddingSize ≤ 15) ∧
    maxManifestCiphertext < length + lengthSize + paddingSize + maxManifestCiphertext % paddingSize

instance (paddingSize length : ℕ) : Decidable (Overhangs paddingSize length) :=
  inferInstanceAs (Decidable (_ ∧ _))

/-- Among the lengths the encoder admits, the padded manifest fits with its tag unless it
overhangs. -/
theorem padded_le_iff {paddingSize length : ℕ}
    (hsize : 256 ≤ paddingSize ∧ paddingSize ≤ maxPaddingSize)
    (hlength : length ≤ maxManifestCiphertext - paddingSize - aeadTagLength) :
    roundUp (lengthSize + length) paddingSize + aeadTagLength ≤ maxManifestCiphertext ↔
      ¬ Overhangs paddingSize length := by
  have hpos : 0 < paddingSize := by omega
  have hdiv := Nat.div_add_mod' maxManifestCiphertext paddingSize
  have hrem := Nat.mod_lt maxManifestCiphertext hpos
  have hbound : paddingSize + aeadTagLength ≤ maxManifestCiphertext := by
    simp only [maxPaddingSize, aeadTagLength, maxManifestCiphertext] at hsize ⊢
    omega
  -- the multiples of the padding size below the limit end at `blocks * paddingSize`
  obtain ⟨blocks, hblocks⟩ : ∃ blocks, maxManifestCiphertext / paddingSize = blocks + 1 := by
    refine ⟨maxManifestCiphertext / paddingSize - 1, ?_⟩
    have : 0 < maxManifestCiphertext / paddingSize := Nat.div_pos (by omega) hpos
    omega
  rw [hblocks, Nat.succ_mul] at hdiv
  have hlast := @roundUp_le_iff (lengthSize + length) paddingSize (blocks + 1) hpos
  have hprevious := @roundUp_le_iff (lengthSize + length) paddingSize blocks hpos
  rw [Nat.succ_mul] at hlast
  -- a padded length above one multiple reaches the next
  have hnext : blocks * paddingSize < roundUp (lengthSize + length) paddingSize →
      blocks * paddingSize + paddingSize ≤ roundUp (lengthSize + length) paddingSize := by
    rw [roundUp, ← Nat.succ_mul, Nat.mul_lt_mul_right hpos, Nat.mul_le_mul_right_iff hpos]
    exact Nat.succ_le_of_lt
  simp only [Overhangs, lengthSize, aeadTagLength] at *
  omega

section

variable {cipher : Aead} (hcipher : cipher.Inverts) (urandom : Urandom) {f : FrameFormat}
  (hf : f.Valid) (key : Bytes)

include hcipher hf

/-- A manifest the encoder admits is read back unless it overhangs. -/
theorem manifest_readsBack_iff {payload : Bytes}
    (hlength : payload.length ≤ maxManifestCiphertext - f.paddingSize - aeadTagLength) :
    ReadsBack cipher urandom f key 0 frameManifest payload ↔
      ¬ Overhangs f.paddingSize payload.length := by
  have hpos : 0 < f.paddingSize := by
    have := hf.paddingSize
    omega
  have hround := roundUp_lt (lengthSize + payload.length) hpos
  rw [readsBack_iff hcipher urandom hf key (by decide) (.inl rfl), ← padded_le_iff hf.paddingSize
    hlength]
  · rfl
  · have hsize := hf.paddingSize
    simp only [lengthSize, aeadTagLength, maxManifestCiphertext, maxPaddingSize] at *
    omega

/-- A payload no longer than the prefix and the longest chunk is read back. -/
theorem data_readsBack {longest prefixSize index : ℕ} {payload : Bytes}
    (hlimit : f.dataLimit = longest + f.paddingSize + prefixSize + 32)
    (hlongest : longest ≤ 16 * 1024 * 1024) (hprefixSize : prefixSize ≤ 16)
    (hindex : index < 256 ^ 8) (hpayload : payload.length ≤ prefixSize + longest) :
    ReadsBack cipher urandom f key index frameData payload := by
  have hsize := hf.paddingSize
  have hround := roundUp_lt (lengthSize + payload.length) (show 0 < f.paddingSize by omega)
  have hdata : f.limit frameData = f.dataLimit := rfl
  simp only [lengthSize, maxPaddingSize] at *
  apply (readsBack_iff hcipher urandom hf key hindex (.inr rfl) ?_).mpr
  · rw [hdata, hlimit, lengthSize, aeadTagLength]
    omega
  · rw [lengthSize, aeadTagLength]
    omega

end

/-- In both containers a manifest the encoder admits is read back exactly if it does not overhang,
and the frame of every chunk is read back. -/
theorem frame_limits_agree_iff {cipher : Aead} (hcipher : cipher.Inverts) (urandom : Urandom)
    (compress : Bytes → Except PyError Bytes) (key globalHeader : Bytes) :
    (∀ h : Msc2Header, h.Valid →
      (∀ payload, checkStreamManifestSize h payload = .ok () →
        (ReadsBack cipher urandom (h.frameFormat globalHeader) key 0 frameManifest payload ↔
          ¬ Overhangs h.paddingSize payload.length)) ∧
      ∀ index entryIndex block selected start, index < 256 ^ 8 → block.length ≤ h.chunkSize →
        chooseBestMode compress block = .ok selected →
        Struct.pack streamDataPrefix (entryIndex, block.length, selected.mode.toNat, ()) =
          some start →
        ReadsBack cipher urandom (h.frameFormat globalHeader) key index frameData
          (start ++ selected.payload)) ∧
    ∀ h : Msc3Header, h.Valid →
      (∀ payload, checkDedupManifestSize h payload = .ok () →
        (ReadsBack cipher urandom (h.frameFormat globalHeader) key 0 frameManifest payload ↔
          ¬ Overhangs h.paddingSize payload.length)) ∧
      ∀ index occurrence chunk routing profile selected start, index < 256 ^ 8 →
        chunk.length ≤ h.maxChunkSize →
        chooseRoutedMode compress routing profile chunk = .ok selected →
        Struct.pack dedupDataPrefix (occurrence, chunk.length, selected.mode.toNat, ()) =
          some start →
        ReadsBack cipher urandom (h.frameFormat globalHeader) key index frameData
          (start ++ selected.payload) := by
  constructor
  · intro h hv
    have hf := hv.frameFormat globalHeader
    constructor
    · intro payload hcheck
      exact manifest_readsBack_iff hcipher urandom hf key (checkManifestSize_eq_ok.mp hcheck)
    · intro index entryIndex block selected start hindex hblock hselected hstart
      apply data_readsBack hcipher urandom hf key rfl hv.chunkSize.2 (by decide) hindex
      rw [List.length_append, Struct.pack_length hstart]
      exact Nat.add_le_add_left ((chooseBestMode_length_le hselected).trans hblock) _
  · intro h hv
    have hf := hv.frameFormat globalHeader
    constructor
    · intro payload hcheck
      exact manifest_readsBack_iff hcipher urandom hf key (checkManifestSize_eq_ok.mp hcheck)
    · intro index occurrence chunk routing profile selected start hindex hchunk hselected hstart
      apply data_readsBack hcipher urandom hf key rfl hv.max_le (by decide) hindex
      rw [List.length_append, Struct.pack_length hstart]
      exact Nat.add_le_add_left ((chooseRoutedMode_length_le hselected).trans hchunk) _

/-! ### Both bounds on fixed inputs -/

def zeroUrandom : Urandom where
  bytes n := List.replicate n 0
  length_eq _ := List.length_replicate

/-- A public header of an archive with one data frame. -/
def smallStreamHeader : Msc2Header where
  version := msc2Version
  flags := msc2Flags
  kdfId := kdfScrypt
  aeadId := aeadChacha20Poly1305
  chunkSize := 64
  paddingSize := 256
  salt := List.replicate 16 0
  noncePrefix := List.replicate 4 0
  kdfLogN := 15
  kdfR := 8
  kdfP := 1
  frameCount := 2

theorem smallStreamHeader_valid : smallStreamHeader.Valid :=
  (checkMsc2Header_eq_ok (u := ())).mp (by decide)

/-- A header of a deduplicating archive with one data frame. -/
def smallDedupHeader (paddingSize : ℕ) : Msc3Header :=
  { manifestOnlyHeader with paddingSize, frameCount := 2 }

theorem smallDedupHeader_valid {paddingSize : ℕ}
    (hsize : 256 ≤ paddingSize ∧ paddingSize ≤ 16 * 1024 * 1024) :
    (smallDedupHeader paddingSize).Valid := by
  have hvalid : manifestOnlyHeader.Valid :=
    (checkMsc3Header_eq_ok (u := ()) (by decide)).mp (by decide)
  have hcount : 1 ≤ 2 ∧ 2 ≤ maxFrameCount := by decide
  exact { hvalid with paddingSize := hsize, frameCount := hcount }

/-- What zlib makes of one zero byte at level 6. -/
def deflatedZero (_ : Bytes) : Except PyError Bytes :=
  .ok [0x78, 0x9c, 0x63, 0x00, 0x00, 0x00, 0x01, 0x00, 0x01]

theorem frame_limits_agree_iff_one_byte :
    (ReadsBack Aead.tagged zeroUrandom (smallStreamHeader.frameFormat []) [] 0 frameManifest [] ∧
      ReadsBack Aead.tagged zeroUrandom (smallStreamHeader.frameFormat []) [] 1 frameData
        ([0, 0, 0, 0, 0, 0, 0, 1, 0] ++ [0])) ∧
    ReadsBack Aead.tagged zeroUrandom ((smallDedupHeader 256).frameFormat []) [] 0 frameManifest [] ∧
      ReadsBack Aead.tagged zeroUrandom ((smallDedupHeader 256).frameFormat []) [] 1 frameData
        ([0, 0, 0, 0, 0, 0, 0, 0, 0, 0, 0, 1, 0] ++ [0]) := by
  obtain ⟨hstream, hdedup⟩ :=
    frame_limits_agree_iff Aead.tagged_inverts zeroUrandom deflatedZero [] []
  obtain ⟨hmanifest, hdata⟩ := hstream smallStreamHeader smallStreamHeader_valid
  obtain ⟨hmanifest', hdata'⟩ := hdedup (smallDedupHeader 256) (smallDedupHeader_valid (by decide))
  refine ⟨⟨(hmanifest [] (by decide)).mpr (by decide), ?_⟩,
    (hmanifest' [] (by decide)).mpr (by decide), ?_⟩
  · exact hdata 1 0 [0] ⟨.raw, [0]⟩ _ (by decide) (by decide) (by decide +kernel) (by decide)
  · exact hdata' 1 0 [0] ⟨false, false⟩ .fast ⟨.raw, [0]⟩ _ (by decide) (by decide) (by decide)
      (by decide)

/-! ### A manifest that overhangs -/

/-- The manifest of a file of `n` chunks of 64 zero bytes. -/
def zeroFileManifest (n : ℕ) : DedupManifest where
  kind := kindFile
  rootName := ['a']
  entries := [⟨entryFile, ['a'], 420, 0, 64 * n, 0, n, sha256 (List.replicate (64 * n) 0)⟩]
  chunks := List.replicate n ⟨sha256 (List.replicate 64 0), 64, 0⟩

/-- Only the first of the chunks is its own source. -/
theorem zeroFileManifest_uniqueCount (n : ℕ) : (zeroFileManifest (n + 1)).uniqueCount = 1 := by
  rw [DedupManifest.uniqueCount, zeroFileManifest, List.replicate_succ, List.zipIdx_cons,
    List.filter_cons_of_pos (by simp), List.length_cons, Nat.add_eq_right, List.length_eq_zero_iff,
    List.filter_eq_nil_iff]
  rintro ⟨c, index⟩ hmem
  have hindex : 1 ≤ index := List.le_snd_of_mem_zipIdx hmem
  have hchunk := List.eq_of_mem_replicate (List.fst_mem_of_mem_zipIdx hmem)
  simp only at hchunk
  subst hchunk
  simp only [decide_eq_true_eq]
  omega

theorem zeroFileManifest_wellFormed {n paddingSize : ℕ} :
    WellFormed asciiUnicode (smallDedupHeader paddingSize) (zeroFileManifest (n + 1)) := by
  have hentries : (zeroFileManifest (n + 1)).entries = [⟨entryFile, ['a'], 420, 0, 64 * (n + 1), 0,
      n + 1, sha256 (List.replicate (64 * (n + 1)) 0)⟩] := rfl
  have hchunks : (zeroFileManifest (n + 1)).chunks =
      List.replicate (n + 1) ⟨sha256 (List.replicate 64 0), 64, 0⟩ := rfl
  have hfiles : (zeroFileManifest (n + 1)).files = (zeroFileManifest (n + 1)).entries := rfl
  refine ⟨.inl rfl, ?_, ?_, ?_, ?_, ?_, ?_, ?_, ?_, ?_, fun _ => ⟨_, hentries, rfl, rfl⟩⟩
  · simp [hentries]
  · simp [hfiles, hentries, hchunks, Consecutive]
  · simp [hfiles, hentries, hchunks, rangeSize]
    omega
  · intro index c hget
    have hlt := (List.getElem?_eq_some_iff.mp hget).1
    have hc := List.eq_of_mem_replicate (List.mem_of_getElem? hget)
    subst hc
    rcases Nat.eq_zero_or_pos index with rfl | hpos
    · exact .inl rfl
    · exact .inr ⟨hpos, _, by rw [hchunks]; rfl, rfl, rfl, rfl⟩
  · intro c hc
    rw [List.eq_of_mem_replicate hc]
    exact ⟨by decide, by show 64 ≤ 64; decide⟩
  · rw [zeroFileManifest_uniqueCount]
    rfl
  · simp [hentries]
  · have hparent : parentPosix ['a'] = ['.'] := by decide
    simp [hentries, hparent]
  · simp [hentries, Entry.isDirectory, entryFile, entryDirectory]

theorem zeroFileManifest_representable {n : ℕ} (hn : n ≤ maxChunkRecords) :
    Representable asciiUnicode (zeroFileManifest n) := by
  have hsmall : 64 * n < 256 ^ 8 := by
    rw [maxChunkRecords] at hn
    omega
  have hname : Canonical asciiUnicode ['a'] ∧ '/' ∉ ['a'] := by decide
  have hentries : 1 ≤ maxEntryCount := by decide
  have hmode : 420 ≤ 511 := by decide
  have hmtime : -2 ^ 63 ≤ (0 : ℤ) ∧ (0 : ℤ) < 2 ^ 63 := by decide
  refine ⟨hname, hentries, ?_, ?_, ?_⟩
  · show (List.replicate n _).length ≤ _
    rw [List.length_replicate]
    exact hn
  · intro e he
    obtain rfl := List.mem_singleton.mp he
    exact ⟨hname.1, hmode, hmtime.1, hmtime.2, hsmall, sha256_length _⟩
  · intro c hc
    rw [List.eq_of_mem_replicate hc]
    exact ⟨sha256_length _, by decide⟩

/-- Items of one length are encoded in as many times that length. -/
theorem encodeAll_length {α : Type} {encode : α → Option Bytes} {size : ℕ} {as : List α}
    {bytes : Bytes} (hsize : ∀ a ∈ as, ∀ b, encode a = some b → b.length = size)
    (h : ByteParser.encodeAll encode as = some bytes) : bytes.length = as.length * size := by
  induction as generalizing bytes with
  | nil =>
      obtain rfl := Option.some.inj h
      simp
  | cons a as ih =>
      rw [List.forall_mem_cons] at hsize
      obtain ⟨b, bs, hb, hbs, rfl⟩ := ByteParser.encodeAll_cons.mp h
      rw [List.length_append, hsize.1 b hb, ih hsize.2 hbs, List.length_cons, Nat.succ_mul,
        Nat.add_comm]

theorem zeroFileManifest_length {n : ℕ} {payload : Bytes}
    (h : serializeDedupManifest (zeroFileManifest n) = some payload) :
    payload.length = 88 + 44 * n := by
  obtain ⟨start, entries, chunks, hstart, hentries, hchunks, rfl⟩ :=
    serializeDedupManifest_eq_some.mp h
  have hstartLength : start.length = 19 := Struct.pack_length hstart
  have hname : (Utf8.encode ['a']).length = 1 := by decide
  have hentryLength : entries.length = 68 := by
    have hone : ∀ e ∈ (zeroFileManifest n).entries, ∀ b, e.pack = some b → b.length = 68 := by
      intro e he b hb
      obtain ⟨fixed, hfixed, rfl⟩ := Entry.pack_eq_some.mp hb
      have hpath : (Utf8.encode e.relativePath).length = 1 := by
        obtain rfl := List.mem_singleton.mp he
        exact hname
      rw [List.length_append, Struct.pack_length hfixed, hpath]
      rfl
    rw [encodeAll_length hone hentries]
    rfl
  have hchunkLength : chunks.length = n * 44 := by
    have hone : ∀ c ∈ (zeroFileManifest n).chunks, ∀ b, c.pack = some b → b.length = 44 :=
      fun c _ b hb => Struct.pack_length hb
    rw [encodeAll_length hone hchunks]
    show (List.replicate n _).length * 44 = _
    rw [List.length_replicate]
  have hroot : (Utf8.encode (zeroFileManifest n).rootName).length = 1 := hname
  simp only [List.length_append, hstartLength, hroot, hentryLength, hchunkLength]
  omega

/-- A file of 6100331 chunks of 64 zero bytes: the encoder admits its manifest at a padding of 20788
bytes and writes the frame, and the decoder refuses it. -/
theorem frame_limits_disagree :
    (smallDedupHeader 20788).Valid ∧
    WellFormed asciiUnicode (smallDedupHeader 20788) (zeroFileManifest 6100331) ∧
    Representable asciiUnicode (zeroFileManifest 6100331) ∧
    ∃ payload frame, serializeDedupManifest (zeroFileManifest 6100331) = some payload ∧
      checkDedupManifestSize (smallDedupHeader 20788) payload = .ok () ∧
      writeFrame Aead.tagged zeroUrandom ((smallDedupHeader 20788).frameFormat []) [] 0
        frameManifest payload = .ok frame ∧
      ∀ rest, readFrame Aead.tagged ((smallDedupHeader 20788).frameFormat []) [] 0 frameManifest
        (frame ++ rest) = .error (.archiveFormat "MSC3 frame 0 exceeds its resource limit") := by
  have hvalid : (smallDedupHeader 20788).Valid := smallDedupHeader_valid (by decide)
  have hwell : WellFormed asciiUnicode (smallDedupHeader 20788) (zeroFileManifest 6100331) :=
    zeroFileManifest_wellFormed
  have hrepresentable : Representable asciiUnicode (zeroFileManifest 6100331) :=
    zeroFileManifest_representable (by decide)
  refine ⟨hvalid, hwell, hrepresentable, ?_⟩
  obtain ⟨payload, hpayload⟩ := (Parsed.of_wellFormed hwell hrepresentable).serializes
  have hlength : payload.length = 268414652 := zeroFileManifest_length hpayload
  have hround : roundUp (lengthSize + payload.length) 20788 = 268435444 := by
    rw [hlength]
    decide
  have hindex : 0 < 256 ^ 8 := by decide
  have hfits : roundUp (lengthSize + payload.length) 20788 + aeadTagLength < 256 ^ 4 := by
    rw [hround]
    decide
  obtain ⟨frame, _, hwrite, hread⟩ := readFrame_writeFrame Aead.tagged_inverts zeroUrandom
    (hvalid.frameFormat []) [] hindex (.inl rfl) hfits
  refine ⟨payload, frame, hpayload, ?_, hwrite, fun rest => ?_⟩
  · apply checkManifestSize_eq_ok.mpr
    rw [hlength]
    decide
  · rw [hread, if_neg]
    · rfl
    · show ¬ roundUp (lengthSize + payload.length) 20788 + aeadTagLength ≤ maxManifestCiphertext
      rw [hround]
      decide

end MosaicArchive.Container
