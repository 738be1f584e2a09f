import MosaicArchive.Container.FrameLimits
import MosaicArchive.Container.Msc1

/-!
The MSC1 round trip. Each block is restored by the mode that was chosen for it, the stream of the
blocks is one the parser accepts, and the header and the padding are undone; so the archive of a
file opens to its name and its bytes.
-/

namespace MosaicArchive.Container

open FixedWidth MosaicArchive.Manifest MosaicArchive.Modes MosaicArchive.Source CallHistory
open Utf8 (Text encode)

/-! ### Blocks -/

theorem readBlocks_flatten {chunkSize : ℕ} (hchunk : 1 ≤ chunkSize) (data : Bytes) :
    (readBlocks chunkSize data).flatten = data := by
  induction data using readBlocks.induct chunkSize with
  | case1 data h =>
      obtain rfl := h.resolve_left (by omega)
      rw [readBlocks, if_pos (.inr rfl), List.flatten_nil]
  | case2 data h ih =>
      rw [readBlocks, if_neg h, List.flatten_cons, ih, List.take_append_drop]

theorem mem_readBlocks {chunkSize : ℕ} {data block : Bytes}
    (h : block ∈ readBlocks chunkSize data) : block ≠ [] ∧ block.length ≤ chunkSize := by
  induction data using readBlocks.induct chunkSize with
  | case1 data hstop =>
      rw [readBlocks, if_pos hstop] at h
      cases h
  | case2 data hmore ih =>
      rw [readBlocks, if_neg hmore] at h
      rcases List.mem_cons.mp h with rfl | h
      · push Not at hmore
        refine ⟨fun hnil => ?_, List.length_take_le _ _⟩
        rcases List.take_eq_nil_iff.mp hnil with hzero | hempty
        · exact hmore.1 hzero
        · exact hmore.2 hempty
      · exact ih h

section

variable {zlib : Zlib} (hzlib : zlib.Inverts)

include hzlib

/-- Blocks that are neither empty nor too long are all encoded, to valid records that decode to
the blocks. -/
theorem encodeRecords_decode {chunkSize : ℕ} (hchunk : chunkSize ≤ maxChunkSize) {blocks : List Bytes}
    (hblocks : ∀ block ∈ blocks, block ≠ [] ∧ block.length ≤ chunkSize) :
    ∃ records, encodeRecords zlib blocks = .ok records ∧ records.length = blocks.length ∧
      (∀ r ∈ records, r.Valid chunkSize ∧ r.payload.length ≤ r.originalSize) ∧
      (records.map EncodedRecord.originalSize).sum = blocks.flatten.length ∧
      decodeRecords zlib records = .ok blocks.flatten := by
  induction blocks with
  | nil => exact ⟨[], rfl, rfl, List.forall_mem_nil _, rfl, rfl⟩
  | cons block blocks ih =>
      rw [List.forall_mem_cons] at hblocks
      obtain ⟨⟨hblock, hsize⟩, hrest⟩ := hblocks
      have hsmall : block.length ≤ maxBlockSize := hsize.trans hchunk
      obtain ⟨selected, hselected, hdecode⟩ := chooseBestMode_decode hzlib hblock hsmall
      obtain ⟨records, hrecords, hlength, hvalid, htotal, hdecodes⟩ := ih hrest
      have hpayload := chooseBestMode_length_le hselected
      have hlt : block.length < 256 ^ 4 := hsmall.trans_lt (by norm_num [maxBlockSize])
      refine ⟨⟨selected.mode.toNat, block.length, selected.payload⟩ :: records, ?_, ?_, ?_, ?_, ?_⟩
      · simp only [encodeRecords, hselected, hrecords, bind, Except.bind]
      · rw [List.length_cons, hlength, List.length_cons]
      · rw [List.forall_mem_cons]
        refine ⟨⟨⟨⟨selected.mode, rfl⟩, ⟨?_, hsize⟩, hlt, hpayload.trans_lt hlt⟩, hpayload⟩, hvalid⟩
        exact fun h => hblock (List.length_eq_zero_iff.mp h)
      · rw [List.map_cons, List.sum_cons, htotal, List.flatten_cons, List.length_append]
      · simp only [decodeRecords, getMode_toNat, hdecode, hdecodes, bind, Except.bind,
          List.flatten_cons]

end

/-! ### The stream of the blocks -/

/-- The caller's limits admit a file of this size, with this many blocks, in an archive of this
size. -/
structure DecodeLimits.Admit (limits : DecodeLimits) (size blocks archiveSize : ℕ) : Prop where
  size : (size : ℤ) ≤ limits.maxOutputSize
  blocks : 0 < limits.maxFrameCount ∧ (blocks : ℤ) ≤ limits.maxFrameCount
  archiveSize : 0 < limits.maxArchiveSize ∧ (archiveSize : ℤ) ≤ limits.maxArchiveSize

theorem DecodeLimits.Admit.validate {limits : DecodeLimits} {size blocks archiveSize : ℕ}
    (h : limits.Admit size blocks archiveSize) : validateDecodeLimits limits = .ok () := by
  have hsize := h.size
  have hblocks := h.blocks
  have harchive := h.archiveSize
  simp only [validateDecodeLimits, Except.bind_eq_ok_iff, Except.raiseIf_eq_ok, exists_and_left,
    exists_const]
  omega

theorem encodeAll_records_length_le {records : List EncodedRecord} {b : Bytes}
    (hpayload : ∀ r ∈ records, r.payload.length ≤ r.originalSize)
    (h : ByteParser.encodeAll EncodedRecord.pack records = some b) :
    b.length ≤ 9 * records.length + (records.map EncodedRecord.originalSize).sum := by
  induction records generalizing b with
  | nil =>
      obtain rfl := Option.some.inj h
      exact Nat.zero_le _
  | cons r records ih =>
      rw [List.forall_mem_cons] at hpayload
      obtain ⟨first, rest, hfirst, hrest, rfl⟩ := ByteParser.encodeAll_cons.mp h
      obtain ⟨header, hheader, rfl⟩ := EncodedRecord.pack_eq_some.mp hfirst
      have hlength : header.length = 9 := Struct.pack_length hheader
      have hle := ih hpayload.2 hrest
      have hlast := hpayload.1
      simp only [List.length_append, List.length_cons, List.map_cons, List.sum_cons]
      omega

/-- The limits `encode_file` puts on a file. -/
structure Accepted (chunkSize : ℕ) (name : Text) (data : Bytes) : Prop where
  blocks : (readBlocks chunkSize data).length ≤ maxBlockCount
  name : (encode name).length ≤ 65535

theorem readBlocks_length_le {chunkSize : ℕ} (hchunk : 1 ≤ chunkSize) (data : Bytes) :
    data.length ≤ (readBlocks chunkSize data).length * chunkSize := by
  have hle := List.sum_le_card_nsmul ((readBlocks chunkSize data).map List.length) chunkSize ?_
  · rw [← List.length_flatten, readBlocks_flatten hchunk, List.length_map, smul_eq_mul] at hle
    exact hle
  · intro n hn
    obtain ⟨block, hblock, rfl⟩ := List.mem_map.mp hn
    exact (mem_readBlocks hblock).2

section

variable {zlib : Zlib} (hzlib : zlib.Inverts) {chunkSize : ℕ}
  (hchunk : 1 ≤ chunkSize ∧ chunkSize ≤ maxChunkSize)

include hzlib hchunk

/-- The records of a file are written exactly if it is accepted, to a stream the parser reads
back within the caller's limits. -/
theorem writeInner_parse {name : Text} (hname : name ≠ [] ∧ posixName name = name) (data : Bytes) :
    ∃ records, encodeRecords zlib (readBlocks chunkSize data) = .ok records ∧
      records.length = (readBlocks chunkSize data).length ∧
      decodeRecords zlib records = .ok data ∧
      ((∃ inner, writeInner name data records = .ok inner) ↔ Accepted chunkSize name data) ∧
      ∀ inner, writeInner name data records = .ok inner → inner.length < 256 ^ 7 ∧
        ∀ limits archiveSize, limits.Admit data.length records.length archiveSize →
          parseInner limits chunkSize inner = .ok ⟨name, data.length, sha256 data, records⟩ := by
  obtain ⟨records, hrecords, hlength, hvalid, htotal, hdecode⟩ :=
    encodeRecords_decode hzlib hchunk.2
      fun block (hblock : block ∈ readBlocks chunkSize data) => mem_readBlocks hblock
  rw [readBlocks_flatten hchunk.1] at htotal hdecode
  have hsize := readBlocks_length_le hchunk.1 data
  rw [← hlength] at hsize
  have hlt : records.length ≤ maxBlockCount → data.length ≤ 2 ^ 48 := by
    intro hcount
    calc data.length ≤ records.length * chunkSize := hsize
      _ ≤ 2 ^ 24 * 2 ^ 24 := Nat.mul_le_mul hcount hchunk.2
      _ = 2 ^ 48 := by norm_num
  have hparses : ∀ limits : DecodeLimits, ∀ archiveSize,
      limits.Admit data.length records.length archiveSize →
      records.length ≤ maxBlockCount → (encode name).length ≤ 65535 →
      InnerStream.Valid limits chunkSize ⟨name, data.length, sha256 data, records⟩ := by
    intro limits archiveSize hlimits hcount hlong
    have hdata := hlt hcount
    exact ⟨hlimits.size, by show data.length < 256 ^ 8; omega, hname,
      by show (encode name).length < 256 ^ 2; omega, sha256_length data, ⟨hcount, hlimits.blocks.2⟩,
      fun r hr => (hvalid r hr).1, htotal⟩
  have hwrites : ∀ inner, writeInner name data records = .ok inner ↔
      records.length ≤ maxBlockCount ∧ (encode name).length ≤ 65535 ∧
        InnerStream.pack ⟨name, data.length, sha256 data, records⟩ = some inner := by
    intro inner
    simp only [writeInner, Except.bind_eq_ok_iff, Except.raiseIf_eq_ok, not_lt, ofOption_eq_ok,
      exists_and_left, exists_const]
  refine ⟨records, hrecords, hlength, hdecode, ?_, ?_⟩
  · constructor
    · rintro ⟨inner, hinner⟩
      obtain ⟨hcount, hlong, -⟩ := (hwrites inner).mp hinner
      exact ⟨hlength ▸ hcount, hlong⟩
    · intro h
      have hcount : records.length ≤ maxBlockCount := hlength ▸ h.blocks
      have hadmit : DecodeLimits.Admit ⟨data.length, records.length + 1, 1⟩ data.length
          records.length 1 := by
        constructor <;> dsimp only <;> omega
      obtain ⟨inner, hinner⟩ := (hparses _ 1 hadmit hcount h.name).packs
      exact ⟨inner, (hwrites inner).mpr ⟨hcount, h.name, hinner⟩⟩
  · intro inner hinner
    obtain ⟨hcount, hlong, hpack⟩ := (hwrites inner).mp hinner
    refine ⟨?_, fun limits archiveSize hlimits => ?_⟩
    · obtain ⟨start, count, bytes, hstart, hcountBytes, hbytes, rfl⟩ :=
        InnerStream.pack_eq_some.mp hpack
      have hle := encodeAll_records_length_le (fun r hr => (hvalid r hr).2) hbytes
      have hstartLength : start.length = 14 := Struct.pack_length hstart
      have hcountLength : count.length = 4 := Struct.pack_length hcountBytes
      have hhash := sha256_length data
      have hdata := hlt hcount
      rw [htotal] at hle
      rw [maxBlockCount] at hcount
      simp only [List.length_append]
      omega
    · exact parseInner_eq_ok.mpr ⟨hparses limits archiveSize hlimits hcount hlong, hpack⟩

end

/-! ### The archive -/

/-- The options `encode_file` accepts. -/
structure EncodeOptions.Valid (o : EncodeOptions) : Prop where
  chunkSize : 1 ≤ o.chunkSize ∧ o.chunkSize ≤ maxChunkSize
  paddingSize : 256 ≤ o.paddingSize ∧ o.paddingSize ≤ maxPaddingSize
  kdfLogN : 14 ≤ o.kdfLogN ∧ o.kdfLogN ≤ 18
  kdfR : o.kdfR = 8
  kdfP : o.kdfP = 1

theorem validateEncodeOptions_eq_ok {o : EncodeOptions} {r : Unit} :
    validateEncodeOptions o = .ok r ↔ o.Valid := by
  simp only [validateEncodeOptions, Except.bind_eq_ok_iff, Except.raiseIf_eq_ok, not_not, not_or,
    exists_and_left, exists_const]
  constructor
  · rintro ⟨hchunk, hpadding, hlogN, hr, hp⟩
    exact ⟨hchunk, hpadding, hlogN, hr, hp⟩
  · intro h
    exact ⟨h.chunkSize, h.paddingSize, h.kdfLogN, h.kdfR, h.kdfP⟩

theorem normalizePassword_eq_ok {password : Password} {b : Bytes} :
    normalizePassword password = .ok b ↔ password.encoded ≠ [] ∧ password.encoded = b := by
  simp only [normalizePassword, Except.bind_eq_ok_iff, Except.raiseIf_eq_ok, exists_and_left,
    exists_const, Except.ok.injEq]

section

variable {cipher : Aead} (hcipher : cipher.Inverts) (scrypt : Scrypt) (draws : Draws)
  {password : Password} {o : EncodeOptions} (ho : o.Valid)
  {inner : Bytes} (hinner : inner.length < 256 ^ 7)

include hcipher ho hinner

/-- Where the key is derived, a stream is sealed, and opened under the same password. -/
theorem sealInner_open :
    (∀ key, deriveKey scrypt password draws.salt o.kdfLogN o.kdfR o.kdfP = .ok key →
      ∃ archive, sealInner cipher scrypt draws password o inner = .ok archive) ∧
    ∀ archive, sealInner cipher scrypt draws password o inner = .ok archive →
      ∀ limits stream, password.encoded ≠ [] → validateDecodeLimits limits = .ok () →
        (archive.length : ℤ) ≤ limits.maxArchiveSize →
        parseInner limits o.chunkSize inner = .ok stream →
        ∃ decoded, openArchive cipher scrypt limits password archive = .ok decoded ∧
          decoded.toInnerStream = stream := by
  have hpadding := ho.paddingSize
  rw [maxPaddingSize] at hpadding
  obtain ⟨padded, hpad, hlength, hunpad⟩ :=
    padPayload_unpad draws.padding hpadding (hinner.trans (by norm_num))
  have hround := roundUp_lt (lengthSize + inner.length) (show 0 < o.paddingSize by omega)
  rw [← hlength, lengthSize] at hround
  let header : PublicHeader :=
    { version := msc1Version, flags := flagPadded, kdfId := kdfScrypt,
      aeadId := aeadChacha20Poly1305, chunkSize := o.chunkSize, paddingSize := o.paddingSize,
      salt := draws.salt, nonce := draws.nonce, kdfLogN := o.kdfLogN, kdfR := o.kdfR,
      kdfP := o.kdfP, ciphertextLength := padded.length + aeadTagLength }
  have hshort : padded.length + aeadTagLength < 256 ^ 8 := by
    rw [aeadTagLength]
    omega
  have hvalid : header.Valid := ⟨rfl, rfl, rfl, rfl, ho.chunkSize, ho.paddingSize,
    draws.salt_length, draws.nonce_length, ho.kdfLogN, ho.kdfR, ho.kdfP,
    Nat.le_add_left _ _, hshort⟩
  obtain ⟨associated, hpack, -⟩ := Struct.unpack_pack hvalid.exact
  have hparse : parsePublicHeader associated = .ok header :=
    parsePublicHeader_eq_ok.mpr ⟨hvalid, hpack⟩
  have hsize : associated.length = Struct.size publicHeaderLayout := Struct.pack_length hpack
  have hpacked : ofOption header.pack PyError.struct = .ok associated := ofOption_eq_ok.mpr hpack
  have hmod : padded.length % o.paddingSize = 0 := by
    rw [hlength]
    exact roundUp_mod _ _
  have hseals : ∀ archive, sealInner cipher scrypt draws password o inner = .ok archive ↔
      ∃ key ciphertext, deriveKey scrypt password draws.salt o.kdfLogN o.kdfR o.kdfP = .ok key ∧
        cipher.encrypt key draws.nonce associated padded = some ciphertext ∧
        archive = associated ++ ciphertext := by
    intro archive
    have hstart : sealInner cipher scrypt draws password o inner =
        (deriveKey scrypt password draws.salt o.kdfLogN o.kdfR o.kdfP >>= fun key =>
          ofOption (cipher.encrypt key draws.nonce associated padded) (.runtime "encrypt") >>=
            fun ciphertext => .ok (associated ++ ciphertext)) := by
      simp only [sealInner, hpad, bind, Except.bind]
      rw [hpacked]
    simp only [hstart, Except.bind_eq_ok_iff, ofOption_eq_ok, Except.ok.injEq]
    constructor
    · rintro ⟨key, hkey, ciphertext, hencrypt, rfl⟩
      exact ⟨key, ciphertext, hkey, hencrypt, rfl⟩
    · rintro ⟨key, ciphertext, hkey, hencrypt, rfl⟩
      exact ⟨key, hkey, ciphertext, hencrypt, rfl⟩
  constructor
  · intro key hkey
    obtain ⟨ciphertext, hencrypt, -⟩ := hcipher key draws.nonce associated padded
    exact ⟨_, (hseals _).mpr ⟨key, ciphertext, hkey, hencrypt, rfl⟩⟩
  · intro archive harchive limits stream hpassword hlimits hsmall hstream
    obtain ⟨key, ciphertext, hkey, hencrypt, rfl⟩ := (hseals archive).mp harchive
    obtain ⟨_, hencrypt', htag, hdecrypt⟩ := hcipher key draws.nonce associated padded
    obtain rfl := Option.some.inj (hencrypt.symm.trans hencrypt')
    have htake : (associated ++ ciphertext).take (Struct.size publicHeaderLayout) = associated :=
      List.take_left' hsize
    have hdrop : (associated ++ ciphertext).drop (Struct.size publicHeaderLayout) = ciphertext :=
      List.drop_left' hsize
    have hwhole : ciphertext.take header.ciphertextLength = ciphertext :=
      List.take_of_length_le htag.le
    have hnormal : normalizePassword password = .ok password.encoded :=
      normalizePassword_eq_ok.mpr ⟨hpassword, rfl⟩
    refine ⟨⟨stream, inner.length, padded.length, header, (associated ++ ciphertext).length⟩, ?_, rfl⟩
    have htotal : (associated ++ ciphertext).length =
        Struct.size publicHeaderLayout + header.ciphertextLength := by
      rw [List.length_append, hsize, htag]
      rfl
    have hopened : ofOption (cipher.decrypt key header.nonce associated ciphertext)
        (PyError.authentication "wrong password or archive was modified") = .ok padded :=
      ofOption_eq_ok.mpr hdecrypt
    have hkey' : deriveKey scrypt password header.salt header.kdfLogN header.kdfR header.kdfP =
        .ok key := hkey
    simp only [openArchive, Except.bind_eq_ok_iff, Except.raiseIf_eq_ok, htake, hdrop]
    exact ⟨(), hlimits, _, hnormal, (), Int.not_lt.mpr hsmall, header, hparse, (),
      not_not.mpr htotal, key, hkey', padded, by rw [hwhole]; exact hopened, (), not_not.mpr hmod,
      inner, hunpad, stream, hstream, rfl⟩

end

/-- Under the password, within any limits that admit them, the archive opens to the name and the
bytes, with their digest. -/
def OpensTo (zlib : Zlib) (cipher : Aead) (scrypt : Scrypt) (password : Password) (chunkSize : ℕ)
    (archive : Bytes) (name : Text) (data : Bytes) : Prop :=
  ∀ limits : DecodeLimits,
    limits.Admit data.length (readBlocks chunkSize data).length archive.length →
      ∃ decoded, openArchive cipher scrypt limits password archive = .ok decoded ∧
        decoded.fileName = name ∧ decoded.expectedHash = sha256 data ∧
        decodeRecords zlib decoded.records = .ok data ∧
        decodeFile zlib cipher scrypt limits password archive = .ok data

/-- The records of a file, written and sealed, are an archive that opens to the file. -/
theorem sealInner_opensTo {zlib : Zlib} (hzlib : zlib.Inverts) {cipher : Aead}
    (hcipher : cipher.Inverts) {scrypt : Scrypt} {draws : Draws} {password : Password}
    (hpassword : password.encoded ≠ []) {o : EncodeOptions} (ho : o.Valid) {name : Text}
    (hname : name ≠ [] ∧ posixName name = name) {data : Bytes} {records : List EncodedRecord}
    (hrecords : encodeRecords zlib (readBlocks o.chunkSize data) = .ok records) {inner : Bytes}
    (hinner : writeInner name data records = .ok inner) {archive : Bytes}
    (harchive : sealInner cipher scrypt draws password o inner = .ok archive) :
    Accepted o.chunkSize name data ∧
      OpensTo zlib cipher scrypt password o.chunkSize archive name data := by
  obtain ⟨records', hrecords', hlength, hdecode, haccepted, hparse⟩ :=
    writeInner_parse hzlib ho.chunkSize hname data
  obtain rfl := Except.ok.inj (hrecords'.symm.trans hrecords)
  obtain ⟨hlt, hparse⟩ := hparse inner hinner
  refine ⟨haccepted.mp ⟨inner, hinner⟩, fun limits hlimits => ?_⟩
  rw [← hlength] at hlimits
  obtain ⟨decoded, hopen, hstream⟩ := (sealInner_open hcipher scrypt draws ho hlt).2 archive
    harchive limits _ hpassword hlimits.validate hlimits.archiveSize.2 (hparse limits _ hlimits)
  have hhash : decoded.expectedHash = sha256 data := by rw [hstream]
  have hdecoded : decodeRecords zlib decoded.records = .ok data := by
    rw [hstream]
    exact hdecode
  refine ⟨decoded, hopen, by rw [hstream], hhash, hdecoded, ?_⟩
  simp only [decodeFile, hopen, hdecoded, hhash, Except.raiseIf, bind, Except.bind, ne_eq,
    not_true_eq_false, if_false]

/-! ### The run -/

section

variable {u : Unicode} {env : Environment Source.Call Source.Reply} {platform : Platform}

theorem capture_file_returns {directories : ℕ} {source : Path} :
    Returns (SourceSession.capture env u directories source) fun s _ => s.source = source ∧
      ∀ e, s.rootIsFile = true → s.lookup [] = .ok e → e.path = source := by
  have hinitial : Returns (initialMetadata env source) fun _ _ => True :=
    Returns.bind_ask fun reply => Returns.bind statReply_returns fun m _ _ =>
      Returns.bind_raiseIf fun _ => Returns.pure trivial
  refine Returns.bind hinitial fun m _ _ => Returns.bind_raiseIf fun _ => ?_
  refine Returns.bind_lift fun identity _ => ?_
  by_cases hfile : m.isRegular = true
  · simp only [hfile, if_true, Bool.not_true]
    refine Returns.pure ⟨rfl, fun e _ he => ?_⟩
    obtain ⟨-, rfl⟩ := find_root (lookup_eq_ok.mp he)
    rfl
  · simp only [hfile]
    have hstart : Discovered.Consistent
        ⟨[([], ⟨[], !m.isRegular, identity, source, []⟩)], []⟩ :=
      ⟨fun p e hfind => (find_root hfind).2 ▸ (find_root hfind).1.symm,
        fun p e hfind => .inr ⟨(find_root hfind).1, by simp⟩, by simp⟩
    simp only [hfile] at hstart
    exact Returns.bind (discoverDirectory_returns hstart) fun d _ _ =>
      Returns.pure ⟨rfl, fun _ h => by cases h⟩

theorem verifyBindings_returns {s : SourceSession} {directories : ℕ} (hfile : s.rootIsFile = true) :
    Returns (s.verifyBindings env directories) fun _ _ => True := by
  unfold SourceSession.verifyBindings
  split
  · exact Returns.raise
  · rw [if_pos hfile]
    exact Returns.bind requireBinding_returns fun _ _ _ => Returns.pure trivial

variable {zlib : Zlib} {cipher : Aead} {scrypt : Scrypt}

/-- The stream is built from what one source object holds. -/
theorem buildInnerStream_returns {s : SourceSession} {chunkSize : ℕ} :
    Returns (buildInnerStream zlib env platform s chunkSize) fun inner made => ∃ e reads records,
      s.lookup [] = .ok e ∧ ReadFrom platform made e reads ∧
      encodeRecords zlib (readBlocks chunkSize reads.data) = .ok records ∧
      writeInner (s.source.getLastD []) reads.data records = .ok inner := by
  have hbody : ReadsOnce (fun descriptor => do
      let reads ← readAll env descriptor
      let records ← Routine.lift (ofPython (encodeRecords zlib (readBlocks chunkSize reads.data)))
      pure (reads.data, records)) fun (result : Bytes × List EncodedRecord) reads =>
        result.1 = reads.data ∧ encodeRecords zlib (readBlocks chunkSize reads.data) = .ok result.2 := by
    refine ReadsOnce.bind fun reads => ?_
    exact Returns.bind_lift fun records hrecords =>
      Returns.pure ⟨rfl, rfl, ofPython_eq_ok.mp hrecords⟩
  refine Returns.bind (openFile_returns hbody) fun result made hmade => ?_
  obtain ⟨e, reads, he, hread, hdata, hrecords⟩ := hmade
  refine Returns.lift fun inner hinner => ?_
  rw [List.append_nil]
  refine ⟨e, reads, result.2, he, hread, hrecords, ?_⟩
  rw [← hdata]
  exact ofPython_eq_ok.mp hinner

/-- Whatever happens around the encoder, if it returns an archive, the archive opens to the name of
the source and to what was read from the source. -/
theorem encodeFile_returns (hzlib : zlib.Inverts) (hcipher : cipher.Inverts) (directories : ℕ)
    {inputPath : Text} (hpath : posixParts inputPath ≠ []) (password : Password)
    (o : EncodeOptions) (draws : Draws) :
    Returns (encodeFile zlib cipher scrypt u env platform directories inputPath password o draws)
      fun archive made => ∃ e reads, e.path = posixParts inputPath ∧ ReadFrom platform made e reads ∧
        Accepted o.chunkSize (posixName inputPath) reads.data ∧
        OpensTo zlib cipher scrypt password o.chunkSize archive (posixName inputPath) reads.data := by
  refine Returns.bind capture_file_returns fun s captured hs => ?_
  obtain ⟨hsource, hroot⟩ := hs
  refine Returns.bind_raiseIf fun hfile => ?_
  rw [Bool.not_eq_false] at hfile
  refine Returns.bind_lift fun normalized hpassword => Returns.bind_lift fun _ hoptions => ?_
  rw [ofPython_eq_ok, normalizePassword_eq_ok] at hpassword
  rw [ofPython_eq_ok, validateEncodeOptions_eq_ok] at hoptions
  refine Returns.bind buildInnerStream_returns fun inner made hinner => ?_
  obtain ⟨e, reads, records, he, hread, hrecords, hwrite⟩ := hinner
  refine Returns.bind_lift fun archive hseal => ?_
  rw [ofPython_eq_ok] at hseal
  refine Returns.bind (verifyBindings_returns hfile) fun _ verified _ => Returns.pure ?_
  rw [hsource] at hwrite
  refine ⟨e, reads, hroot e hfile he, ?_, sealInner_opensTo hzlib hcipher hpassword.1 hoptions
    (posixName_idem hpath) hrecords hwrite hseal⟩
  simpa using (hread.append_left captured).append_right verified

/-! ### A file that stays as it is -/

/-- Every look at the path finds one regular file, with the same content. -/
structure HoldsFile (env : Environment Source.Call Source.Reply) (platform : Platform)
    (path : Path) (m : Metadata) (descriptor : ℕ) (reads : Reads) : Prop where
  regular : m.isRegular = true
  plain : isLinkOrReparse m = false
  inode : m.ino ≠ 0
  stat : ∀ h, env h (.stat path) = .ok m
  opened : ∀ h, env h (.openFile path platform.noFollow) = some descriptor
  fstat : ∀ h, env h (.fstat descriptor) = some m
  read : ∀ h, env h (.read descriptor) = (⟨reads, false⟩ : Content)
  closed : ∀ h, env h (.close descriptor) = some ()

theorem matchesPath_self (identity : SourceIdentity) :
    identity.matchesPath identity.metadata = true := by
  simp [SourceIdentity.matchesPath, SourceIdentity.matchesCommon]

theorem matchesHandle_self (identity : SourceIdentity) :
    identity.matchesHandle platform identity.metadata = true := by
  simp [SourceIdentity.matchesHandle, SourceIdentity.matchesCommon]

section

variable {path : Path} {m : Metadata} {descriptor : ℕ} {reads : Reads}
  (hfile : HoldsFile env platform path m descriptor reads)

include hfile

/-- The session of the file. -/
def fileSession (path : Path) (identity : SourceIdentity) : SourceSession :=
  ⟨path, true, [([], ⟨[], false, identity, path, []⟩)], [⟨[], false, identity, path, []⟩]⟩

theorem HoldsFile.capture (directories : ℕ) : ∃ identity : SourceIdentity,
    identity.metadata = m ∧ Settles (SourceSession.capture env u directories path)
      (.ok (fileSession path identity)) := by
  refine ⟨⟨m, hfile.inode⟩, rfl, ?_⟩
  have hinitial : Settles (initialMetadata env path) (.ok m) := by
    refine Settles.bind (Settles.ask hfile.stat) (Settles.bind Settles.pure ?_)
    refine Settles.bind (Settles.raiseIf_neg ?_) Settles.pure
    simp [hfile.plain]
  refine Settles.bind hinitial (Settles.bind (Settles.raiseIf_neg ?_) ?_)
  · simp [hfile.regular]
  · have hcapture : SourceIdentity.capture m path = .ok ⟨m, hfile.inode⟩ := dif_neg hfile.inode
    rw [hcapture]
    refine Settles.bind Settles.lift ?_
    simp only [hfile.regular, if_true, Bool.not_true]
    exact Settles.pure

theorem HoldsFile.openFile {α : Type} {identity : SourceIdentity} (hidentity : identity.metadata = m)
    {body : ℕ → Source.Run α} {a : α} (hbody : Settles (body descriptor) (.ok a)) :
    Settles ((fileSession path identity).openFile env platform [] body) (.ok a) := by
  have hlookup : (fileSession path identity).lookup [] = .ok ⟨[], false, identity, path, []⟩ := rfl
  have hhandle : identity.matchesHandle platform m = true := hidentity ▸ matchesHandle_self identity
  unfold SourceSession.openFile
  rw [hlookup]
  refine Settles.bind Settles.lift (Settles.bind (Settles.raiseIf_neg Bool.false_ne_true) ?_)
  refine Settles.bind Settles.pure (Settles.bind (Settles.ask hfile.opened) ?_)
  refine Settles.bind Settles.pure (Settles.finally' ?_ ?_)
  · refine Settles.bind (Settles.ask hfile.fstat) (Settles.bind Settles.pure ?_)
    refine Settles.bind (Settles.raiseIf_neg ?_) (Settles.bind hbody ?_)
    · simp [hfile.plain, hhandle]
    · have hclosing : Settles (requireHandle env platform ⟨[], false, identity, path, []⟩ descriptor
          (osError ("input changed while it was read: " ++ path.text))) (.ok ()) :=
        Settles.bind (Settles.ask hfile.fstat) (Settles.bind Settles.pure
          (Settles.raiseIf_neg (by simp [hhandle])))
      exact Settles.bind hclosing Settles.pure
  · exact Settles.bind (Settles.ask hfile.closed) Settles.pure

theorem HoldsFile.verifyBindings {identity : SourceIdentity} (hidentity : identity.metadata = m)
    (directories : ℕ) :
    Settles ((fileSession path identity).verifyBindings env directories) (.ok ()) := by
  have hbinding : Settles (requireBinding env ⟨path, identity⟩) (.ok ()) := by
    refine Settles.bind (Settles.ask hfile.stat) (Settles.bind Settles.pure ?_)
    have hpath : identity.matchesPath m = true := hidentity ▸ matchesPath_self identity
    exact Settles.raiseIf_neg (by simp [hfile.plain, hpath])
  exact Settles.bind hbinding Settles.pure

end

/-- A file that stays as it is and is within the limits is archived. -/
theorem encodeFile_settles (hzlib : zlib.Inverts) (hcipher : cipher.Inverts) (directories : ℕ)
    {inputPath : Text} (hpath : posixParts inputPath ≠ []) {m : Metadata} {descriptor : ℕ}
    {reads : Reads} (hfile : HoldsFile env platform (posixParts inputPath) m descriptor reads)
    {password : Password} (hpassword : password.encoded ≠ []) {o : EncodeOptions} (ho : o.Valid)
    (haccepted : Accepted o.chunkSize (posixName inputPath) reads.data) {draws : Draws} {key : Bytes}
    (hkey : deriveKey scrypt password draws.salt o.kdfLogN o.kdfR o.kdfP = .ok key) :
    ∃ archive, Settles (encodeFile zlib cipher scrypt u env platform directories inputPath password
        o draws) (.ok archive) ∧
      OpensTo zlib cipher scrypt password o.chunkSize archive (posixName inputPath) reads.data := by
  obtain ⟨records, hrecords, -, -, hwrites, hparse⟩ :=
    writeInner_parse hzlib ho.chunkSize (posixName_idem hpath) reads.data
  obtain ⟨inner, hinner⟩ := hwrites.mpr haccepted
  obtain ⟨archive, hseal⟩ :=
    (sealInner_open hcipher scrypt draws ho (hparse inner hinner).1).1 key hkey
  obtain ⟨identity, hidentity, hcapture⟩ := hfile.capture (u := u) directories
  have hbuild : Settles (buildInnerStream zlib env platform (fileSession (posixParts inputPath) identity)
      o.chunkSize) (.ok inner) := by
    refine Settles.bind (hfile.openFile hidentity (a := (reads.data, records)) ?_) ?_
    · refine Settles.bind (Settles.bind (Settles.ask hfile.read)
        (Settles.bind (Settles.raiseIf_neg Bool.false_ne_true) Settles.pure)) ?_
      dsimp only
      rw [hrecords]
      exact Settles.bind Settles.lift Settles.pure
    · have hname : (fileSession (posixParts inputPath) identity).source.getLastD [] =
          posixName inputPath := rfl
      rw [hname]
      dsimp only
      rw [hinner]
      exact Settles.lift
  refine ⟨archive, Settles.bind hcapture (Settles.bind (Settles.raiseIf_neg ?_) ?_),
    (sealInner_opensTo hzlib hcipher hpassword ho (posixName_idem hpath) hrecords hinner hseal).2⟩
  · exact Bool.noConfusion
  · rw [normalizePassword_eq_ok.mpr ⟨hpassword, rfl⟩,
      (validateEncodeOptions_eq_ok (r := ())).mpr ho]
    refine Settles.bind Settles.lift (Settles.bind Settles.lift (Settles.bind hbuild ?_))
    rw [hseal]
    exact Settles.bind Settles.lift (Settles.bind (hfile.verifyBindings hidentity directories)
      Settles.pure)

end

/-- The archive of a file, if there is one, opens to the name of the file and the bytes that were
read from it, whatever happens around the encoder; there is one for every file that stays as it is
and is within the limits of the encoder. -/
theorem encodeFile_roundTrip {zlib : Zlib} (hzlib : zlib.Inverts) {cipher : Aead}
    (hcipher : cipher.Inverts) (scrypt : Scrypt) (u : Unicode)
    (env : Environment Source.Call Source.Reply) (platform : Platform) (directories : ℕ)
    {inputPath : Text} (hpath : posixParts inputPath ≠ []) (password : Password)
    (o : EncodeOptions) (draws : Draws) :
    (Returns (encodeFile zlib cipher scrypt u env platform directories inputPath password o draws)
      fun archive made => ∃ e reads, e.path = posixParts inputPath ∧ ReadFrom platform made e reads ∧
        Accepted o.chunkSize (posixName inputPath) reads.data ∧
        OpensTo zlib cipher scrypt password o.chunkSize archive (posixName inputPath) reads.data) ∧
    ∀ m descriptor reads, HoldsFile env platform (posixParts inputPath) m descriptor reads →
      password.encoded ≠ [] → o.Valid → Accepted o.chunkSize (posixName inputPath) reads.data →
      ∀ key, deriveKey scrypt password draws.salt o.kdfLogN o.kdfR o.kdfP = .ok key →
        ∃ archive, Settles (encodeFile zlib cipher scrypt u env platform directories inputPath
            password o draws) (.ok archive) ∧
          OpensTo zlib cipher scrypt password o.chunkSize archive (posixName inputPath) reads.data :=
  ⟨encodeFile_returns hzlib hcipher directories hpath password o draws,
    fun _ _ _ hfile hpassword ho haccepted _ hkey =>
      encodeFile_settles hzlib hcipher directories hpath hfile hpassword ho haccepted hkey⟩

/-! ### A file of one byte -/

/-- What `zlib` makes of one zero byte at level 6. -/
def deflatedByte : Bytes := [0x78, 0x9c, 0x63, 0x00, 0x00, 0x00, 0x01, 0x00, 0x01]

/-- A library that compresses this byte as `zlib` does and stores every other block. -/
def storingZlib : Zlib where
  State := Bytes
  compress block := if block = [0] then deflatedByte else 0x79 :: block
  decompress payload limit :=
    if payload = deflatedByte then some ([0].take limit, [0].drop limit)
    else if payload.head? = some 0x79 then some (payload.tail.take limit, payload.tail.drop limit)
    else none
  flush state _ := some (state, [])
  unconsumedTail _ := []
  unusedData _ := []
  eof state := state = []

theorem storingZlib_inverts : storingZlib.Inverts := by
  intro block limit hlimit
  have hflush : ∀ n, ∃ flushed, storingZlib.flush [] n = some ([], flushed) ∧
      storingZlib.Ended flushed := fun n => ⟨[], rfl, rfl, rfl, rfl⟩
  refine ⟨[], ?_, rfl, hflush⟩
  by_cases hzero : block = [0]
  · subst hzero
    have htake : [0].take limit = ([0] : Bytes) := List.take_of_length_le hlimit.le
    have hdrop : [0].drop limit = ([] : Bytes) := List.drop_of_length_le hlimit.le
    simp [storingZlib, htake, hdrop]
  · have htake : block.take limit = block := List.take_of_length_le hlimit.le
    have hdrop : block.drop limit = [] := List.drop_of_length_le hlimit.le
    simp [storingZlib, deflatedByte, hzero, htake, hdrop]

def zeroDraws : Draws where
  salt := List.replicate 16 0
  nonce := List.replicate 12 0
  padding := zeroUrandom
  salt_length := rfl
  nonce_length := rfl

/-- A regular file of one byte. -/
def oneByteMetadata : Metadata := ⟨1, 2, 0o100644, 1, 0, 0, none, 0⟩

/-- Every path leads to the file. -/
def oneByteFile : Environment Source.Call Source.Reply
  | _, .stat _ => .ok oneByteMetadata
  | _, .scandir _ => ⟨[], false⟩
  | _, .openFile _ _ => some 3
  | _, .fstat _ => some oneByteMetadata
  | _, .read _ => ⟨.single [0], false⟩
  | _, .close _ => some ()

theorem oneByteFile_holdsFile (platform : Platform) (path : Path) :
    HoldsFile oneByteFile platform path oneByteMetadata 3 (.single [0]) where
  regular := by decide
  plain := by decide
  inode := by decide
  stat _ := rfl
  opened _ := rfl
  fstat _ := rfl
  read _ := rfl
  closed _ := rfl

theorem encodeFile_roundTrip_oneByte :
    ∃ archive, Settles (encodeFile storingZlib Aead.tagged (fun _ _ _ _ _ => .ok [7]) asciiUnicode
        oneByteFile ⟨false, true⟩ 1 ['a'] (.text ['p']) {} zeroDraws) (.ok archive) ∧
      OpensTo storingZlib Aead.tagged (fun _ _ _ _ _ => .ok [7]) (.text ['p']) 65536 archive ['a']
        [0] := by
  have hblocks : readBlocks 65536 [0] = [[0]] := by
    rw [readBlocks, if_neg (by decide)]
    exact congrArg _ (by rw [readBlocks, if_pos (by decide)])
  have haccepted : Accepted 65536 (posixName ['a']) (Reads.single [0]).data := by
    refine ⟨?_, by decide⟩
    show (readBlocks 65536 [0]).length ≤ maxBlockCount
    rw [hblocks]
    decide
  exact (encodeFile_roundTrip storingZlib_inverts Aead.tagged_inverts (fun _ _ _ _ _ => .ok [7])
    asciiUnicode oneByteFile ⟨false, true⟩ 1 (by decide) (.text ['p']) {} zeroDraws).2 oneByteMetadata
    3 (.single [0]) (oneByteFile_holdsFile _ _) (by decide)
    ⟨by decide, by decide, by decide, rfl, rfl⟩ haccepted [7] (by decide)

end MosaicArchive.Container
