import MosaicArchive.Container.Msc1RoundTrip

/-!
What the MSC1 decoder accepts. Whatever the bytes are, a file is restored only from the packed
header of an archive and a ciphertext that opens to the padded serialization of a valid stream, and
what is restored has the size and the digest the stream declares.
-/

namespace MosaicArchive.Modes

open FixedWidth
open Manifest (PyError)

theorem DeflateMode.decode_total (zlib : Zlib) (payload : Bytes) (expectedSize : ℕ) :
    Decodes expectedSize (DeflateMode.decode zlib payload expectedSize) := by
  unfold DeflateMode.decode
  dsimp only
  split_ifs with hsize hpayload
  · exact isFormatError _
  · exact hsize.symm
  · cases zlib.decompress payload (expectedSize + 1) with
    | none => exact isFormatError _
    | some started =>
        obtain ⟨start, state⟩ := started
        dsimp only
        unfold Except.raiseIf
        split_ifs
        · exact isFormatError _
        · cases hflush : zlib.flush state (expectedSize + 1 - start.length) with
          | none =>
              simp only [bind, Except.bind]
              exact isFormatError _
          | some flushed =>
              obtain ⟨rest, state⟩ := flushed
              simp only [bind, Except.bind]
              split_ifs with hend
              · exact isFormatError _
              · exact not_not.mp fun h => hend (.inl h)

/-- Every mode decodes to the expected size or raises `ArchiveFormatError`. -/
theorem ModeId.decode_total (zlib : Zlib) (mode : ModeId) (payload : Bytes) (expectedSize : ℕ) :
    Decodes expectedSize (mode.decode zlib payload expectedSize) := by
  cases mode with
  | raw => exact RawMode.decode_total payload expectedSize
  | rle => exact (RleMode.decode_total payload expectedSize).1
  | delta8 => exact Delta8Mode.decode_total payload expectedSize
  | lzSimple => exact (LzSimpleMode.decode_total payload expectedSize).1
  | byteRans => exact (ByteRansMode.decode_total payload expectedSize).1
  | deflate => exact DeflateMode.decode_total zlib payload expectedSize
  | lzRans => exact (LzRansMode.decode_total payload expectedSize).1

end MosaicArchive.Modes

namespace MosaicArchive.Container

open FixedWidth MosaicArchive.Manifest MosaicArchive.Modes

theorem decodeRecords_length {zlib : Zlib} {records : List EncodedRecord} {restored : Bytes}
    (h : decodeRecords zlib records = .ok restored) :
    restored.length = (records.map EncodedRecord.originalSize).sum := by
  induction records generalizing restored with
  | nil =>
      obtain rfl := Except.ok.inj h
      rfl
  | cons r records ih =>
      simp only [decodeRecords, Except.bind_eq_ok_iff] at h
      obtain ⟨mode, -, block, hblock, rest, hrest, h⟩ := h
      obtain rfl := Except.ok.inj h
      have hlength := ModeId.decode_total zlib mode r.payload r.originalSize
      rw [hblock] at hlength
      have hsize : block.length = r.originalSize := hlength
      rw [List.length_append, hsize, ih hrest, List.map_cons, List.sum_cons]

/-- The caller's limits and the password are usable at all. -/
structure Usable (limits : DecodeLimits) (password : Password) : Prop where
  limits : validateDecodeLimits limits = .ok ()
  password : password.encoded ≠ []

/-- The archive is the packed header and a ciphertext that opens, under the key of the password, to
padding around the serialization of a stream the parser accepts. -/
structure Contains (cipher : Aead) (scrypt : Scrypt) (limits : DecodeLimits) (password : Password)
    (archive : Bytes) (h : PublicHeader) (padded inner : Bytes) (s : InnerStream) : Prop where
  size_le : (archive.length : ℤ) ≤ limits.maxArchiveSize
  header : h.Valid
  sealed : ∃ associated ciphertext key, h.pack = some associated ∧
    archive = associated ++ ciphertext ∧ ciphertext.length = h.ciphertextLength ∧
    deriveKey scrypt password h.salt h.kdfLogN h.kdfR h.kdfP = .ok key ∧
    cipher.decrypt key h.nonce associated ciphertext = some padded
  padding : padded.length % h.paddingSize = 0 ∧ unpadPayload padded = .ok inner
  stream : s.Valid limits h.chunkSize
  serialized : s.pack = some inner

section

variable {zlib : Zlib} {cipher : Aead} {scrypt : Scrypt} {limits : DecodeLimits}
  {password : Password} {archive : Bytes}

theorem openArchive_eq_ok {decoded : DecodedArchive} :
    openArchive cipher scrypt limits password archive = .ok decoded ↔
      Usable limits password ∧ ∃ padded inner,
        Contains cipher scrypt limits password archive decoded.header padded inner
          decoded.toInnerStream ∧
        decoded.compressedSize = inner.length ∧ decoded.paddedPlaintextSize = padded.length ∧
        decoded.archiveSize = archive.length := by
  simp only [openArchive, Except.bind_eq_ok_iff, Except.raiseIf_eq_ok, not_lt, not_not,
    parsePublicHeader_eq_ok, ofOption_eq_ok, parseInner_eq_ok, normalizePassword_eq_ok,
    Except.ok.injEq]
  constructor
  · rintro ⟨_, hlimits, _, ⟨hpassword, -⟩, _, hsize, header, ⟨hheader, hpack⟩, _, hlength, key, hkey,
      padded, hdecrypt, _, hmod, inner, hunpad, stream, ⟨hstream, hinner⟩, rfl⟩
    have htake : (archive.take (Struct.size publicHeaderLayout)).length =
        Struct.size publicHeaderLayout := Struct.pack_length hpack
    have hciphertext : (archive.drop (Struct.size publicHeaderLayout)).length =
        header.ciphertextLength := by
      rw [List.length_drop]
      omega
    rw [List.take_of_length_le hciphertext.le] at hdecrypt
    exact ⟨⟨hlimits, hpassword⟩, padded, inner, ⟨hsize, hheader, ⟨_, _, key, hpack,
      (List.take_append_drop _ _).symm, hciphertext, hkey, hdecrypt⟩, ⟨hmod, hunpad⟩, hstream,
      hinner⟩, rfl, rfl, rfl⟩
  · rintro ⟨⟨hlimits, hpassword⟩, padded, inner, ⟨hsize, hheader, ⟨associated, ciphertext, key, hpack,
      rfl, hciphertext, hkey, hdecrypt⟩, ⟨hmod, hunpad⟩, hstream, hinner⟩, hcompressed, hpadded,
      harchive⟩
    have hlength : associated.length = Struct.size publicHeaderLayout := Struct.pack_length hpack
    refine ⟨(), hlimits, _, ⟨hpassword, rfl⟩, (), hsize, decoded.header, ⟨hheader, ?_⟩, (), ?_, key,
      hkey, padded, ?_, (), hmod, inner, hunpad, decoded.toInnerStream, ⟨hstream, hinner⟩, ?_⟩
    · rw [List.take_left' hlength, hpack]
    · rw [List.length_append, hlength, hciphertext]
    · rw [List.take_left' hlength, List.drop_left' hlength, List.take_of_length_le hciphertext.le,
        hdecrypt]
    · rw [← hcompressed, ← hpadded, ← harchive]

/-- A file is restored exactly from an archive that contains a stream whose blocks decode to bytes
of the declared digest; these have the declared size, which is within the caller's limit. -/
theorem decodeFile_eq_ok {restored : Bytes} :
    decodeFile zlib cipher scrypt limits password archive = .ok restored ↔
      Usable limits password ∧ ∃ h padded inner s,
        Contains cipher scrypt limits password archive h padded inner s ∧
        decodeRecords zlib s.records = .ok restored ∧ sha256 restored = s.expectedHash ∧
        restored.length = s.originalSize ∧ (restored.length : ℤ) ≤ limits.maxOutputSize := by
  simp only [decodeFile, Except.bind_eq_ok_iff, Except.raiseIf_eq_ok, not_not, openArchive_eq_ok,
    Except.ok.injEq]
  constructor
  · rintro ⟨decoded, ⟨husable, padded, inner, hcontains, -⟩, restored, hrestored, _, hhash, rfl⟩
    have hlength : restored.length = decoded.originalSize := by
      rw [decodeRecords_length hrestored, hcontains.stream.total]
    refine ⟨husable, decoded.header, padded, inner, decoded.toInnerStream, hcontains, hrestored, hhash,
      hlength, ?_⟩
    rw [hlength]
    exact hcontains.stream.size_le
  · rintro ⟨husable, h, padded, inner, s, hcontains, hrestored, hhash, -, -⟩
    exact ⟨⟨s, inner.length, padded.length, h, archive.length⟩,
      ⟨husable, padded, inner, hcontains, rfl, rfl, rfl⟩, restored, hrestored, (), hhash, rfl⟩

end

end MosaicArchive.Container
