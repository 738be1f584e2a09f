import MosaicArchive.Authenticated.Envelope

/-!
The writer of the envelope succeeds. With encryption, key derivation and random
bytes that do not fail, a core stream of up to sixteen gibibytes keeps every
counter of the writer far from its limit.
-/

namespace MosaicArchive.Authenticated

open FixedWidth Sha256 MosaicArchive.Core IoProgram

/-- Encryption, key derivation and random bytes do not fail. -/
structure Works (suite : Suite) (random : Randomness) : Prop where
  aead : suite.aead.Inverts
  kdf : suite.kdf.Available
  random : random.Available

namespace AuthenticatedWriter

variable {suite : Suite} {random : Randomness} {w : AuthenticatedWriter}
  {records : List DataRecord}

/-- The counters of the writer are far from their limits. -/
structure Small (w : AuthenticatedWriter) : Prop where
  nextIndex : w.nextIndex ≤ 2 ^ 40
  dataRecords : w.dataRecords ≤ 2 ^ 40
  archive : w.archiveBytes ≤ 2 ^ 60
  padding : w.paddingBytes ≤ 2 ^ 60
  authentication : w.authenticationBytes ≤ 2 ^ 60
  plaintext : w.corePlaintextBytes ≤ 2 ^ 40

theorem Wrote.small (h : w.Wrote suite records) (hsize : w.coreHashed.length ≤ 2 ^ 34) :
    w.Small := by
  have hcount := length_le_payloads records
  have hwires := wires_length_le 0 records
  have hpadding := paddingTotal_le records
  have hlength : w.coreHashed.length = (payloads records).length + w.pending.length := by
    rw [h.hashed, List.length_append]
  obtain ⟨-, h₂, h₃, h₄, h₅, h₆, -, -, h₉, -, -⟩ := h
  unfold headerSize at h₆
  unfold aeadTagSize at h₅
  constructor <;> omega

theorem writeEncryptedRecord_yields (hworks : Works suite random) (hsmall : w.Small)
    {kind : UInt8} (hkind : ValidKind kind) {plaintext : Bytes}
    (hshort : plaintext.length ≤ 2097152) (includeInTranscript : Bool) (src : ByteSource) :
    ∃ ciphertext out, (w.writeEncryptedRecord suite kind plaintext includeInTranscript).Yields src
      (w.afterRecord kind plaintext ciphertext includeInTranscript) out src := by
  obtain ⟨hindex, -, harchive, -, hauthentication, -⟩ := hsmall
  let record : RecordHeader := {
    bytes := (recordHeaderFields w.nextIndex kind (plaintext.length + aeadTagSize)).flatten
    index := w.nextIndex
    kind := kind
    ciphertextLen := plaintext.length + aeadTagSize }
  have hnew : RecordHeader.new w.nextIndex kind (plaintext.length + aeadTagSize) = .ok record := by
    rw [RecordHeader.new, if_neg, if_neg]
    · unfold aeadTagSize
      omega
    · unfold ValidKind at hkind
      tauto
  obtain ⟨ciphertext, hencrypt, hlength, -⟩ := hworks.aead w.key (nonce w.noncePrefix w.nextIndex)
    (aad w.header record) plaintext
  refine ⟨ciphertext, [record.bytes, ciphertext] ++ [], ?_⟩
  unfold writeEncryptedRecord
  refine (yields_ofExcept hnew _).bind_silent ?_
  refine (yields_ofOption hencrypt _ _).bind_silent ?_
  refine (yields_require hlength _ _).bind_silent ?_
  refine (writeAll_yields _ _).bind ?_
  refine (checkedAdd_yields ?_ _ _).bind_silent ?_
  · rw [hlength]
    unfold recordHeaderSize
    omega
  refine (checkedAdd_yields (by unfold aeadTagSize; omega) _ _).bind_silent ?_
  refine (checkedAdd_yields (by omega) _ _).bind_silent ?_
  have hrecord : record.bytes = (recordHeaderFields w.nextIndex kind ciphertext.length).flatten := by
    rw [hlength]
    rfl
  have hstate : w.afterRecord kind plaintext ciphertext includeInTranscript = { w with
      transcript :=
        if includeInTranscript then w.transcript ++ (record.bytes ++ ciphertext) else w.transcript
      archiveBytes := w.archiveBytes + (recordHeaderSize + ciphertext.length)
      authenticationBytes := w.authenticationBytes + aeadTagSize
      nextIndex := w.nextIndex + 1
      log := w.log ++ [⟨nonce w.noncePrefix w.nextIndex, aad w.header record, plaintext,
        ciphertext⟩] } := by
    rw [aad, hrecord]
    rfl
  rw [hstate]
  exact yields_ret _ _

theorem sealDataRecord_succeeds (hworks : Works suite random) (hsmall : w.Small)
    (hpending : w.pending.length ≤ maxDataPayload) (src : ByteSource) :
    (w.sealDataRecord suite random).Succeeds src := by
  unfold sealDataRecord
  by_cases hempty : w.pending.isEmpty
  · rw [if_pos hempty]
    exact (yields_ret _ _).succeeds
  · rw [if_neg hempty]
    have hne : w.pending ≠ [] := by simpa using hempty
    have hge := paddedLen_ge (dataPrefixSize + w.pending.length)
    have hlt := paddedLen_lt (dataPrefixSize + w.pending.length)
    obtain ⟨padding, hpadding⟩ := Option.isSome_iff_exists.mp
      (hworks.random.padding w.nextIndex
        (paddedLen (dataPrefixSize + w.pending.length) - (dataPrefixSize + w.pending.length)))
    have hlength := random.padding_length _ _ _ hpadding
    have hfits : FitsRecord w.pending padding := ⟨hne, hpending, by omega⟩
    obtain ⟨-, hshort, -⟩ := hfits.length_bounds
    have hsmall' : Small { w with pending := [] } :=
      ⟨hsmall.1, hsmall.2, hsmall.3, hsmall.4, hsmall.5, hsmall.6⟩
    obtain ⟨ciphertext, out, hwrite⟩ :=
      writeEncryptedRecord_yields hworks hsmall' (.inl rfl) hshort true src
    have hcount := hsmall.dataRecords
    have htotal := hsmall.padding
    refine (yields_ofExcept (dataPlaintext_of_fill hne hpending hpadding) _).succeeds_bind ?_
    refine hwrite.succeeds_bind ?_
    refine (checkedAdd_yields (show w.dataRecords + 1 < 2 ^ 64 by omega) _ _).succeeds_bind ?_
    refine (checkedAdd_yields (show w.paddingBytes + _ < 2 ^ 64 by omega) _ _).succeeds_bind ?_
    exact (yields_ret _ _).succeeds

theorem writeLoop_succeeds (hworks : Works suite random) (rounds : ℕ)
    (h : w.Open suite records) {buffer : Bytes} (hrounds : buffer.length ≤ rounds)
    (hsize : w.coreHashed.length + buffer.length ≤ 2 ^ 34) (src : ByteSource) :
    (w.writeLoop suite random rounds buffer).Succeeds src := by
  induction rounds generalizing w records buffer src with
  | zero => exact (yields_ret _ _).succeeds
  | succ rounds ih =>
      by_cases hbuffer : buffer = []
      · rw [writeLoop, if_pos (by simpa using hbuffer)]
        exact (yields_ret _ _).succeeds
      · obtain ⟨hleft, hpending⟩ := h.round hbuffer
        have hmore := h.wrote.collect (buffer.take (w.taken buffer))
        have hwrote := hmore.wrote
        rw [List.append_nil] at hwrote
        have hhashed : (w.collect (buffer.take (w.taken buffer))).coreHashed.length +
            (buffer.drop (w.taken buffer)).length = w.coreHashed.length + buffer.length := by
          rw [hmore.hashed, List.length_append, Nat.add_assoc, ← List.length_append,
            List.take_append_drop]
        have hsmall := hwrote.small (by omega)
        have hplaintext : w.corePlaintextBytes + (buffer.take (w.taken buffer)).length ≤ 2 ^ 40 :=
          hsmall.plaintext
        rw [writeLoop_succ random rounds hbuffer]
        refine (checkedAdd_yields (by omega) _ _).succeeds_bind ?_
        refine Succeeds.bind ?_ ?_
        · unfold sealFullPayload
          split
          · obtain ⟨w', out, src', hseal⟩ := sealDataRecord_succeeds hworks hsmall hpending src
            exact (hseal.mapError _).succeeds
          · exact (yields_ret _ _).succeeds
        · intro w₂ out src' hseal
          obtain ⟨new, hopen, hextends⟩ := sealFullPayload_inv hwrote h.full hpending hseal
          refine ih hopen (by omega) ?_ src'
          rw [hextends.hashed, List.append_nil]
          omega

theorem feed_succeeds (hworks : Works suite random) {writes : List Bytes} (h : w.Open suite records)
    (hsize : w.coreHashed.length + writes.flatten.length ≤ 2 ^ 34) (src : ByteSource) :
    (feed (AuthenticatedWriter.write suite random) w writes).Succeeds src := by
  induction writes generalizing w records src with
  | nil => exact (yields_ret _ _).succeeds
  | cons b rest ih =>
      rw [List.flatten_cons, List.length_append] at hsize
      refine (writeLoop_succeeds hworks b.length h le_rfl (by omega) src).bind ?_
      intro w₁ out src' hwrite
      obtain ⟨new, hopen, hextends⟩ := writeLoop_inv b.length h le_rfl hwrite
      refine ih hopen ?_ src'
      rw [hextends.hashed, List.length_append]
      omega

theorem finish_succeeds (hworks : Works suite random) {core : StreamStats}
    (hcore : CountersFit core) (h : w.Open suite records)
    (hsome : w.coreHashed ≠ []) (hsize : w.coreHashed.length ≤ 2 ^ 34)
    (hbytes : w.coreHashed.length = core.encodedBytes) (src : ByteSource) :
    (w.finish suite random core).Succeeds src := by
  unfold finish
  refine (sealDataRecord_succeeds hworks (h.wrote.small hsize) h.pending.le src).bind ?_
  intro w₁ out src₁ hflush
  obtain ⟨new, hextends, hempty, -⟩ := flush_inv h hflush
  have hwrote := hextends.wrote
  have hsame : w₁.coreHashed = w.coreHashed := by rw [hextends.hashed, List.append_nil]
  have hhashed : w₁.coreHashed = payloads (records ++ new) := by
    rw [hwrote.hashed, hempty, List.append_nil]
  have hsmall := hwrote.small (by rw [hsame]; exact hsize)
  have hnonempty : w₁.dataRecords ≠ 0 := by
    intro hzero
    rw [hwrote.dataRecords] at hzero
    rw [List.eq_nil_of_length_eq_zero hzero, hsame] at hhashed
    exact hsome hhashed
  refine (yields_require ?_ _ _).succeeds_bind ?_
  · rw [hwrote.plaintextBytes, hsame]
    tauto
  have hfits : (w₁.footer core).Fits := by
    have hcount := hsmall.dataRecords
    have hplaintext := hsmall.plaintext
    refine ⟨?_, ?_, hcore.originalBytes, hcore.segments, hcore.records, sha256_length _,
      sha256_length _⟩
    · change w₁.dataRecords < 2 ^ 64
      omega
    · change w₁.corePlaintextBytes < 2 ^ 64
      omega
  obtain ⟨padding, hpadding⟩ := Option.isSome_iff_exists.mp
    (hworks.random.padding w₁.nextIndex 912)
  have hpadded : paddedFooter (random.padding w₁.nextIndex) (w₁.footer core) =
      .ok ((w₁.footer core).serialize ++ padding, 912) := by
    rw [paddedFooter, hfits.serialize_length, paddedLen_footer]
    have hdraw : random.padding w₁.nextIndex (1024 - footerPlaintextSize) = some padding := hpadding
    rw [hdraw]
    rfl
  have hplain : ((w₁.footer core).serialize ++ padding).length = 1024 := by
    rw [List.length_append, hfits.serialize_length, random.padding_length _ _ _ hpadding]
    rfl
  refine (yields_ofExcept hpadded _).succeeds_bind ?_
  obtain ⟨ciphertext, out₂, hwrite⟩ := writeEncryptedRecord_yields hworks hsmall (.inr rfl)
    (by omega : ((w₁.footer core).serialize ++ padding).length ≤ 2097152) false src₁
  have hpaddingBytes := hsmall.padding
  refine hwrite.succeeds_bind ?_
  refine (checkedAdd_yields (show w₁.paddingBytes + 912 < 2 ^ 64 by omega) _ _).succeeds_bind ?_
  exact (yields_ret _ _).succeeds

end AuthenticatedWriter

/-- The encoder succeeds on every input within the default limit. -/
theorem encodeSealed_succeeds {suite : Suite} {codecs : Codecs} {build : ℕ → Option WorkerPool}
    {random : Randomness} {password : Bytes} {options : AuthenticatedEncodeOptions} {input : Reads}
    (hworks : Works suite random) (hpassword : password ≠ []) (hcore : options.core.Valid)
    (hkdf : minKdfLogN ≤ options.kdfLogN ∧ options.kdfLogN ≤ maxKdfLogN) {core : StreamStats}
    {fields : List Bytes} (hencode : ∀ src,
      (encode codecs build options.core input).Yields src core fields src)
    (hsome : fields.flatten ≠ []) (hsize : fields.flatten.length ≤ 2 ^ 34)
    (hbytes : core.encodedBytes = fields.flatten.length) (src : ByteSource) :
    (encodeSealed suite codecs build random password options input).Succeeds src := by
  obtain ⟨salt, hsalt⟩ := Option.isSome_iff_exists.mp hworks.random.salt
  obtain ⟨noncePrefix, hnonce⟩ := Option.isSome_iff_exists.mp hworks.random.noncePrefix
  let header : Header := {
    bytes := serializeHeader salt noncePrefix options.kdfLogN
    salt := salt
    noncePrefix := noncePrefix
    kdfLogN := options.kdfLogN }
  have hheader : Header.generate random options.kdfLogN = .ok header := by
    rw [Header.generate, hsalt, hnonce]
    simp only [Header.fromParts, validateKdfLogN, if_pos hkdf, bind, Except.bind]
    rfl
  obtain ⟨hparams, hderive⟩ := hworks.kdf options.kdfLogN hkdf.1 hkdf.2
  obtain ⟨key, hkey⟩ := Option.isSome_iff_exists.mp (hderive password salt)
  have hcipher : deriveCipher suite password header false = .ok key := by
    unfold deriveCipher
    rw [if_neg (by simpa [header] using hparams)]
    simp only [header, hkey]
  have hnew : (AuthenticatedWriter.new suite random password options.kdfLogN).Yields src
      (.initial key header) ([header.bytes] ++ []) src := by
    unfold AuthenticatedWriter.new
    refine (yields_ofExcept hheader _).bind_silent ?_
    refine (yields_ofExcept hcipher _).bind_silent ?_
    exact (writeAll_yields _ _).bind (yields_ret _ _)
  have hopen : (AuthenticatedWriter.initial key header).Open suite [] :=
    ⟨wrote_initial suite key header, by simp, by
      change 0 < maxDataPayload
      decide⟩
  have hinitial : (AuthenticatedWriter.initial key header).coreHashed = [] := rfl
  obtain ⟨w, out, src', hfeed⟩ := AuthenticatedWriter.feed_succeeds hworks hopen
    (by rwa [hinitial, List.length_nil, Nat.zero_add]) src
  obtain ⟨records, hopen', hextends⟩ := AuthenticatedWriter.feed_inv hopen hfeed
  have hhashed : w.coreHashed = fields.flatten := by rw [hextends.hashed, hinitial, List.nil_append]
  unfold encodeSealed
  refine (yields_require hpassword _ _).succeeds_bind ?_
  refine (yields_require hcore _ _).succeeds_bind ?_
  refine hnew.succeeds_bind ?_
  refine ((hencode src).redirect (AuthenticatedWriter.detached_write suite random)
    hfeed).succeeds_bind ?_
  exact AuthenticatedWriter.finish_succeeds hworks (countersFit_encode (hencode src)) hopen'
    (by rwa [hhashed]) (by rwa [hhashed]) (by rw [hhashed, hbytes]) src

end MosaicArchive.Authenticated
