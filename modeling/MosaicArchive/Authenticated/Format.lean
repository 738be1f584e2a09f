import MosaicArchive.Core.Options
import MosaicArchive.Crypto.Sha256

/-!
The byte layouts of the `M7A0` envelope (`msc7-core/src/auth_format.rs`): the
public header, the header of a record, data plaintexts with random padding and
the footer. All integers are big-endian. Each layout is read back field by
field from what was written.
-/

namespace MosaicArchive.Authenticated

open FixedWidth MosaicArchive.Core

/-- The bytes of an ASCII string literal. -/
def asciiBytes (text : String) : Bytes := text.toList.map fun c => UInt8.ofNat c.toNat

/-- `b"M7A0"` -/
def authenticatedMagic : Bytes := [0x4d, 0x37, 0x41, 0x30]
def headerSize : ℕ := 64
def recordHeaderSize : ℕ := 16
def aeadTagSize : ℕ := 16
def paddingQuantum : ℕ := 1024
def maxRecordPlaintext : ℕ := 2 * 1024 * 1024
def dataPrefixSize : ℕ := 8
def maxDataPayload : ℕ := maxRecordPlaintext - dataPrefixSize
def minKdfLogN : ℕ := 14
def maxKdfLogN : ℕ := 18
def defaultKdfLogN : ℕ := 17
def kdfR : UInt8 := 8
def kdfP : UInt8 := 1
def dataRecordKind : UInt8 := 1
def footerRecordKind : UInt8 := 2
def footerPlaintextSize : ℕ := 112
def aeadAadDomain : Bytes := asciiBytes "Mosaic-M7A0-AAD/v0" ++ [0]
def transcriptDomain : Bytes := asciiBytes "Mosaic-M7A0-transcript/v0" ++ [0]

def version : UInt8 := 0
def flags : UInt8 := 3
def kdfId : UInt8 := 1
def aeadId : UInt8 := 1
def coreId : UInt8 := 0
def profileId : UInt8 := 0
/-- `b"M7D0"` -/
def dataMagic : Bytes := [0x4d, 0x37, 0x44, 0x30]
/-- `b"M7F0"` -/
def footerMagic : Bytes := [0x4d, 0x37, 0x46, 0x30]

/-! ### The public header -/

structure Header where
  bytes : Bytes
  salt : Bytes
  noncePrefix : Bytes
  kdfLogN : ℕ
  deriving DecidableEq

def headerFields (salt noncePrefix : Bytes) (kdfLogN : ℕ) : List Bytes :=
  [authenticatedMagic, [version, flags, kdfId, aeadId, coreId, profileId], [0, 0],
    beBytes 4 headerSize, beBytes 4 paddingQuantum, beBytes 4 maxRecordPlaintext, salt, noncePrefix,
    [UInt8.ofNat kdfLogN, kdfR, kdfP, 0], List.replicate 16 0]

def serializeHeader (salt noncePrefix : Bytes) (kdfLogN : ℕ) : Bytes :=
  (headerFields salt noncePrefix kdfLogN).flatten

def validateKdfLogN (kdfLogN : ℕ) (error : String → Error) : Except Error Unit :=
  if minKdfLogN ≤ kdfLogN ∧ kdfLogN ≤ maxKdfLogN then .ok ()
  else .error (error "scrypt log N must be in 14..=18")

def Header.fromParts (salt noncePrefix : Bytes) (kdfLogN : ℕ) : Except Error Header := do
  validateKdfLogN kdfLogN .invalidOptions
  return {
    bytes := serializeHeader salt noncePrefix kdfLogN
    salt := salt
    noncePrefix := noncePrefix
    kdfLogN := kdfLogN }

/-- The fixed fields of a header. -/
def Header.Supported (bytes : Bytes) : Prop :=
  slice bytes 0 4 = authenticatedMagic ∧ slice bytes 4 5 = [version] ∧ slice bytes 5 6 = [flags] ∧
    slice bytes 6 7 = [kdfId] ∧ slice bytes 7 8 = [aeadId] ∧ slice bytes 8 9 = [coreId] ∧
    slice bytes 9 10 = [profileId] ∧ beNat (slice bytes 10 12) = 0 ∧
    beNat (slice bytes 12 16) = headerSize ∧ beNat (slice bytes 16 20) = paddingQuantum ∧
    beNat (slice bytes 20 24) = maxRecordPlaintext ∧ slice bytes 47 48 = [0] ∧
    slice bytes 48 64 = List.replicate 16 0

instance (bytes : Bytes) : Decidable (Header.Supported bytes) :=
  inferInstanceAs (Decidable (_ ∧ _))

/-- `Header::parse` on the 64 bytes of a header. -/
def Header.parse (bytes : Bytes) : Except Error Header :=
  if ¬ Header.Supported bytes then
    .error (.invalidFormat "authenticated header is unsupported or malformed")
  else do
    let kdfLogN := beNat (slice bytes 44 45)
    validateKdfLogN kdfLogN .invalidFormat
    if slice bytes 45 46 ≠ [kdfR] ∨ slice bytes 46 47 ≠ [kdfP] then
      .error (.invalidFormat "authenticated KDF parameters are unsupported")
    else
      return {
        bytes := bytes
        salt := slice bytes 24 40
        noncePrefix := slice bytes 40 44
        kdfLogN := kdfLogN }

theorem validateKdfLogN_ok {kdfLogN : ℕ} {error : String → Error}
    (h : validateKdfLogN kdfLogN error = .ok ()) : minKdfLogN ≤ kdfLogN ∧ kdfLogN ≤ maxKdfLogN := by
  unfold validateKdfLogN at h
  split at h
  · assumption
  · cases h

theorem serializeHeader_length {salt noncePrefix : Bytes} (hsalt : salt.length = 16)
    (hnonce : noncePrefix.length = 4) (kdfLogN : ℕ) :
    (serializeHeader salt noncePrefix kdfLogN).length = headerSize := by
  simp [serializeHeader, headerFields, authenticatedMagic, headerSize, hsalt, hnonce]

/-- The header of an envelope is read back with its parameters. -/
theorem Header.parse_serializeHeader {salt noncePrefix : Bytes} {kdfLogN : ℕ}
    (hsalt : salt.length = 16) (hnonce : noncePrefix.length = 4)
    (hkdf : minKdfLogN ≤ kdfLogN ∧ kdfLogN ≤ maxKdfLogN) :
    Header.parse (serializeHeader salt noncePrefix kdfLogN) =
      .ok { bytes := serializeHeader salt noncePrefix kdfLogN, salt := salt,
            noncePrefix := noncePrefix, kdfLogN := kdfLogN } := by
  let before : Bytes := [authenticatedMagic, [version, flags, kdfId, aeadId, coreId, profileId],
    [0, 0], beBytes 4 headerSize, beBytes 4 paddingQuantum, beBytes 4 maxRecordPlaintext].flatten
  let after : Bytes := [UInt8.ofNat kdfLogN, kdfR, kdfP, 0] ++ List.replicate 16 0
  have hbefore : before.length = 24 := by decide
  have hsplit : serializeHeader salt noncePrefix kdfLogN =
      before ++ (salt ++ (noncePrefix ++ after)) := by
    simp [serializeHeader, headerFields, before, after]
  have hfront : ∀ i j, j ≤ 24 → slice (serializeHeader salt noncePrefix kdfLogN) i j =
      slice before i j := by
    intro i j hj
    rw [hsplit, slice_append_left (by omega)]
  have hback : ∀ i j, 44 ≤ i → slice (serializeHeader salt noncePrefix kdfLogN) i j =
      slice after (i - 44) (j - 44) := by
    intro i j hi
    rw [hsplit, slice_append_right (by omega), slice_append_right (by omega),
      slice_append_right (by omega)]
    congr 1 <;> omega
  have hkdfByte : slice after 0 1 = [UInt8.ofNat kdfLogN] := rfl
  have hsaltField : slice (serializeHeader salt noncePrefix kdfLogN) 24 40 = salt := by
    rw [hsplit, slice_append_right (by omega), slice_append_left (by omega)]
    exact slice_full (by omega)
  have hnonceField : slice (serializeHeader salt noncePrefix kdfLogN) 40 44 = noncePrefix := by
    rw [hsplit, slice_append_right (by omega), slice_append_right (by omega),
      slice_append_left (by omega)]
    rw [show 40 - before.length - salt.length = 0 by omega]
    exact slice_full (by omega)
  have hsupported : Header.Supported (serializeHeader salt noncePrefix kdfLogN) := by
    unfold Header.Supported
    rw [hfront 0 4 (by omega), hfront 4 5 (by omega), hfront 5 6 (by omega),
      hfront 6 7 (by omega), hfront 7 8 (by omega), hfront 8 9 (by omega), hfront 9 10 (by omega),
      hfront 10 12 (by omega), hfront 12 16 (by omega), hfront 16 20 (by omega),
      hfront 20 24 (by omega), hback 47 48 (by omega), hback 48 64 (by omega)]
    refine ⟨by decide, by decide, by decide, by decide, by decide, by decide, by decide,
      by decide, by decide, by decide, by decide, rfl, rfl⟩
  have hlogN : beNat (slice (serializeHeader salt noncePrefix kdfLogN) 44 45) = kdfLogN := by
    have hbyte : (UInt8.ofNat kdfLogN).toNat = kdfLogN := by
      rw [UInt8.toNat_ofNat']
      unfold maxKdfLogN at hkdf
      omega
    rw [hback 44 45 le_rfl, hkdfByte]
    simp [beNat, leNat, hbyte]
  rw [Header.parse, if_neg (not_not.mpr hsupported), hlogN, hsaltField, hnonceField,
    hback 45 46 (by omega), hback 46 47 (by omega)]
  simp only [validateKdfLogN, if_pos hkdf, bind, Except.bind]
  rfl

/-! ### Record headers -/

structure RecordHeader where
  bytes : Bytes
  index : ℕ
  kind : UInt8
  ciphertextLen : ℕ
  deriving DecidableEq

def recordHeaderFields (index : ℕ) (kind : UInt8) (ciphertextLen : ℕ) : List Bytes :=
  [beBytes 8 index, [kind, 0], [0, 0], beBytes 4 ciphertextLen]

def RecordHeader.new (index : ℕ) (kind : UInt8) (ciphertextLen : ℕ) : Except Error RecordHeader :=
  if kind ≠ dataRecordKind ∧ kind ≠ footerRecordKind then
    .error (.codec "authenticated record kind is invalid")
  else if 2 ^ 32 ≤ ciphertextLen then .error (.codec "authenticated record is too large")
  else
    .ok {
      bytes := (recordHeaderFields index kind ciphertextLen).flatten
      index := index
      kind := kind
      ciphertextLen := ciphertextLen }

/-- `RecordHeader::parse` on the 16 bytes of a record header. -/
def RecordHeader.parse (bytes : Bytes) : Except Error RecordHeader :=
  let kind := bytes.getD 8 0
  if (kind ≠ dataRecordKind ∧ kind ≠ footerRecordKind) ∨ slice bytes 9 10 ≠ [0] ∨
      beNat (slice bytes 10 12) ≠ 0 then
    .error (.invalidFormat "authenticated record header is malformed")
  else
    .ok {
      bytes := bytes
      index := beNat (slice bytes 0 8)
      kind := kind
      ciphertextLen := beNat (slice bytes 12 16) }

/-- The kinds a record can have. -/
def ValidKind (kind : UInt8) : Prop := kind = dataRecordKind ∨ kind = footerRecordKind

theorem recordHeaderFields_length (index : ℕ) (kind : UInt8) (ciphertextLen : ℕ) :
    (recordHeaderFields index kind ciphertextLen).flatten.length = recordHeaderSize := by
  simp [recordHeaderFields, recordHeaderSize]

theorem RecordHeader.new_ok {index ciphertextLen : ℕ} {kind : UInt8} {record : RecordHeader}
    (h : RecordHeader.new index kind ciphertextLen = .ok record) :
    ValidKind kind ∧ ciphertextLen < 2 ^ 32 ∧
      record = { bytes := (recordHeaderFields index kind ciphertextLen).flatten, index := index,
                 kind := kind, ciphertextLen := ciphertextLen } := by
  unfold RecordHeader.new at h
  split_ifs at h with hkind hlen
  refine ⟨?_, by omega, (Except.ok.inj h).symm⟩
  rwa [← not_or, not_not] at hkind

theorem RecordHeader.parse_fields {index ciphertextLen : ℕ} {kind : UInt8} (hkind : ValidKind kind)
    (hindex : index < 2 ^ 64) (hlen : ciphertextLen < 2 ^ 32) :
    RecordHeader.parse (recordHeaderFields index kind ciphertextLen).flatten =
      .ok { bytes := (recordHeaderFields index kind ciphertextLen).flatten, index := index,
            kind := kind, ciphertextLen := ciphertextLen } := by
  let fields := recordHeaderFields index kind ciphertextLen
  have hindexField : slice fields.flatten 0 8 = beBytes 8 index :=
    slice_field [] _ (fields.drop 1) rfl (by simp)
  have hreserved : slice fields.flatten 10 12 = [0, 0] :=
    slice_field (fields.take 2) _ (fields.drop 3) (by simp [fields, recordHeaderFields]) (by simp)
  have hlenField : slice fields.flatten 12 16 = beBytes 4 ciphertextLen :=
    slice_field (fields.take 3) _ [] (by simp [fields, recordHeaderFields]) (by simp)
  have hrest : fields.flatten = beBytes 8 index ++ ([kind, 0] ++
      ([0, 0] ++ beBytes 4 ciphertextLen)) := by
    simp [fields, recordHeaderFields]
  have hkindByte : fields.flatten.getD 8 0 = kind := by
    rw [hrest, List.getD_eq_getElem?_getD, List.getElem?_append_right (by simp)]
    simp
  have hflagByte : slice fields.flatten 9 10 = [0] := by
    rw [hrest, slice_append_right (by simp), slice_append_left (by simp)]
    simp [slice]
  have hvalid : ¬ ((kind ≠ dataRecordKind ∧ kind ≠ footerRecordKind) ∨
      ([0] : Bytes) ≠ [0] ∨ beNat [0, 0] ≠ 0) := by
    unfold ValidKind at hkind
    have hzero : beNat [0, 0] = 0 := by decide
    tauto
  rw [RecordHeader.parse, hkindByte, hflagByte, hreserved, if_neg hvalid, hindexField, hlenField,
    beNat_beBytes_of_lt (by norm_num at hindex ⊢; exact hindex),
    beNat_beBytes_of_lt (by norm_num at hlen ⊢; exact hlen)]

/-- A record header that is accepted has the one encoding of its fields. -/
theorem RecordHeader.parse_inv {bytes : Bytes} {record : RecordHeader}
    (h : RecordHeader.parse bytes = .ok record) (hlength : bytes.length = recordHeaderSize) :
    bytes = (recordHeaderFields record.index record.kind record.ciphertextLen).flatten ∧
      record.bytes = bytes ∧ ValidKind record.kind := by
  unfold recordHeaderSize at hlength
  unfold RecordHeader.parse at h
  dsimp only at h
  split_ifs at h with hinvalid
  obtain rfl := Except.ok.inj h
  simp only [not_or, not_not, not_and_or] at hinvalid
  obtain ⟨hkind, hflag, hreserved⟩ := hinvalid
  refine ⟨?_, rfl, by unfold ValidKind; tauto⟩
  have hindex : beBytes 8 (beNat (slice bytes 0 8)) = slice bytes 0 8 := by
    have hlen : (slice bytes 0 8).length = 8 := slice_length (by omega) (by omega)
    have := beBytes_beNat (slice bytes 0 8)
    rwa [hlen] at this
  have hsize : beBytes 4 (beNat (slice bytes 12 16)) = slice bytes 12 16 := by
    have hlen : (slice bytes 12 16).length = 4 := slice_length (by omega) (by omega)
    have := beBytes_beNat (slice bytes 12 16)
    rwa [hlen] at this
  have hzero : slice bytes 10 12 = [0, 0] := by
    refine beNat_inj (slice_length (by omega) (by omega)) ?_
    rw [hreserved]
    rfl
  have hkindByte : slice bytes 8 9 = [bytes.getD 8 0] := by
    have hdrop : bytes.drop 8 = bytes[8] :: bytes.drop 9 := List.drop_eq_getElem_cons (by omega)
    rw [slice, hdrop, List.getD_eq_getElem?_getD, List.getElem?_eq_getElem (by omega)]
    rfl
  have hwhole : bytes = slice bytes 0 8 ++ (slice bytes 8 9 ++ (slice bytes 9 10 ++
      (slice bytes 10 12 ++ slice bytes 12 16))) := by
    rw [slice_append_slice (by omega) (by omega), slice_append_slice (by omega) (by omega),
      slice_append_slice (by omega) (by omega), slice_append_slice (by omega) (by omega),
      slice_full hlength]
  rw [recordHeaderFields, hindex, hsize]
  rw [hkindByte, hflag, hzero] at hwhole
  simpa using hwhole

/-! ### Footers -/

structure Footer where
  coreRecordCount : ℕ
  corePlaintextBytes : ℕ
  originalBytes : ℕ
  segments : ℕ
  innerRecords : ℕ
  innerHash : Bytes
  transcriptHash : Bytes
  deriving DecidableEq

def Footer.fields (footer : Footer) : List Bytes :=
  [footerMagic, [version], [0, 0, 0], beBytes 8 footer.coreRecordCount,
    beBytes 8 footer.corePlaintextBytes, beBytes 8 footer.originalBytes,
    beBytes 4 footer.segments, beBytes 4 0, beBytes 8 footer.innerRecords, footer.innerHash,
    footer.transcriptHash]

def Footer.serialize (footer : Footer) : Bytes := footer.fields.flatten

def Footer.parse (bytes : Bytes) : Except Error Footer :=
  if bytes.length ≠ footerPlaintextSize ∨ slice bytes 0 4 ≠ footerMagic ∨
      slice bytes 4 5 ≠ [version] ∨ slice bytes 5 8 ≠ [0, 0, 0] ∨
      beNat (slice bytes 36 40) ≠ 0 then
    .error (.invalidFormat "authenticated footer is unsupported or malformed")
  else
    .ok {
      coreRecordCount := beNat (slice bytes 8 16)
      corePlaintextBytes := beNat (slice bytes 16 24)
      originalBytes := beNat (slice bytes 24 32)
      segments := beNat (slice bytes 32 36)
      innerRecords := beNat (slice bytes 40 48)
      innerHash := slice bytes 48 80
      transcriptHash := slice bytes 80 112 }

/-- The fields of a footer fit their widths. -/
structure Footer.Fits (footer : Footer) : Prop where
  coreRecordCount : footer.coreRecordCount < 2 ^ 64
  corePlaintextBytes : footer.corePlaintextBytes < 2 ^ 64
  originalBytes : footer.originalBytes < 2 ^ 64
  segments : footer.segments < 2 ^ 32
  innerRecords : footer.innerRecords < 2 ^ 64
  innerHash : footer.innerHash.length = 32
  transcriptHash : footer.transcriptHash.length = 32

theorem Footer.Fits.serialize_length {footer : Footer} (h : footer.Fits) :
    footer.serialize.length = footerPlaintextSize := by
  simp [Footer.serialize, Footer.fields, footerMagic, footerPlaintextSize, h.innerHash,
    h.transcriptHash]

theorem Footer.parse_serialize {footer : Footer} (h : footer.Fits) :
    Footer.parse footer.serialize = .ok footer := by
  have hwide : ∀ {n : ℕ}, n < 2 ^ 64 → beNat (beBytes 8 n) = n := fun hn =>
    beNat_beBytes_of_lt (by norm_num at hn ⊢; exact hn)
  have hnarrow : ∀ {n : ℕ}, n < 2 ^ 32 → beNat (beBytes 4 n) = n := fun hn =>
    beNat_beBytes_of_lt (by norm_num at hn ⊢; exact hn)
  have hmagic : slice footer.serialize 0 4 = footerMagic :=
    slice_field [] _ (footer.fields.drop 1) rfl rfl
  have hversion : slice footer.serialize 4 5 = [version] :=
    slice_field (footer.fields.take 1) _ (footer.fields.drop 2) rfl rfl
  have hreserved : slice footer.serialize 5 8 = [0, 0, 0] :=
    slice_field (footer.fields.take 2) _ (footer.fields.drop 3) rfl rfl
  have h₃ : slice footer.serialize 8 16 = beBytes 8 footer.coreRecordCount :=
    slice_field (footer.fields.take 3) _ (footer.fields.drop 4) rfl (by simp)
  have h₄ : slice footer.serialize 16 24 = beBytes 8 footer.corePlaintextBytes :=
    slice_field (footer.fields.take 4) _ (footer.fields.drop 5)
      (by simp [Footer.fields, footerMagic]) (by simp)
  have h₅ : slice footer.serialize 24 32 = beBytes 8 footer.originalBytes :=
    slice_field (footer.fields.take 5) _ (footer.fields.drop 6)
      (by simp [Footer.fields, footerMagic]) (by simp)
  have h₆ : slice footer.serialize 32 36 = beBytes 4 footer.segments :=
    slice_field (footer.fields.take 6) _ (footer.fields.drop 7)
      (by simp [Footer.fields, footerMagic]) (by simp)
  have h₇ : slice footer.serialize 36 40 = beBytes 4 0 :=
    slice_field (footer.fields.take 7) _ (footer.fields.drop 8)
      (by simp [Footer.fields, footerMagic]) (by simp)
  have h₈ : slice footer.serialize 40 48 = beBytes 8 footer.innerRecords :=
    slice_field (footer.fields.take 8) _ (footer.fields.drop 9)
      (by simp [Footer.fields, footerMagic]) (by simp)
  have h₉ : slice footer.serialize 48 80 = footer.innerHash :=
    slice_field (footer.fields.take 9) _ (footer.fields.drop 10)
      (by simp [Footer.fields, footerMagic]) (by simp [h.innerHash])
  have h₁₀ : slice footer.serialize 80 112 = footer.transcriptHash :=
    slice_field (footer.fields.take 10) _ []
      (by simp [Footer.fields, footerMagic, h.innerHash]) (by simp [h.transcriptHash])
  have hzero : beNat (beBytes 4 0) = 0 := by decide
  rw [Footer.parse, h.serialize_length, hmagic, hversion, hreserved, h₃, h₄, h₅, h₆, h₇, h₈, h₉,
    h₁₀, if_neg (by simp [hzero]), hwide h.coreRecordCount, hwide h.corePlaintextBytes,
    hwide h.originalBytes, hnarrow h.segments, hwide h.innerRecords]

/-! ### Padded plaintexts -/

/-- `padded_len`: up to the next multiple of the quantum. -/
def paddedLen (size : ℕ) : ℕ :=
  size + if size % paddingQuantum = 0 then 0 else paddingQuantum - size % paddingQuantum

/-- What `fill_random` does with a buffer of `n` bytes. -/
def randomnessUnavailable : Error :=
  .io { kind := .other, message := "operating-system secure randomness is unavailable" }

/-- `data_plaintext`; `fill n` draws the `n` bytes of padding. -/
def dataPlaintext (fill : ℕ → Option Bytes) (payload : Bytes) : Except Error (Bytes × ℕ) :=
  if payload.isEmpty ∨ payload.length > maxDataPayload then
    .error (.codec "authenticated data payload must be nonempty and within the limit")
  else
    let baseLen := dataPrefixSize + payload.length
    let paddingLen := paddedLen baseLen - baseLen
    match fill paddingLen with
    | none => .error randomnessUnavailable
    | some padding => .ok (dataMagic ++ beBytes 4 payload.length ++ payload ++ padding, paddingLen)

def parseDataPlaintext (plaintext : Bytes) : Except Error (Bytes × ℕ) :=
  if plaintext.length < paddingQuantum ∨ plaintext.length % paddingQuantum ≠ 0 ∨
      slice plaintext 0 4 ≠ dataMagic then
    .error (.invalidFormat "authenticated data plaintext is malformed")
  else
    let payloadLen := beNat (slice plaintext 4 8)
    if payloadLen = 0 ∨ payloadLen > maxDataPayload then
      .error (.invalidFormat "authenticated data payload must be nonempty and within the limit")
    else
      let baseLen := dataPrefixSize + payloadLen
      if baseLen > plaintext.length ∨ paddedLen baseLen ≠ plaintext.length then
        .error (.invalidFormat "authenticated data padding is malformed")
      else .ok (slice plaintext dataPrefixSize baseLen, plaintext.length - baseLen)

/-- `padded_footer`; `fill n` draws the `n` bytes of padding. -/
def paddedFooter (fill : ℕ → Option Bytes) (footer : Footer) : Except Error (Bytes × ℕ) :=
  let bytes := footer.serialize
  let paddingLen := paddedLen bytes.length - bytes.length
  match fill paddingLen with
  | none => .error randomnessUnavailable
  | some padding => .ok (bytes ++ padding, paddingLen)

def parsePaddedFooter (plaintext : Bytes) : Except Error (Footer × ℕ) :=
  let expectedLen := paddedLen footerPlaintextSize
  if plaintext.length ≠ expectedLen then
    .error (.invalidFormat "authenticated footer padding is malformed")
  else do
    let footer ← Footer.parse (slice plaintext 0 footerPlaintextSize)
    return (footer, expectedLen - footerPlaintextSize)

theorem paddedLen_ge (size : ℕ) : size ≤ paddedLen size := by
  unfold paddedLen
  omega

theorem paddedLen_lt (size : ℕ) : paddedLen size < size + 1024 := by
  unfold paddedLen paddingQuantum
  split <;> omega

theorem paddedLen_mod (size : ℕ) : paddedLen size % paddingQuantum = 0 := by
  unfold paddedLen paddingQuantum
  split
  · simpa
  · omega

theorem paddedLen_footer : paddedLen footerPlaintextSize = 1024 := by decide

/-- The plaintext of a record with the given payload and padding. -/
def dataBytes (payload padding : Bytes) : Bytes :=
  dataMagic ++ beBytes 4 payload.length ++ payload ++ padding

/-- A payload and the padding drawn for it. -/
structure FitsRecord (payload padding : Bytes) : Prop where
  nonempty : payload ≠ []
  short : payload.length ≤ maxDataPayload
  padded : dataPrefixSize + payload.length + padding.length =
    paddedLen (dataPrefixSize + payload.length)

theorem FitsRecord.length {payload padding : Bytes} (h : FitsRecord payload padding) :
    (dataBytes payload padding).length = paddedLen (dataPrefixSize + payload.length) := by
  rw [← h.padded]
  simp [dataBytes, dataMagic, dataPrefixSize]
  omega

/-- The sizes of the data plaintexts: whole quanta up to two mebibytes. -/
theorem FitsRecord.length_bounds {payload padding : Bytes} (h : FitsRecord payload padding) :
    1024 ≤ (dataBytes payload padding).length ∧ (dataBytes payload padding).length ≤ 2097152 ∧
      (dataBytes payload padding).length % 1024 = 0 := by
  have hmod := paddedLen_mod (dataPrefixSize + payload.length)
  have hshort := h.short
  have hpos := List.length_pos_iff.mpr h.nonempty
  rw [h.length]
  unfold maxDataPayload maxRecordPlaintext at hshort
  unfold paddedLen paddingQuantum dataPrefixSize at *
  split_ifs at hmod ⊢ <;> omega

/-- What `data_plaintext` makes of a payload. -/
theorem dataPlaintext_ok {fill : ℕ → Option Bytes} (hfill : ∀ n b, fill n = some b → b.length = n)
    {payload plaintext : Bytes} {paddingLen : ℕ}
    (h : dataPlaintext fill payload = .ok (plaintext, paddingLen)) :
    ∃ padding, plaintext = dataBytes payload padding ∧ padding.length = paddingLen ∧
      FitsRecord payload padding := by
  unfold dataPlaintext at h
  split_ifs at h with hbad
  rw [not_or, not_lt] at hbad
  match hdraw : fill (paddedLen (dataPrefixSize + payload.length) -
      (dataPrefixSize + payload.length)) with
  | none =>
      simp only [hdraw] at h
      cases h
  | some padding =>
      simp only [hdraw] at h
      obtain ⟨rfl, rfl⟩ := Prod.mk.inj (Except.ok.inj h)
      have hlen := hfill _ _ hdraw
      have hge := paddedLen_ge (dataPrefixSize + payload.length)
      exact ⟨padding, rfl, hlen, by simpa using hbad.1, hbad.2, by omega⟩

theorem dataPlaintext_of_fill {fill : ℕ → Option Bytes} {payload padding : Bytes}
    (hnonempty : payload ≠ []) (hshort : payload.length ≤ maxDataPayload)
    (hfill : fill (paddedLen (dataPrefixSize + payload.length) -
      (dataPrefixSize + payload.length)) = some padding) :
    dataPlaintext fill payload = .ok (dataBytes payload padding,
      paddedLen (dataPrefixSize + payload.length) - (dataPrefixSize + payload.length)) := by
  rw [dataPlaintext, if_neg (by simp [hnonempty, hshort])]
  simp only [hfill]
  rfl

/-- A data plaintext is read back to its payload. -/
theorem parseDataPlaintext_dataBytes {payload padding : Bytes} (h : FitsRecord payload padding) :
    parseDataPlaintext (dataBytes payload padding) = .ok (payload, padding.length) := by
  obtain ⟨hmin, -, hmod⟩ := h.length_bounds
  have hlength := h.length
  have hpadded := h.padded
  have hshort := h.short
  have hpos := List.length_pos_iff.mpr h.nonempty
  have hsmall : payload.length < 256 ^ 4 := by
    unfold maxDataPayload maxRecordPlaintext at hshort
    omega
  let fields : List Bytes := [dataMagic, beBytes 4 payload.length, payload, padding]
  have hfields : dataBytes payload padding = fields.flatten := by
    simp [dataBytes, fields]
  have hmagic : slice (dataBytes payload padding) 0 4 = dataMagic := by
    rw [hfields]
    exact slice_field [] _ (fields.drop 1) rfl rfl
  have hlen : slice (dataBytes payload padding) 4 8 = beBytes 4 payload.length := by
    rw [hfields]
    exact slice_field (fields.take 1) _ (fields.drop 2) rfl (by simp)
  have hpayload : slice (dataBytes payload padding) dataPrefixSize
      (dataPrefixSize + payload.length) = payload := by
    rw [hfields]
    exact slice_field (fields.take 2) _ (fields.drop 3)
      (by simp [fields, dataMagic, dataPrefixSize]) rfl
  rw [parseDataPlaintext, if_neg (by rw [hmagic]; unfold paddingQuantum; simp; omega)]
  simp only [hlen, beNat_beBytes_of_lt hsmall, hpayload]
  rw [if_neg (by omega), if_neg (by omega)]
  congr 2
  omega

/-- A payload that is accepted is not empty and within the limit. -/
theorem parseDataPlaintext_payload {plaintext payload : Bytes} {paddingBytes : ℕ}
    (h : parseDataPlaintext plaintext = .ok (payload, paddingBytes)) :
    payload ≠ [] ∧ payload.length ≤ maxDataPayload := by
  unfold parseDataPlaintext at h
  dsimp only at h
  split_ifs at h with hmalformed hlimit hpadding
  obtain ⟨rfl, -⟩ := Prod.mk.inj (Except.ok.inj h)
  have hlength : (slice plaintext dataPrefixSize
      (dataPrefixSize + beNat (slice plaintext 4 8))).length = beNat (slice plaintext 4 8) := by
    rw [slice_length (by omega) (by omega)]
    omega
  constructor
  · apply List.ne_nil_of_length_pos
    omega
  · omega

theorem parsePaddedFooter_append {footer : Footer} (h : footer.Fits) {padding : Bytes}
    (hpadding : padding.length = 912) :
    parsePaddedFooter (footer.serialize ++ padding) = .ok (footer, 912) := by
  have hlength := h.serialize_length
  have hslice : slice (footer.serialize ++ padding) 0 footerPlaintextSize = footer.serialize := by
    rw [slice_append_left hlength.ge]
    exact slice_full hlength
  rw [parsePaddedFooter, hslice, Footer.parse_serialize h, paddedLen_footer,
    if_neg (by rw [List.length_append, hlength, hpadding]; decide)]
  rfl

theorem paddedFooter_ok {fill : ℕ → Option Bytes} (hfill : ∀ n b, fill n = some b → b.length = n)
    {footer : Footer} (hfits : footer.Fits) {plaintext : Bytes} {paddingLen : ℕ}
    (h : paddedFooter fill footer = .ok (plaintext, paddingLen)) :
    ∃ padding, plaintext = footer.serialize ++ padding ∧ padding.length = 912 ∧
      paddingLen = 912 := by
  unfold paddedFooter at h
  dsimp only at h
  rw [hfits.serialize_length, paddedLen_footer] at h
  match hdraw : fill (1024 - footerPlaintextSize) with
  | none =>
      simp only [hdraw] at h
      cases h
  | some padding =>
      simp only [hdraw] at h
      obtain ⟨rfl, rfl⟩ := Prod.mk.inj (Except.ok.inj h)
      exact ⟨padding, rfl, hfill _ _ hdraw, rfl⟩

def maxDataCiphertextLen : ℕ := paddedLen (dataPrefixSize + maxDataPayload) + aeadTagSize
def footerCiphertextLen : ℕ := paddedLen footerPlaintextSize + aeadTagSize

/-! ### Nonces, associated data and the transcript -/

def nonce (noncePrefix : Bytes) (index : ℕ) : Bytes := noncePrefix ++ beBytes 8 index

def aad (header : Header) (record : RecordHeader) : Bytes :=
  aeadAadDomain ++ header.bytes ++ record.bytes

/-- What `new_transcript` feeds to the hash. -/
def newTranscript (header : Header) : Bytes := transcriptDomain ++ header.bytes

end MosaicArchive.Authenticated
