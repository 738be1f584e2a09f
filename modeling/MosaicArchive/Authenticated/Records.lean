import MosaicArchive.Authenticated.Writer

/-!
What the writer of the envelope has written, as a list of data records. Its
counters, its transcript and its log are functions of that list, and the
payloads together with the pending bytes are the bytes it was given.
-/

namespace MosaicArchive.Authenticated

open FixedWidth Sha256 MosaicArchive.Core IoProgram

/-- A data record: a payload with its padding, and what they were sealed to. -/
structure DataRecord where
  payload : Bytes
  padding : Bytes
  ciphertext : Bytes
  fits : FitsRecord payload padding
  size : ciphertext.length = (dataBytes payload padding).length + aeadTagSize

namespace DataRecord

def plaintext (r : DataRecord) : Bytes := dataBytes r.payload r.padding

theorem payload_length_pos (r : DataRecord) : 0 < r.payload.length :=
  List.length_pos_iff.mpr r.fits.nonempty

theorem payload_length_le (r : DataRecord) : r.payload.length ≤ maxDataPayload := r.fits.short

theorem ciphertext_length_bounds (r : DataRecord) :
    1024 + aeadTagSize ≤ r.ciphertext.length ∧ r.ciphertext.length ≤ maxDataCiphertextLen ∧
      (r.ciphertext.length - aeadTagSize) % 1024 = 0 := by
  obtain ⟨hmin, hmax, hmod⟩ := r.fits.length_bounds
  have hlimit : maxDataCiphertextLen = 2097168 := by decide
  rw [hlimit, r.size]
  unfold aeadTagSize
  omega

end DataRecord

/-- A record on the wire. -/
def recordBytes (index : ℕ) (kind : UInt8) (ciphertext : Bytes) : Bytes :=
  (recordHeaderFields index kind ciphertext.length).flatten ++ ciphertext

theorem recordBytes_length (index : ℕ) (kind : UInt8) (ciphertext : Bytes) :
    (recordBytes index kind ciphertext).length = recordHeaderSize + ciphertext.length := by
  rw [recordBytes, List.length_append, recordHeaderFields_length]

/-- Data records on the wire, from a first index on. -/
def wires : ℕ → List DataRecord → Bytes
  | _, [] => []
  | index, r :: rest => recordBytes index dataRecordKind r.ciphertext ++ wires (index + 1) rest

theorem wires_append (index : ℕ) (a b : List DataRecord) :
    wires index (a ++ b) = wires index a ++ wires (index + a.length) b := by
  induction a generalizing index with
  | nil => rfl
  | cons r rest ih =>
      rw [List.cons_append, wires, ih, wires, List.append_assoc, List.length_cons]
      congr 3
      omega

/-- The call of `encrypt` behind a record. -/
def sealOf (header : Header) (index : ℕ) (kind : UInt8) (message ciphertext : Bytes) :
    Aead.Sealed where
  nonce := nonce header.noncePrefix index
  aad := aeadAadDomain ++ header.bytes ++ (recordHeaderFields index kind ciphertext.length).flatten
  message := message
  ciphertext := ciphertext

def DataRecord.sealed (header : Header) (index : ℕ) (r : DataRecord) : Aead.Sealed :=
  sealOf header index dataRecordKind r.plaintext r.ciphertext

/-- The calls of `encrypt` behind data records, from a first index on. -/
def seals (header : Header) : ℕ → List DataRecord → List Aead.Sealed
  | _, [] => []
  | index, r :: rest => r.sealed header index :: seals header (index + 1) rest

theorem seals_append (header : Header) (index : ℕ) (a b : List DataRecord) :
    seals header index (a ++ b) = seals header index a ++ seals header (index + a.length) b := by
  induction a generalizing index with
  | nil => rfl
  | cons r rest ih =>
      rw [List.cons_append, seals, ih, seals, List.cons_append, List.length_cons]
      congr 3
      omega

theorem mem_seals {header : Header} {index : ℕ} {records : List DataRecord} {s : Aead.Sealed} :
    s ∈ seals header index records ↔
      ∃ before r after, records = before ++ r :: after ∧
        s = r.sealed header (index + before.length) := by
  constructor
  · intro h
    induction records generalizing index with
    | nil => cases h
    | cons r rest ih =>
        rcases List.mem_cons.mp h with rfl | h
        · exact ⟨[], r, rest, rfl, rfl⟩
        · obtain ⟨before, r', after, rfl, rfl⟩ := ih h
          refine ⟨r :: before, r', after, rfl, ?_⟩
          rw [List.length_cons]
          congr 1
          omega
  · rintro ⟨before, r, after, rfl, rfl⟩
    rw [seals_append]
    exact List.mem_append_right _ (List.mem_cons_self ..)

/-- The payload bytes of some records. -/
def payloads (records : List DataRecord) : Bytes := (records.map DataRecord.payload).flatten

def paddingTotal (records : List DataRecord) : ℕ :=
  (records.map fun r => r.padding.length).sum

@[simp] theorem payloads_append (a b : List DataRecord) :
    payloads (a ++ b) = payloads a ++ payloads b := by
  simp [payloads]

@[simp] theorem payloads_singleton (r : DataRecord) : payloads [r] = r.payload := by
  simp [payloads]

@[simp] theorem paddingTotal_append (a b : List DataRecord) :
    paddingTotal (a ++ b) = paddingTotal a + paddingTotal b := by
  simp [paddingTotal]

@[simp] theorem paddingTotal_singleton (r : DataRecord) :
    paddingTotal [r] = r.padding.length := by
  simp [paddingTotal]

theorem length_le_payloads (records : List DataRecord) :
    records.length ≤ (payloads records).length := by
  induction records with
  | nil => simp
  | cons r rest ih =>
      have := r.payload_length_pos
      simp only [payloads, List.map_cons, List.flatten_cons, List.length_append,
        List.length_cons] at ih ⊢
      omega

/-- No record takes more than a known number of bytes. -/
theorem wires_length_le (index : ℕ) (records : List DataRecord) :
    (wires index records).length + 32 * records.length ≤ records.length * 2097216 := by
  induction records generalizing index with
  | nil => simp [wires]
  | cons r rest ih =>
      have hrest := ih (index + 1)
      obtain ⟨-, hmax, -⟩ := r.ciphertext_length_bounds
      have hlimit : maxDataCiphertextLen = 2097168 := by decide
      rw [hlimit] at hmax
      rw [wires, List.length_append, recordBytes_length, List.length_cons, recordHeaderSize]
      omega

/-- What records take on the wire besides their payloads. -/
theorem wires_length_le_payloads (index : ℕ) (records : List DataRecord) :
    (wires index records).length ≤ (payloads records).length + 1063 * records.length := by
  induction records generalizing index with
  | nil => simp [wires]
  | cons r rest ih =>
      have hrest := ih (index + 1)
      have hlength := r.fits.length
      have hlt := paddedLen_lt (dataPrefixSize + r.payload.length)
      have hsize := r.size
      rw [aeadTagSize] at hsize
      rw [dataPrefixSize] at hlength hlt
      rw [wires, List.length_append, recordBytes_length, List.length_cons, recordHeaderSize]
      simp only [payloads, List.map_cons, List.flatten_cons, List.length_append] at hrest ⊢
      omega

theorem paddingTotal_le (records : List DataRecord) :
    paddingTotal records ≤ records.length * 2097152 := by
  induction records with
  | nil => simp [paddingTotal]
  | cons r rest ih =>
      obtain ⟨-, hmax, -⟩ := r.fits.length_bounds
      have hpadding : r.padding.length ≤ (dataBytes r.payload r.padding).length := by
        simp only [dataBytes, List.length_append]
        omega
      simp only [paddingTotal, List.map_cons, List.sum_cons, List.length_cons] at ih ⊢
      omega

/-! ### The writer after some records -/

/-- The writer has written the records; the rest of what it was given is
pending. -/
structure AuthenticatedWriter.Wrote (suite : Suite) (w : AuthenticatedWriter)
    (records : List DataRecord) : Prop where
  noncePrefix : w.noncePrefix = w.header.noncePrefix
  nextIndex : w.nextIndex = records.length
  dataRecords : w.dataRecords = records.length
  padding : w.paddingBytes = paddingTotal records
  authentication : w.authenticationBytes = aeadTagSize * records.length
  archive : w.archiveBytes = headerSize + (wires 0 records).length
  transcript : w.transcript = newTranscript w.header ++ wires 0 records
  hashed : w.coreHashed = payloads records ++ w.pending
  plaintextBytes : w.corePlaintextBytes = w.coreHashed.length
  logged : w.log = seals w.header 0 records
  encrypted : ∀ s ∈ w.log, suite.aead.encrypt w.key s.nonce s.aad s.message = some s.ciphertext

theorem wrote_initial (suite : Suite) (key : Bytes) (header : Header) :
    (AuthenticatedWriter.initial key header).Wrote suite [] where
  noncePrefix := rfl
  nextIndex := rfl
  dataRecords := rfl
  padding := rfl
  authentication := rfl
  archive := rfl
  transcript := by simp [AuthenticatedWriter.initial, wires]
  hashed := rfl
  plaintextBytes := rfl
  logged := rfl
  encrypted := by simp [AuthenticatedWriter.initial]

/-- The writer after a record of the given kind. -/
def AuthenticatedWriter.afterRecord (w : AuthenticatedWriter) (kind : UInt8)
    (plaintext ciphertext : Bytes) (includeInTranscript : Bool) : AuthenticatedWriter :=
  { w with
    transcript :=
      if includeInTranscript then w.transcript ++ recordBytes w.nextIndex kind ciphertext
      else w.transcript
    archiveBytes := w.archiveBytes + (recordHeaderSize + ciphertext.length)
    authenticationBytes := w.authenticationBytes + aeadTagSize
    nextIndex := w.nextIndex + 1
    log := w.log ++ [{ sealOf w.header w.nextIndex kind plaintext ciphertext with
      nonce := nonce w.noncePrefix w.nextIndex }] }

/-- A record that was written, and what the writer knows of it. -/
structure AuthenticatedWriter.Writes (suite : Suite) (w w' : AuthenticatedWriter) (kind : UInt8)
    (plaintext ciphertext : Bytes) (includeInTranscript : Bool) (written : List Bytes) : Prop where
  sealed : suite.aead.encrypt w.key (nonce w.noncePrefix w.nextIndex)
    (sealOf w.header w.nextIndex kind plaintext ciphertext).aad plaintext = some ciphertext
  size : ciphertext.length = plaintext.length + aeadTagSize
  short : ciphertext.length < 2 ^ 32
  index : w.nextIndex + 1 < 2 ^ 64
  state : w' = w.afterRecord kind plaintext ciphertext includeInTranscript
  wire : written.flatten = recordBytes w.nextIndex kind ciphertext

theorem writeEncryptedRecord_inv {suite : Suite} {w w' : AuthenticatedWriter} {kind : UInt8}
    {plaintext : Bytes} {includeInTranscript : Bool} {src src' : ByteSource} {written : List Bytes}
    (h : (w.writeEncryptedRecord suite kind plaintext includeInTranscript).Yields src w' written
      src') :
    ∃ ciphertext, w.Writes suite w' kind plaintext ciphertext includeInTranscript written := by
  obtain ⟨record, hrecord, h⟩ := ofExcept_bind_inv h
  obtain ⟨-, hshort, rfl⟩ := RecordHeader.new_ok hrecord
  obtain ⟨ciphertext, hencrypt, h⟩ := ofOption_bind_inv h
  obtain ⟨hsize, h⟩ := require_bind_inv h
  rw [← hsize] at hshort hencrypt h
  obtain ⟨_, htotals, rfl⟩ := (writeAll_yields _ _).bind_inv_of h
  obtain ⟨-, htotals⟩ := checkedAdd_bind_inv htotals
  obtain ⟨-, htotals⟩ := checkedAdd_bind_inv htotals
  obtain ⟨hindex, htotals⟩ := checkedAdd_bind_inv htotals
  obtain ⟨rfl, rfl, -⟩ := ret_inv htotals
  exact ⟨ciphertext, hencrypt, hsize, hshort, hindex, rfl, by simp [recordBytes]⟩

/-- The writer took `given`, which led to new records and the writes. -/
structure AuthenticatedWriter.Extends (suite : Suite) (w w' : AuthenticatedWriter)
    (records new : List DataRecord) (given : Bytes) (written : List Bytes) : Prop where
  wrote : w'.Wrote suite (records ++ new)
  header : w'.header = w.header
  key : w'.key = w.key
  hashed : w'.coreHashed = w.coreHashed ++ given
  wire : written.flatten = wires records.length new

namespace AuthenticatedWriter

variable {suite : Suite} {w w' w'' : AuthenticatedWriter} {records : List DataRecord}

theorem Wrote.extends_self (h : w.Wrote suite records) : w.Extends suite w records [] [] [] where
  wrote := by simpa using h
  header := rfl
  key := rfl
  hashed := by simp
  wire := rfl

theorem Extends.trans {a b : List DataRecord} {g₁ g₂ : Bytes} {o₁ o₂ : List Bytes}
    (h₁ : w.Extends suite w' records a g₁ o₁) (h₂ : w'.Extends suite w'' (records ++ a) b g₂ o₂) :
    w.Extends suite w'' records (a ++ b) (g₁ ++ g₂) (o₁ ++ o₂) where
  wrote := by
    rw [← List.append_assoc]
    exact h₂.wrote
  header := h₂.header.trans h₁.header
  key := h₂.key.trans h₁.key
  hashed := by rw [h₂.hashed, h₁.hashed, List.append_assoc]
  wire := by
    rw [List.flatten_append, h₁.wire, h₂.wire, wires_append, List.length_append]

/-- Sealing the pending bytes appends one record with them as its payload. -/
theorem sealDataRecord_inv {random : Randomness} (h : w.Wrote suite records)
    (hpending : w.pending ≠ []) {src src' : ByteSource} {written : List Bytes}
    (hrun : (w.sealDataRecord suite random).Yields src w' written src') :
    ∃ r : DataRecord, r.payload = w.pending ∧ w'.pending = [] ∧
      w.Extends suite w' records [r] [] written := by
  unfold sealDataRecord at hrun
  rw [if_neg (by simpa using hpending)] at hrun
  obtain ⟨⟨plaintext, paddingLen⟩, hplaintext, hrun⟩ := ofExcept_bind_inv hrun
  obtain ⟨padding, rfl, rfl, hfits⟩ :=
    dataPlaintext_ok (random.padding_length w.nextIndex) hplaintext
  obtain ⟨w₁, out, _, _, hwrite, htotals, rfl⟩ := hrun.bind_inv
  obtain ⟨ciphertext, hsealed, hsize, -, -, rfl, hwire⟩ := writeEncryptedRecord_inv hwrite
  obtain ⟨-, htotals⟩ := checkedAdd_bind_inv htotals
  obtain ⟨-, htotals⟩ := checkedAdd_bind_inv htotals
  obtain ⟨rfl, rfl, -⟩ := ret_inv htotals
  let r : DataRecord := ⟨w.pending, padding, ciphertext, hfits, hsize⟩
  have hwires : wires 0 (records ++ [r]) =
      wires 0 records ++ recordBytes w.nextIndex dataRecordKind ciphertext := by
    rw [wires_append, h.nextIndex]
    simp [wires, r]
  have hseals : seals w.header 0 (records ++ [r]) =
      seals w.header 0 records ++ [r.sealed w.header w.nextIndex] := by
    rw [seals_append, h.nextIndex]
    simp [seals]
  refine ⟨r, rfl, rfl, ?_, rfl, rfl, by simp [afterRecord], ?_⟩
  · constructor
    · exact h.noncePrefix
    · change w.nextIndex + 1 = _
      rw [h.nextIndex, List.length_append, List.length_singleton]
    · change w.dataRecords + 1 = _
      rw [h.dataRecords, List.length_append, List.length_singleton]
    · change w.paddingBytes + padding.length = _
      rw [h.padding, paddingTotal_append, paddingTotal_singleton]
    · change w.authenticationBytes + aeadTagSize = _
      rw [h.authentication, List.length_append, List.length_singleton, Nat.mul_add, Nat.mul_one]
    · change w.archiveBytes + (recordHeaderSize + ciphertext.length) = _
      rw [h.archive, hwires, List.length_append, recordBytes_length, Nat.add_assoc]
    · change w.transcript ++ recordBytes w.nextIndex dataRecordKind ciphertext =
        newTranscript w.header ++ _
      rw [h.transcript, hwires, List.append_assoc]
    · change w.coreHashed = _
      rw [h.hashed, payloads_append, payloads_singleton]
      simp [r, afterRecord]
    · exact h.plaintextBytes
    · change w.log ++ [_] = seals w.header 0 _
      rw [hseals, h.logged, h.noncePrefix]
      rfl
    · intro s hs
      rcases List.mem_append.mp hs with hs | hs
      · exact h.encrypted s hs
      · obtain rfl := List.mem_singleton.mp hs
        exact hsealed
  · rw [List.flatten_append, hwire, ← h.nextIndex]
    simp [wires, r]

/-- What a writer was given and not yet sealed is less than a full payload. -/
structure Open (suite : Suite) (w : AuthenticatedWriter) (records : List DataRecord) : Prop where
  wrote : w.Wrote suite records
  full : ∀ r ∈ records, r.payload.length = maxDataPayload
  pending : w.pending.length < maxDataPayload

/-- The writer with more bytes pending. -/
def collect (w : AuthenticatedWriter) (chunk : Bytes) : AuthenticatedWriter :=
  { w with
    pending := w.pending ++ chunk
    coreHashed := w.coreHashed ++ chunk
    corePlaintextBytes := w.corePlaintextBytes + chunk.length }

theorem Wrote.collect (h : w.Wrote suite records) (chunk : Bytes) :
    w.Extends suite (w.collect chunk) records [] chunk [] where
  wrote := by
    obtain ⟨h₁, h₂, h₃, h₄, h₅, h₆, h₇, hhashed, hbytes, h₁₀, h₁₁⟩ := h
    rw [List.append_nil]
    refine ⟨h₁, h₂, h₃, h₄, h₅, h₆, h₇, ?_, ?_, h₁₀, h₁₁⟩
    · change w.coreHashed ++ _ = payloads records ++ (w.pending ++ _)
      rw [hhashed, List.append_assoc]
    · change w.corePlaintextBytes + chunk.length = (w.coreHashed ++ _).length
      rw [List.length_append, hbytes]
  header := rfl
  key := rfl
  hashed := rfl
  wire := rfl

/-- A full payload is sealed; less than that stays pending. -/
theorem sealFullPayload_inv {random : Randomness} (h : w.Wrote suite records)
    (hfull : ∀ r ∈ records, r.payload.length = maxDataPayload)
    (hpending : w.pending.length ≤ maxDataPayload) {src src' : ByteSource} {written : List Bytes}
    (hrun : (w.sealFullPayload suite random).Yields src w' written src') :
    ∃ new, w'.Open suite (records ++ new) ∧ w.Extends suite w' records new [] written := by
  unfold sealFullPayload at hrun
  by_cases hlength : w.pending.length = maxDataPayload
  · rw [if_pos hlength] at hrun
    have hne : w.pending ≠ [] := by
      intro hnil
      rw [hnil] at hlength
      cases hlength
    obtain ⟨r, hr, hempty, hextends⟩ := sealDataRecord_inv h hne (mapError_inv hrun)
    refine ⟨[r], ⟨hextends.wrote, ?_, by rw [hempty]; decide⟩, hextends⟩
    intro r' hr'
    rcases List.mem_append.mp hr' with hr' | hr'
    · exact hfull r' hr'
    · rw [List.mem_singleton.mp hr', hr, hlength]
  · rw [if_neg hlength] at hrun
    obtain ⟨rfl, rfl, -⟩ := ret_inv hrun
    rw [← List.append_nil records] at h hfull
    exact ⟨[], ⟨h, hfull, by omega⟩, by simpa using h.extends_self⟩

/-- What one round of the loop takes of a buffer. -/
def taken (w : AuthenticatedWriter) (buffer : Bytes) : ℕ :=
  min (maxDataPayload - w.pending.length) buffer.length

/-- A round of the loop: the bytes are collected and sealed when they fill a
payload. -/
theorem writeLoop_succ (random : Randomness) (rounds : ℕ) {buffer : Bytes} (hbuffer : buffer ≠ []) :
    w.writeLoop suite random (rounds + 1) buffer =
      (checkedAdd 64 w.corePlaintextBytes (buffer.take (w.taken buffer)).length
        (.io { kind := .other, message := "inner plaintext byte count overflows" })).bind fun _ =>
      ((w.collect (buffer.take (w.taken buffer))).sealFullPayload suite random).bind fun w' =>
        w'.writeLoop suite random rounds (buffer.drop (w.taken buffer)) := by
  have hlength : (buffer.take (w.taken buffer)).length = w.taken buffer := by
    rw [List.length_take, taken]
    omega
  rw [writeLoop, if_neg (by simpa using hbuffer), hlength, collect, hlength]
  unfold checkedAdd taken
  by_cases hsum : w.corePlaintextBytes + min (maxDataPayload - w.pending.length) buffer.length <
      2 ^ 64
  · simp only [if_pos hsum]
    rfl
  · simp only [if_neg hsum]
    rfl

theorem Open.round (h : w.Open suite records) {buffer : Bytes} (hbuffer : buffer ≠ []) :
    (buffer.drop (w.taken buffer)).length < buffer.length ∧
      (w.collect (buffer.take (w.taken buffer))).pending.length ≤ maxDataPayload := by
  have hpending := h.pending
  have hpos := List.length_pos_iff.mpr hbuffer
  constructor
  · rw [List.length_drop, taken]
    omega
  · change (w.pending ++ _).length ≤ _
    rw [List.length_append, List.length_take, taken]
    omega

/-- The loop of `write` seals every payload that gets full. -/
theorem writeLoop_inv {random : Randomness} (rounds : ℕ) (h : w.Open suite records)
    {buffer : Bytes} (hrounds : buffer.length ≤ rounds) {src src' : ByteSource}
    {written : List Bytes}
    (hrun : (w.writeLoop suite random rounds buffer).Yields src w' written src') :
    ∃ new, w'.Open suite (records ++ new) ∧ w.Extends suite w' records new buffer written := by
  induction rounds generalizing w records buffer src written with
  | zero =>
      obtain rfl : buffer = [] := List.eq_nil_of_length_eq_zero (by omega)
      obtain ⟨rfl, rfl, -⟩ := ret_inv hrun
      exact ⟨[], by simpa using h, h.wrote.extends_self⟩
  | succ rounds ih =>
      by_cases hbuffer : buffer = []
      · rw [writeLoop, if_pos (by simpa using hbuffer)] at hrun
        obtain ⟨rfl, rfl, -⟩ := ret_inv hrun
        rw [hbuffer]
        exact ⟨[], by simpa using h, h.wrote.extends_self⟩
      · rw [writeLoop_succ random rounds hbuffer] at hrun
        obtain ⟨-, hrun⟩ := checkedAdd_bind_inv hrun
        obtain ⟨w₂, out, _, rest, hseal, hloop, rfl⟩ := hrun.bind_inv
        obtain ⟨hleft, hpending⟩ := h.round hbuffer
        have hmore := h.wrote.collect (buffer.take (w.taken buffer))
        have hwrote := hmore.wrote
        rw [List.append_nil] at hwrote
        obtain ⟨new, hopen, hextends⟩ := sealFullPayload_inv hwrote h.full hpending hseal
        obtain ⟨more, hopen', hextends'⟩ := ih hopen (by omega) hloop
        refine ⟨new ++ more, by simpa using hopen', ?_⟩
        have htrans := (hmore.trans (by simpa using hextends)).trans (by simpa using hextends')
        simpa using htrans

end AuthenticatedWriter

end MosaicArchive.Authenticated
