import MosaicArchive.Container.Headers
import MosaicArchive.Crypto.Aead
import MosaicArchive.Manifest.Dedup
import MosaicArchive.Manifest.Stream

/-!
The frames of the MSC2 and MSC6 containers (`mosaic_archive/padding.py`, and
`_write_frame` and `_read_frame` of `stream_archive.py` and `dedup_archive.py`).
A payload is padded to whole blocks and encrypted; the reader bounds the
ciphertext before it reads it. A frame is read back exactly if its padded
payload and the tag stay within that bound.
-/

namespace MosaicArchive.Container

open FixedWidth Except MosaicArchive.Manifest

/-! ### Padding -/

/-- `os.urandom` -/
structure Urandom where
  bytes : ℕ → Bytes
  length_eq : ∀ n, (bytes n).length = n

/-- `((n + block_size - 1) // block_size) * block_size` -/
def roundUp (n blockSize : ℕ) : ℕ := (n + blockSize - 1) / blockSize * blockSize

/-- `_LENGTH.size` -/
def lengthSize : ℕ := 8

def padPayload (urandom : Urandom) (payload : Bytes) (blockSize : ℕ) : Except PyError Bytes := do
  raiseIf (blockSize < 256 ∨ 16 * 1024 * 1024 < blockSize)
    (.value "padding size must be between 256 bytes and 16 MiB")
  let envelopeSize := lengthSize + payload.length
  let paddedSize := roundUp envelopeSize blockSize
  raiseIf (256 ^ 8 ≤ payload.length) .struct
  .ok (beBytes 8 payload.length ++ payload ++ urandom.bytes (paddedSize - envelopeSize))

def unpadPayload (padded : Bytes) : Except PyError Bytes := do
  raiseIf (padded.length < lengthSize) (.archiveFormat "encrypted payload is too short")
  let payloadLength := beNat (padded.take 8)
  raiseIf (padded.length - lengthSize < payloadLength)
    (.archiveFormat "encrypted payload length is invalid")
  .ok (slice padded lengthSize (lengthSize + payloadLength))

theorem roundUp_le_iff {n blockSize k : ℕ} (hpos : 0 < blockSize) :
    roundUp n blockSize ≤ k * blockSize ↔ n ≤ k * blockSize := by
  rw [roundUp, Nat.mul_le_mul_right_iff hpos, ← Nat.lt_succ_iff, Nat.div_lt_iff_lt_mul hpos,
    Nat.succ_mul]
  omega

theorem le_roundUp (n : ℕ) {blockSize : ℕ} (hpos : 0 < blockSize) : n ≤ roundUp n blockSize :=
  (roundUp_le_iff hpos).mp le_rfl

theorem roundUp_lt (n : ℕ) {blockSize : ℕ} (hpos : 0 < blockSize) :
    roundUp n blockSize < n + blockSize := by
  have := Nat.div_mul_le_self (n + blockSize - 1) blockSize
  rw [roundUp]
  omega

theorem roundUp_mod (n blockSize : ℕ) : roundUp n blockSize % blockSize = 0 := Nat.mul_mod_left _ _

/-- A payload is padded to the next whole block, and unpadded again. -/
theorem padPayload_unpad (urandom : Urandom) {payload : Bytes} {blockSize : ℕ}
    (hsize : 256 ≤ blockSize ∧ blockSize ≤ 16 * 1024 * 1024) (hpayload : payload.length < 256 ^ 8) :
    ∃ padded, padPayload urandom payload blockSize = .ok padded ∧
      padded.length = roundUp (lengthSize + payload.length) blockSize ∧
      unpadPayload padded = .ok payload := by
  have hle := le_roundUp (lengthSize + payload.length) (show 0 < blockSize by omega)
  let fill := urandom.bytes (roundUp (lengthSize + payload.length) blockSize -
    (lengthSize + payload.length))
  have hlength : (beBytes 8 payload.length ++ payload ++ fill).length =
      roundUp (lengthSize + payload.length) blockSize := by
    simp only [fill, List.length_append, beBytes_length, urandom.length_eq]
    rw [lengthSize] at hle ⊢
    omega
  refine ⟨beBytes 8 payload.length ++ payload ++ fill, ?_, hlength, ?_⟩
  · have hvalid : ¬ (blockSize < 256 ∨ 16 * 1024 * 1024 < blockSize) := by omega
    simp only [padPayload, raiseIf, if_neg hvalid, if_neg (Nat.not_le.mpr hpayload), bind,
      Except.bind, fill]
  · have htake : (beBytes 8 payload.length ++ (payload ++ fill)).take 8 =
        beBytes 8 payload.length := List.take_left' (beBytes_length 8 _)
    have hslice : slice (beBytes 8 payload.length ++ (payload ++ fill)) lengthSize
        (lengthSize + payload.length) = payload := by
      have hdrop : (beBytes 8 payload.length ++ (payload ++ fill)).drop lengthSize = payload ++ fill :=
        List.drop_left' (beBytes_length 8 _)
      rw [slice, hdrop, Nat.add_sub_cancel_left, List.take_left]
    rw [List.append_assoc] at hlength ⊢
    have hshort : ¬ (beBytes 8 payload.length ++ (payload ++ fill)).length < lengthSize := by
      omega
    have hinside : ¬ (beBytes 8 payload.length ++ (payload ++ fill)).length - lengthSize <
        payload.length := by omega
    simp only [unpadPayload, raiseIf, if_neg hshort, htake, beNat_beBytes_of_lt hpayload,
      if_neg hinside, hslice, bind, Except.bind]

/-! ### Frames -/

/-- What the two containers differ in, and the fields of the public header a frame needs. -/
structure FrameFormat where
  /-- The container, as the messages name it. -/
  name : String
  truncated : String → PyError
  /-- The bound on the ciphertext of a data frame. -/
  dataLimit : ℕ
  paddingSize : ℕ
  noncePrefix : Bytes
  globalHeader : Bytes

/-- `DATA_PREFIX` of `stream_archive`: `struct.Struct(">IIB")` -/
def streamDataPrefix : Struct.Layout := [.uint 4, .uint 4, .uint 1]

/-- `DATA_PREFIX` of `dedup_archive`: `struct.Struct(">QIB")` -/
def dedupDataPrefix : Struct.Layout := [.uint 8, .uint 4, .uint 1]

def Msc2Header.frameFormat (h : Msc2Header) (globalHeader : Bytes) : FrameFormat where
  name := "MSC2"
  truncated := msc2Truncated
  dataLimit := h.chunkSize + h.paddingSize + Struct.size streamDataPrefix + 32
  paddingSize := h.paddingSize
  noncePrefix := h.noncePrefix
  globalHeader := globalHeader

def Msc3Header.frameFormat (h : Msc3Header) (globalHeader : Bytes) : FrameFormat where
  name := "MSC3"
  truncated := msc3Truncated
  dataLimit := h.maxChunkSize + h.paddingSize + Struct.size dedupDataPrefix + 32
  paddingSize := h.paddingSize
  noncePrefix := h.noncePrefix
  globalHeader := globalHeader

/-- `maximum` in `_read_frame` -/
def FrameFormat.limit (f : FrameFormat) (frameType : ℕ) : ℕ :=
  if frameType = frameManifest then maxManifestCiphertext else f.dataLimit

def ofOption {α : Type} (x : Option α) (e : PyError) : Except PyError α :=
  match x with
  | none => .error e
  | some a => .ok a

section

variable (cipher : Aead) (urandom : Urandom) (f : FrameFormat) (key : Bytes)

/-- `_write_frame`: what it writes. -/
def writeFrame (index frameType : ℕ) (payload : Bytes) : Except PyError Bytes := do
  let padded ← padPayload urandom payload f.paddingSize
  let frame : FrameHeader := ⟨index, frameType, padded.length + aeadTagLength⟩
  let frameBytes ← ofOption frame.pack .struct
  let nonce ← frameNonce f.noncePrefix index
  let ciphertext ← ofOption (cipher.encrypt key nonce (f.globalHeader ++ frameBytes) padded)
    (.runtime "encrypt")
  .ok (frameBytes ++ ciphertext)

/-- The checks on a frame header before its ciphertext is read. -/
def checkFrame (index frameType : ℕ) (frame : FrameHeader) : Except PyError Unit := do
  raiseIf (frame.index ≠ index ∨ frame.frameType ≠ frameType)
    (.archiveFormat (f.name ++ " frame " ++ toString index ++ " is out of order"))
  raiseIf ((frame.ciphertextLength - aeadTagLength) % f.paddingSize ≠ 0)
    (.archiveFormat (f.name ++ " frame " ++ toString index ++ " violates its padding policy"))
  raiseIf (f.limit frameType < frame.ciphertextLength)
    (.archiveFormat (f.name ++ " frame " ++ toString index ++ " exceeds its resource limit"))

/-- `_read_frame`: the payload and the length of the padded payload. -/
def readFrame (index frameType : ℕ) : ByteParser PyError (Bytes × ℕ) := do
  let frameBytes ← ByteParser.exactly (Struct.size frameHeaderLayout)
    (f.truncated ("frame " ++ toString index ++ " header"))
  let frame ← ByteParser.lift (parseFrameHeader frameBytes)
  ByteParser.lift (checkFrame f index frameType frame)
  let ciphertext ← ByteParser.exactly frame.ciphertextLength
    (f.truncated ("frame " ++ toString index ++ " ciphertext"))
  let nonce ← ByteParser.lift (frameNonce f.noncePrefix index)
  let padded ← ByteParser.lift (ofOption
    (cipher.decrypt key nonce (f.globalHeader ++ frameBytes) ciphertext)
    (.authentication "wrong password or archive was modified"))
  let payload ← ByteParser.lift (unpadPayload padded)
  pure (payload, padded.length)

/-- The frame of a payload is written, and read back wherever it stands. -/
def ReadsBack (index frameType : ℕ) (payload : Bytes) : Prop :=
  ∃ frame padded, writeFrame cipher urandom f key index frameType payload = .ok frame ∧
    ∀ rest, (readFrame cipher f key index frameType).Accepts (frame ++ rest) (payload, padded) rest

end

theorem ofOption_eq_ok {α : Type} {x : Option α} {e : PyError} {a : α} :
    ofOption x e = .ok a ↔ x = some a := by
  cases x <;> simp [ofOption]

theorem checkFrame_eq_ok {f : FrameFormat} {index frameType : ℕ} {frame : FrameHeader} {u : Unit} :
    checkFrame f index frameType frame = .ok u ↔
      (frame.index = index ∧ frame.frameType = frameType) ∧
        (frame.ciphertextLength - aeadTagLength) % f.paddingSize = 0 ∧
        frame.ciphertextLength ≤ f.limit frameType := by
  simp only [checkFrame, bind_eq_ok_iff, raiseIf_eq_ok, not_or, not_not, not_lt, exists_and_left,
    exists_const]

theorem frameNonce_eq {noncePrefix : Bytes} {index : ℕ} (hlength : noncePrefix.length = noncePrefixLength)
    (hindex : index < 256 ^ 8) :
    frameNonce noncePrefix index = .ok (noncePrefix ++ beBytes 8 index) := by
  simp only [frameNonce, raiseIf, hlength, ne_eq, not_true_eq_false, if_false,
    if_neg (Nat.not_le.mpr hindex), bind, Except.bind, pure, Except.pure]

/-- The public header fields a frame is written and read with. -/
structure FrameFormat.Valid (f : FrameFormat) : Prop where
  paddingSize : 256 ≤ f.paddingSize ∧ f.paddingSize ≤ maxPaddingSize
  noncePrefix : f.noncePrefix.length = noncePrefixLength

theorem Msc2Header.Valid.frameFormat {h : Msc2Header} (hv : h.Valid) (globalHeader : Bytes) :
    (h.frameFormat globalHeader).Valid := ⟨hv.paddingSize, hv.noncePrefix⟩

theorem Msc3Header.Valid.frameFormat {h : Msc3Header} (hv : h.Valid) (globalHeader : Bytes) :
    (h.frameFormat globalHeader).Valid := ⟨hv.paddingSize, hv.noncePrefix⟩

/-- Where the first part accepts, the rest of a parser runs on what is left. -/
theorem bind_eq_of_accepts {ε α β : Type} {p : ByteParser ε α} {k : α → ByteParser ε β}
    {input mid : Bytes} {a : α} (h : p.Accepts input a mid) : (p >>= k) input = k a mid := by
  show Except.bind (p input) (fun r => k r.1 r.2) = k a mid
  rw [ByteParser.accepts_iff.mp h]
  rfl

theorem lift_bind_error {ε α β : Type} {x : Except ε α} {k : α → ByteParser ε β} {e : ε}
    (h : x = .error e) (input : Bytes) : (ByteParser.lift x >>= k) input = .error e := by
  subst h
  rfl

/-- What `_write_frame` writes: a header that is parsed back, and a ciphertext that opens to the
padded payload. -/
theorem writeFrame_spec {cipher : Aead} (hcipher : cipher.Inverts) (urandom : Urandom)
    {f : FrameFormat} (hf : f.Valid) (key : Bytes) {index frameType : ℕ} {payload : Bytes}
    (hindex : index < 256 ^ 8) (htype : frameType = frameManifest ∨ frameType = frameData)
    (hfits : roundUp (lengthSize + payload.length) f.paddingSize + aeadTagLength < 256 ^ 4) :
    ∃ frameBytes ciphertext padded,
      writeFrame cipher urandom f key index frameType payload = .ok (frameBytes ++ ciphertext) ∧
      frameBytes.length = Struct.size frameHeaderLayout ∧
      parseFrameHeader frameBytes = .ok ⟨index, frameType, ciphertext.length⟩ ∧
      ciphertext.length = roundUp (lengthSize + payload.length) f.paddingSize + aeadTagLength ∧
      cipher.decrypt key (f.noncePrefix ++ beBytes 8 index) (f.globalHeader ++ frameBytes)
        ciphertext = some padded ∧
      unpadPayload padded = .ok payload := by
  have hblock : 0 < f.paddingSize := by
    have := hf.paddingSize
    omega
  have hpayload : payload.length < 256 ^ 8 := by
    have hle := le_roundUp (lengthSize + payload.length) hblock
    omega
  obtain ⟨padded, hpad, hlength, hunpad⟩ := padPayload_unpad urandom hf.paddingSize hpayload
  have hframe : FrameHeader.Valid ⟨index, frameType, padded.length + aeadTagLength⟩ := by
    refine ⟨hindex, htype, Nat.le_add_left _ _, ?_⟩
    rw [hlength]
    exact hfits
  have hexact : Struct.Exact frameHeaderLayout (index, frameType, padded.length + aeadTagLength, ()) := by
    refine ⟨hindex, ?_, hframe.length_lt, trivial⟩
    show frameType < 256 ^ 1
    have hmanifest : frameManifest < 256 ^ 1 := by decide
    have hdata : frameData < 256 ^ 1 := by decide
    rcases htype with rfl | rfl
    · exact hmanifest
    · exact hdata
  obtain ⟨frameBytes, hframeBytes, -⟩ := Struct.unpack_pack hexact
  have hnonce := frameNonce_eq hf.noncePrefix hindex
  obtain ⟨ciphertext, hencrypt, htag, hdecrypt⟩ := hcipher key (f.noncePrefix ++ beBytes 8 index)
    (f.globalHeader ++ frameBytes) padded
  have htagged : padded.length + aeadTagLength = ciphertext.length := htag.symm
  refine ⟨frameBytes, ciphertext, padded, ?_, Struct.pack_length hframeBytes, ?_, ?_, hdecrypt, hunpad⟩
  · have hpack : ofOption (FrameHeader.pack ⟨index, frameType, padded.length + aeadTagLength⟩)
        PyError.struct = .ok frameBytes := ofOption_eq_ok.mpr hframeBytes
    have hsealed : ofOption (cipher.encrypt key (f.noncePrefix ++ beBytes 8 index)
        (f.globalHeader ++ frameBytes) padded) (.runtime "encrypt") = .ok ciphertext :=
      ofOption_eq_ok.mpr hencrypt
    simp only [writeFrame, hpad, hpack, hnonce, hsealed, bind, Except.bind]
  · rw [← htagged]
    exact parseFrameHeader_eq_ok.mpr ⟨hframe, hframeBytes⟩
  · rw [← htagged, hlength]

/-- A frame whose length fits its field is read back where its ciphertext is within the limit of
its type; otherwise the reader refuses it. -/
theorem readFrame_writeFrame {cipher : Aead} (hcipher : cipher.Inverts) (urandom : Urandom)
    {f : FrameFormat} (hf : f.Valid) (key : Bytes) {index frameType : ℕ} {payload : Bytes}
    (hindex : index < 256 ^ 8) (htype : frameType = frameManifest ∨ frameType = frameData)
    (hfits : roundUp (lengthSize + payload.length) f.paddingSize + aeadTagLength < 256 ^ 4) :
    ∃ frame padded, writeFrame cipher urandom f key index frameType payload = .ok frame ∧
      ∀ rest, readFrame cipher f key index frameType (frame ++ rest) =
        if roundUp (lengthSize + payload.length) f.paddingSize + aeadTagLength ≤ f.limit frameType then
          .ok ((payload, padded), rest)
        else .error (.archiveFormat
          (f.name ++ " frame " ++ toString index ++ " exceeds its resource limit")) := by
  obtain ⟨frameBytes, ciphertext, padded, hwrite, hsize, hparse, hlength, hdecrypt, hunpad⟩ :=
    writeFrame_spec hcipher urandom hf key hindex htype hfits
  refine ⟨frameBytes ++ ciphertext, padded.length, hwrite, fun rest => ?_⟩
  have hmod : (ciphertext.length - aeadTagLength) % f.paddingSize = 0 := by
    rw [hlength, Nat.add_sub_cancel, roundUp_mod]
  have hheader : ByteParser.Accepts (ByteParser.exactly (Struct.size frameHeaderLayout)
      (f.truncated ("frame " ++ toString index ++ " header")))
      (frameBytes ++ ciphertext ++ rest) frameBytes (ciphertext ++ rest) :=
    ByteParser.accepts_exactly.mpr ⟨hsize, List.append_assoc _ _ _⟩
  rw [← hlength]
  split_ifs with hlimit
  · have hcheck : checkFrame f index frameType ⟨index, frameType, ciphertext.length⟩ = .ok () :=
      checkFrame_eq_ok.mpr ⟨⟨rfl, rfl⟩, hmod, hlimit⟩
    apply ByteParser.accepts_iff.mp
    simp only [readFrame, ByteParser.accepts_bind, ByteParser.accepts_exactly,
      ByteParser.accepts_lift, ByteParser.accepts_pure]
    exact ⟨frameBytes, _, ⟨hsize, List.append_assoc _ _ _⟩, _, _, ⟨hparse, rfl⟩, (), _, ⟨hcheck, rfl⟩,
      ciphertext, rest, ⟨rfl, rfl⟩, _, _, ⟨frameNonce_eq hf.noncePrefix hindex, rfl⟩, padded, _,
      ⟨ofOption_eq_ok.mpr hdecrypt, rfl⟩, payload, _, ⟨hunpad, rfl⟩, rfl, rfl⟩
  · have hcheck : checkFrame f index frameType ⟨index, frameType, ciphertext.length⟩ = .error
        (.archiveFormat (f.name ++ " frame " ++ toString index ++ " exceeds its resource limit")) := by
      simp only [checkFrame, raiseIf, hmod, ne_eq, not_true_eq_false, or_self, if_false,
        if_pos (Nat.not_le.mp hlimit), bind, Except.bind]
    have hparsed : (ByteParser.lift (parseFrameHeader frameBytes)).Accepts (ciphertext ++ rest)
        ⟨index, frameType, ciphertext.length⟩ (ciphertext ++ rest) :=
      ByteParser.accepts_lift.mpr ⟨hparse, rfl⟩
    rw [readFrame, bind_eq_of_accepts hheader, bind_eq_of_accepts hparsed, lift_bind_error hcheck]

/-- A frame whose length fits its field is read back exactly if its ciphertext is within the
limit of its type. -/
theorem readsBack_iff {cipher : Aead} (hcipher : cipher.Inverts) (urandom : Urandom)
    {f : FrameFormat} (hf : f.Valid) (key : Bytes) {index frameType : ℕ} {payload : Bytes}
    (hindex : index < 256 ^ 8) (htype : frameType = frameManifest ∨ frameType = frameData)
    (hfits : roundUp (lengthSize + payload.length) f.paddingSize + aeadTagLength < 256 ^ 4) :
    ReadsBack cipher urandom f key index frameType payload ↔
      roundUp (lengthSize + payload.length) f.paddingSize + aeadTagLength ≤ f.limit frameType := by
  obtain ⟨frame, padded, hwrite, hread⟩ :=
    readFrame_writeFrame hcipher urandom hf key hindex htype hfits
  constructor
  · rintro ⟨frame', padded', hwrite', haccepts⟩
    obtain rfl := Except.ok.inj (hwrite.symm.trans hwrite')
    by_contra hlimit
    have hrefused := hread []
    rw [if_neg hlimit] at hrefused
    cases hrefused.symm.trans (haccepts [])
  · intro hlimit
    refine ⟨frame, padded, hwrite, fun rest => ?_⟩
    rw [ByteParser.accepts_iff, hread, if_pos hlimit]

end MosaicArchive.Container
