import MosaicArchive.Container.Frames

/-!
Archives as sequences of sealed frames, each bound to its place by the nonce and the associated data.
Under an ideal scheme the reader of a frame finds the frame that was sealed for its index under the
same public header, and nothing else.
-/

namespace MosaicArchive.Container

open FixedWidth Except MosaicArchive.Manifest

/-! ### Frame headers -/

theorem FrameHeader.exact_of_pack {h : FrameHeader} {b : Bytes} (hb : h.pack = some b) :
    Struct.Exact frameHeaderLayout (h.index, h.frameType, h.ciphertextLength, ()) := by
  obtain ⟨_, bs, hindex, hbs, rfl⟩ := Struct.pack_cons.mp hb
  obtain ⟨_, bs', htype, hbs', rfl⟩ := Struct.pack_cons.mp hbs
  obtain ⟨_, _, hlength, -, rfl⟩ := Struct.pack_cons.mp hbs'
  simp only [Struct.Field.pack, Option.ite_none_right_eq_some] at hindex htype hlength
  exact ⟨hindex.1, htype.1, hlength.1, trivial⟩

theorem FrameHeader.pack_inj {h h' : FrameHeader} {b : Bytes} (hb : h.pack = some b)
    (hb' : h'.pack = some b) : h = h' := by
  obtain ⟨c, hc, hunpack⟩ := Struct.unpack_pack (exact_of_pack hb)
  obtain ⟨c', hc', hunpack'⟩ := Struct.unpack_pack (exact_of_pack hb')
  obtain rfl : c = b := Option.some.inj (hc.symm.trans hb)
  obtain rfl : c' = c := Option.some.inj (hc'.symm.trans hb')
  have hfields := hunpack.symm.trans hunpack'
  cases h
  cases h'
  cases hfields
  rfl

/-! ### Sealed frames -/

/-- A frame, with what was sealed in it. -/
structure SealedFrame where
  frameType : ℕ
  payload : Bytes
  padded : Bytes
  frameBytes : Bytes
  ciphertext : Bytes

namespace SealedFrame

variable (f : FrameFormat) (index : ℕ) (x : SealedFrame)

def bytes : Bytes := x.frameBytes ++ x.ciphertext

def nonce : Bytes := f.noncePrefix ++ beBytes 8 index

def associatedData : Bytes := f.globalHeader ++ x.frameBytes

def sealed : Aead.Sealed := ⟨nonce f index, x.associatedData f, x.padded, x.ciphertext⟩

/-- The frame is as `_write_frame` makes it. -/
structure Made (urandom : Urandom) : Prop where
  padded : padPayload urandom x.payload f.paddingSize = .ok x.padded
  frameBytes : FrameHeader.pack ⟨index, x.frameType, x.padded.length + aeadTagLength⟩ =
    some x.frameBytes
  index_lt : index < 256 ^ 8

end SealedFrame

/-- The frames of one run of an encoder, from the index 0 on. -/
structure SealedArchive where
  format : FrameFormat
  urandom : Urandom
  frames : List SealedFrame

namespace SealedArchive

variable (a : SealedArchive)

/-- The archive up to a frame. -/
def upTo (count : ℕ) : Bytes :=
  a.format.globalHeader ++ (a.frames.take count).flatMap SealedFrame.bytes

def bytes : Bytes := a.format.globalHeader ++ a.frames.flatMap SealedFrame.bytes

def log : List Aead.Sealed := a.frames.zipIdx.map fun item => item.1.sealed a.format item.2

def Valid : Prop := ∀ item ∈ a.frames.zipIdx, item.1.Made a.format item.2 a.urandom

variable {a}

theorem upTo_zero : a.upTo 0 = a.format.globalHeader := List.append_nil _

theorem upTo_succ {count : ℕ} {x : SealedFrame} (hx : a.frames[count]? = some x) :
    a.upTo (count + 1) = a.upTo count ++ x.bytes := by
  rw [upTo, upTo, List.take_add_one, hx, List.flatMap_append, List.append_assoc, Option.toList_some,
    List.flatMap_singleton]

theorem upTo_length : a.upTo a.frames.length = a.bytes := by
  rw [upTo, bytes, List.take_length]

theorem upTo_prefix (count : ℕ) : a.upTo count <+: a.bytes := by
  refine ⟨(a.frames.drop count).flatMap SealedFrame.bytes, ?_⟩
  rw [upTo, bytes, List.append_assoc, ← List.flatMap_append, List.take_append_drop]

theorem mem_log {s : Aead.Sealed} : s ∈ a.log ↔
    ∃ (index : ℕ) (x : SealedFrame), a.frames[index]? = some x ∧ x.sealed a.format index = s := by
  rw [log, List.mem_map]
  constructor
  · rintro ⟨⟨x, index⟩, hx, rfl⟩
    exact ⟨index, x, List.mem_zipIdx_iff_getElem?.mp hx, rfl⟩
  · rintro ⟨index, x, hx, rfl⟩
    exact ⟨⟨x, index⟩, List.mem_zipIdx_iff_getElem?.mpr hx, rfl⟩

end SealedArchive

/-! ### Reading under an ideal scheme -/

/-- A frame is read where its header is in order and its ciphertext opens. -/
theorem accepts_readFrame {cipher : Aead} {f : FrameFormat} {key input rest payload : Bytes}
    {index frameType length : ℕ}
    (h : (readFrame cipher f key index frameType).Accepts input (payload, length) rest) :
    ∃ frameBytes ciphertext padded, input = frameBytes ++ ciphertext ++ rest ∧
      FrameHeader.pack ⟨index, frameType, ciphertext.length⟩ = some frameBytes ∧
      cipher.decrypt key (f.noncePrefix ++ beBytes 8 index) (f.globalHeader ++ frameBytes)
        ciphertext = some padded ∧ unpadPayload padded = .ok payload := by
  simp only [readFrame, ByteParser.accepts_bind, ByteParser.accepts_lift,
    ByteParser.accepts_exactly, ByteParser.accepts_pure, ofOption_eq_ok] at h
  obtain ⟨frameBytes, _, ⟨-, rfl⟩, ⟨index', frameType', length'⟩, _, ⟨hparse, rfl⟩, _, _, ⟨hcheck, rfl⟩,
    ciphertext, _, ⟨rfl, rfl⟩, nonce, _, ⟨hnonce, rfl⟩, padded, _, ⟨hopen, rfl⟩, payload', _,
    ⟨hunpad, rfl⟩, hlast, rfl⟩ := h
  obtain ⟨rfl, rfl⟩ := Prod.mk.inj hlast
  obtain ⟨⟨rfl, rfl⟩, -⟩ := checkFrame_eq_ok.mp hcheck
  simp only [frameNonce, bind_eq_ok_iff, raiseIf_eq_ok, exists_and_left, exists_const, pure,
    Except.pure, ok.injEq] at hnonce
  obtain ⟨-, -, rfl⟩ := hnonce
  exact ⟨frameBytes, ciphertext, padded, (List.append_assoc ..).symm,
    (parseFrameHeader_eq_ok.mp hparse).2, hopen, hunpad⟩

variable {cipher : Aead} {keys : Set Bytes} {archives : Set SealedArchive}

/-- Under an ideal scheme a frame that is read was sealed for this index, under this header. -/
theorem readFrame_sealed
    (hopens : cipher.OpensOnly keys {s | ∃ a ∈ archives, s ∈ a.log})
    (hvalid : ∀ a ∈ archives, a.Valid) {f : FrameFormat} {key input rest payload : Bytes}
    (hkey : key ∈ keys) {index frameType length : ℕ}
    (h : (readFrame cipher f key index frameType).Accepts input (payload, length) rest) :
    ∃ a ∈ archives, a.format.globalHeader = f.globalHeader ∧ ∃ x, a.frames[index]? = some x ∧
      input = x.bytes ++ rest ∧ unpadPayload x.padded = .ok payload := by
  obtain ⟨frameBytes, ciphertext, padded, rfl, hpack, hopen, hunpad⟩ := accepts_readFrame h
  obtain ⟨a, ha, hlog⟩ := hopens key hkey _ _ _ _ hopen
  obtain ⟨index', x, hx, hsealed⟩ := SealedArchive.mem_log.mp hlog
  have hmade := hvalid a ha (x, index') (List.mem_zipIdx_iff_getElem?.mpr hx)
  obtain ⟨-, haad, rfl, rfl⟩ := Aead.Sealed.mk.inj hsealed
  have hlength : x.frameBytes.length = frameBytes.length := by
    rw [Struct.pack_length hmade.frameBytes, Struct.pack_length hpack]
  obtain ⟨hheader, rfl⟩ := List.append_inj' haad hlength
  have hindex : index' = index :=
    congrArg FrameHeader.index (FrameHeader.pack_inj hmade.frameBytes hpack)
  rw [hindex] at hx
  exact ⟨a, ha, hheader, x, hx, rfl, hunpad⟩

/-- With the headers of the archives all different, the reader stays with one of them. -/
theorem readFrame_next
    (hopens : cipher.OpensOnly keys {s | ∃ a ∈ archives, s ∈ a.log})
    (hvalid : ∀ a ∈ archives, a.Valid)
    (hheaders : ∀ a ∈ archives, ∀ a' ∈ archives,
      a.format.globalHeader = a'.format.globalHeader → a = a')
    {f : FrameFormat} {key rest rest' payload : Bytes} (hkey : key ∈ keys) {a : SealedArchive}
    (ha : a ∈ archives) (hf : a.format.globalHeader = f.globalHeader) {index frameType length : ℕ}
    (h : (readFrame cipher f key index frameType).Accepts rest (payload, length) rest') :
    a.upTo index ++ rest = a.upTo (index + 1) ++ rest' ∧ index < a.frames.length := by
  obtain ⟨a', ha', hf', x, hx, rfl, -⟩ := readFrame_sealed hopens hvalid hkey h
  obtain rfl : a = a' := hheaders a ha a' ha' (hf.trans hf'.symm)
  refine ⟨?_, (List.getElem?_eq_some_iff.mp hx).1⟩
  rw [SealedArchive.upTo_succ hx, List.append_assoc]

end MosaicArchive.Container
