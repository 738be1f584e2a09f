import MosaicArchive.Bytes.Cut
import MosaicArchive.Container.FrameLimits
import MosaicArchive.Solid.LaneFrames

/-!
The two writers of a solid lane are one: each cuts the compressed lane into full frames and
a last one. The frames take the bytes that `solid_lane_framed_size` tells, and the reader
gets the payload back from their number and its size, and from no other number.
-/

namespace MosaicArchive.Solid

open FixedWidth MosaicArchive.Manifest MosaicArchive.Container Cut
open Routine (raise raiseIf lift forEach)

/-- What `_validate_options` admits, with a start index in its range. -/
structure LaneOptions.Valid (o : LaneOptions) : Prop where
  lane : o.lane ∈ validLanes
  noncePrefix : o.noncePrefix.length = 4
  framePayloadSize : 1024 ≤ o.framePayloadSize ∧ o.framePayloadSize ≤ 16 * 1024 * 1024
  paddingSize : 256 ≤ o.paddingSize ∧ o.paddingSize ≤ o.framePayloadSize
  startIndex : o.startIndex ≤ 0xFFFFFFFF

/-! ### One frame -/

def LaneOptions.ciphertextLength (o : LaneOptions) (size : ℕ) : ℕ :=
  roundUp (8 + size) o.paddingSize + aeadTagLength

/-- The frame of a payload: its header, and a ciphertext that opens to the padded payload. -/
structure IsFrame (cipher : Aead) (o : LaneOptions) (index : ℕ) (final : Bool)
    (payload frame : Bytes) : Prop where
  parts : ∃ header ciphertext padded, frame = header ++ ciphertext ∧
    header.length = Struct.size laneFrameHeader ∧
    Struct.unpack laneFrameHeader header =
      (index, o.lane, if final then flagFinal else 0, ciphertext.length, ()) ∧
    ciphertext.length = o.ciphertextLength payload.length ∧
    cipher.decrypt o.key (o.noncePrefix ++ beBytes 8 index) (o.associatedData ++ header) ciphertext =
      some padded ∧
    unpadPayload padded = .ok payload

theorem IsFrame.length {cipher : Aead} {o : LaneOptions} {index : ℕ} {final : Bool}
    {payload frame : Bytes} (h : IsFrame cipher o index final payload frame) :
    frame.length = Struct.size laneFrameHeader + o.ciphertextLength payload.length := by
  obtain ⟨header, ciphertext, padded, rfl, hheader, -, hlength, -⟩ := h.parts
  rw [List.length_append, hheader, hlength]

section

variable {cipher : Aead} {urandom : ℕ → Urandom} {o : LaneOptions}

theorem ciphertextLength_lt (hv : o.Valid) {size : ℕ} (hsize : size ≤ o.framePayloadSize) :
    o.ciphertextLength size < 256 ^ 4 := by
  have hpadding := hv.paddingSize
  have hframe := hv.framePayloadSize
  have hlt := roundUp_lt (8 + size) (show 0 < o.paddingSize by omega)
  rw [LaneOptions.ciphertextLength, aeadTagLength]
  omega

def indexExceeded : PyError := .value "solid frame index exceeds the uint32 range"

/-- Both ways of emitting a frame write the same one, or raise without writing. -/
theorem emit_cases (hcipher : cipher.Inverts) (hv : o.Valid) (e : Emitted) {payload : Bytes}
    (hpayload : payload.length ≤ o.framePayloadSize) (final : Bool) :
    (0xFFFFFFFF < e.index ∧ emit cipher urandom o e payload final = raise indexExceeded ∧ ∀ size,
        emitPrecompressed cipher urandom o { e with compressedSize := size } payload final =
          raise indexExceeded) ∨
      ∃ frame, e.index ≤ 0xFFFFFFFF ∧ IsFrame cipher o e.index final payload frame ∧
        emit cipher urandom o e payload final = (fun dest => (.ok ⟨e.index + 1,
          e.compressedSize + payload.length, e.paddedSize + roundUp (8 + payload.length) o.paddingSize,
          max e.maximum payload.length⟩, dest ++ frame)) ∧ ∀ size,
        emitPrecompressed cipher urandom o { e with compressedSize := size } payload final =
          fun dest => (.ok ⟨e.index + 1, size,
            e.paddedSize + roundUp (8 + payload.length) o.paddingSize, max e.maximum payload.length⟩,
            dest ++ frame) := by
  have hpadding := hv.paddingSize
  have hframe := hv.framePayloadSize
  rcases Nat.lt_or_ge 0xFFFFFFFF e.index with hindex | hindex
  · refine Or.inl ⟨hindex, ?_, fun size => ?_⟩
    · unfold emit
      rw [raiseIf, if_pos hindex]
      rfl
    · unfold emitPrecompressed
      rw [raiseIf, if_pos hindex]
      rfl
  · right
    obtain ⟨padded, hpad, hlength, hunpad⟩ := padPayload_unpad (urandom e.index)
      (show 256 ≤ o.paddingSize ∧ o.paddingSize ≤ 16 * 1024 * 1024 by omega)
      (show payload.length < 256 ^ 8 by omega)
    have hpadded : padded.length = roundUp (8 + payload.length) o.paddingSize := hlength
    have hexact : Struct.Exact laneFrameHeader
        (e.index, o.lane, if final then flagFinal else 0, padded.length + aeadTagLength, ()) := by
      have hlane : o.lane < 256 := by
        have hmem := hv.lane
        simp only [validLanes, laneStandard, laneDelta4, laneHighEntropy, List.mem_cons,
          List.not_mem_nil, or_false] at hmem
        omega
      have hfits := ciphertextLength_lt hv hpayload
      refine ⟨?_, hlane, ?_, ?_, trivial⟩
      · show e.index < 256 ^ 4
        omega
      · show (if final then flagFinal else 0) < 256 ^ 1
        split <;> decide
      · show padded.length + aeadTagLength < 256 ^ 4
        rw [hlength]
        exact hfits
    obtain ⟨header, hheader, hunpack⟩ := Struct.unpack_pack hexact
    obtain ⟨ciphertext, hencrypt, htag, hdecrypt⟩ := hcipher o.key (o.noncePrefix ++ beBytes 8 e.index)
      (o.associatedData ++ header) padded
    have hnonce := frameNonce_eq hv.noncePrefix (show e.index < 256 ^ 8 by omega)
    have hpack : packHeader o e.index final padded.length =
        (pure header : Writing Bytes) := by
      rw [packHeader, hheader]
      rfl
    have hsealed : encryptFrame cipher o e.index header padded = (pure ciphertext : Writing Bytes) := by
      rw [encryptFrame, hnonce]
      show (lift (ofOption (cipher.encrypt _ _ _ _) _) : Writing Bytes) = _
      rw [hencrypt]
      rfl
    refine ⟨header ++ ciphertext, hindex, ⟨header, ciphertext, padded, rfl,
      Struct.pack_length hheader, ?_, ?_, hdecrypt, hunpad⟩, ?_, fun size => ?_⟩
    · rw [hunpack, htag]
      rfl
    · rw [htag, hlength]
      rfl
    · unfold emit
      rw [raiseIf, if_neg (Nat.not_lt.mpr hindex), hpad]
      funext dest
      show (packHeader o e.index final padded.length >>= _ : Writing Emitted) dest = _
      rw [hpack]
      show (encryptFrame cipher o e.index header padded >>= _ : Writing Emitted) dest = _
      rw [hsealed, ← List.append_assoc, ← hpadded]
      rfl
    · unfold emitPrecompressed
      rw [raiseIf, if_neg (Nat.not_lt.mpr hindex), hpad]
      funext dest
      show (packHeader o e.index final padded.length >>= _ : Writing Emitted) dest = _
      rw [hpack]
      show (encryptFrame cipher o e.index header padded >>= _ : Writing Emitted) (dest ++ header) = _
      rw [hsealed, ← List.append_assoc, ← hpadded]
      rfl

/-! ### The frames of a payload -/

/-- Emit the pieces of a payload, the last of them as the final frame. -/
def emitPieces (emitOne : Emitted → Bytes → Bool → Writing Emitted) :
    Emitted → List Bytes → Writing Emitted
  | e, [] => pure e
  | e, [x] => emitOne e x true
  | e, x :: y :: rest => do
      let e ← emitOne e x false
      emitPieces emitOne e (y :: rest)

theorem emitPieces_cons {emitOne : Emitted → Bytes → Bool → Writing Emitted} {e : Emitted} {x : Bytes}
    {rest : List Bytes} (h : rest ≠ []) :
    emitPieces emitOne e (x :: rest) = emitOne e x false >>= fun e => emitPieces emitOne e rest := by
  cases rest with
  | nil => exact absurd rfl h
  | cons y rest => rfl

/-- Emit what is left as the last frames. -/
def emitLast (cipher : Aead) (urandom : ℕ → Urandom) (o : LaneOptions) (e : Emitted)
    (pending : Bytes) : Writing Emitted := do
  let (e, pending) ← emitFull cipher urandom o pending.length e pending
  emit cipher urandom o e pending true

/-- The full frames of what is pending come first, whatever is to follow. -/
theorem emitFull_pieces (hsize : 0 < o.framePayloadSize) {rounds : ℕ} {e : Emitted} {pending : Bytes}
    (hrounds : pending.length ≤ rounds) (later : Bytes) :
    (emitFull cipher urandom o rounds e pending >>= fun x =>
        emitPieces (emit cipher urandom o) x.1 (cut o.framePayloadSize (x.2 ++ later))) =
      emitPieces (emit cipher urandom o) e (cut o.framePayloadSize (pending ++ later)) := by
  induction rounds generalizing e pending with
  | zero => rfl
  | succ rounds ih =>
      rw [emitFull]
      split
      · rename_i hlt
        rw [cut_append hsize hlt, emitPieces_cons (cut_ne_nil _ _), Routine.bind_assoc]
        congr 1
        funext e'
        apply ih
        rw [List.length_drop]
        omega
      · rfl

theorem emitLast_eq (hsize : 0 < o.framePayloadSize) (e : Emitted) (pending : Bytes) :
    emitLast cipher urandom o e pending =
      emitPieces (emit cipher urandom o) e (cut o.framePayloadSize pending) := by
  have hloop : ∀ (rounds : ℕ) (e : Emitted) (pending : Bytes), pending.length ≤ rounds →
      (emitFull cipher urandom o rounds e pending >>= fun x => emit cipher urandom o x.1 x.2 true) =
        emitPieces (emit cipher urandom o) e (cut o.framePayloadSize pending) := by
    intro rounds
    induction rounds with
    | zero =>
        intro e pending hrounds
        rw [cut_of_le (by omega)]
        rfl
    | succ rounds ih =>
        intro e pending hrounds
        rw [emitFull]
        split
        · rename_i hlt
          rw [cut_of_lt hsize hlt, emitPieces_cons (cut_ne_nil _ _), Routine.bind_assoc]
          congr 1
          funext e'
          apply ih
          rw [List.length_drop]
          omega
        · rw [cut_of_le (by omega)]
          rfl
  exact hloop pending.length e pending le_rfl

/-- All that a compressor makes of the blocks of a source. -/
def compressed (c : IncrementalCompressor) : c.State → List Bytes → Bytes
  | state, [] => c.flush state
  | state, block :: blocks => (c.compress state block).1 ++ compressed c (c.compress state block).2 blocks

/-- The writer that compresses emits the pieces of the compressed lane. -/
theorem forEach_compressBlock (hsize : 0 < o.framePayloadSize) (c : IncrementalCompressor)
    (blocks : List Bytes) (state : c.State) (e : Emitted) (pending : Bytes) :
    (forEach (compressBlock cipher urandom o c) blocks (state, e, pending) >>= fun x =>
        emitLast cipher urandom o x.2.1 (x.2.2 ++ c.flush x.1)) =
      emitPieces (emit cipher urandom o) e
        (cut o.framePayloadSize (pending ++ compressed c state blocks)) := by
  induction blocks generalizing state e pending with
  | nil => exact emitLast_eq hsize e _
  | cons block blocks ih =>
      have hfull := @emitFull_pieces cipher urandom o hsize _ e (pending ++ (c.compress state block).1)
        le_rfl (compressed c (c.compress state block).2 blocks)
      rw [compressed, ← List.append_assoc, ← hfull, forEach, Routine.bind_assoc, compressBlock,
        Routine.bind_assoc]
      congr 1
      funext x
      exact ih _ x.1 x.2

/-- The spool holds the compressed lane. -/
theorem forEach_spoolBlock (c : IncrementalCompressor) (blocks : List Bytes) (state : c.State)
    (size : ℕ) (spool : Bytes) :
    (forEach (spoolBlock c) blocks (state, size) >>= fun x => do
        write (c.flush x.1)
        pure (x.2 + (c.flush x.1).length) : Writing ℕ) spool =
      (.ok (size + (compressed c state blocks).length), spool ++ compressed c state blocks) := by
  induction blocks generalizing state size spool with
  | nil => rfl
  | cons block blocks ih =>
      have hnext := ih (c.compress state block).2 (size + (c.compress state block).1.length)
        (spool ++ (c.compress state block).1)
      rw [compressed, List.length_append, ← List.append_assoc, ← Nat.add_assoc, ← hnext]
      rfl

/-- The writer that is given a size emits the pieces of its source. -/
theorem emitRemaining_eq (hsize : 0 < o.framePayloadSize) {rounds : ℕ} {source : Bytes}
    (hrounds : source.length ≤ rounds) (hsource : source ≠ []) (e : Emitted) :
    emitRemaining cipher urandom o rounds source source.length e =
      emitPieces (emitPrecompressed cipher urandom o) e (cut o.framePayloadSize source) >>=
        fun e => pure ([], e) := by
  induction rounds generalizing source e with
  | zero =>
      exact absurd (List.eq_nil_of_length_eq_zero (by omega)) hsource
  | succ rounds ih =>
      have hpos := List.length_pos_iff.mpr hsource
      rw [emitRemaining, if_neg (by omega)]
      rcases Nat.lt_or_ge o.framePayloadSize source.length with hlt | hge
      · have hmin : min o.framePayloadSize source.length = o.framePayloadSize := by omega
        have hlength : (source.take o.framePayloadSize).length = o.framePayloadSize := by
          rw [List.length_take, hmin]
        have hdrop : source.length - o.framePayloadSize = (source.drop o.framePayloadSize).length := by
          rw [List.length_drop]
        have hrest : source.drop o.framePayloadSize ≠ [] := by
          apply List.ne_nil_of_length_pos
          omega
        dsimp only
        rw [hmin, raiseIf, if_neg (by rw [hlength]; simp), cut_of_lt hsize hlt,
          emitPieces_cons (cut_ne_nil _ _), Routine.bind_assoc, hdrop,
          decide_eq_false (by omega : ¬ (source.drop o.framePayloadSize).length = 0)]
        show (emitPrecompressed cipher urandom o e _ false >>= _) = _
        congr 1
        funext e'
        exact ih (by omega) hrest e'
      · have hmin : min o.framePayloadSize source.length = source.length := by omega
        dsimp only
        rw [hmin, List.take_length, raiseIf, if_neg (by simp), cut_of_le hge, Nat.sub_self,
          decide_eq_true rfl, List.drop_length]
        show (emitPrecompressed cipher urandom o e source true >>= _) = _
        congr 1
        funext e'
        cases rounds <;> rfl

/-- Frames of these pieces, one after the other, under successive indices. -/
inductive Framed (cipher : Aead) (o : LaneOptions) : ℕ → List Bytes → Bytes → Prop where
  | last {index : ℕ} {x frame : Bytes} (h : IsFrame cipher o index true x frame) :
      Framed cipher o index [x] frame
  | more {index : ℕ} {x y frame frames : Bytes} {rest : List Bytes}
      (h : IsFrame cipher o index false x frame) (hrest : Framed cipher o (index + 1) (y :: rest) frames) :
      Framed cipher o index (x :: y :: rest) (frame ++ frames)

/-- Both ways of emitting write the same frames; they stop alike where the indices run out. -/
theorem emitPieces_cases (hcipher : cipher.Inverts) (hv : o.Valid) {pieces : List Bytes}
    (hfull : Full o.framePayloadSize pieces) (e : Emitted) (dest : Bytes) :
    (∃ written, 2 ^ 32 < e.index + pieces.length ∧
      emitPieces (emit cipher urandom o) e pieces dest = (.error indexExceeded, written) ∧
      ∀ size, emitPieces (emitPrecompressed cipher urandom o) { e with compressedSize := size } pieces
        dest = (.error indexExceeded, written)) ∨
      ∃ frames paddedSize maximum, Framed cipher o e.index pieces frames ∧
        e.index + pieces.length ≤ 2 ^ 32 ∧
        emitPieces (emit cipher urandom o) e pieces dest =
          (.ok ⟨e.index + pieces.length, e.compressedSize + pieces.flatten.length, paddedSize, maximum⟩,
            dest ++ frames) ∧
        ∀ size, emitPieces (emitPrecompressed cipher urandom o) { e with compressedSize := size } pieces
          dest = (.ok ⟨e.index + pieces.length, size, paddedSize, maximum⟩, dest ++ frames) := by
  induction hfull generalizing e dest with
  | @last x hx =>
      rcases @emit_cases cipher urandom o hcipher hv e x hx true with
        ⟨hindex, hemit, hpre⟩ | ⟨frame, hindex, hframe, hemit, hpre⟩
      · refine Or.inl ⟨dest, ?_, ?_, fun size => ?_⟩
        · rw [List.length_singleton]
          omega
        · rw [emitPieces, hemit]
          rfl
        · rw [emitPieces, hpre]
          rfl
      · refine Or.inr ⟨frame, e.paddedSize + roundUp (8 + x.length) o.paddingSize,
          max e.maximum x.length, .last hframe, ?_, ?_, fun size => ?_⟩
        · rw [List.length_singleton]
          omega
        · rw [emitPieces, hemit, List.flatten_singleton]
          rfl
        · rw [emitPieces, hpre]
          rfl
  | @more x y rest hx _ ih =>
      rcases @emit_cases cipher urandom o hcipher hv e x hx.le false with
        ⟨hindex, hemit, hpre⟩ | ⟨frame, -, hframe, hemit, hpre⟩
      · refine Or.inl ⟨dest, ?_, ?_, fun size => ?_⟩
        · rw [List.length_cons]
          omega
        · rw [emitPieces, hemit]
          rfl
        · rw [emitPieces, hpre]
          rfl
      · have hindex : e.index + 1 + (y :: rest).length = e.index + (x :: y :: rest).length := by
          simp only [List.length_cons]
          omega
        have hcount : e.compressedSize + x.length + (y :: rest).flatten.length =
            e.compressedSize + (x :: y :: rest).flatten.length := by
          have hflatten : (x :: y :: rest).flatten = x ++ (y :: rest).flatten := List.flatten_cons
          rw [hflatten, List.length_append, Nat.add_assoc]
        rcases ih ⟨e.index + 1, e.compressedSize + x.length,
            e.paddedSize + roundUp (8 + x.length) o.paddingSize, max e.maximum x.length⟩
            (dest ++ frame) with
          ⟨written, hout, hnext, hnextPre⟩ | ⟨frames, paddedSize, maximum, hframes, hin, hnext, hnextPre⟩
        · refine Or.inl ⟨written, by rwa [← hindex], ?_, fun size => ?_⟩
          · rw [emitPieces, hemit]
            exact hnext
          · rw [emitPieces, hpre]
            exact hnextPre size
        · rw [hindex, hcount, List.append_assoc] at hnext
          refine Or.inr ⟨frame ++ frames, paddedSize, maximum, .more hframe hframes, by rwa [← hindex],
            ?_, fun size => ?_⟩
          · rw [emitPieces, hemit]
            exact hnext
          · have hnextSize := hnextPre size
            rw [hindex, List.append_assoc] at hnextSize
            rw [emitPieces, hpre]
            exact hnextSize

/-! ### The writers -/

theorem validate_eq (hv : o.Valid) : o.validate = (pure () : Writing Unit) := by
  have hframe := hv.framePayloadSize
  have hpadding := hv.paddingSize
  rw [LaneOptions.validate, raiseIf, if_neg (not_not.mpr hv.lane), raiseIf,
    if_neg (not_not.mpr hv.noncePrefix), raiseIf, if_neg (not_not.mpr hframe), raiseIf,
    if_neg (not_not.mpr hpadding)]
  rfl

theorem validateReading_eq (hv : o.Valid) : o.validateReading = (pure () : Reading Unit) := by
  funext streams
  show ((o.validate []).1, streams) = _
  rw [validate_eq hv]
  rfl

/-- The writer that is given a size, on the whole of a source. -/
theorem writePrecompressed_eq (hv : o.Valid) (source : Bytes) :
    writePrecompressedSolidLaneFrames cipher urandom o source source.length =
      emitPieces (emitPrecompressed cipher urandom o) o.started (cut o.framePayloadSize source) >>=
        fun e => pure ⟨e.index - o.startIndex, e.index, source.length, e.paddedSize, e.maximum⟩ := by
  have hframe := hv.framePayloadSize
  have hsize : 0 < o.framePayloadSize := by omega
  rw [writePrecompressedSolidLaneFrames, validate_eq hv]
  show (raiseIf (0xFFFFFFFF < o.startIndex) _ >>= _ : Writing SolidFrameWriteStats) = _
  rw [raiseIf, if_neg (Nat.not_lt.mpr hv.startIndex)]
  by_cases hsource : source = []
  · subst hsource
    rw [cut_of_le (Nat.zero_le _)]
    rfl
  · have hne : source.length ≠ 0 := fun h => hsource (List.eq_nil_of_length_eq_zero h)
    rw [if_neg hne]
    show (emitRemaining cipher urandom o source.length source source.length o.started >>= _) = _
    rw [emitRemaining_eq hsize le_rfl hsource, Routine.bind_assoc]
    rfl

theorem writeSolidLaneFrames_eq (hv : o.Valid) (compressors : Codecs IncrementalCompressor)
    (source : Reads) (rawLzma2 : Bool) (codec : Option ℕ) {c : IncrementalCompressor}
    (hselect : compressors.select "compressing" o.lane rawLzma2 codec = .ok c) :
    writeSolidLaneFrames cipher urandom o compressors source rawLzma2 codec =
      emitPieces (emit cipher urandom o) o.started
          (cut o.framePayloadSize (compressed c c.initial source.blocks)) >>=
        fun e => pure ⟨e.index - o.startIndex, e.index, e.compressedSize, e.paddedSize, e.maximum⟩ := by
  have hframe := hv.framePayloadSize
  have hloop := @forEach_compressBlock cipher urandom o (by omega) c source.blocks c.initial o.started []
  rw [List.nil_append] at hloop
  rw [← hloop, Routine.bind_assoc, writeSolidLaneFrames, validate_eq hv]
  show (raiseIf (0xFFFFFFFF < o.startIndex) _ >>= _ : Writing SolidFrameWriteStats) = _
  rw [raiseIf, if_neg (Nat.not_lt.mpr hv.startIndex), hselect]
  show (forEach _ _ _ >>= _) = _
  congr 1
  funext x
  rw [emitLast, Routine.bind_assoc]

theorem compressSolidLane_eq (hv : o.Valid) (compressors : Codecs IncrementalCompressor)
    (source : Reads) (rawLzma2 : Bool) (codec : Option ℕ) {c : IncrementalCompressor}
    (hselect : compressors.select "compressing" o.lane rawLzma2 codec = .ok c) :
    compressSolidLane compressors source o.lane rawLzma2 codec [] =
      (.ok (compressed c c.initial source.blocks).length, compressed c c.initial source.blocks) := by
  have hloop := forEach_spoolBlock c source.blocks c.initial 0 []
  rw [Nat.zero_add, List.nil_append] at hloop
  rw [compressSolidLane, raiseIf, if_neg (not_not.mpr hv.lane), hselect]
  exact hloop

/-- The two writers are one. -/
theorem writeSolidLaneFrames_eq_compressThenWrite (hcipher : cipher.Inverts) (hv : o.Valid)
    (compressors : Codecs IncrementalCompressor) (source : Reads) (rawLzma2 : Bool)
    (codec : Option ℕ) :
    writeSolidLaneFrames cipher urandom o compressors source rawLzma2 codec =
      compressThenWrite cipher urandom o compressors source rawLzma2 codec := by
  have hframe := hv.framePayloadSize
  cases hselect : compressors.select "compressing" o.lane rawLzma2 codec with
  | error error =>
      rw [writeSolidLaneFrames, compressThenWrite, compressSolidLane, validate_eq hv, hselect]
      show (raiseIf (0xFFFFFFFF < o.startIndex) _ >>= _ : Writing SolidFrameWriteStats) = _
      rw [raiseIf, if_neg (Nat.not_lt.mpr hv.startIndex), raiseIf, if_neg (not_not.mpr hv.lane)]
      rfl
  | ok c =>
      rw [writeSolidLaneFrames_eq hv compressors source rawLzma2 codec hselect, compressThenWrite,
        compressSolidLane_eq hv compressors source rawLzma2 codec hselect]
      generalize compressed c c.initial source.blocks = spool
      show _ = writePrecompressedSolidLaneFrames cipher urandom o spool spool.length
      rw [writePrecompressed_eq hv]
      funext dest
      rcases @emitPieces_cases cipher urandom o hcipher hv _ (cut_full (by omega) spool) o.started dest
        with ⟨written, -, hemit, hpre⟩ | ⟨frames, paddedSize, maximum, -, -, hemit, hpre⟩
      · have hstarted : emitPieces (emitPrecompressed cipher urandom o) o.started
            (cut o.framePayloadSize spool) dest = (.error indexExceeded, written) := hpre 0
        exact (Routine.bind_error hemit).trans (Routine.bind_error hstarted).symm
      · have hstarted : emitPieces (emitPrecompressed cipher urandom o) o.started
            (cut o.framePayloadSize spool) dest = (.ok ⟨o.started.index + _, 0, paddedSize, maximum⟩,
              dest ++ frames) := hpre 0
        have hcount : o.started.compressedSize + (cut o.framePayloadSize spool).flatten.length =
            spool.length := by
          rw [cut_flatten]
          exact Nat.zero_add _
        rw [hcount] at hemit
        refine (Routine.bind_ok hemit).trans (Eq.trans ?_ (Routine.bind_ok hstarted).symm)
        rfl

/-! ### Sizes -/

theorem Framed.length {index : ℕ} {pieces : List Bytes} {frames : Bytes}
    (h : Framed cipher o index pieces frames) : frames.length =
      (pieces.map fun x => Struct.size laneFrameHeader + o.ciphertextLength x.length).sum := by
  induction h with
  | last h => rw [List.map_singleton, List.sum_singleton, h.length]
  | more h _ ih => rw [List.length_append, List.map_cons, List.sum_cons, h.length, ih]

/-- The size that is told without a lane at hand. -/
theorem solidLaneFramedSize_eq (hv : o.Valid) {index : ℕ} {payload frames : Bytes}
    (hpayload : payload ≠ []) (h : Framed cipher o index (cut o.framePayloadSize payload) frames) :
    solidLaneFramedSize payload.length o.framePayloadSize o.paddingSize = .ok frames.length := by
  have hframe := hv.framePayloadSize
  have hpadding := hv.paddingSize
  have hpos := List.length_pos_iff.mpr hpayload
  have hsum := sum_cut (show 0 < o.framePayloadSize by omega)
    (fun size => Struct.size laneFrameHeader + o.ciphertextLength size) hpayload
  rw [h.length, hsum, solidLaneFramedSize, Except.raiseIf, if_neg (by omega)]
  show (if (payload.length : ℤ) = 0 then _ else _) = _
  rw [if_neg (by omega), Except.raiseIf, if_neg (not_not.mpr hframe), Except.raiseIf,
    if_neg (not_not.mpr hpadding)]
  rfl

/-! ### The reader -/

theorem readExact_append {field : Bytes} {size : ℕ} (h : field.length = size) (description : String)
    (rest dest : Bytes) :
    readExact size description ⟨field ++ rest, dest⟩ = (.ok field, ⟨rest, dest⟩) := by
  have htake : (field ++ rest).take size = field := List.take_left' h
  have hdrop : (field ++ rest).drop size = rest := List.drop_left' h
  unfold readExact
  show (raiseIf ((List.take size (field ++ rest)).length ≠ size) _ >>= fun _ =>
    pure ((field ++ rest).take size) : Reading Bytes) ⟨(field ++ rest).drop size, dest⟩ = _
  rw [htake, hdrop, raiseIf, if_neg (not_not.mpr h)]
  rfl

/-- A frame is read back under its index and its mark. -/
theorem readLaneFrame_frame (hv : o.Valid) {index : ℕ} (hindex : index < 256 ^ 8) {final : Bool}
    {payload frame : Bytes} (h : IsFrame cipher o index final payload frame)
    (hpayload : payload.length ≤ o.framePayloadSize)
    (hfull : final = false → payload.length = o.framePayloadSize) (rest dest : Bytes) :
    readLaneFrame cipher o index final ⟨frame ++ rest, dest⟩ = (.ok payload, ⟨rest, dest⟩) := by
  obtain ⟨header, ciphertext, padded, rfl, hheader, hunpack, hlength, hdecrypt, hunpad⟩ := h.parts
  have hcheck : checkLaneHeader o index final index o.lane (if final then flagFinal else 0)
      ciphertext.length = (pure () : Reading Unit) := by
    have hle : roundUp (8 + payload.length) o.paddingSize ≤ roundUp (8 + o.framePayloadSize) o.paddingSize :=
      Nat.mul_le_mul_right _ (Nat.div_le_div_right (by omega))
    have hmod : (ciphertext.length - aeadTagLength) % o.paddingSize = 0 := by
      rw [hlength, LaneOptions.ciphertextLength, Nat.add_sub_cancel, roundUp_mod]
    rw [checkLaneHeader, raiseIf, if_neg]
    rw [hlength] at hmod ⊢
    unfold LaneOptions.ciphertextLength at hmod ⊢
    simp only [ne_eq, not_true_eq_false, hmod, or_false, false_or, not_or, not_lt]
    omega
  have hbound : (raiseIf (o.framePayloadSize < payload.length ∨
      (final = false ∧ payload.length ≠ o.framePayloadSize))
      (.archiveFormat "solid frame payload exceeds its bound") : Reading Unit) = pure () := by
    rw [raiseIf, if_neg]
    rintro (hlt | ⟨hfinal, hne⟩)
    · omega
    · exact hne (hfull hfinal)
  rw [List.append_assoc, readLaneFrame, Routine.bind_ok (readExact_append hheader _ _ _), hunpack]
  show (checkLaneHeader o index final index o.lane _ ciphertext.length >>= _ : Reading Bytes) _ = _
  rw [hcheck]
  show (readExact ciphertext.length _ >>= _ : Reading Bytes) _ = _
  rw [Routine.bind_ok (readExact_append rfl _ _ _), frameNonce_eq hv.noncePrefix hindex]
  show ((lift (ofOption (cipher.decrypt _ _ _ _) _) : Reading Bytes) >>= _ : Reading Bytes) _ = _
  rw [hdecrypt]
  show ((lift (unpadPayload padded) : Reading Bytes) >>= _ : Reading Bytes) _ = _
  rw [hunpad]
  show (raiseIf _ _ >>= _ : Reading Bytes) _ = _
  rw [hbound]
  rfl

/-- Under the other mark it is refused. -/
theorem readLaneFrame_mark {index : ℕ} {final other : Bool} {payload frame : Bytes}
    (h : IsFrame cipher o index final payload frame) (hother : other ≠ final) (rest dest : Bytes) :
    ∃ error streams, readLaneFrame cipher o index other ⟨frame ++ rest, dest⟩ = (.error error, streams) := by
  obtain ⟨header, ciphertext, padded, rfl, hheader, hunpack, -, -, -⟩ := h.parts
  have hflag : (if final then flagFinal else 0) ≠ if other then flagFinal else 0 := by
    cases final with
    | true =>
        obtain rfl : other = false := by simpa using hother
        decide
    | false =>
        obtain rfl : other = true := by simpa using hother
        decide
  have hcheck : checkLaneHeader o index other index o.lane (if final then flagFinal else 0)
      ciphertext.length = (raise (.archiveFormat "solid frame header is inconsistent") : Reading Unit) := by
    rw [checkLaneHeader, raiseIf, if_pos]
    exact Or.inr (Or.inr (Or.inl hflag))
  refine ⟨.archiveFormat "solid frame header is inconsistent", ⟨ciphertext ++ rest, dest⟩, ?_⟩
  rw [List.append_assoc, readLaneFrame, Routine.bind_ok (readExact_append hheader _ _ _), hunpack]
  show (checkLaneHeader o index other index o.lane _ ciphertext.length >>= _ : Reading Bytes) _ = _
  rw [hcheck]
  rfl

theorem passFrame_frame (hv : o.Valid) {offset count expected decoded : ℕ}
    (hindex : o.startIndex + offset < 256 ^ 8) {payload frame : Bytes}
    (h : IsFrame cipher o (o.startIndex + offset) (offset = count - 1) payload frame)
    (hpayload : payload.length ≤ o.framePayloadSize)
    (hfull : offset ≠ count - 1 → payload.length = o.framePayloadSize) (rest dest : Bytes) :
    passFrame cipher o count expected decoded offset ⟨frame ++ rest, dest⟩ =
      if expected - decoded < payload.length then
        (.error (.archiveFormat "solid frame stream exceeds its declared size"), ⟨rest, dest⟩)
      else (.ok (decoded + payload.length), ⟨rest, dest ++ payload⟩) := by
  have hread := readLaneFrame_frame hv hindex h hpayload (fun hfinal => hfull (by simpa using hfinal))
    rest dest
  rw [passFrame, Routine.bind_ok hread]
  show (raiseIf (expected - decoded < payload.length) _ >>= _ : Reading ℕ) _ = _
  rw [raiseIf]
  split
  · rfl
  · rfl

/-- The frames of a payload are read back in passthrough mode. -/
theorem forEach_passFrame (hv : o.Valid) {index : ℕ} {pieces : List Bytes} {frames : Bytes}
    (h : Framed cipher o index pieces frames) (hfull : Full o.framePayloadSize pieces)
    {offset count expected decoded : ℕ} (hindex : index = o.startIndex + offset)
    (hcount : count = offset + pieces.length) (hlast : o.startIndex + count < 256 ^ 8)
    (hexpected : decoded + pieces.flatten.length ≤ expected) (rest dest : Bytes) :
    forEach (passFrame cipher o count expected) (List.range' offset pieces.length) decoded
        ⟨frames ++ rest, dest⟩ =
      (.ok (decoded + pieces.flatten.length), ⟨rest, dest ++ pieces.flatten⟩) := by
  induction h generalizing offset decoded dest with
  | @last index x frame hframe =>
      cases hfull with
      | last hx =>
          rw [List.flatten_singleton] at hexpected
          subst hindex
          have hmark : (true : Bool) = decide (offset = count - 1) := by
            rw [hcount, List.length_singleton, Nat.add_sub_cancel, decide_eq_true rfl]
          rw [hmark] at hframe
          have hpass := @passFrame_frame cipher o hv offset count expected decoded (by omega) x frame
            hframe hx (fun hne => absurd (by simpa using hmark) hne) rest dest
          rw [if_neg (by omega)] at hpass
          rw [List.flatten_singleton, List.length_singleton, List.range'_one, forEach,
            Routine.bind_ok hpass]
          rfl
  | @more index x y frame frames pieces hframe _ ih =>
      cases hfull with
      | more hx hrest =>
          subst hindex
          have hflatten : (x :: y :: pieces).flatten = x ++ (y :: pieces).flatten := List.flatten_cons
          have hlength : (x :: y :: pieces).length = (y :: pieces).length + 1 := List.length_cons
          rw [hflatten, List.length_append] at hexpected
          rw [hlength] at hcount
          have hmark : (false : Bool) = decide (offset = count - 1) := by
            rw [hcount, List.length_cons, decide_eq_false]
            omega
          rw [hmark] at hframe
          have hpass := @passFrame_frame cipher o hv offset count expected decoded (by omega) x frame
            hframe hx.le (fun _ => hx) (frames ++ rest) dest
          rw [if_neg (by omega)] at hpass
          have hnext := @ih hrest (offset + 1) (decoded + x.length) (Nat.add_assoc _ _ _)
            (by omega) (by omega) (dest ++ x)
          rw [hflatten, hlength, List.range'_succ, List.append_assoc, forEach, Routine.bind_ok hpass,
            hnext, List.length_append, Nat.add_assoc, List.append_assoc]

theorem forEach_passFrame_mark {offset left count expected decoded : ℕ} (hleft : 0 < left)
    {final : Bool} {x frame : Bytes} (h : IsFrame cipher o (o.startIndex + offset) final x frame)
    (hother : decide (offset = count - 1) ≠ final) (later dest : Bytes) :
    ∃ error streams, forEach (passFrame cipher o count expected) (List.range' offset left) decoded
      ⟨frame ++ later, dest⟩ = (.error error, streams) := by
  obtain ⟨error, streams, hread⟩ := readLaneFrame_mark h hother later dest
  obtain ⟨left, rfl⟩ : ∃ n, left = n + 1 := ⟨left - 1, by omega⟩
  refine ⟨error, streams, ?_⟩
  rw [List.range'_succ, forEach, passFrame, Routine.bind_error]
  exact Routine.bind_error hread

/-- Another number of frames is refused: a frame is met under the other mark. -/
theorem forEach_passFrame_count (hv : o.Valid) {index : ℕ} {pieces : List Bytes} {frames : Bytes}
    (h : Framed cipher o index pieces frames) (hfull : Full o.framePayloadSize pieces)
    {offset left count expected decoded : ℕ} (hindex : index = o.startIndex + offset)
    (hlast : index + pieces.length < 256 ^ 8) (hleft : 0 < left) (hcount : count = offset + left)
    (hother : left ≠ pieces.length) (rest dest : Bytes) :
    ∃ error streams, forEach (passFrame cipher o count expected) (List.range' offset left) decoded
      ⟨frames ++ rest, dest⟩ = (.error error, streams) := by
  induction h generalizing offset left decoded dest with
  | @last index x frame hframe =>
      subst hindex
      refine forEach_passFrame_mark hleft hframe ?_ rest dest
      rw [List.length_singleton] at hother
      rw [decide_eq_false (by omega)]
      exact Bool.false_ne_true
  | @more index x y frame frames pieces hframe _ ih =>
      subst hindex
      rw [List.append_assoc]
      rcases Nat.lt_or_ge 1 left with hmore | hone
      · cases hfull with
        | more hx hrest =>
            obtain ⟨left, rfl⟩ : ∃ n, left = n + 1 := ⟨left - 1, by omega⟩
            have hmark : (false : Bool) = decide (offset = count - 1) := by
              rw [decide_eq_false]
              omega
            rw [hmark] at hframe
            have hlength : (x :: y :: pieces).length = (y :: pieces).length + 1 := List.length_cons
            rw [hlength] at hother hlast
            have hpass := @passFrame_frame cipher o hv offset count expected decoded (by omega) x frame
              hframe hx.le (fun _ => hx) (frames ++ rest) dest
            rw [List.range'_succ, forEach]
            split at hpass
            · exact ⟨_, _, Routine.bind_error hpass⟩
            · obtain ⟨error, streams, hnext⟩ := @ih hrest (offset + 1) left
                (decoded + x.length) (Nat.add_assoc _ _ _) (by omega) (by omega) (by omega) (by omega)
                (dest ++ x)
              exact ⟨error, streams, (Routine.bind_ok hpass).trans hnext⟩
      · refine forEach_passFrame_mark hleft hframe ?_ (frames ++ rest) dest
        rw [decide_eq_true (by omega)]
        decide

theorem valid_of_validate (hchecked : (o.validate []).1 = .ok ()) (hstart : o.startIndex ≤ 0xFFFFFFFF) :
    o.Valid := by
  unfold LaneOptions.validate at hchecked
  by_cases hlane : o.lane ∈ validLanes
  · by_cases hprefix : o.noncePrefix.length = 4
    · by_cases hframe : 1024 ≤ o.framePayloadSize ∧ o.framePayloadSize ≤ 16 * 1024 * 1024
      · by_cases hpadding : 256 ≤ o.paddingSize ∧ o.paddingSize ≤ o.framePayloadSize
        · exact ⟨hlane, hprefix, hframe, hpadding, hstart⟩
        · rw [raiseIf, if_neg (not_not.mpr hlane), raiseIf, if_neg (not_not.mpr hprefix), raiseIf,
            if_neg (not_not.mpr hframe), raiseIf, if_pos hpadding] at hchecked
          cases hchecked
      · rw [raiseIf, if_neg (not_not.mpr hlane), raiseIf, if_neg (not_not.mpr hprefix), raiseIf,
          if_pos hframe] at hchecked
        cases hchecked
    · rw [raiseIf, if_neg (not_not.mpr hlane), raiseIf, if_pos hprefix] at hchecked
      cases hchecked
  · rw [raiseIf, if_pos hlane] at hchecked
    cases hchecked

variable (decompressors : Codecs IncrementalDecompressor) (rounds : ℕ)

/-- The reader in passthrough mode, given the number of the frames and the size of the payload. -/
theorem readSolidLaneFrames_framed (hv : o.Valid) {payload frames : Bytes}
    (h : Framed cipher o o.startIndex (cut o.framePayloadSize payload) frames)
    (hlast : o.startIndex + (cut o.framePayloadSize payload).length ≤ 2 ^ 32) (rawLzma2 : Bool)
    {codec : Option ℕ} (hcodec : codec = none ∨ codec = some codecRaw) (rest dest : Bytes) :
    readSolidLaneFrames cipher o decompressors rounds (cut o.framePayloadSize payload).length
        payload.length rawLzma2 true codec ⟨frames ++ rest, dest⟩ =
      (.ok ⟨(cut o.framePayloadSize payload).length,
        o.startIndex + (cut o.framePayloadSize payload).length, payload.length⟩,
        ⟨rest, dest ++ payload⟩) := by
  have hframe := hv.framePayloadSize
  have hpos := List.length_pos_iff.mpr (cut_ne_nil o.framePayloadSize payload)
  have hloop := @forEach_passFrame cipher o hv _ _ _ h (cut_full (by omega) payload) 0
    (cut o.framePayloadSize payload).length payload.length 0 rfl (Nat.zero_add _).symm (by omega)
    (by rw [cut_flatten, Nat.zero_add]) rest dest
  rw [cut_flatten, Nat.zero_add, ← List.range_eq_range'] at hloop
  rw [readSolidLaneFrames, validateReading_eq hv]
  show (raiseIf _ _ >>= _ : Reading SolidFrameReadStats) _ = _
  rw [raiseIf, if_neg (by omega), selectDecoder, if_pos rfl, if_pos hcodec, Int.toNat_natCast,
    Int.toNat_natCast]
  show (forEach _ _ _ >>= _ : Reading SolidFrameReadStats) _ = _
  rw [Routine.bind_ok hloop]
  show (raiseIf _ _ >>= _ : Reading SolidFrameReadStats) _ = _
  rw [raiseIf, if_neg (not_not.mpr rfl)]
  rfl

/-- It refuses them under any other number. -/
theorem readSolidLaneFrames_count (hv : o.Valid) {payload frames : Bytes}
    (h : Framed cipher o o.startIndex (cut o.framePayloadSize payload) frames)
    (hlast : o.startIndex + (cut o.framePayloadSize payload).length ≤ 2 ^ 32) (rawLzma2 : Bool)
    (codec : Option ℕ) {count : ℤ} (hcount : count ≠ (cut o.framePayloadSize payload).length)
    (expected : ℤ) (rest dest : Bytes) :
    ∃ error streams, readSolidLaneFrames cipher o decompressors rounds count expected rawLzma2 true
      codec ⟨frames ++ rest, dest⟩ = (.error error, streams) := by
  have hframe := hv.framePayloadSize
  rw [readSolidLaneFrames, validateReading_eq hv]
  show ∃ error streams, (raiseIf _ _ >>= _ : Reading SolidFrameReadStats) _ = (.error error, streams)
  rw [raiseIf]
  split
  · exact ⟨_, _, rfl⟩
  · rename_i hrange
    by_cases hcodec : codec = none ∨ codec = some codecRaw
    · obtain ⟨error, streams, hloop⟩ := @forEach_passFrame_count cipher o hv _ _ _ h
        (cut_full (by omega) payload) 0 count.toNat count.toNat expected.toNat 0 rfl (by omega)
        (by omega) (Nat.zero_add _).symm (by omega) rest dest
      rw [← List.range_eq_range'] at hloop
      rw [selectDecoder, if_pos rfl, if_pos hcodec]
      exact ⟨error, streams, (Routine.bind_ok rfl).trans (Routine.bind_error hloop)⟩
    · rw [selectDecoder, if_pos rfl, if_neg hcodec]
      exact ⟨_, _, rfl⟩

end

/-- What `_validate_options` admits is framed alike by both writers. A payload whose frames fit the
index range takes the bytes that are told, and passthrough reads it back from them, under the number
of its frames only. -/
theorem lane_framing {cipher : Aead} (hcipher : cipher.Inverts) (urandom : ℕ → Urandom)
    {o : LaneOptions} (hchecked : (o.validate []).1 = .ok ()) (hstart : o.startIndex ≤ 0xFFFFFFFF)
    (compressors : Codecs IncrementalCompressor) (decompressors : Codecs IncrementalDecompressor)
    (rounds : ℕ) :
    (∀ source rawLzma2 codec, writeSolidLaneFrames cipher urandom o compressors source rawLzma2 codec =
      compressThenWrite cipher urandom o compressors source rawLzma2 codec) ∧
    ∀ payload dest,
      (∃ written, 2 ^ 32 < o.startIndex + (cut o.framePayloadSize payload).length ∧
        writePrecompressedSolidLaneFrames cipher urandom o payload payload.length dest =
          (.error indexExceeded, written)) ∨
      ∃ stats frames, stats.frameCount = (cut o.framePayloadSize payload).length ∧
        writePrecompressedSolidLaneFrames cipher urandom o payload payload.length dest =
          (.ok stats, dest ++ frames) ∧
        (payload ≠ [] →
          solidLaneFramedSize payload.length o.framePayloadSize o.paddingSize = .ok frames.length) ∧
        (∀ rawLzma2 codec rest out, codec = none ∨ codec = some codecRaw →
          readSolidLaneFrames cipher o decompressors rounds stats.frameCount payload.length rawLzma2
              true codec ⟨frames ++ rest, out⟩ =
            (.ok ⟨stats.frameCount, stats.nextIndex, payload.length⟩, ⟨rest, out ++ payload⟩)) ∧
        ∀ (count expected : ℤ) rawLzma2 codec rest out, count ≠ stats.frameCount →
          ∃ error streams, readSolidLaneFrames cipher o decompressors rounds count expected rawLzma2
            true codec ⟨frames ++ rest, out⟩ = (.error error, streams) := by
  have hv := valid_of_validate hchecked hstart
  have hframe := hv.framePayloadSize
  refine ⟨writeSolidLaneFrames_eq_compressThenWrite hcipher hv compressors, fun payload dest => ?_⟩
  rcases @emitPieces_cases cipher urandom o hcipher hv _ (cut_full (by omega) payload) o.started dest
    with ⟨written, hout, -, hpre⟩ | ⟨frames, paddedSize, maximum, hframes, hin, -, hpre⟩
  · refine Or.inl ⟨written, hout, ?_⟩
    rw [writePrecompressed_eq hv]
    exact Routine.bind_error (hpre 0)
  · refine Or.inr ⟨⟨o.started.index + (cut o.framePayloadSize payload).length - o.startIndex,
      o.started.index + (cut o.framePayloadSize payload).length, payload.length, paddedSize, maximum⟩,
      frames, Nat.add_sub_cancel_left .., ?_, ?_, ?_, ?_⟩
    · rw [writePrecompressed_eq hv]
      exact (Routine.bind_ok (hpre 0)).trans rfl
    · intro hpayload
      exact solidLaneFramedSize_eq hv hpayload hframes
    · intro rawLzma2 codec rest out hcodec
      rw [show o.started.index + (cut o.framePayloadSize payload).length - o.startIndex =
        (cut o.framePayloadSize payload).length from Nat.add_sub_cancel_left ..]
      exact readSolidLaneFrames_framed decompressors rounds hv hframes hin rawLzma2 hcodec rest out
    · intro count expected rawLzma2 codec rest out hcount
      rw [show o.started.index + (cut o.framePayloadSize payload).length - o.startIndex =
        (cut o.framePayloadSize payload).length from Nat.add_sub_cancel_left ..] at hcount
      exact readSolidLaneFrames_count decompressors rounds hv hframes hin rawLzma2 codec hcount expected
        rest out

/-! ### An instance -/

/-- A compressor that passes its blocks on. -/
def storing : IncrementalCompressor where
  State := Unit
  initial := ()
  compress state block := (block, state)
  flush _ := []

def unstoring : IncrementalDecompressor where
  State := Bool
  initial := false
  eof state := state
  needsInput _ := true
  unusedData _ := []
  decompress _ data _ := some (data, true)

def smallLane : LaneOptions where
  key := List.replicate 32 0
  noncePrefix := [1, 2, 3, 4]
  associatedData := []
  lane := laneDelta4
  startIndex := 5
  framePayloadSize := 1024
  paddingSize := 256

theorem lane_framing_one_byte :
    ∃ stats frames, stats.frameCount = 1 ∧
      writePrecompressedSolidLaneFrames Aead.tagged (fun _ => zeroUrandom) smallLane [7] 1 [] =
        (.ok stats, frames) ∧
      solidLaneFramedSize 1 1024 256 = .ok frames.length ∧
      readSolidLaneFrames Aead.tagged smallLane ⟨unstoring, unstoring, unstoring, unstoring⟩ 0 1 1 false
        true (some codecRaw) ⟨frames ++ [8], []⟩ = (.ok ⟨1, stats.nextIndex, 1⟩, ⟨[8], [7]⟩) := by
  have hcut : cut smallLane.framePayloadSize ([7] : Bytes) = [[7]] := cut_of_le (by decide)
  obtain ⟨-, hframing⟩ := lane_framing Aead.tagged_inverts (fun _ => zeroUrandom)
    (o := smallLane) rfl (by decide) ⟨storing, storing, storing, storing⟩
    ⟨unstoring, unstoring, unstoring, unstoring⟩ 0
  rcases hframing [7] [] with ⟨_, hout, -⟩ | ⟨stats, frames, hcount, hwrite, hsize, hread, -⟩
  · rw [hcut] at hout
    exact absurd hout (by decide)
  · rw [hcut] at hcount
    have hone := hread false (some codecRaw) [8] [] (Or.inr rfl)
    rw [hcount] at hone
    exact ⟨stats, frames, hcount, hwrite, hsize (by decide), hone⟩

end MosaicArchive.Solid
