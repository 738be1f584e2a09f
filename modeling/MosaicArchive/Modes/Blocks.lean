import MosaicArchive.Modes.Selection

/-!
The decoding of a block by the number of its mode (`mosaic_archive/modes/__init__.py` and
`modes/deflate.py`). Where `zlib` gives back what it compressed, every mode restores the blocks
it encodes, so the choice of the mode never matters to the reader.
-/

namespace MosaicArchive.Modes

open FixedWidth
open Manifest (PyError)

/-! ### The library -/

/-- `zlib`, with the states of its decompressing objects; nothing is a `zlib.error`. -/
structure Zlib where
  State : Type
  /-- `zlib.compress(block, level=6)` -/
  compress : Bytes → Bytes
  /-- `zlib.decompressobj().decompress(payload, max_length)` -/
  decompress : Bytes → ℕ → Option (Bytes × State)
  /-- `flush(length)` -/
  flush : State → ℕ → Option (Bytes × State)
  unconsumedTail : State → Bytes
  unusedData : State → Bytes
  eof : State → Bool

/-- The stream is at its end and nothing is left over. -/
def Zlib.Ended (zlib : Zlib) (state : zlib.State) : Prop :=
  zlib.eof state = true ∧ zlib.unusedData state = [] ∧ zlib.unconsumedTail state = []

/-- Below its limit, a decompressor gives back what was compressed, and flushing adds nothing. -/
def Zlib.Inverts (zlib : Zlib) : Prop :=
  ∀ block limit, block.length < limit → ∃ state,
    zlib.decompress (zlib.compress block) limit = some (block, state) ∧
      zlib.unconsumedTail state = [] ∧
      ∀ n, ∃ flushed, zlib.flush state n = some ([], flushed) ∧ zlib.Ended flushed

/-! ### Decoding -/

section

variable (zlib : Zlib)

/-- `DeflateMode.decode` -/
def DeflateMode.decode (payload : Bytes) (expectedSize : ℕ) : Except PyError Bytes :=
  let malformed : PyError := .archiveFormat "DEFLATE payload is malformed"
  if expectedSize = 0 then
    if payload ≠ [] then .error (.archiveFormat "empty DEFLATE block has a payload") else .ok []
  else
    match zlib.decompress payload (expectedSize + 1) with
    | none => .error malformed
    | some (start, state) => do
        Except.raiseIf (expectedSize < start.length ∨ zlib.unconsumedTail state ≠ [])
          (.archiveFormat "DEFLATE block exceeds its declared size")
        match zlib.flush state (expectedSize + 1 - start.length) with
        | none => .error malformed
        | some (rest, state) => do
            let output := start ++ rest
            Except.raiseIf (output.length ≠ expectedSize ∨ zlib.eof state = false ∨
                zlib.unusedData state ≠ [] ∨ zlib.unconsumedTail state ≠ [])
              (.archiveFormat "DEFLATE payload has inconsistent size or trailing data")
            .ok output

/-- `mode.decode(payload, expected_size)` -/
def ModeId.decode : ModeId → Bytes → ℕ → Except PyError Bytes
  | raw => RawMode.decode
  | rle => RleMode.decode
  | delta8 => Delta8Mode.decode
  | lzSimple => LzSimpleMode.decode
  | byteRans => ByteRansMode.decode
  | deflate => DeflateMode.decode zlib
  | lzRans => LzRansMode.decode

/-- `get_mode` -/
def getMode (modeId : ℕ) : Except PyError ModeId :=
  match allModes.find? fun mode => mode.toNat = modeId with
  | some mode => .ok mode
  | none => .error (.archiveFormat ("unknown compression mode: " ++ toString modeId))

/-- What the encoders compress a block with. -/
def Zlib.encoder (block : Bytes) : Except PyError Bytes := .ok (zlib.compress block)

end

theorem getMode_toNat (mode : ModeId) : getMode mode.toNat = .ok mode := by
  cases mode <;> rfl

theorem ModeId.toNat_lt (mode : ModeId) : mode.toNat < 256 := by
  cases mode <;> decide

/-! ### Round trips -/

/-- The block modes bound a chunk by 16 MiB. -/
def maxBlockSize : ℕ := 2 ^ 24

theorem LzSimpleMode.decode_encode (block : Bytes) :
    ∃ payload, LzSimpleMode.encode block = .ok payload ∧
      LzSimpleMode.decode payload block.length = .ok block := by
  obtain ⟨tokens, htokens, hemits⟩ :=
    parse_emits LzSimpleMode.rule_sound LzSimpleMode.rule_emitting block
  obtain ⟨payload, hpayload, hends⟩ := LzSimpleMode.packTokens_ends hemits
  refine ⟨payload, ?_, ?_⟩
  · simp only [LzSimpleMode.encode, htokens, bind, Except.bind, hpayload]
  · exact Iteration.run_of_ends (fun _ _ h => (LzSimpleMode.next_shrinks h).1) hends
      (Nat.lt_succ_self _)

theorem LzRansMode.decode_encode {block : Bytes} (hblock : block ≠ [])
    (hsize : block.length ≤ maxBlockSize) :
    ∃ payload, LzRansMode.encode block = .ok payload ∧
      LzRansMode.decode payload block.length = .ok block := by
  obtain ⟨tokens, htokens, hemits⟩ :=
    parse_emits LzRansMode.rule_sound LzRansMode.rule_emitting block
  have hlt : block.length < 0x80 ^ 5 := hsize.trans_lt (by norm_num [maxBlockSize])
  have hstreams : ∀ stream ∈ (LzRansMode.streams tokens).toList, stream.length ≤ block.length :=
    fun stream hstream => LzRansMode.streams_length_le hemits stream hstream
  obtain ⟨encoded, words, hencoded, hwords, hread⟩ :=
    LzRansMode.readStreams_encoded hsize hstreams
  refine ⟨LzRansMode.magic ++ words ++ encoded.flatten, ?_, ?_⟩
  · simp only [LzRansMode.encode, if_neg hblock, LzRansMode.tokenize, htokens, hencoded, hwords,
      bind, Except.bind]
  · have hlength : block.length ≠ 0 := fun h => hblock (List.length_eq_zero_iff.mp h)
    have hlast : LzRansMode.round block.length ⟨[], [], [], [], [], block⟩ = .ok (.inr block) := by
      simp [LzRansMode.round]
    simp only [LzRansMode.decode, if_neg hlength, hread, LzRansMode.readTokens_streams hemits hlt,
      bind, Except.bind]
    exact Iteration.run_of_ends (fun _ _ => LzRansMode.round_next)
      (.of_visits (LzRansMode.replay_visits hemits) (.stop hlast)) (Nat.lt_succ_self _)

theorem DeflateMode.decode_compress {zlib : Zlib} (hzlib : zlib.Inverts) {block : Bytes}
    (hblock : block ≠ []) :
    DeflateMode.decode zlib (zlib.compress block) block.length = .ok block := by
  have hlength : block.length ≠ 0 := fun h => hblock (List.length_eq_zero_iff.mp h)
  obtain ⟨state, hdecompress, htail, hflush⟩ := hzlib block (block.length + 1) (Nat.lt_succ_self _)
  obtain ⟨flushed, hflushed, heof, hunused, htail'⟩ := hflush (block.length + 1 - block.length)
  have hstart : ¬ (block.length < block.length ∨ zlib.unconsumedTail state ≠ []) := by simp [htail]
  have hend : ¬ (block.length ≠ block.length ∨ zlib.eof flushed = false ∨
      zlib.unusedData flushed ≠ [] ∨ zlib.unconsumedTail flushed ≠ []) := by
    simp [heof, hunused, htail']
  simp only [DeflateMode.decode, if_neg hlength, hdecompress, Except.raiseIf, if_neg hstart,
    hflushed, if_neg hend, bind, Except.bind, List.append_nil]

section

variable {zlib : Zlib} (hzlib : zlib.Inverts) {block : Bytes} (hblock : block ≠ [])
  (hsize : block.length ≤ maxBlockSize)

include hzlib hblock hsize

/-- Every mode encodes a block that is not too long, and restores it. -/
theorem ModeId.decode_encode (mode : ModeId) :
    ∃ payload, mode.encode zlib.encoder block = .ok payload ∧
      mode.decode zlib payload block.length = .ok block := by
  cases mode with
  | raw => exact ⟨block, rfl, if_neg (not_not.mpr rfl)⟩
  | rle => exact ⟨RleMode.encode block, rfl, RleMode.decode_encode block⟩
  | delta8 => exact ⟨Delta8Mode.encode block, rfl, Delta8Mode.decode_encode block⟩
  | lzSimple => exact LzSimpleMode.decode_encode block
  | byteRans =>
      obtain ⟨_, _, payload, -, -, -, hencode, -, -, -, -, hdecode⟩ :=
        ByteRansMode.encode_decode hblock
      exact ⟨payload, hencode, hdecode⟩
  | deflate =>
      refine ⟨zlib.compress block, ?_, DeflateMode.decode_compress hzlib hblock⟩
      simp only [ModeId.encode, if_neg hblock, Zlib.encoder]
  | lzRans => exact LzRansMode.decode_encode hblock hsize

/-- The candidates are all encoded, and each restores the block. -/
theorem encodeCandidates_decode (modes : List ModeId) :
    ∃ candidates, encodeCandidates zlib.encoder block modes = .ok candidates ∧
      candidates.length = modes.length ∧
      ∀ candidate ∈ candidates,
        candidate.mode.decode zlib candidate.payload block.length = .ok block := by
  induction modes with
  | nil => exact ⟨[], rfl, rfl, List.forall_mem_nil _⟩
  | cons mode modes ih =>
      obtain ⟨payload, hpayload, hdecode⟩ := ModeId.decode_encode hzlib hblock hsize mode
      obtain ⟨candidates, hcandidates, hlength, hall⟩ := ih
      refine ⟨⟨mode, payload⟩ :: candidates, ?_, congrArg Nat.succ hlength,
        List.forall_mem_cons.mpr ⟨hdecode, hall⟩⟩
      simp only [encodeCandidates, hpayload, hcandidates, bind, Except.bind]

end

theorem smallest_mem {candidates : List EncodedBlock} (h : candidates ≠ []) :
    ∃ selected ∈ candidates, smallest candidates = .ok selected := by
  induction candidates with
  | nil => exact absurd rfl h
  | cons candidate candidates ih =>
      cases candidates with
      | nil => exact ⟨candidate, List.mem_cons_self, rfl⟩
      | cons other rest =>
          obtain ⟨selected, hmem, hselected⟩ := ih (List.cons_ne_nil other rest)
          rw [smallest, hselected]
          dsimp only
          split_ifs
          · exact ⟨candidate, List.mem_cons_self, rfl⟩
          · exact ⟨selected, List.mem_cons_of_mem candidate hmem, rfl⟩

/-- Whatever the candidates are, one is selected, and it restores the block. -/
theorem selected_decode {zlib : Zlib} (hzlib : zlib.Inverts) {block : Bytes} (hblock : block ≠ [])
    (hsize : block.length ≤ maxBlockSize) {modes : List ModeId} (hmodes : modes ≠ []) :
    ∃ selected, (encodeCandidates zlib.encoder block modes >>= smallest) = .ok selected ∧
      selected.mode.decode zlib selected.payload block.length = .ok block := by
  obtain ⟨candidates, hcandidates, hlength, hall⟩ :=
    encodeCandidates_decode hzlib hblock hsize modes
  have hne : candidates ≠ [] := by
    rw [← List.length_pos_iff, hlength]
    exact List.length_pos_iff.mpr hmodes
  obtain ⟨selected, hmem, hselected⟩ := smallest_mem hne
  refine ⟨selected, ?_, hall selected hmem⟩
  simp only [hcandidates, hselected, bind, Except.bind]

theorem chooseBestMode_decode {zlib : Zlib} (hzlib : zlib.Inverts) {block : Bytes}
    (hblock : block ≠ []) (hsize : block.length ≤ maxBlockSize) :
    ∃ selected, chooseBestMode zlib.encoder block = .ok selected ∧
      selected.mode.decode zlib selected.payload block.length = .ok block :=
  selected_decode hzlib hblock hsize (by decide)

theorem chooseRoutedMode_decode {zlib : Zlib} (hzlib : zlib.Inverts) (routing : Routing)
    (profile : Profile) {block : Bytes} (hblock : block ≠ [])
    (hsize : block.length ≤ maxBlockSize) :
    ∃ selected, chooseRoutedMode zlib.encoder routing profile block = .ok selected ∧
      selected.mode.decode zlib selected.payload block.length = .ok block := by
  apply selected_decode hzlib hblock hsize
  have hraw : ModeId.raw ∈ allModes.filter (isCandidate profile routing block) := by
    rw [List.mem_filter]
    refine ⟨by decide, ?_⟩
    cases profile <;> simp [isCandidate]
  exact List.ne_nil_of_mem hraw

end MosaicArchive.Modes
