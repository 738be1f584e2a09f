import MosaicArchive.Modes.Decoders

/-!
How the encoder chooses a mode for a block (`mosaic_archive/modes/__init__.py`):
the candidates are encoded in the order of the modes and the first of the
shortest payloads is kept. The raw mode is always a candidate, so no payload is
longer than its block.
-/

namespace MosaicArchive.Modes

open FixedWidth
open Manifest (PyError)

inductive ModeId where
  | raw | rle | delta8 | lzSimple | byteRans | deflate | lzRans
  deriving DecidableEq, Repr

/-- `int(mode.id)` -/
def ModeId.toNat : ModeId → ℕ
  | raw => 0
  | rle => 1
  | delta8 => 2
  | lzSimple => 3
  | byteRans => 4
  | deflate => 5
  | lzRans => 6

/-- `ALL_MODES` -/
def allModes : List ModeId := [.raw, .rle, .delta8, .lzSimple, .byteRans, .deflate, .lzRans]

structure EncodedBlock where
  mode : ModeId
  payload : Bytes
  deriving DecidableEq, Repr

inductive Profile where
  | fast | balanced | research
  deriving DecidableEq, Repr

/-- What the routing looks at in the features of a block. -/
structure Routing where
  /-- `features.delta_smoothness_ratio >= 0.55` -/
  smooth : Bool
  /-- `features.entropy_bits_per_byte < 7.75` -/
  lowEntropy : Bool

section

variable (compress : Bytes → Except PyError Bytes)

/-- `mode.encode(block)`; `compress` is `zlib.compress` at level 6. -/
def ModeId.encode : ModeId → Bytes → Except PyError Bytes
  | raw, block => .ok block
  | rle, block => .ok (RleMode.encode block)
  | delta8, block => .ok (Delta8Mode.encode block)
  | lzSimple, block => LzSimpleMode.encode block
  | byteRans, block => ByteRansMode.encode block
  | deflate, block => if block = [] then .ok [] else compress block
  | lzRans, block => LzRansMode.encode block

def encodeCandidates (block : Bytes) : List ModeId → Except PyError (List EncodedBlock)
  | [] => .ok []
  | mode :: modes => do
      let payload ← mode.encode compress block
      let candidates ← encodeCandidates block modes
      .ok (⟨mode, payload⟩ :: candidates)

/-- `min(candidates, key=lambda candidate: len(candidate.payload))` -/
def smallest : List EncodedBlock → Except PyError EncodedBlock
  | [] => .error (.value "min() iterable argument is empty")
  | candidate :: candidates =>
      match smallest candidates with
      | .error _ => .ok candidate
      | .ok other =>
          if candidate.payload.length ≤ other.payload.length then .ok candidate else .ok other

/-- `choose_best_mode` -/
def chooseBestMode (block : Bytes) : Except PyError EncodedBlock := do
  let candidates ← encodeCandidates compress block allModes
  smallest candidates

/-- The candidates of a profile. -/
def isCandidate (profile : Profile) (routing : Routing) (block : Bytes) (mode : ModeId) : Bool :=
  match profile with
  | .fast => mode = .raw ∨ mode = .deflate
  | .research => true
  | .balanced =>
      mode = .raw ∨ mode = .rle ∨ mode = .deflate ∨ (mode = .delta8 ∧ routing.smooth) ∨
        (mode = .byteRans ∧ 256 ≤ block.length ∧ routing.lowEntropy)

/-- `choose_routed_mode`, with what `analyze_block` finds -/
def chooseRoutedMode (routing : Routing) (profile : Profile) (block : Bytes) :
    Except PyError EncodedBlock := do
  let candidates ← encodeCandidates compress block
    (allModes.filter (isCandidate profile routing block))
  smallest candidates

variable {compress}

theorem mem_encodeCandidates {block : Bytes} {modes : List ModeId} {candidates : List EncodedBlock}
    (h : encodeCandidates compress block modes = .ok candidates) {mode : ModeId}
    (hmode : mode ∈ modes) :
    ∃ payload, mode.encode compress block = .ok payload ∧ ⟨mode, payload⟩ ∈ candidates := by
  induction modes generalizing candidates with
  | nil => cases hmode
  | cons other modes ih =>
      simp only [encodeCandidates, Except.bind_eq_ok_iff] at h
      obtain ⟨payload, hpayload, rest, hrest, h⟩ := h
      obtain rfl := Except.ok.inj h
      rcases List.mem_cons.mp hmode with rfl | hmode
      · exact ⟨payload, hpayload, List.mem_cons_self⟩
      · obtain ⟨payload', hpayload', hmem⟩ := ih hrest hmode
        exact ⟨payload', hpayload', List.mem_cons_of_mem _ hmem⟩

theorem smallest_le {candidates : List EncodedBlock} {selected : EncodedBlock}
    (h : smallest candidates = .ok selected) :
    ∀ candidate ∈ candidates, selected.payload.length ≤ candidate.payload.length := by
  induction candidates generalizing selected with
  | nil => simp
  | cons candidate candidates ih =>
      rw [List.forall_mem_cons]
      simp only [smallest] at h
      rcases hrest : smallest candidates with e | other
      · rw [hrest] at h
        obtain rfl := Except.ok.inj h
        rcases candidates with _ | ⟨next, rest⟩
        · simp
        · simp only [smallest] at hrest
          rcases hnext : smallest rest with e | last
          · simp [hnext] at hrest
          · simp only [hnext] at hrest
            split_ifs at hrest
      · have hle := ih hrest
        simp only [hrest] at h
        split_ifs at h with hless
        · obtain rfl := Except.ok.inj h
          exact ⟨le_rfl, fun c hc => hless.trans (hle c hc)⟩
        · obtain rfl := Except.ok.inj h
          exact ⟨(Nat.not_le.mp hless).le, hle⟩

/-- Where the raw mode is a candidate, the payload is no longer than the block. -/
theorem payload_length_le {block : Bytes} {modes : List ModeId} {candidates : List EncodedBlock}
    {selected : EncodedBlock} (hraw : ModeId.raw ∈ modes)
    (hcandidates : encodeCandidates compress block modes = .ok candidates)
    (h : smallest candidates = .ok selected) : selected.payload.length ≤ block.length := by
  obtain ⟨payload, hpayload, hmem⟩ := mem_encodeCandidates hcandidates hraw
  obtain rfl := Except.ok.inj hpayload
  exact smallest_le h _ hmem

theorem chooseBestMode_length_le {block : Bytes} {selected : EncodedBlock}
    (h : chooseBestMode compress block = .ok selected) :
    selected.payload.length ≤ block.length := by
  obtain ⟨candidates, hcandidates, h⟩ := Except.bind_eq_ok_iff.mp h
  exact payload_length_le (by decide) hcandidates h

theorem chooseRoutedMode_length_le {block : Bytes} {routing : Routing} {profile : Profile}
    {selected : EncodedBlock} (h : chooseRoutedMode compress routing profile block = .ok selected) :
    selected.payload.length ≤ block.length := by
  obtain ⟨candidates, hcandidates, h⟩ := Except.bind_eq_ok_iff.mp h
  apply payload_length_le _ hcandidates h
  rw [List.mem_filter]
  refine ⟨by decide, ?_⟩
  cases profile <;> simp [isCandidate]

end

end MosaicArchive.Modes
