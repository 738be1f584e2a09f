import MosaicArchive.Modes.Matching
import MosaicArchive.Modes.RansSafety
import MosaicArchive.Modes.Varint

/-!
The LZ_RANS mode (`mosaic_archive/modes/lz_rans.py`): the tokens of the parse in
five streams, each of them with its own entropy code. A token adds no more to
any stream than to the block, so the streams are no longer than the block.
-/

namespace MosaicArchive.Modes.LzRansMode

open FixedWidth
open Manifest (PyError)

def magic : Bytes := [0x4c, 0x5a, 0x52, 0x31]
def headerSize : ℕ := 44

def literalTag : UInt8 := 0
def matchTag : UInt8 := 1

def minimumMatch : ℕ := 4
def maximumMatch : ℕ := 65535
def maximumDistance : ℕ := 65535
def candidateLimit : ℕ := 64

/-- The match is compared with the bytes a distance before it. -/
def rule : MatchRule where
  minimumMatch := minimumMatch
  maximumMatch := maximumMatch
  maximumDistance := maximumDistance
  candidateLimit := candidateLimit
  agrees block position candidate index :=
    block[position + index]? == block[position + index - (position - candidate)]?
  emitLiterals literals := if literals = [] then [] else [.literals literals]
  flushAt := none

structure Streams where
  tokens : Bytes
  literals : Bytes
  literalLengths : Bytes
  matchLengths : Bytes
  distances : Bytes
  deriving DecidableEq, Repr

def Streams.toList (s : Streams) : List Bytes :=
  [s.tokens, s.literals, s.literalLengths, s.matchLengths, s.distances]

/-- What the tokens append to the streams. -/
def streams : List Token → Streams
  | [] => ⟨[], [], [], [], []⟩
  | .literals bytes :: tokens =>
      let s := streams tokens
      { s with
        tokens := literalTag :: s.tokens
        literals := bytes ++ s.literals
        literalLengths := encodeVarint bytes.length ++ s.literalLengths }
  | .copied distance length :: tokens =>
      let s := streams tokens
      { s with
        tokens := matchTag :: s.tokens
        matchLengths := encodeVarint length ++ s.matchLengths
        distances := encodeVarint distance ++ s.distances }

/-- `_tokenize` -/
def tokenize (block : Bytes) : Except PyError Streams := do
  let tokens ← parse rule block
  .ok (streams tokens)

def encodeStreams : List Bytes → Except PyError (List Bytes)
  | [] => .ok []
  | raw :: raws => do
      let encoded ← ByteRansMode.encode raw
      let rest ← encodeStreams raws
      .ok (encoded :: rest)

/-- The fields `I` of the header. -/
def packWords : List ℕ → Except PyError Bytes
  | [] => .ok []
  | n :: rest =>
      if n < 256 ^ 4 then do
        let words ← packWords rest
        .ok (beBytes 4 n ++ words)
      else .error .struct

def unpackWords : ℕ → Bytes → List ℕ
  | 0, _ => []
  | n + 1, bytes => beNat (bytes.take 4) :: unpackWords n (bytes.drop 4)

/-- `LzRansMode.encode` -/
def encode (block : Bytes) : Except PyError Bytes :=
  if block = [] then .ok []
  else do
    let raw ← tokenize block
    let encoded ← encodeStreams raw.toList
    let descriptor := (raw.toList.zip encoded).flatMap fun s => [s.1.length, s.2.length]
    let words ← packWords descriptor
    .ok (magic ++ words ++ encoded.flatten)

/-- `zip(descriptors[0::2], descriptors[1::2])` -/
def pairs : List ℕ → List (ℕ × ℕ)
  | rawLength :: encodedLength :: rest => (rawLength, encodedLength) :: pairs rest
  | _ => []

/-- The lengths of the streams, raw and encoded. -/
def readLengths (payload : Bytes) (expectedSize : ℕ) : Except PyError (List (ℕ × ℕ)) :=
  if payload.length < headerSize then .error (.archiveFormat "LZ_RANS header is truncated")
  else if payload.take 4 ≠ magic then .error (.archiveFormat "LZ_RANS magic is invalid")
  else
    let lengths := pairs (unpackWords 10 (payload.drop 4))
    if lengths.any fun l => expectedSize < l.1 then
      .error (.archiveFormat "LZ_RANS decoded stream exceeds declared block size")
    else if (lengths.map Prod.snd).sum ≠ payload.length - headerSize then
      .error (.archiveFormat "LZ_RANS stream sizes are inconsistent")
    else .ok lengths

/-- The loop over the streams. -/
def decodeStreams : List (ℕ × ℕ) → Bytes → Except PyError (List Bytes)
  | [], _ => .ok []
  | (rawLength, encodedLength) :: lengths, payload => do
      let stream ← ByteRansMode.decode (payload.take encodedLength) rawLength
      let rest ← decodeStreams lengths (payload.drop encodedLength)
      .ok (stream :: rest)

/-- `tokens, literals, literal_data, match_data, distance_data = streams` -/
def Streams.ofList : List Bytes → Except PyError Streams
  | [tokens, literals, literalData, matchData, distanceData] =>
      .ok ⟨tokens, literals, literalData, matchData, distanceData⟩
  | _ => .error (.value "unpack")

def readStreams (payload : Bytes) (expectedSize : ℕ) : Except PyError Streams := do
  let lengths ← readLengths payload expectedSize
  let streams ← decodeStreams lengths (payload.drop headerSize)
  Streams.ofList streams

/-- What is left of the tokens, the literals and the numbers, beside the output. -/
structure Replay where
  tokens : Bytes
  literals : Bytes
  literalLengths : List ℕ
  matchLengths : List ℕ
  distances : List ℕ
  output : Bytes
  deriving DecidableEq, Repr

def readTokens (s : Streams) : Except PyError Replay :=
  let literalCount := s.tokens.count literalTag
  let matchCount := s.tokens.count matchTag
  if literalCount + matchCount ≠ s.tokens.length then
    .error (.archiveFormat "LZ_RANS token stream contains an unknown token")
  else do
    let literalLengths ← decodeVarints literalCount s.literalLengths
    let matchLengths ← decodeVarints matchCount s.matchLengths
    let distances ← decodeVarints matchCount s.distances
    .ok ⟨s.tokens, s.literals, literalLengths, matchLengths, distances, []⟩

/-- A literal token. -/
def replayLiterals (expectedSize : ℕ) (s : Replay) : Except PyError Replay :=
  match s.literalLengths with
  | [] => .error lookupError
  | length :: literalLengths =>
      if length = 0 ∨ s.literals.length < length then
        .error (.archiveFormat "LZ_RANS literal token is invalid")
      else if expectedSize < s.output.length + length then
        .error (.archiveFormat "LZ_RANS literal exceeds declared size")
      else .ok { s with
        literals := s.literals.drop length
        literalLengths := literalLengths
        output := s.output ++ s.literals.take length }

/-- A match token. -/
def replayMatch (expectedSize : ℕ) (s : Replay) : Except PyError Replay :=
  match s.matchLengths, s.distances with
  | length :: matchLengths, distance :: distances =>
      if length < minimumMatch ∨ distance = 0 ∨ s.output.length < distance ∨
          expectedSize < s.output.length + length then
        .error (.archiveFormat "LZ_RANS match token is invalid")
      else do
        let output ← copyMatch distance length s.output
        .ok { s with matchLengths := matchLengths, distances := distances, output := output }
  | _, _ => .error lookupError

def replayToken (expectedSize : ℕ) (token : UInt8) (s : Replay) : Except PyError Replay :=
  if token = literalTag then replayLiterals expectedSize s else replayMatch expectedSize s

/-- The body of the loop over the tokens, and what comes after it. -/
def round (expectedSize : ℕ) (s : Replay) : Except PyError (Replay ⊕ Bytes) :=
  match s.tokens with
  | [] =>
      if s.literals ≠ [] ∨ s.output.length ≠ expectedSize then
        .error (.archiveFormat "LZ_RANS decoded size is inconsistent")
      else .ok (.inr s.output)
  | token :: tokens => do
      let next ← replayToken expectedSize token { s with tokens := tokens }
      .ok (.inl next)

/-- `LzRansMode.decode` -/
def decode (payload : Bytes) (expectedSize : ℕ) : Except PyError Bytes :=
  if expectedSize = 0 then
    if payload ≠ [] then .error (.archiveFormat "empty LZ_RANS block has a payload") else .ok []
  else do
    let s ← readStreams payload expectedSize
    let start ← readTokens s
    Iteration.run (round expectedSize) endless (start.tokens.length + 1) start

/-! ### The tokens that are emitted -/

/-- The fields of the token are in range. -/
def InRange : Token → Prop
  | .literals bytes => 1 ≤ bytes.length
  | .copied distance length => 1 ≤ distance ∧ distance ≤ 65535 ∧ 4 ≤ length ∧ length ≤ 65535

theorem rule_sound : rule.Sound where
  minimum := by decide
  maximum := by decide
  repeats {block position candidate length} hlt hkey hagrees := by
    intro i hi
    rcases Nat.lt_or_ge i 3 with hsmall | hlarge
    · rw [← hkey i hsmall, show position + i - (position - candidate) = candidate + i by omega]
    · exact eq_of_beq (hagrees i hlarge hi)

theorem rule_emitting : rule.Emitting InRange where
  flush_pos := by simp [rule]
  literals output bytes _ := by
    simp only [rule]
    split_ifs with hempty
    · rw [hempty, List.append_nil]
      exact .nil
    · exact .literals (List.length_pos_iff.mpr hempty) .nil
  copied hpos hmax hmin hlength := ⟨hpos, hmax, hmin, hlength⟩

/-- The numbers in the three streams of numbers. -/
def literalCounts (tokens : List Token) : List ℕ := tokens.filterMap fun
  | .literals bytes => some bytes.length
  | .copied _ _ => none

def matchCounts (tokens : List Token) : List ℕ := tokens.filterMap fun
  | .literals _ => none
  | .copied _ length => some length

def distanceCounts (tokens : List Token) : List ℕ := tokens.filterMap fun
  | .literals _ => none
  | .copied distance _ => some distance

@[simp] theorem literalCounts_literals (bytes : Bytes) (tokens : List Token) :
    literalCounts (.literals bytes :: tokens) = bytes.length :: literalCounts tokens := rfl

@[simp] theorem literalCounts_copied (distance length : ℕ) (tokens : List Token) :
    literalCounts (.copied distance length :: tokens) = literalCounts tokens := rfl

@[simp] theorem matchCounts_literals (bytes : Bytes) (tokens : List Token) :
    matchCounts (.literals bytes :: tokens) = matchCounts tokens := rfl

@[simp] theorem matchCounts_copied (distance length : ℕ) (tokens : List Token) :
    matchCounts (.copied distance length :: tokens) = length :: matchCounts tokens := rfl

@[simp] theorem distanceCounts_literals (bytes : Bytes) (tokens : List Token) :
    distanceCounts (.literals bytes :: tokens) = distanceCounts tokens := rfl

@[simp] theorem distanceCounts_copied (distance length : ℕ) (tokens : List Token) :
    distanceCounts (.copied distance length :: tokens) = distance :: distanceCounts tokens := rfl

/-- The streams agree on how many literals and matches there are. -/
structure Consistent (tokens : List Token) : Prop where
  literalLengths : (streams tokens).literalLengths = (literalCounts tokens).flatMap encodeVarint
  matchLengths : (streams tokens).matchLengths = (matchCounts tokens).flatMap encodeVarint
  distances : (streams tokens).distances = (distanceCounts tokens).flatMap encodeVarint
  literal_count : (streams tokens).tokens.count literalTag = (literalCounts tokens).length
  match_count : (streams tokens).tokens.count matchTag = (matchCounts tokens).length
  distance_count : (distanceCounts tokens).length = (matchCounts tokens).length
  token_count : (literalCounts tokens).length + (matchCounts tokens).length =
    (streams tokens).tokens.length

theorem matchTag_ne : matchTag ≠ literalTag := by decide

theorem consistent (tokens : List Token) : Consistent tokens := by
  induction tokens with
  | nil => exact ⟨rfl, rfl, rfl, rfl, rfl, rfl, rfl⟩
  | cons token tokens ih =>
      obtain ⟨hliterals, hmatches, hdistances, hliteral, hmatch, hdistance, htoken⟩ := ih
      cases token with
      | literals bytes =>
          refine ⟨?_, hmatches, hdistances, ?_, ?_, hdistance, ?_⟩
          · simp [streams, hliterals]
          · simp [streams, hliteral]
          · rw [streams, List.count_cons_of_ne matchTag_ne.symm]
            exact hmatch
          · simp only [streams, literalCounts_literals, matchCounts_literals, List.length_cons]
            omega
      | copied distance length =>
          refine ⟨hliterals, ?_, ?_, ?_, ?_, ?_, ?_⟩
          · simp [streams, hmatches]
          · simp [streams, hdistances]
          · rw [streams, List.count_cons_of_ne matchTag_ne]
            exact hliteral
          · simp [streams, hmatch]
          · simp [hdistance]
          · simp only [streams, literalCounts_copied, matchCounts_copied, List.length_cons]
            omega

theorem encodeVarint_length_le_three {n : ℕ} (h : n ≤ 65535) : (encodeVarint n).length ≤ 3 :=
  @encodeVarint_length_of_lt 2 n (by omega)

/-- A token adds no more to any of the streams than to the output. -/
theorem streams_length_le {tokens : List Token} {output result : Bytes}
    (h : Emits InRange output tokens result) :
    ∀ stream ∈ (streams tokens).toList, stream.length + output.length ≤ result.length := by
  simp only [Streams.toList, List.forall_mem_cons, List.not_mem_nil, false_implies, implies_true,
    and_true]
  induction h with
  | nil => simp [streams]
  | @literals output result bytes tokens hallowed _ ih =>
      have hlength : (encodeVarint bytes.length).length ≤ bytes.length :=
        encodeVarint_length_le hallowed
      have hpos : 1 ≤ bytes.length := hallowed
      simp only [streams, List.length_append, List.length_cons] at ih ⊢
      omega
  | @copied output next result distance length tokens hallowed hreaches hcopy _ ih =>
      obtain ⟨-, hdistance, hmin, hmax⟩ := hallowed
      have hlength := encodeVarint_length_le_three hmax
      have hfar := encodeVarint_length_le_three hdistance
      rw [copyMatch_length_eq hreaches hcopy] at ih
      simp only [streams, List.length_append, List.length_cons] at ih ⊢
      omega

/-- All numbers are below the bound of five bytes, if the block is. -/
theorem counts_lt {tokens : List Token} {output result : Bytes}
    (h : Emits InRange output tokens result) (hresult : result.length < 0x80 ^ 5) :
    (∀ n ∈ literalCounts tokens, n < 0x80 ^ 5) ∧ (∀ n ∈ matchCounts tokens, n < 0x80 ^ 5) ∧
      ∀ n ∈ distanceCounts tokens, n < 0x80 ^ 5 := by
  induction h with
  | nil => simp [literalCounts, matchCounts, distanceCounts]
  | @literals output result bytes tokens _ h ih =>
      have hlength := h.length_le
      rw [List.length_append] at hlength
      obtain ⟨hliterals, hmatches, hdistances⟩ := ih hresult
      refine ⟨List.forall_mem_cons.mpr ⟨?_, hliterals⟩, hmatches, hdistances⟩
      omega
  | @copied output next result distance length tokens hallowed _ _ h ih =>
      obtain ⟨-, hdistance, -, hmax⟩ := hallowed
      obtain ⟨hliterals, hmatches, hdistances⟩ := ih hresult
      refine ⟨hliterals, List.forall_mem_cons.mpr ⟨?_, hmatches⟩,
        List.forall_mem_cons.mpr ⟨?_, hdistances⟩⟩
      · exact hmax.trans_lt (by norm_num)
      · exact hdistance.trans_lt (by norm_num)

end MosaicArchive.Modes.LzRansMode
