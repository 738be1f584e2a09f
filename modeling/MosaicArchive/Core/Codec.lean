import MosaicArchive.Core.Options
import MosaicArchive.Chunking.Gear

/-!
The record codecs of the compression core: routing a chunk to a lane,
compressing it, and decoding a payload. The LZMA2 and zstd libraries are
parameters.
-/

namespace MosaicArchive.Core

open FixedWidth

inductive Codec where
  | raw
  | lzma2
  | delta4Zstd
  | zstd
  deriving DecidableEq, Repr

/-- The discriminant of the enum. -/
def Codec.toByte : Codec → UInt8
  | raw => 0
  | lzma2 => 1
  | delta4Zstd => 2
  | zstd => 3

def Codec.parse (value : UInt8) : Except Error Codec :=
  if value = 0 then .ok raw
  else if value = 1 then .ok lzma2
  else if value = 2 then .ok delta4Zstd
  else if value = 3 then .ok zstd
  else .error (.invalidFormat "record codec is unknown")

@[simp] theorem Codec.parse_toByte (codec : Codec) : Codec.parse codec.toByte = .ok codec := by
  cases codec <;> rfl

inductive Lane where
  | standard
  | delta4
  | highEntropy
  deriving DecidableEq, Repr

/-- The compression libraries. `lzma2Read` reads up to a limit from the decoder
of a payload and reports how much of the payload the decoder consumed;
`zstdDecompress` gets the capacity of its output. -/
structure Codecs where
  lzma2Compress : Bytes → Except IoError Bytes
  lzma2Read : Bytes → ℕ → Option (Bytes × ℕ)
  zstdCompress : Bytes → ℕ → Option Bytes
  zstdDecompress : Bytes → ℕ → Option Bytes

/-- The libraries restore exactly what they compressed, with room for one more
byte, and never produce an empty payload. -/
structure Codecs.Lossless (codecs : Codecs) : Prop where
  lzma2 : ∀ data, ∃ payload, codecs.lzma2Compress data = .ok payload ∧ payload ≠ [] ∧
    codecs.lzma2Read payload (data.length + 1) = some (data, payload.length)
  zstd : ∀ data level, ∃ payload, codecs.zstdCompress data level = some payload ∧ payload ≠ [] ∧
    codecs.zstdDecompress payload (data.length + 1) = some data

/-- Libraries that store: the LZMA2 payload is one uncompressed chunk with its
end marker, the zstd payload the data behind a byte of framing. -/
def storedCodecs : Codecs where
  lzma2Compress data := .ok ([1] ++ beBytes 2 (data.length - 1) ++ data ++ [0])
  lzma2Read payload limit := some (((payload.drop 3).dropLast).take limit, payload.length)
  zstdCompress data _ := some (0 :: data)
  zstdDecompress payload capacity :=
    if (payload.drop 1).length ≤ capacity then some (payload.drop 1) else none

theorem storedCodecs_lossless : storedCodecs.Lossless where
  lzma2 data := by
    refine ⟨_, rfl, by simp, ?_⟩
    have hlength : ([1] ++ beBytes 2 (data.length - 1)).length = 3 := by simp
    simp only [storedCodecs, List.append_assoc _ data [0]]
    rw [List.drop_append_of_le_length hlength.ge, List.drop_of_length_le hlength.le]
    simp
  zstd data level := ⟨_, rfl, by simp, by simp [storedCodecs]⟩

/-! ### Routing -/

def entropy (data : Bytes) : Float :=
  if data.isEmpty then 0
  else
    let counts := (List.range 256).map fun value => data.count (UInt8.ofNat value)
    let total := Float.ofNat data.length
    let terms := (counts.filter (· ≠ 0)).map fun count =>
      let probability := Float.ofNat count / total
      (-probability) * probability.log2
    terms.foldl (· + ·) 0

/-- Each byte minus the byte four places before it. -/
def delta4 (data : Bytes) : Bytes :=
  data.mapIdx fun index byte => if index < 4 then byte else byte - data.getD (index - 4) 0

/-- The loop of `inverse_delta4`; the index is the length of the output. -/
def inverseDelta4From : Bytes → Bytes → Bytes
  | output, [] => output
  | output, byte :: rest =>
      let value :=
        if output.length < 4 then byte else byte + output.getD (output.length - 4) 0
      inverseDelta4From (output ++ [value]) rest

def inverseDelta4 (data : Bytes) : Bytes := inverseDelta4From [] data

@[simp] theorem delta4_length (data : Bytes) : (delta4 data).length = data.length := by
  simp [delta4]

theorem delta4_getElem (data : Bytes) (index : ℕ) (h : index < data.length)
    (h' : index < (delta4 data).length) :
    (delta4 data)[index] =
      if index < 4 then data[index] else data[index] - data.getD (index - 4) 0 := by
  simp [delta4]

/-- After `index` bytes the output is the first `index` bytes of the data. -/
theorem inverseDelta4From_delta4 (data : Bytes) (left index : ℕ) (h : index + left = data.length) :
    inverseDelta4From (data.take index) ((delta4 data).drop index) = data := by
  induction left generalizing index with
  | zero =>
      rw [List.drop_of_length_le (by simp; omega), inverseDelta4From,
        List.take_of_length_le (by omega)]
  | succ left ih =>
      have hindex : index < data.length := by omega
      have htaken : (data.take index).length = index := by
        rw [List.length_take]
        omega
      rw [List.drop_eq_getElem_cons (by simpa using hindex), inverseDelta4From, htaken,
        delta4_getElem data index hindex]
      have hvalue : (if index < 4
          then if index < 4 then data[index] else data[index] - data.getD (index - 4) 0
          else (if index < 4 then data[index] else data[index] - data.getD (index - 4) 0) +
            (data.take index).getD (index - 4) 0) = data[index] := by
        by_cases hsmall : index < 4
        · simp [hsmall]
        · have hback : (data.take index).getD (index - 4) 0 = data.getD (index - 4) 0 := by
            simp only [List.getD_eq_getElem?_getD]
            rw [List.getElem?_take_of_lt (by omega)]
          rw [if_neg hsmall, if_neg hsmall, hback]
          exact UInt8.sub_add_cancel _ _
      simp only [hvalue]
      rw [List.take_concat_get' data index hindex]
      exact ih (index + 1) (by omega)

/-- The transform is undone exactly. -/
theorem inverseDelta4_delta4 (data : Bytes) : inverseDelta4 (delta4 data) = data := by
  simpa [inverseDelta4] using inverseDelta4From_delta4 data data.length 0 (by omega)

def chooseLane (data : Bytes) : Lane × Option Bytes :=
  let byteEntropy := entropy data
  if byteEntropy ≥ 7.75 then (.highEntropy, none)
  else if byteEntropy < 3 ∨ data.length ≤ 4 then (.standard, none)
  else
    let delta := delta4 data
    if byteEntropy - entropy (delta.drop 4) ≥ 2 then (.delta4, some delta)
    else (.standard, none)

/-- A chunk goes to the delta lane together with its transform. -/
theorem chooseLane_cases (data : Bytes) :
    chooseLane data = (.highEntropy, none) ∨ chooseLane data = (.standard, none) ∨
      chooseLane data = (.delta4, some (delta4 data)) := by
  unfold chooseLane
  dsimp only
  split_ifs <;> simp

/-! ### Encoding and decoding one record -/

/-- Compress for a lane and keep the result only if it is shorter. The record
header counts on both sides; the sums cannot overflow, since no buffer reaches
the size of the address space. -/
def compressForLane (codecs : Codecs) (data : Bytes) (lane : Lane) (transformed : Option Bytes) :
    Except Error (Codec × Bytes) := do
  let candidate ←
    match lane with
    | .standard =>
        match codecs.lzma2Compress data with
        | .ok payload => .ok (Codec.lzma2, payload)
        | .error error => .error (.io error)
    | .delta4 =>
        match transformed with
        | none => .error (.codec "delta4 route has no transformed bytes")
        | some transformed =>
            match codecs.zstdCompress transformed 5 with
            | some payload => .ok (Codec.delta4Zstd, payload)
            | none => .error (.codec "zstd encode failed")
    | .highEntropy =>
        match codecs.zstdCompress data 1 with
        | some payload => .ok (Codec.zstd, payload)
        | none => .error (.codec "zstd encode failed")
  if recordSize + candidate.2.length < recordSize + data.length then .ok candidate
  else .ok (Codec.raw, data)

/-- What the codec makes of a payload, before its length is checked. -/
def decodeOutput (codecs : Codecs) (codec : Codec) (payload : Bytes) (rawLen : ℕ) :
    Except Error Bytes :=
  match codec with
  | .raw => .ok payload
  | .lzma2 =>
      match codecs.lzma2Read payload (rawLen + 1) with
      | none => .error (.invalidFormat "LZMA2 payload is malformed")
      | some (decoded, position) =>
          if position ≠ payload.length then
            .error (.invalidFormat "LZMA2 payload has trailing bytes")
          else .ok decoded
  | .delta4Zstd =>
      match codecs.zstdDecompress payload (rawLen + 1) with
      | none => .error (.invalidFormat "zstd payload is malformed")
      | some decoded => .ok (inverseDelta4 decoded)
  | .zstd =>
      match codecs.zstdDecompress payload (rawLen + 1) with
      | none => .error (.invalidFormat "zstd payload is malformed")
      | some decoded => .ok decoded

def decodePayload (codecs : Codecs) (codec : Codec) (payload : Bytes) (rawLen : ℕ) :
    Except Error Bytes :=
  match decodeOutput codecs codec payload rawLen with
  | .error error => .error error
  | .ok output =>
      if output.length ≠ rawLen then
        .error (.invalidFormat "decoded record size is inconsistent")
      else .ok output

theorem decodePayload_length {codecs : Codecs} {codec : Codec} {payload : Bytes} {rawLen : ℕ}
    {output : Bytes} (h : decodePayload codecs codec payload rawLen = .ok output) :
    output.length = rawLen := by
  unfold decodePayload at h
  split at h
  · cases h
  · split_ifs at h with hlength
    cases h
    exact not_not.mp hlength

theorem decodePayload_of_output {codecs : Codecs} {codec : Codec} {payload data : Bytes}
    (h : decodeOutput codecs codec payload data.length = .ok data) :
    decodePayload codecs codec payload data.length = .ok data := by
  simp [decodePayload, h]

/-- A payload that decodes to a chunk of its own, no longer than the chunk. -/
structure DecodesTo (codecs : Codecs) (codec : Codec) (payload data : Bytes) : Prop where
  nonempty : payload ≠ []
  short : payload.length ≤ data.length
  decodes : decodePayload codecs codec payload data.length = .ok data

/-- Whatever lane is chosen, the record decodes to the chunk. -/
theorem compressForLane_decodesTo {codecs : Codecs} (hcodecs : codecs.Lossless) {data : Bytes}
    (hdata : data ≠ []) :
    ∃ codec payload,
      compressForLane codecs data (chooseLane data).1 (chooseLane data).2 = .ok (codec, payload) ∧
        DecodesTo codecs codec payload data := by
  have hraw : DecodesTo codecs .raw data data :=
    ⟨hdata, le_rfl, decodePayload_of_output rfl⟩
  -- a candidate that decodes is used when it is shorter
  have hchoose : ∀ codec payload, payload ≠ [] →
      decodeOutput codecs codec payload data.length = .ok data →
      ∃ codec' payload', (if recordSize + payload.length < recordSize + data.length
          then Except.ok (codec, payload) else .ok (Codec.raw, data)) =
            (.ok (codec', payload') : Except Error (Codec × Bytes)) ∧
        DecodesTo codecs codec' payload' data := by
    intro codec payload hne hdecodes
    split
    · exact ⟨codec, payload, rfl, hne, by omega, decodePayload_of_output hdecodes⟩
    · exact ⟨.raw, data, rfl, hraw⟩
  rcases chooseLane_cases data with hlane | hlane | hlane
  · obtain ⟨payload, hcompress, hne, hrestore⟩ := hcodecs.zstd data 1
    simp only [hlane, compressForLane, hcompress, bind, Except.bind]
    exact hchoose .zstd payload hne (by simp [decodeOutput, hrestore])
  · obtain ⟨payload, hcompress, hne, hrestore⟩ := hcodecs.lzma2 data
    simp only [hlane, compressForLane, hcompress, bind, Except.bind]
    exact hchoose .lzma2 payload hne (by simp [decodeOutput, hrestore])
  · obtain ⟨payload, hcompress, hne, hrestore⟩ := hcodecs.zstd (delta4 data) 5
    rw [delta4_length] at hrestore
    simp only [hlane, compressForLane, hcompress, bind, Except.bind]
    exact hchoose .delta4Zstd payload hne
      (by simp [decodeOutput, hrestore, inverseDelta4_delta4])

end MosaicArchive.Core
