import MosaicArchive.Modes.Matching

/-!
The LZ_SIMPLE mode (`mosaic_archive/modes/lz_simple.py`): the tokens of the
parse with 16-bit fields, and the decoder that checks them.
-/

namespace MosaicArchive.Modes.LzSimpleMode

open FixedWidth
open Manifest (PyError)

def minimumMatch : ℕ := 6
def maximumMatch : ℕ := 65535
def maximumDistance : ℕ := 65535
def candidateLimit : ℕ := 32

def literalTag : UInt8 := 0
def matchTag : UInt8 := 1

/-- The loop of `_emit_literals`, for at most `n` chunks. -/
def literalChunks : ℕ → Bytes → List Token
  | 0, _ => []
  | n + 1, literals =>
      if literals = [] then []
      else .literals (literals.take 65535) :: literalChunks n (literals.drop 65535)

/-- The match is compared through the period: the candidate's bytes, repeated. -/
def rule : MatchRule where
  minimumMatch := minimumMatch
  maximumMatch := maximumMatch
  maximumDistance := maximumDistance
  candidateLimit := candidateLimit
  agrees block position candidate index :=
    block[candidate + index % (position - candidate)]? == block[position + index]?
  emitLiterals literals := literalChunks literals.length literals
  flushAt := some 65535

/-- `struct.Struct(">H").pack` -/
def packU16 (n : ℕ) : Except PyError Bytes :=
  if n < 256 ^ 2 then .ok (beBytes 2 n) else .error .struct

def Token.pack : Token → Except PyError Bytes
  | .literals bytes => do
      let length ← packU16 bytes.length
      .ok (literalTag :: (length ++ bytes))
  | .copied distance length => do
      let distance ← packU16 distance
      let length ← packU16 length
      .ok (matchTag :: (distance ++ length))

def packTokens : List Token → Except PyError Bytes
  | [] => .ok []
  | token :: tokens => do
      let bytes ← Token.pack token
      let rest ← packTokens tokens
      .ok (bytes ++ rest)

/-- `LzSimpleMode.encode` -/
def encode (block : Bytes) : Except PyError Bytes := do
  let tokens ← parse rule block
  packTokens tokens

/-- A literal token, after its tag. -/
def readLiterals (expectedSize : ℕ) (rest output : Bytes) : Except PyError (Cursor ⊕ Bytes) :=
  if rest.length < 2 then .error (.archiveFormat "LZ literal token is truncated")
  else
    let literalLength := beNat (rest.take 2)
    let rest := rest.drop 2
    if literalLength = 0 ∨ rest.length < literalLength then
      .error (.archiveFormat "LZ literal payload is invalid")
    else if expectedSize < output.length + literalLength then
      .error (.archiveFormat "LZ literal exceeds the declared block size")
    else .ok (.inl ⟨rest.drop literalLength, output ++ rest.take literalLength⟩)

/-- A match token, after its tag. -/
def readMatch (expectedSize : ℕ) (rest output : Bytes) : Except PyError (Cursor ⊕ Bytes) :=
  if rest.length < 4 then .error (.archiveFormat "LZ match token is truncated")
  else
    let distance := beNat (rest.take 2)
    let matchLength := beNat ((rest.drop 2).take 2)
    if distance = 0 ∨ output.length < distance ∨ matchLength < minimumMatch ∨
        expectedSize < output.length + matchLength then
      .error (.archiveFormat "LZ match token is invalid")
    else
      match copyMatch distance matchLength output with
      | .error e => .error e
      | .ok output => .ok (.inl ⟨rest.drop 4, output⟩)

/-- One token of the payload. -/
def round (expectedSize : ℕ) (s : Cursor) : Except PyError (Cursor ⊕ Bytes) :=
  match s.rest with
  | [] =>
      if s.output.length ≠ expectedSize then
        .error (.archiveFormat "LZ block size does not match its metadata")
      else .ok (.inr s.output)
  | tag :: rest =>
      if tag = literalTag then readLiterals expectedSize rest s.output
      else if tag = matchTag then readMatch expectedSize rest s.output
      else .error (.archiveFormat ("unknown LZ token tag: " ++ toString tag))

/-- `LzSimpleMode.decode` -/
def decode (payload : Bytes) (expectedSize : ℕ) : Except PyError Bytes :=
  Iteration.run (round expectedSize) endless (payload.length + 1) ⟨payload, []⟩

/-! ### The tokens that are emitted -/

/-- The fields of the token are in range. -/
def InRange : Token → Prop
  | .literals bytes => 1 ≤ bytes.length ∧ bytes.length ≤ 65535
  | .copied distance length => 1 ≤ distance ∧ distance ≤ 65535 ∧ 6 ≤ length ∧ length ≤ 65535

/-- Comparing through the period finds out whether the bytes repeat. -/
theorem repeats_of_agrees {block : Bytes} {position candidate length : ℕ}
    (hlt : candidate < position) (hkey : ∀ i < 3, block[candidate + i]? = block[position + i]?)
    (hagrees : ∀ i, 3 ≤ i → i < length → rule.agrees block position candidate i = true) :
    Repeats block position (position - candidate) length := by
  have hperiod : ∀ i < length, block[candidate + i % (position - candidate)]? = block[candidate + i]? ∧
      block[position + i]? = block[candidate + i]? := by
    intro i
    induction i using Nat.strong_induction_on with
    | _ i ih =>
        intro hi
        have hmod : block[candidate + i % (position - candidate)]? = block[candidate + i]? := by
          rcases Nat.lt_or_ge i (position - candidate) with hsmall | hlarge
          · rw [Nat.mod_eq_of_lt hsmall]
          · -- One period earlier, the same bytes.
            obtain ⟨hmod, hback⟩ := ih (i - (position - candidate)) (by omega) (by omega)
            have hindex : position + (i - (position - candidate)) = candidate + i := by omega
            rw [Nat.mod_eq_sub_mod hlarge, hmod, ← hback, hindex]
        refine ⟨hmod, ?_⟩
        rcases Nat.lt_or_ge i 3 with hsmall | hlarge
        · exact (hkey i hsmall).symm
        · rw [← hmod]
          exact (eq_of_beq (hagrees i hlarge hi)).symm
  intro i hi
  rw [(hperiod i hi).2, show position + i - (position - candidate) = candidate + i by omega]

theorem rule_sound : rule.Sound where
  minimum := by decide
  maximum := by decide
  repeats := repeats_of_agrees

theorem literalChunks_emits {n : ℕ} {literals : Bytes} (hn : literals.length ≤ n) (output : Bytes) :
    Emits InRange output (literalChunks n literals) (output ++ literals) := by
  induction n generalizing literals output with
  | zero =>
      obtain rfl := List.length_eq_zero_iff.mp (Nat.le_zero.mp hn)
      rw [List.append_nil]
      exact .nil
  | succ n ih =>
      unfold literalChunks
      split_ifs with hempty
      · rw [hempty, List.append_nil]
        exact .nil
      · have hpos : 0 < literals.length := List.length_pos_iff.mpr hempty
        have hrest := @ih (literals.drop 65535) (by rw [List.length_drop]; omega)
          (output ++ literals.take 65535)
        rw [List.append_assoc, List.take_append_drop] at hrest
        refine .literals ?_ hrest
        simp only [InRange, List.length_take]
        omega

theorem rule_emitting : rule.Emitting InRange where
  flush_pos := by decide
  literals output bytes _ := literalChunks_emits le_rfl output
  copied hpos hmax hmin hlength := ⟨hpos, hmax, hmin, hlength⟩

/-! ### Packing and reading back -/

theorem packU16_of_le {n : ℕ} (h : n ≤ 65535) : packU16 n = .ok (beBytes 2 n) :=
  if_pos (by omega)

theorem beNat_take_beBytes {n : ℕ} (h : n ≤ 65535) (rest : Bytes) :
    beNat ((beBytes 2 n ++ rest).take 2) = n := by
  rw [List.take_append_of_le_length (beBytes_length 2 n).ge,
    List.take_of_length_le (beBytes_length 2 n).le, beNat_beBytes_of_lt (by omega)]

theorem drop_beBytes (n : ℕ) (rest : Bytes) : (beBytes 2 n ++ rest).drop 2 = rest :=
  List.drop_left' (beBytes_length 2 n)

/-- Tokens in range are packed, and the decoder goes through them to the output they lead to. -/
theorem packTokens_ends {tokens : List Token} {output result : Bytes}
    (h : Emits InRange output tokens result) :
    ∃ payload, packTokens tokens = .ok payload ∧
      Iteration.Ends (round result.length) ⟨payload, output⟩ result := by
  induction h with
  | nil =>
      refine ⟨[], rfl, .stop ?_⟩
      simp [round]
  | @literals output result bytes tokens hallowed h ih =>
      obtain ⟨payload, hpayload, hends⟩ := ih
      obtain ⟨hpos, hle⟩ := hallowed
      have hsize := h.length_le
      rw [List.length_append] at hsize
      refine ⟨literalTag :: (beBytes 2 bytes.length ++ bytes) ++ payload, ?_, .next ?_ hends⟩
      · simp [packTokens, Token.pack, packU16_of_le hle, hpayload, bind, Except.bind]
      · have hlong : ¬ (beBytes 2 bytes.length ++ (bytes ++ payload)).length < 2 := by
          simp only [List.length_append, beBytes_length]
          omega
        have hvalid : ¬ (bytes.length = 0 ∨ (bytes ++ payload).length < bytes.length) := by
          rw [List.length_append]
          omega
        have hroom : ¬ result.length < output.length + bytes.length := Nat.not_lt.mpr hsize
        simp only [round, List.cons_append, List.append_assoc, if_pos, readLiterals, if_neg hlong,
          beNat_take_beBytes hle, drop_beBytes, if_neg hvalid, if_neg hroom, List.drop_left,
          List.take_left]
  | @copied output next result distance length tokens hallowed hreaches hcopy h ih =>
      obtain ⟨payload, hpayload, hends⟩ := ih
      obtain ⟨hdpos, hdle, hmin, hmax⟩ := hallowed
      have hsize := h.length_le
      rw [copyMatch_length_eq hreaches hcopy] at hsize
      refine ⟨matchTag :: (beBytes 2 distance ++ beBytes 2 length) ++ payload, ?_, .next ?_ hends⟩
      · simp [packTokens, Token.pack, packU16_of_le hdle, packU16_of_le hmax, hpayload, bind,
          Except.bind]
      · have hlong : ¬ ((beBytes 2 distance ++ (beBytes 2 length ++ payload)).length < 4) := by
          simp only [List.length_append, beBytes_length]
          omega
        have hdrop : (beBytes 2 distance ++ (beBytes 2 length ++ payload)).drop 4 = payload := by
          rw [← List.append_assoc]
          exact List.drop_left' (by simp)
        have hvalid : ¬ (distance = 0 ∨ output.length < distance ∨ length < minimumMatch ∨
            result.length < output.length + length) := by
          have := hreaches.2
          simp only [minimumMatch]
          omega
        have htag : matchTag ≠ literalTag := by decide
        simp only [round, List.cons_append, List.append_assoc, if_neg htag, if_pos, readMatch,
          if_neg hlong, beNat_take_beBytes hdle, drop_beBytes, beNat_take_beBytes hmax,
          if_neg hvalid, hcopy, hdrop]

theorem readLiterals_next {expectedSize : ℕ} {rest output : Bytes} {s : Cursor}
    (h : readLiterals expectedSize rest output = .ok (.inl s)) :
    s.rest.length ≤ rest.length ∧ s.output.length ≤ expectedSize := by
  simp only [readLiterals] at h
  split_ifs at h with hshort hinvalid hlong
  obtain rfl := Sum.inl.inj (Except.ok.inj h)
  simp only [List.length_drop, List.length_append, List.length_take]
  omega

theorem readMatch_next {expectedSize : ℕ} {rest output : Bytes} {s : Cursor}
    (h : readMatch expectedSize rest output = .ok (.inl s)) :
    s.rest.length ≤ rest.length ∧ s.output.length ≤ expectedSize := by
  simp only [readMatch] at h
  split_ifs at h with hshort hinvalid
  have hreaches : Reaches (beNat (rest.take 2)) output := by
    unfold Reaches
    omega
  obtain ⟨result, hresult, hlength⟩ :=
    copyMatch_length (beNat ((rest.drop 2).take 2)) hreaches
  rw [hresult] at h
  obtain rfl := Sum.inl.inj (Except.ok.inj h)
  simp only [List.length_drop]
  omega

theorem next_shrinks {expectedSize : ℕ} {s s' : Cursor}
    (h : Iteration.Next (round expectedSize) s s') :
    s'.rest.length < s.rest.length ∧ s'.output.length ≤ expectedSize := by
  rcases s with ⟨_ | ⟨tag, rest⟩, output⟩ <;> simp only [Iteration.Next, round] at h
  · split_ifs at h
    cases h
  · split_ifs at h
    · obtain ⟨hrest, houtput⟩ := readLiterals_next h
      exact ⟨Nat.lt_succ_of_le hrest, houtput⟩
    · obtain ⟨hrest, houtput⟩ := readMatch_next h
      exact ⟨Nat.lt_succ_of_le hrest, houtput⟩

/-- Every block is restored. Its tokens lead to it: a match copies from the output written
so far, with a distance of 1 to 65535 and a length of 6 to 65535, and the literals of a
token are 1 to 65535 bytes. -/
theorem lz_simple_round_trip (block : Bytes) :
    ∃ tokens payload, parse rule block = .ok tokens ∧ encode block = .ok payload ∧
      Emits InRange [] tokens block ∧ decode payload block.length = .ok block := by
  obtain ⟨tokens, htokens, hemits⟩ := parse_emits rule_sound rule_emitting block
  obtain ⟨payload, hpayload, hends⟩ := packTokens_ends hemits
  refine ⟨tokens, payload, htokens, ?_, hemits, ?_⟩
  · simp only [encode, htokens, bind, Except.bind, hpayload]
  · exact Iteration.run_of_ends (fun _ _ h => (next_shrinks h).1) hends (Nat.lt_succ_self _)

theorem readLiterals_error {expectedSize : ℕ} {rest output : Bytes} {e : PyError}
    (h : readLiterals expectedSize rest output = .error e) : IsFormatError e := by
  simp only [readLiterals] at h
  split_ifs at h <;> exact Except.error.inj h ▸ isFormatError _

theorem readMatch_error {expectedSize : ℕ} {rest output : Bytes} {e : PyError}
    (h : readMatch expectedSize rest output = .error e) : IsFormatError e := by
  simp only [readMatch] at h
  split_ifs at h with hshort hinvalid
  · exact Except.error.inj h ▸ isFormatError _
  · exact Except.error.inj h ▸ isFormatError _
  · -- The distance was checked, so the copy does not fail.
    have hreaches : Reaches (beNat (rest.take 2)) output := by
      unfold Reaches
      omega
    obtain ⟨result, hresult, -⟩ := copyMatch_length (beNat ((rest.drop 2).take 2)) hreaches
    rw [hresult] at h
    cases h

theorem readLiterals_continues {expectedSize : ℕ} {rest output block : Bytes} :
    readLiterals expectedSize rest output ≠ .ok (.inr block) := by
  simp only [readLiterals]
  split_ifs <;> simp

theorem readMatch_continues {expectedSize : ℕ} {rest output block : Bytes} :
    readMatch expectedSize rest output ≠ .ok (.inr block) := by
  simp only [readMatch]
  split_ifs
  · simp
  · simp
  · split <;> simp

theorem round_error {expectedSize : ℕ} {s : Cursor} {e : PyError}
    (h : round expectedSize s = .error e) : IsFormatError e := by
  rcases s with ⟨_ | ⟨tag, rest⟩, output⟩ <;> simp only [round] at h
  · split_ifs at h
    exact Except.error.inj h ▸ isFormatError _
  · split_ifs at h
    · exact readLiterals_error h
    · exact readMatch_error h
    · exact Except.error.inj h ▸ isFormatError _

theorem round_result {expectedSize : ℕ} {s : Cursor} {output : Bytes}
    (h : round expectedSize s = .ok (.inr output)) : output.length = expectedSize := by
  rcases s with ⟨_ | ⟨tag, rest⟩, out⟩ <;> simp only [round] at h
  · split_ifs at h with hsize
    obtain rfl := Sum.inr.inj (Except.ok.inj h)
    exact not_not.mp hsize
  · split_ifs at h
    · exact absurd h readLiterals_continues
    · exact absurd h readMatch_continues

/-- The decoder is total, and its output never exceeds the expected size. -/
theorem decode_total (payload : Bytes) (expectedSize : ℕ) :
    Decodes expectedSize (decode payload expectedSize) ∧
      ∀ s, Iteration.Visits (round expectedSize) ⟨payload, []⟩ s →
        s.output.length ≤ expectedSize := by
  have hround : ∀ s : Cursor, s.output.length ≤ expectedSize → True →
      BoundedRound (fun s => s.output.length) (fun s => s.rest.length) (fun _ => True) expectedSize s
        (round expectedSize s) := by
    intro s _ _
    rcases hr : round expectedSize s with e | s' | output
    · exact round_error hr
    · obtain ⟨hrest, houtput⟩ := next_shrinks hr
      exact ⟨⟨houtput, trivial⟩, hrest⟩
    · exact round_result hr
  have h := decodes_of_rounds hround (s := ⟨payload, []⟩) (n := payload.length + 1)
    (Nat.zero_le expectedSize) trivial (Nat.lt_succ_self _)
  exact ⟨h.1, fun s hvisits => (h.2 s hvisits).1⟩

end MosaicArchive.Modes.LzSimpleMode
