import MosaicArchive.Modes.Rans

/-!
The BYTE_RANS decoder on any payload. A table that is accepted cuts all the
slots into stretches, so every lookup finds its symbol; the state stays in its
32 bits because a slot lies in the stretch of its symbol.
-/

namespace MosaicArchive.Modes.ByteRansMode

open FixedWidth
open Manifest (PyError)

/-! ### The header -/

theorem readTable_spec {n : ℕ} {rest : Bytes} (f : Frequencies) (hlength : n * 3 ≤ rest.length) :
    Iteration.Outcome (fun t => t.2.length + n * 3 = rest.length) IsFormatError
      (readTable n rest f) := by
  induction n generalizing rest f with
  | zero => exact Nat.add_zero _
  | succ n ih =>
      rcases rest with _ | ⟨symbol, _ | ⟨high, _ | ⟨low, rest⟩⟩⟩
      all_goals simp only [List.length_nil, List.length_cons] at hlength
      iterate 3 omega
      simp only [readTable]
      split_ifs with hinvalid
      · exact isFormatError _
      · have h := ih (Function.update f symbol (beNat [high, low]))
          (show n * 3 ≤ rest.length by omega)
        rcases hread : readTable n rest (Function.update f symbol (beNat [high, low])) with e | t
        · rwa [hread] at h
        · rw [hread] at h
          show t.2.length + (n + 1) * 3 = rest.length + 1 + 1 + 1
          have h' : t.2.length + n * 3 = rest.length := h
          omega

/-- A header that is accepted gives a table and a state of 32 bits. -/
structure Accepted (header : Model × ℕ × Bytes) : Prop where
  valid : header.1.Valid
  state_ge : ransL ≤ header.2.1
  state_lt : header.2.1 < 2 ^ 32

theorem readHeader_spec (payload : Bytes) :
    Iteration.Outcome Accepted IsFormatError (readHeader payload) := by
  simp only [readHeader]
  split_ifs with hshort hcount htruncated
  iterate 3 exact isFormatError _
  have htable := @readTable_spec (beNat (payload.take 2)) (payload.drop 2) (fun _ => 0)
    (by rw [List.length_drop]; omega)
  rcases hread : readTable (beNat (payload.take 2)) (payload.drop 2) fun _ => 0 with e | ⟨f, rest⟩
  · rw [hread] at htable
    exact htable
  · rw [hread] at htable
    have hrest : rest.length + beNat (payload.take 2) * 3 = (payload.drop 2).length := htable
    rw [List.length_drop] at hrest
    simp only [bind, Except.bind, cumulative]
    by_cases htotal : total f = scale
    · -- Four bytes are left, for the state.
      have hfour : ¬ rest.length < 4 := by omega
      simp only [htotal, ne_eq, not_true_eq_false, if_false, if_neg hfour]
      split_ifs with hstate
      · exact isFormatError _
      · have hlt := leNat_lt (rest.take 4)
        rw [List.length_take, Nat.min_eq_left (Nat.not_lt.mp hfour)] at hlt
        exact ⟨⟨htotal, rfl, lookupTable_eq htotal⟩, Nat.not_lt.mp hstate, hlt⟩
    · simp only [ne_eq, htotal, not_false_eq_true, if_true]
      exact isFormatError _

/-! ### The loops -/

/-- What `while state < _RANS_L` starts from in a state of the decoder. -/
def Popped (m : Model) (s : Decoder) (start : ℕ × Bytes) : Prop :=
  ∃ symbol frequency base, m.lookup[s.state % 2 ^ scaleBits]? = some symbol ∧
    frequencyOf m.frequencies symbol = .ok frequency ∧ startOf m.starts symbol = .ok base ∧
    start = (pop frequency base s.state, s.rest)

/-- A slot lies in the stretch of its symbol, so without the symbol the state is no larger
than a full table would leave it. -/
theorem exists_popped {m : Model} (hm : m.Valid) {state : ℕ} (hstate : state < 2 ^ 32) :
    ∃ symbol base, m.lookup[state % 2 ^ scaleBits]? = some symbol ∧
      frequencyOf m.frequencies symbol = .ok (m.frequencies symbol) ∧
      startOf m.starts symbol = .ok base ∧ pop (m.frequencies symbol) base state < 2 ^ 32 := by
  have hslot : state % 2 ^ scaleBits < m.lookup.length := by
    rw [hm.lookup, slots_length, show ((symbols m.frequencies).map m.frequencies).sum = scale
      from hm.total_eq]
    exact Nat.mod_lt _ (by norm_num [scaleBits])
  have hlookup := List.getElem?_eq_getElem hslot
  have hslots : (slots m.frequencies (symbols m.frequencies))[state % 2 ^ scaleBits]? =
      some m.lookup[state % 2 ^ scaleBits] := by
    rw [← hm.lookup]
    exact hlookup
  obtain ⟨hmem, base, hstretch, hbase, hlt⟩ :=
    @stretch_of_slot _ _ (symbols_nodup m.frequencies) 0 _ _ hslots
  refine ⟨_, base, hlookup, frequencyOf_eq (mem_symbols.mp hmem), ?_, ?_⟩
  · rw [startOf, hm.starts, hstretch.lookup]
  · have hle : m.frequencies (m.lookup[state % 2 ^ scaleBits]) ≤ scale := le_scale hm.total_eq
    have hdiv : state / 2 ^ scaleBits < 2 ^ 20 := Nat.div_lt_of_lt_mul (by
      simpa [scaleBits] using hstate)
    have hmul : m.frequencies (m.lookup[state % 2 ^ scaleBits]) * (state / 2 ^ scaleBits + 1) ≤
        scale * 2 ^ 20 := Nat.mul_le_mul hle hdiv
    have hscale : scale * 2 ^ 20 = 2 ^ 32 := rfl
    rw [Nat.mul_succ] at hmul
    rw [pop]
    omega

theorem Popped.state_lt {m : Model} (hm : m.Valid) {s : Decoder} (hs : s.state < 2 ^ 32)
    {start : ℕ × Bytes} (h : Popped m s start) : start.1 < 2 ^ 32 := by
  obtain ⟨symbol, frequency, base, hlookup, hfrequency, hbase, rfl⟩ := h
  obtain ⟨symbol', base', hlookup', hfrequency', hbase', hlt⟩ := exists_popped hm hs
  obtain rfl := Option.some.inj (hlookup.symm.trans hlookup')
  obtain rfl := Except.ok.inj (hfrequency.symm.trans hfrequency')
  obtain rfl := Except.ok.inj (hbase.symm.trans hbase')
  exact hlt

/-- A state that is filled lies below `_RANS_L`, so a byte more stays within 31 bits. -/
theorem fillRound_bounded (s : ℕ × Bytes) (hs : s.1 < 2 ^ 32) :
    Iteration.Round (fun s => s.1 < 2 ^ 32) (fun s => s.2.length)
      (fun s => ransL ≤ s.1 ∧ s.1 < 2 ^ 32) IsFormatError s (fillRound s) := by
  obtain ⟨state, _ | ⟨byte, rest⟩⟩ := s
  · simp only [fillRound]
    split_ifs with hlow
    · exact isFormatError _
    · exact ⟨Nat.not_lt.mp hlow, hs⟩
  · simp only [fillRound]
    split_ifs with hlow
    · have hbyte := byte.toNat_lt
      have hlow' : state < 2 ^ 23 := hlow
      refine ⟨?_, Nat.lt_succ_self _⟩
      show state * 256 + byte.toNat < 2 ^ 32
      omega
    · exact ⟨Nat.not_lt.mp hlow, hs⟩

theorem fill_outcome {s : ℕ × Bytes} (hs : s.1 < 2 ^ 32) :
    Iteration.Outcome (fun s => ransL ≤ s.1 ∧ s.1 < 2 ^ 32) IsFormatError
      (Iteration.run fillRound endless (s.2.length + 1) s) :=
  Iteration.run_outcome endless fillRound_bounded hs (Nat.lt_succ_self _)

theorem fill_visits {s s' : ℕ × Bytes} (hs : s.1 < 2 ^ 32)
    (hvisits : Iteration.Visits fillRound s s') : s'.1 < 2 ^ 32 := by
  apply hvisits.invariant (I := fun s => s.1 < 2 ^ 32) _ hs
  intro s₁ s₂ h₁ hnext
  have h := fillRound_bounded s₁ h₁
  rw [show fillRound s₁ = _ from hnext] at h
  exact h.1

/-- The invariant of the loop over the symbols. -/
def Decoding (expectedSize : ℕ) (s : Decoder) : Prop :=
  s.state < 2 ^ 32 ∧ s.output.length + s.remaining = expectedSize

theorem decodeRound_bounded {m : Model} (hm : m.Valid) {expectedSize : ℕ} (s : Decoder)
    (hs : Decoding expectedSize s) :
    BoundedRound (fun s => s.output.length) Decoder.remaining (Decoding expectedSize)
      expectedSize s (decodeRound m s) := by
  obtain ⟨hstate, hsize⟩ := hs
  obtain ⟨_ | remaining, state, rest, output⟩ := s
  · simp only [decodeRound]
    split_ifs
    · exact isFormatError _
    · exact hsize
  · obtain ⟨symbol, base, hlookup, hfrequency, hbase, hlt⟩ := exists_popped hm hstate
    simp only [decodeRound, hlookup, hfrequency, hbase, bind, Except.bind]
    have hfill := @fill_outcome (pop (m.frequencies symbol) base state, rest) hlt
    rcases hrun : Iteration.run fillRound endless (rest.length + 1)
      (pop (m.frequencies symbol) base state, rest) with e | filled
    · rw [hrun] at hfill
      exact hfill
    · rw [hrun] at hfill
      have hsize' : output.length + (remaining + 1) = expectedSize := hsize
      refine ⟨⟨?_, hfill.2, ?_⟩, Nat.lt_succ_self _⟩
      · show (output ++ [symbol]).length ≤ expectedSize
        rw [List.length_append, List.length_singleton]
        omega
      · show (output ++ [symbol]).length + remaining = expectedSize
        rw [List.length_append, List.length_singleton]
        omega

/-- The loop over the symbols, from a header that is accepted. -/
theorem loop_total {m : Model} {state : ℕ} {rest : Bytes} (h : Accepted (m, state, rest))
    (expectedSize : ℕ) :
    Decodes expectedSize
        (Iteration.run (decodeRound m) endless (expectedSize + 1) ⟨expectedSize, state, rest, []⟩) ∧
      ∀ s, Iteration.Visits (decodeRound m) ⟨expectedSize, state, rest, []⟩ s →
        s.output.length ≤ expectedSize ∧ Decoding expectedSize s := by
  apply decodes_of_rounds (fun s _ hs => decodeRound_bounded h.valid s hs)
  · exact Nat.zero_le _
  · exact ⟨h.state_lt, Nat.zero_add _⟩
  · exact Nat.lt_succ_self _

/-- The decoder is total, and its output never exceeds the expected size. -/
theorem decode_total (payload : Bytes) (expectedSize : ℕ) :
    Decodes expectedSize (decode payload expectedSize) ∧
      ∀ m state rest, readHeader payload = .ok (m, state, rest) →
        ∀ s, Iteration.Visits (decodeRound m) ⟨expectedSize, state, rest, []⟩ s →
          s.output.length ≤ expectedSize := by
  have hheader := readHeader_spec payload
  constructor
  · simp only [decode]
    split_ifs with hzero hpayload
    · exact isFormatError _
    · exact hzero.symm
    · rcases hread : readHeader payload with e | ⟨m, state, rest⟩
      · rw [hread] at hheader
        exact hheader
      · rw [hread] at hheader
        exact (loop_total hheader expectedSize).1
  · intro m state rest hread s hvisits
    rw [hread] at hheader
    exact ((loop_total hheader expectedSize).2 s hvisits).1

/-- The state of a decoder stays within 32 bits, before and while it is filled, and filling it
ends, with a state that is large enough or an `ArchiveFormatError`. -/
theorem decode_state {payload : Bytes} {m : Model} {state : ℕ} {rest : Bytes}
    (hread : readHeader payload = .ok (m, state, rest)) (expectedSize : ℕ) {s : Decoder}
    (hvisits : Iteration.Visits (decodeRound m) ⟨expectedSize, state, rest, []⟩ s) :
    s.state < 2 ^ 32 ∧ ∀ start, Popped m s start →
      (∀ s', Iteration.Visits fillRound start s' → s'.1 < 2 ^ 32) ∧
      Iteration.Outcome (fun s' => ransL ≤ s'.1 ∧ s'.1 < 2 ^ 32) IsFormatError
        (Iteration.run fillRound endless (start.2.length + 1) start) := by
  have hheader := readHeader_spec payload
  rw [hread] at hheader
  have hstate := ((loop_total hheader expectedSize).2 s hvisits).2.1
  refine ⟨hstate, fun start hpopped => ?_⟩
  have hlt := hpopped.state_lt hheader.valid hstate
  exact ⟨fun s' => fill_visits hlt, fill_outcome hlt⟩

/-- A block that is not empty is restored. The encoder's state is in `[2^23, 2^31)` wherever a
symbol ends, and the decoder comes back to the state 2^23 with nothing left to read. On any
payload the decoder's state stays within 32 bits and filling it ends. -/
theorem byte_rans_round_trip :
    (∀ block : Bytes, block ≠ [] →
      ∃ m final payload, normalizeCounts block = .ok m.frequencies ∧
        cumulative m.frequencies = .ok m.starts ∧
        encodeSymbols m.frequencies m.starts block = .ok final ∧ encode block = .ok payload ∧
        (∀ rest, rest <:+ block →
          ∃ s, encodeSymbols m.frequencies m.starts rest = .ok s ∧ Bounded s.1) ∧
        readHeader payload = .ok (m, final.1, final.2) ∧
        Iteration.Visits (decodeRound m) ⟨block.length, final.1, final.2, []⟩
          ⟨0, ransL, [], block⟩ ∧
        decode payload block.length = .ok block) ∧
    ∀ (payload : Bytes) (expectedSize : ℕ), Decodes expectedSize (decode payload expectedSize) ∧
      ∀ m state rest, readHeader payload = .ok (m, state, rest) →
      ∀ s, Iteration.Visits (decodeRound m) ⟨expectedSize, state, rest, []⟩ s →
        s.state < 2 ^ 32 ∧ ∀ start, Popped m s start →
          (∀ s', Iteration.Visits fillRound start s' → s'.1 < 2 ^ 32) ∧
          Iteration.Outcome (fun s' => ransL ≤ s'.1 ∧ s'.1 < 2 ^ 32) IsFormatError
            (Iteration.run fillRound endless (start.2.length + 1) start) := by
  refine ⟨fun block hblock => ?_, fun payload expectedSize => ?_⟩
  · obtain ⟨m, final, payload, hf, hstarts, hfinal, hencode, -, hbounded, hread, hvisits, hdecode⟩ :=
      encode_decode hblock
    exact ⟨m, final, payload, hf, hstarts, hfinal, hencode, hbounded, hread, hvisits, hdecode⟩
  · exact ⟨(decode_total payload expectedSize).1,
      fun _ _ _ hread _ hvisits => decode_state hread expectedSize hvisits⟩

/-- A block of one byte. -/
theorem byte_rans_round_trip_one_byte :
    [(7 : UInt8)] ≠ [] ∧ ∃ payload, encode [7] = .ok payload ∧ decode payload 1 = .ok [7] := by
  have hblock : [(7 : UInt8)] ≠ [] := by decide
  obtain ⟨_, _, payload, -, -, -, hencode, -, -, -, hdecode⟩ := byte_rans_round_trip.1 [7] hblock
  exact ⟨hblock, payload, hencode, hdecode⟩

end MosaicArchive.Modes.ByteRansMode
