import MosaicArchive.Modes.RansTable

/-!
The BYTE_RANS mode (`mosaic_archive/modes/rans.py`). The encoder goes through
the block from its end and the decoder through it from its start; what the
encoder moves out of its state for a symbol is exactly what the decoder takes
in after that symbol, because every state that was shifted lies below the bound
the decoder fills up to.
-/

namespace MosaicArchive.Modes.ByteRansMode

open FixedWidth
open Manifest (PyError)

/-- `frequencies[symbol]` -/
def frequencyOf (f : Frequencies) (symbol : UInt8) : Except PyError ℕ :=
  if f symbol = 0 then .error lookupError else .ok (f symbol)

/-- `starts[symbol]` -/
def startOf (starts : List (UInt8 × ℕ)) (symbol : UInt8) : Except PyError ℕ :=
  match starts.lookup symbol with
  | none => .error lookupError
  | some start => .ok start

/-! ### Encoding -/

/-- `((_RANS_L >> _SCALE_BITS) << 8) * frequency` -/
def maximumState (frequency : ℕ) : ℕ := ransL / 2 ^ scaleBits * 2 ^ 8 * frequency

/-- A round of `while state >= maximum_state`. The bytes moved out are kept with the newest
first, which is the order they are written in at the end. -/
def shiftRound (maximum : ℕ) (s : ℕ × Bytes) : Except PyError ((ℕ × Bytes) ⊕ (ℕ × Bytes)) :=
  if maximum ≤ s.1 then .ok (.inl (s.1 / 256, UInt8.ofNat (s.1 % 256) :: s.2)) else .ok (.inr s)

/-- The state that takes in a symbol. -/
def push (frequency start state : ℕ) : ℕ :=
  state / frequency * 2 ^ scaleBits + state % frequency + start

/-- The body of the loop over the block. -/
def encodeSymbol (f : Frequencies) (starts : List (UInt8 × ℕ)) (symbol : UInt8) (s : ℕ × Bytes) :
    Except PyError (ℕ × Bytes) := do
  let frequency ← frequencyOf f symbol
  let shifted ← Iteration.run (shiftRound (maximumState frequency)) endless (s.1 + 1) s
  let start ← startOf starts symbol
  .ok (push frequency start shifted.1, shifted.2)

/-- `for symbol in reversed(block)` -/
def encodeSymbols (f : Frequencies) (starts : List (UInt8 × ℕ)) :
    Bytes → Except PyError (ℕ × Bytes)
  | [] => .ok (ransL, [])
  | symbol :: rest => do
      let s ← encodeSymbols f starts rest
      encodeSymbol f starts symbol s

/-- `_FREQUENCY.pack(symbol, frequency)` -/
def packFrequency (symbol : UInt8) (frequency : ℕ) : Except PyError Bytes :=
  if frequency < 256 ^ 2 then .ok (symbol :: beBytes 2 frequency) else .error .struct

def packTable (f : Frequencies) : List UInt8 → Except PyError Bytes
  | [] => .ok []
  | symbol :: rest => do
      let frequency ← frequencyOf f symbol
      let entry ← packFrequency symbol frequency
      let entries ← packTable f rest
      .ok (entry ++ entries)

/-- `_SYMBOL_COUNT.pack` -/
def packCount (n : ℕ) : Except PyError Bytes :=
  if n < 256 ^ 2 then .ok (beBytes 2 n) else .error .struct

/-- `_STATE.pack`, little-endian -/
def packState (state : ℕ) : Except PyError Bytes :=
  if state < 256 ^ 4 then .ok (leBytes 4 state) else .error .struct

/-- `ByteRansMode.encode` -/
def encode (block : Bytes) : Except PyError Bytes :=
  if block = [] then .ok []
  else do
    let frequencies ← normalizeCounts block
    let starts ← cumulative frequencies
    let final ← encodeSymbols frequencies starts block
    let count ← packCount (symbols frequencies).length
    let entries ← packTable frequencies (symbols frequencies)
    let state ← packState final.1
    .ok (count ++ entries ++ state ++ final.2)

/-! ### Decoding -/

/-- A round of `while state < _RANS_L`, over the state and the bytes not read yet. -/
def fillRound (s : ℕ × Bytes) : Except PyError ((ℕ × Bytes) ⊕ (ℕ × Bytes)) :=
  if s.1 < ransL then
    match s.2 with
    | [] => .error (.archiveFormat "BYTE_RANS renormalization stream is truncated")
    | byte :: rest => .ok (.inl (s.1 * 256 + byte.toNat, rest))
  else .ok (.inr s)

/-- The table of a payload, and the state its decoder starts in. -/
structure Model where
  frequencies : Frequencies
  starts : List (UInt8 × ℕ)
  lookup : List UInt8

structure Decoder where
  /-- The symbols still to be decoded. -/
  remaining : ℕ
  state : ℕ
  rest : Bytes
  output : Bytes

/-- The state without its symbol. The slot is not below the start of its symbol. -/
def pop (frequency start state : ℕ) : ℕ :=
  frequency * (state / 2 ^ scaleBits) + state % 2 ^ scaleBits - start

/-- The body of the loop over the symbols, and what comes after it. -/
def decodeRound (m : Model) (s : Decoder) : Except PyError (Decoder ⊕ Bytes) :=
  match s.remaining with
  | 0 =>
      if s.rest ≠ [] ∨ s.state ≠ ransL then
        .error (.archiveFormat "BYTE_RANS payload has inconsistent trailing state")
      else .ok (.inr s.output)
  | remaining + 1 => do
      let symbol ← (match m.lookup[s.state % 2 ^ scaleBits]? with
        | none => .error lookupError
        | some symbol => .ok symbol)
      let frequency ← frequencyOf m.frequencies symbol
      let start ← startOf m.starts symbol
      let filled ← Iteration.run fillRound endless (s.rest.length + 1)
        (pop frequency start s.state, s.rest)
      .ok (.inl ⟨remaining, filled.1, filled.2, s.output ++ [symbol]⟩)

/-- The loop over the frequency table. -/
def readTable : ℕ → Bytes → Frequencies → Except PyError (Frequencies × Bytes)
  | 0, rest, f => .ok (f, rest)
  | n + 1, symbol :: high :: low :: rest, f =>
      let frequency := beNat [high, low]
      if f symbol ≠ 0 ∨ frequency = 0 then
        .error (.archiveFormat "BYTE_RANS frequency table is invalid")
      else readTable n rest (Function.update f symbol frequency)
  | _ + 1, _, _ => .error .struct

/-- The header: the table, the first state and the bytes after it. -/
def readHeader (payload : Bytes) : Except PyError (Model × ℕ × Bytes) :=
  if payload.length < 2 then .error (.archiveFormat "BYTE_RANS frequency header is truncated")
  else
    let symbolCount := beNat (payload.take 2)
    if symbolCount < 1 ∨ 256 < symbolCount then
      .error (.archiveFormat "BYTE_RANS symbol count is invalid")
    else if payload.length < 2 + symbolCount * 3 + 4 then
      .error (.archiveFormat "BYTE_RANS payload is truncated")
    else do
      let (frequencies, rest) ← readTable symbolCount (payload.drop 2) fun _ => 0
      match cumulative frequencies with
      | .error _ => .error (.archiveFormat "BYTE_RANS frequencies do not sum to 4096")
      | .ok starts =>
          if rest.length < 4 then .error .struct
          else
            let state := leNat (rest.take 4)
            if state < ransL then .error (.archiveFormat "BYTE_RANS initial state is invalid")
            else .ok (⟨frequencies, starts, lookupTable frequencies starts⟩, state, rest.drop 4)

/-- `ByteRansMode.decode` -/
def decode (payload : Bytes) (expectedSize : ℕ) : Except PyError Bytes :=
  if expectedSize = 0 then
    if payload ≠ [] then .error (.archiveFormat "empty BYTE_RANS block has a payload") else .ok []
  else do
    let (model, state, rest) ← readHeader payload
    Iteration.run (decodeRound model) endless (expectedSize + 1) ⟨expectedSize, state, rest, []⟩

/-! ### One symbol -/

/-- A table of frequencies with its starts and its slots. -/
structure Model.Valid (m : Model) : Prop where
  total_eq : total m.frequencies = scale
  starts : m.starts = cumulativeFrom m.frequencies 0 (symbols m.frequencies)
  lookup : m.lookup = slots m.frequencies (symbols m.frequencies)

/-- A state at a symbol boundary. -/
def Bounded (state : ℕ) : Prop := ransL ≤ state ∧ state < 2 ^ 31

theorem le_scale {f : Frequencies} {symbol : UInt8} (h : total f = scale) : f symbol ≤ scale := by
  by_cases hzero : f symbol = 0
  · rw [hzero]
    exact Nat.zero_le _
  · obtain ⟨start, hs⟩ := exists_stretch (f := f) (mem_symbols.mpr hzero) 0
    have hle := hs.le_total
    rw [show ((symbols f).map f).sum = scale from h] at hle
    omega

theorem fillRound_next {s s' : ℕ × Bytes} (h : Iteration.Next fillRound s s') :
    s.1 < ransL ∧ ∃ byte, s.2 = byte :: s'.2 ∧ s'.1 = s.1 * 256 + byte.toNat := by
  rcases s with ⟨state, _ | ⟨byte, rest⟩⟩ <;> simp only [Iteration.Next, fillRound] at h
  · split_ifs at h
    cases h
  · split_ifs at h with hlt
    · obtain rfl := Sum.inl.inj (Except.ok.inj h)
      exact ⟨hlt, byte, rfl, rfl⟩
    · cases h

theorem shiftRound_next {maximum : ℕ} (hmax : 0 < maximum) {s s' : ℕ × Bytes}
    (h : Iteration.Next (shiftRound maximum) s s') : s'.1 < s.1 := by
  simp only [Iteration.Next, shiftRound] at h
  split_ifs at h with hle
  · obtain rfl := Sum.inl.inj (Except.ok.inj h)
    exact Nat.div_lt_self (by omega) (by norm_num)
  · cases h

/-- A byte more is moved out only while the state is too large for what is left of it. -/
theorem shift_length {maximum k : ℕ} {s shifted : ℕ × Bytes} (hs : s.1 < 256 ^ k * maximum)
    (h : Iteration.Ends (shiftRound maximum) s shifted) :
    shifted.2.length ≤ s.2.length + k := by
  induction h generalizing k with
  | @stop s shifted hstop =>
      simp only [shiftRound] at hstop
      split_ifs at hstop
      · cases hstop
      · obtain rfl := Sum.inr.inj (Except.ok.inj hstop)
        exact Nat.le_add_right _ _
  | @next s s' shifted hnext _ ih =>
      simp only [shiftRound] at hnext
      split_ifs at hnext with hle
      swap
      · cases hnext
      obtain rfl := Sum.inl.inj (Except.ok.inj hnext)
      rcases k with _ | k
      · rw [pow_zero, one_mul] at hs
        exact absurd hs (Nat.not_lt.mpr hle)
      · have hlt : s.1 / 256 < 256 ^ k * maximum := by
          apply Nat.div_lt_of_lt_mul
          rwa [← Nat.mul_assoc, ← pow_succ']
        have hrest := ih hlt
        rw [List.length_cons] at hrest
        omega

theorem run_fillRound {s filled : ℕ × Bytes} (h : Iteration.Ends fillRound s filled) :
    Iteration.run fillRound endless (s.2.length + 1) s = .ok filled := by
  have hround : ∀ s s' : ℕ × Bytes, Iteration.Next fillRound s s' → s'.2.length < s.2.length := by
    intro s s' hnext
    obtain ⟨-, byte, hbyte, -⟩ := fillRound_next hnext
    rw [hbyte]
    exact Nat.lt_succ_self _
  exact Iteration.run_of_ends hround h (Nat.lt_succ_self _)

/-- While bytes are moved out of the state, the decoder can take them in again: a state that
was shifted lies below the bound the decoder fills up to. -/
theorem shift_ends {maximum state : ℕ} (hmax : 0 < maximum) (out : Bytes) {y : ℕ} {moved : Bytes}
    (hy : y < 2 ^ 31)
    (hfill : ∀ rest, Iteration.Ends fillRound (y, moved ++ rest) (state, rest)) :
    ∃ shifted moved', Iteration.Ends (shiftRound maximum) (y, moved ++ out) (shifted, moved' ++ out) ∧
      shifted < maximum ∧ min y (maximum / 256) ≤ shifted ∧
      ∀ rest, Iteration.Ends fillRound (shifted, moved' ++ rest) (state, rest) := by
  induction y using Nat.strong_induction_on generalizing moved with
  | _ y ih =>
      by_cases hle : maximum ≤ y
      · have hbyte : (UInt8.ofNat (y % 256)).toNat = y % 256 := by
          rw [UInt8.toNat_ofNat', Nat.mod_mod]
        have hback : ∀ rest, Iteration.Ends fillRound
            (y / 256, (UInt8.ofNat (y % 256) :: moved) ++ rest) (state, rest) := by
          intro rest
          have hlow : y / 256 < ransL := by
            show y / 256 < 2 ^ 23
            omega
          have hy' : y / 256 * 256 + y % 256 = y := Nat.div_add_mod' y 256
          apply Iteration.Ends.next _ (hfill rest)
          simp only [fillRound, if_pos hlow, List.cons_append, hbyte, hy']
        obtain ⟨shifted, moved', hends, hlt, hmin, hrest⟩ :=
          ih (y / 256) (by omega) (by omega) hback
        refine ⟨shifted, moved', .next ?_ hends, hlt, ?_, hrest⟩
        · simp only [shiftRound, if_pos hle]
          rfl
        · have hdiv := Nat.div_le_div_right (c := 256) hle
          exact (min_le_right _ _).trans (by rwa [min_eq_right hdiv] at hmin)
      · refine ⟨y, moved, .stop ?_, by omega, min_le_left _ _, hfill⟩
        simp only [shiftRound, if_neg hle]

theorem push_pop {frequency start state : ℕ} (hpos : 0 < frequency)
    (hle : start + frequency ≤ scale) :
    push frequency start state % 2 ^ scaleBits = state % frequency + start ∧
      pop frequency start (push frequency start state) = state := by
  have hmod : state % frequency < frequency := Nat.mod_lt _ hpos
  have hdiv := Nat.div_add_mod state frequency
  have hsmall : state % frequency + start < 2 ^ scaleBits := by
    show _ < scale
    omega
  have hpush : push frequency start state =
      2 ^ scaleBits * (state / frequency) + (state % frequency + start) := by
    rw [push, Nat.mul_comm, Nat.add_assoc]
  have hslot : push frequency start state % 2 ^ scaleBits = state % frequency + start := by
    rw [hpush, Nat.mul_add_mod, Nat.mod_eq_of_lt hsmall]
  have hquotient : push frequency start state / 2 ^ scaleBits = state / frequency := by
    rw [hpush, Nat.mul_add_div (by norm_num [scaleBits]), Nat.div_eq_of_lt hsmall, add_zero]
  refine ⟨hslot, ?_⟩
  rw [pop, hslot, hquotient]
  omega

theorem push_bounded {frequency start state : ℕ} (hpos : 0 < frequency)
    (hle : start + frequency ≤ scale) (hlt : state < maximumState frequency)
    (hge : min ransL (maximumState frequency / 256) ≤ state) :
    Bounded (push frequency start state) := by
  have hmax : maximumState frequency = frequency * 2 ^ 19 := by
    simp only [maximumState, ransL, scaleBits]
    omega
  have hfrequency : frequency ≤ 4096 := by
    have : scale = 4096 := rfl
    omega
  have hlow : frequency * 2 ^ 11 ≤ state := by
    rw [hmax] at hge
    have : ransL = 8388608 := rfl
    omega
  have hquotient : 2 ^ 11 ≤ state / frequency := (Nat.le_div_iff_mul_le hpos).mpr (by
    rw [Nat.mul_comm]
    exact hlow)
  have hquotient' : state / frequency < 2 ^ 19 := Nat.div_lt_of_lt_mul (hmax ▸ hlt)
  have hmod : state % frequency < frequency := Nat.mod_lt _ hpos
  have hscale : scale = 2 ^ 12 := rfl
  simp only [Bounded, push, ransL, scaleBits]
  omega

theorem frequencyOf_eq {f : Frequencies} {symbol : UInt8} (h : f symbol ≠ 0) :
    frequencyOf f symbol = .ok (f symbol) := if_neg h

/-- What the encoder makes of a block, and that the decoder goes back through it to the state
the encoder began in, with nothing left to read. -/
structure Encoded (m : Model) (block : Bytes) (s : ℕ × Bytes) : Prop where
  bounded : Bounded s.1
  length_le : s.2.length ≤ 2 * block.length
  visits : ∀ output, Iteration.Visits (decodeRound m) ⟨block.length, s.1, s.2, output⟩
    ⟨0, ransL, [], output ++ block⟩

theorem encodeSymbol_encoded {m : Model} (hm : m.Valid) {symbol : UInt8} {rest : Bytes}
    (hsymbol : m.frequencies symbol ≠ 0) {s : ℕ × Bytes} (hs : Encoded m rest s) :
    ∃ s', encodeSymbol m.frequencies m.starts symbol s = .ok s' ∧ Encoded m (symbol :: rest) s' := by
  obtain ⟨state, out⟩ := s
  have hpos : 0 < m.frequencies symbol := Nat.pos_of_ne_zero hsymbol
  obtain ⟨start, hstretch⟩ := exists_stretch (f := m.frequencies) (mem_symbols.mpr hsymbol) 0
  have hle : start + m.frequencies symbol ≤ scale := by
    have h := hstretch.le_total
    rwa [show ((symbols m.frequencies).map m.frequencies).sum = scale from hm.total_eq,
      zero_add] at h
  have hstart : startOf m.starts symbol = .ok start := by
    rw [startOf, hm.starts, hstretch.lookup]
  have hmax : 0 < maximumState (m.frequencies symbol) := by
    simp only [maximumState, ransL, scaleBits]
    omega
  have hfill : ∀ rest', Iteration.Ends fillRound (state, [] ++ rest') (state, rest') := fun rest' => by
    apply Iteration.Ends.stop
    simp only [fillRound, if_neg (Nat.not_lt.mpr hs.bounded.1), List.nil_append]
  obtain ⟨shifted, moved, hends, hlt, hge, hrest⟩ := shift_ends hmax out hs.bounded.2 hfill
  have hshift : Iteration.run (shiftRound (maximumState (m.frequencies symbol))) endless (state + 1)
      (state, out) = .ok (shifted, moved ++ out) :=
    @Iteration.run_of_ends _ _ _ _ _ _ _ _ Prod.fst (fun _ _ => shiftRound_next hmax) hends
      (Nat.lt_succ_self _)
  have hback : Iteration.run fillRound endless ((moved ++ out).length + 1) (shifted, moved ++ out) =
      .ok (state, out) :=
    run_fillRound (hrest out)
  have hbounded := push_bounded hpos hle hlt ((min_le_min_right _ hs.bounded.1).trans hge)
  have hlength : (moved ++ out).length ≤ 2 * (symbol :: rest).length := by
    have htwo : state < 256 ^ 2 * maximumState (m.frequencies symbol) := by
      have := hs.bounded.2
      simp only [maximumState, ransL, scaleBits]
      omega
    have hmoved := shift_length htwo hends
    have hout := hs.length_le
    simp only [List.length_cons, List.nil_append] at hmoved hout ⊢
    omega
  obtain ⟨hslot, hpop⟩ := @push_pop _ start shifted hpos hle
  refine ⟨(push (m.frequencies symbol) start shifted, moved ++ out), ?_, hbounded, hlength,
    fun output => ?_⟩
  · simp only [encodeSymbol, frequencyOf_eq hsymbol, hshift, hstart, bind, Except.bind]
  · have hlookup : m.lookup[push (m.frequencies symbol) start shifted % 2 ^ scaleBits]? =
        some symbol := by
      have hslots := hstretch.slot (shifted % m.frequencies symbol) (Nat.mod_lt _ hpos)
      rwa [Nat.sub_zero, Nat.add_comm, ← hm.lookup, ← hslot] at hslots
    have hnext := hs.visits (output ++ [symbol])
    rw [List.append_assoc] at hnext
    apply Relation.ReflTransGen.head _ hnext
    show decodeRound m _ = _
    simp only [decodeRound, List.length_cons, hlookup, frequencyOf_eq hsymbol, hstart, hpop, hback,
      bind, Except.bind]

theorem encodeSymbols_encoded {m : Model} (hm : m.Valid) {block : Bytes}
    (hblock : ∀ symbol ∈ block, m.frequencies symbol ≠ 0) :
    ∃ s, encodeSymbols m.frequencies m.starts block = .ok s ∧ Encoded m block s := by
  induction block with
  | nil =>
      refine ⟨(ransL, []), rfl, ⟨le_rfl, by norm_num [ransL]⟩, Nat.zero_le _, fun output => ?_⟩
      rw [List.append_nil]
      exact .refl
  | cons symbol rest ih =>
      obtain ⟨hsymbol, hrest⟩ := List.forall_mem_cons.mp hblock
      obtain ⟨s, hs, hencoded⟩ := ih hrest
      obtain ⟨s', hs', hencoded'⟩ := encodeSymbol_encoded hm hsymbol hencoded
      refine ⟨s', ?_, hencoded'⟩
      simp only [encodeSymbols, hs, bind, Except.bind, hs']

/-! ### The header -/

theorem packTable_read {f : Frequencies} {syms : List UInt8} (hnodup : syms.Nodup)
    (hpos : ∀ s ∈ syms, f s ≠ 0) (hle : ∀ s ∈ syms, f s < 256 ^ 2) :
    ∃ entries, packTable f syms = .ok entries ∧ entries.length = syms.length * 3 ∧
      ∀ rest f₀, (∀ s ∈ syms, f₀ s = 0) →
        readTable syms.length (entries ++ rest) f₀ =
          .ok (fun s => if s ∈ syms then f s else f₀ s, rest) := by
  induction syms with
  | nil => exact ⟨[], rfl, rfl, fun rest f₀ _ => by simp [readTable]⟩
  | cons symbol syms ih =>
      obtain ⟨hsymbol, hnodup⟩ := List.nodup_cons.mp hnodup
      obtain ⟨hpos₁, hpos⟩ := List.forall_mem_cons.mp hpos
      obtain ⟨hle₁, hle⟩ := List.forall_mem_cons.mp hle
      obtain ⟨entries, hentries, hlength, hread⟩ := ih hnodup hpos hle
      obtain ⟨high, low, hbytes⟩ := List.length_eq_two.mp (beBytes_length 2 (f symbol))
      have hvalue : beNat [high, low] = f symbol := by
        rw [← hbytes, beNat_beBytes_of_lt hle₁]
      refine ⟨symbol :: high :: low :: entries, ?_, ?_, fun rest f₀ hf₀ => ?_⟩
      · simp only [packTable, frequencyOf_eq hpos₁, packFrequency, if_pos hle₁, hentries, bind,
          Except.bind, hbytes, List.cons_append, List.nil_append]
      · simp only [List.length_cons, hlength]
        omega
      · obtain ⟨hf₁, hf₀⟩ := List.forall_mem_cons.mp hf₀
        have hvalid : ¬ (f₀ symbol ≠ 0 ∨ f symbol = 0) := by
          rintro (h | h)
          · exact h hf₁
          · exact hpos₁ h
        have hrest := hread rest (Function.update f₀ symbol (f symbol)) fun s hs => by
          have hne : s ≠ symbol := fun heq => hsymbol (heq ▸ hs)
          rw [Function.update_of_ne hne]
          exact hf₀ s hs
        simp only [List.length_cons, List.cons_append, readTable, hvalue, if_neg hvalid, hrest]
        congr 2
        funext s
        by_cases heq : s = symbol
        · subst heq
          simp [hsymbol]
        · simp [List.mem_cons, heq]

theorem Normalized.model {data : Bytes} {f : Frequencies} (h : Normalized data f) :
    (⟨f, cumulativeFrom f 0 (symbols f),
      lookupTable f (cumulativeFrom f 0 (symbols f))⟩ : Model).Valid where
  total_eq := h.total_eq
  starts := rfl
  lookup := lookupTable_eq h.total_eq

/-- What `encode` writes is what `readHeader` reads. -/
theorem readHeader_encoded {f : Frequencies} (htotal : total f = scale) {state : ℕ}
    (hstate : Bounded state) (out : Bytes) :
    ∃ count entries, packCount (symbols f).length = .ok count ∧
      packTable f (symbols f) = .ok entries ∧ packState state = .ok (leBytes 4 state) ∧
      (count ++ entries).length ≤ 770 ∧
      readHeader (count ++ entries ++ leBytes 4 state ++ out) =
        .ok (⟨f, cumulativeFrom f 0 (symbols f),
          lookupTable f (cumulativeFrom f 0 (symbols f))⟩, state, out) := by
  have hcount : (symbols f).length ≤ 256 := symbols_length_le f
  have hsome : 1 ≤ (symbols f).length := by
    by_contra hzero
    have hnil : symbols f = [] := List.length_eq_zero_iff.mp (by omega)
    rw [total, hnil] at htotal
    cases htotal
  have hfrequency : ∀ s ∈ symbols f, f s < 256 ^ 2 := fun s _ => by
    have hle : f s ≤ scale := le_scale htotal
    have : scale = 4096 := rfl
    omega
  obtain ⟨entries, hentries, hlength, hread⟩ :=
    packTable_read (symbols_nodup f) (fun s => mem_symbols.mp) hfrequency
  have hpack : packCount (symbols f).length = .ok (beBytes 2 (symbols f).length) :=
    if_pos (by omega)
  have hlt : state < 256 ^ 4 := hstate.2.trans (by norm_num)
  have hheader : (beBytes 2 (symbols f).length ++ entries).length ≤ 770 := by
    rw [List.length_append, beBytes_length]
    omega
  refine ⟨_, entries, hpack, hentries, if_pos hlt, hheader, ?_⟩
  have htable := hread (leBytes 4 state ++ out) (fun _ => 0) fun _ _ => rfl
  have hf : (fun s => if s ∈ symbols f then f s else 0) = f := by
    funext s
    by_cases hs : f s = 0
    · simp [hs]
    · simp [hs]
  rw [hf] at htable
  have htake : (beBytes 2 (symbols f).length ++ (entries ++ (leBytes 4 state ++ out))).take 2 =
      beBytes 2 (symbols f).length := List.take_left' (beBytes_length 2 _)
  have hdrop : (beBytes 2 (symbols f).length ++ (entries ++ (leBytes 4 state ++ out))).drop 2 =
      entries ++ (leBytes 4 state ++ out) := List.drop_left' (beBytes_length 2 _)
  have hshort : ¬ (beBytes 2 (symbols f).length ++ (entries ++ (leBytes 4 state ++ out))).length < 2 := by
    simp only [List.length_append, beBytes_length]
    omega
  have hlong : ¬ (beBytes 2 (symbols f).length ++ (entries ++ (leBytes 4 state ++ out))).length <
      2 + (symbols f).length * 3 + 4 := by
    simp only [List.length_append, beBytes_length, leBytes_length]
    omega
  have hrange : ¬ ((symbols f).length < 1 ∨ 256 < (symbols f).length) := by omega
  have hstate' : (leBytes 4 state ++ out).take 4 = leBytes 4 state :=
    List.take_left' (leBytes_length 4 _)
  have hout : (leBytes 4 state ++ out).drop 4 = out := List.drop_left' (leBytes_length 4 _)
  have hfour : ¬ (leBytes 4 state ++ out).length < 4 := by
    rw [List.length_append, leBytes_length]
    omega
  have hcumulative : cumulative f = .ok (cumulativeFrom f 0 (symbols f)) :=
    if_neg (not_not.mpr htotal)
  simp only [readHeader, List.append_assoc, if_neg hshort, htake, beNat_beBytes_of_lt
    (show (symbols f).length < 256 ^ 2 by omega), if_neg hrange, if_neg hlong, hdrop, htable,
    hcumulative, if_neg hfour, hstate', leNat_leBytes_of_lt hlt,
    if_neg (Nat.not_lt.mpr hstate.1), hout, bind, Except.bind]

theorem decodeRound_next {m : Model} {s s' : Decoder}
    (h : Iteration.Next (decodeRound m) s s') : s'.remaining < s.remaining := by
  obtain ⟨_ | remaining, state, rest, output⟩ := s
  · simp only [Iteration.Next, decodeRound] at h
    split_ifs at h
    cases h
  · simp only [Iteration.Next, decodeRound, Except.bind_eq_ok_iff] at h
    obtain ⟨symbol, -, frequency, -, start, -, filled, -, hs⟩ := h
    obtain rfl := Sum.inl.inj (Except.ok.inj hs)
    exact Nat.lt_succ_self _

/-- What a block that is not empty encodes to, how long that is, and that it is decoded. -/
theorem encode_decode {block : Bytes} (hblock : block ≠ []) :
    ∃ m final payload, normalizeCounts block = .ok m.frequencies ∧
      cumulative m.frequencies = .ok m.starts ∧
      encodeSymbols m.frequencies m.starts block = .ok final ∧ encode block = .ok payload ∧
      payload.length ≤ 774 + 2 * block.length ∧
      (∀ rest, rest <:+ block →
        ∃ s, encodeSymbols m.frequencies m.starts rest = .ok s ∧ Bounded s.1) ∧
      readHeader payload = .ok (m, final.1, final.2) ∧
      Iteration.Visits (decodeRound m) ⟨block.length, final.1, final.2, []⟩ ⟨0, ransL, [], block⟩ ∧
      decode payload block.length = .ok block := by
  obtain ⟨f, hf, hnormalized⟩ := normalizeCounts_spec hblock
  have hmodel := hnormalized.model
  have hstarts : cumulative f = .ok (cumulativeFrom f 0 (symbols f)) :=
    if_neg (not_not.mpr hnormalized.total_eq)
  have hsuffix : ∀ rest, rest <:+ block → ∃ s,
      encodeSymbols f (cumulativeFrom f 0 (symbols f)) rest = .ok s ∧
        Encoded ⟨f, cumulativeFrom f 0 (symbols f),
          lookupTable f (cumulativeFrom f 0 (symbols f))⟩ rest s := fun rest hrest =>
    encodeSymbols_encoded hmodel fun symbol hsymbol =>
      (hnormalized.support symbol).mpr (hrest.subset hsymbol)
  obtain ⟨⟨state, out⟩, hfinal, hencoded⟩ := hsuffix block (List.suffix_refl block)
  obtain ⟨count, entries, hcount, hentries, hstate, hlengths, hheader⟩ :=
    readHeader_encoded hnormalized.total_eq hencoded.bounded out
  have hvisits := hencoded.visits []
  refine ⟨⟨f, cumulativeFrom f 0 (symbols f), lookupTable f (cumulativeFrom f 0 (symbols f))⟩,
    (state, out), count ++ entries ++ leBytes 4 state ++ out, hf, hstarts, hfinal, ?_, ?_,
    fun rest hrest => ?_, hheader, hvisits, ?_⟩
  · simp only [encode, if_neg hblock, hf, hstarts, hfinal, hcount, hentries, hstate, bind,
      Except.bind]
  · have hout : out.length ≤ 2 * block.length := hencoded.length_le
    rw [List.length_append] at hlengths
    simp only [List.length_append, leBytes_length]
    omega
  · obtain ⟨s, hs, hs'⟩ := hsuffix rest hrest
    exact ⟨s, hs, hs'.bounded⟩
  · have hlength : block.length ≠ 0 := fun h => hblock (List.length_eq_zero_iff.mp h)
    have hlast : decodeRound ⟨f, cumulativeFrom f 0 (symbols f),
        lookupTable f (cumulativeFrom f 0 (symbols f))⟩ ⟨0, ransL, [], block⟩ = .ok (.inr block) := by
      simp [decodeRound]
    simp only [decode, if_neg hlength, hheader, bind, Except.bind]
    exact Iteration.run_of_ends (fun _ _ => decodeRound_next)
      (.of_visits hvisits (.stop hlast)) (Nat.lt_succ_self _)

end MosaicArchive.Modes.ByteRansMode
