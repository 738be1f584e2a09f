import MosaicArchive.Modes.Decoding

/-!
The run-length mode (`mosaic_archive/modes/rle.py`) and the mode of byte
differences over it (`mosaic_archive/modes/delta.py`). Decoding inverts
encoding; encoding inverts decoding on the payloads whose runs are maximal.
-/

namespace MosaicArchive.Modes

open FixedWidth
open Manifest (PyError)

/-! ### Runs -/

/-- A run: its length and its byte. -/
abbrev RunOf := ℕ × UInt8

def packRuns (runs : List RunOf) : Bytes := runs.flatMap fun run => [UInt8.ofNat run.1, run.2]

def expandRuns (runs : List RunOf) : Bytes := runs.flatMap fun run => List.replicate run.1 run.2

@[simp] theorem packRuns_cons (run : RunOf) (runs : List RunOf) :
    packRuns (run :: runs) = UInt8.ofNat run.1 :: run.2 :: packRuns runs := by
  simp [packRuns]

@[simp] theorem packRuns_append (runs runs' : List RunOf) :
    packRuns (runs ++ runs') = packRuns runs ++ packRuns runs' := by
  simp [packRuns]

@[simp] theorem expandRuns_cons (run : RunOf) (runs : List RunOf) :
    expandRuns (run :: runs) = List.replicate run.1 run.2 ++ expandRuns runs := by
  simp [expandRuns]

@[simp] theorem expandRuns_append (runs runs' : List RunOf) :
    expandRuns (runs ++ runs') = expandRuns runs ++ expandRuns runs' := by
  simp [expandRuns]

theorem packRuns_length (runs : List RunOf) : (packRuns runs).length = 2 * runs.length := by
  induction runs with
  | nil => rfl
  | cons run runs ih =>
      rw [packRuns_cons, List.length_cons, List.length_cons, List.length_cons, ih]
      omega

/-- A run has a length that fits a byte. -/
def RunOk (run : RunOf) : Prop := 1 ≤ run.1 ∧ run.1 ≤ 255

theorem RunOk.toNat {run : RunOf} (h : RunOk run) : (UInt8.ofNat run.1).toNat = run.1 := by
  have hle := h.2
  rw [UInt8.toNat_ofNat']
  omega

/-! ### RLE -/

namespace RleMode

/-- The loop of `encode`: the run so far, and the bytes after it. -/
def runsFrom (runByte : UInt8) (runLength : ℕ) : Bytes → List RunOf
  | [] => [(runLength, runByte)]
  | byte :: rest =>
      if byte = runByte ∧ runLength < 255 then runsFrom runByte (runLength + 1) rest
      else (runLength, runByte) :: runsFrom byte 1 rest

def runs : Bytes → List RunOf
  | [] => []
  | runByte :: rest => runsFrom runByte 1 rest

/-- `RleMode.encode` -/
def encode (block : Bytes) : Bytes := packRuns (runs block)

/-- One pair of the payload. -/
def round (expectedSize : ℕ) (s : Cursor) : Except PyError (Cursor ⊕ Bytes) :=
  match s.rest with
  | [] =>
      if s.output.length ≠ expectedSize then
        .error (.archiveFormat "RLE block size does not match its metadata")
      else .ok (.inr s.output)
  | [_] => .error lookupError
  | runLength :: runByte :: rest =>
      if runLength = 0 then
        .error (.archiveFormat "RLE payload contains a zero-length run")
      else if expectedSize < s.output.length + runLength.toNat then
        .error (.archiveFormat "RLE block expands beyond its declared size")
      else .ok (.inl ⟨rest, s.output ++ List.replicate runLength.toNat runByte⟩)

/-- `RleMode.decode` -/
def decode (payload : Bytes) (expectedSize : ℕ) : Except PyError Bytes :=
  if payload.length % 2 ≠ 0 then .error (.archiveFormat "RLE payload has a truncated run")
  else Iteration.run (round expectedSize) endless (payload.length + 1) ⟨payload, []⟩

theorem runsFrom_ok {runByte : UInt8} {runLength : ℕ} {rest : Bytes}
    (h : RunOk (runLength, runByte)) : ∀ run ∈ runsFrom runByte runLength rest, RunOk run := by
  induction rest generalizing runByte runLength with
  | nil =>
      intro run hrun
      obtain rfl := List.mem_singleton.mp hrun
      exact h
  | cons byte rest ih =>
      unfold runsFrom
      split_ifs with hbyte
      · exact ih ⟨Nat.le_add_left 1 _, hbyte.2⟩
      · intro run hrun
        rcases List.mem_cons.mp hrun with rfl | hrun
        · exact h
        · exact ih ⟨le_rfl, by norm_num⟩ run hrun

/-- Every run that is written has a length of 1 to 255. -/
theorem runs_ok (block : Bytes) : ∀ run ∈ runs block, RunOk run := by
  cases block with
  | nil => simp [runs]
  | cons byte rest => exact runsFrom_ok ⟨le_rfl, by norm_num⟩

theorem expandRuns_runsFrom (runByte : UInt8) (runLength : ℕ) (rest : Bytes) :
    expandRuns (runsFrom runByte runLength rest) = List.replicate runLength runByte ++ rest := by
  induction rest generalizing runByte runLength with
  | nil => simp [runsFrom, expandRuns]
  | cons byte rest ih =>
      unfold runsFrom
      split_ifs with hbyte
      · rw [ih, hbyte.1, List.replicate_succ', List.append_assoc]
        rfl
      · rw [expandRuns_cons, ih]
        rfl

theorem expandRuns_runs (block : Bytes) : expandRuns (runs block) = block := by
  cases block with
  | nil => rfl
  | cons byte rest => exact expandRuns_runsFrom byte 1 rest

/-- The runs that are packed are decoded one by one. -/
theorem ends_packRuns {runs : List RunOf} (hruns : ∀ run ∈ runs, RunOk run) {output : Bytes} :
    Iteration.Ends (round (output ++ expandRuns runs).length) ⟨packRuns runs, output⟩
      (output ++ expandRuns runs) := by
  induction runs generalizing output with
  | nil =>
      apply Iteration.Ends.stop
      simp [round, packRuns, expandRuns]
  | cons run runs ih =>
      obtain ⟨hrun, hruns⟩ := List.forall_mem_cons.mp hruns
      have hne : UInt8.ofNat run.1 ≠ 0 := by
        intro h
        have := hrun.toNat
        rw [h] at this
        exact absurd this.symm (Nat.ne_of_gt hrun.1)
      have hle : ¬ (output ++ expandRuns (run :: runs)).length < output.length + run.1 := by
        simp only [expandRuns_cons, List.length_append, List.length_replicate]
        omega
      have hrest := @ih hruns (output ++ List.replicate run.1 run.2)
      rw [List.append_assoc, ← expandRuns_cons] at hrest
      refine .next ?_ hrest
      simp only [round, packRuns_cons, hrun.toNat, if_neg hne, if_neg hle]

theorem next_measure {expectedSize : ℕ} {s s' : Cursor}
    (h : Iteration.Next (round expectedSize) s s') : s'.rest.length < s.rest.length := by
  rcases s with ⟨_ | ⟨a, _ | ⟨b, rest⟩⟩, output⟩ <;> simp only [Iteration.Next, round] at h
  · split_ifs at h
    cases h
  · cases h
  · split_ifs at h
    obtain rfl := Sum.inl.inj (Except.ok.inj h)
    simp only [List.length_cons]
    omega

theorem decode_packRuns {runs : List RunOf} (hruns : ∀ run ∈ runs, RunOk run) :
    decode (packRuns runs) (expandRuns runs).length = .ok (expandRuns runs) := by
  have heven : ¬ (packRuns runs).length % 2 ≠ 0 := by
    rw [packRuns_length]
    omega
  have hends := @ends_packRuns runs hruns []
  rw [List.nil_append] at hends
  rw [decode, if_neg heven]
  exact Iteration.run_of_ends (fun _ _ => next_measure) hends (Nat.lt_succ_self _)

theorem decode_encode (block : Bytes) : decode (encode block) block.length = .ok block := by
  have h := decode_packRuns (runs_ok block)
  rwa [expandRuns_runs] at h

/-! ### Payloads that are accepted -/

/-- The part of the payload that was read is a list of runs, and the output is their expansion. -/
def Read (payload : Bytes) (s : Cursor) : Prop :=
  ∃ runs, (∀ run ∈ runs, RunOk run) ∧ payload = packRuns runs ++ s.rest ∧ s.output = expandRuns runs

theorem decode_eq_ok {payload output : Bytes} {expectedSize : ℕ}
    (h : decode payload expectedSize = .ok output) :
    ∃ runs, (∀ run ∈ runs, RunOk run) ∧ payload = packRuns runs ∧ output = expandRuns runs := by
  unfold decode at h
  split_ifs at h with heven
  have hrounds : ∀ s, Read payload s → Iteration.Round (Read payload) (fun s => s.rest.length)
      (fun output => ∃ runs, (∀ run ∈ runs, RunOk run) ∧ payload = packRuns runs ∧
        output = expandRuns runs) (fun _ => True) s (round expectedSize s) := by
    rintro ⟨_ | ⟨a, _ | ⟨b, rest⟩⟩, output⟩ ⟨runs, hruns, hpayload, houtput⟩ <;>
      simp only [round]
    · split_ifs
      · trivial
      · exact ⟨runs, hruns, by simpa using hpayload, houtput⟩
    · trivial
    · split_ifs with hzero hsize
      · trivial
      · trivial
      · have hpos : a.toNat ≠ 0 := fun h => hzero (UInt8.toNat_inj.mp h)
        have hlt := a.toNat_lt
        refine ⟨⟨runs ++ [(a.toNat, b)], ?_, ?_, ?_⟩, by simp only [List.length_cons]; omega⟩
        · intro run hrun
          rcases List.mem_append.mp hrun with hrun | hrun
          · exact hruns run hrun
          · obtain rfl := List.mem_singleton.mp hrun
            exact ⟨Nat.one_le_iff_ne_zero.mpr hpos, Nat.le_of_lt_succ hlt⟩
        · rw [packRuns_append, hpayload]
          simp [packRuns]
        · rw [expandRuns_append, ← show output = expandRuns runs from houtput]
          simp [expandRuns]
  have hstart : Read payload ⟨payload, []⟩ := ⟨[], by simp, rfl, rfl⟩
  have hout := Iteration.run_outcome endless (n := payload.length + 1) hrounds hstart
    (Nat.lt_succ_self _)
  rw [h] at hout
  exact hout

/-- A run is followed by one of the same byte only if it is full. -/
def Maximal (runs : List RunOf) : Prop :=
  runs.IsChain fun run next => run.2 = next.2 → run.1 = 255

instance (runs : List RunOf) : Decidable (Maximal runs) :=
  inferInstanceAs (Decidable (List.IsChain _ _))

theorem runsFrom_replicate {byte : UInt8} {n m : ℕ} {rest : Bytes} (h : n + m ≤ 255) :
    runsFrom byte n (List.replicate m byte ++ rest) = runsFrom byte (n + m) rest := by
  induction m generalizing n with
  | zero => rfl
  | succ m ih =>
      rw [List.replicate_succ, List.cons_append, runsFrom, if_pos ⟨rfl, by omega⟩,
        ih (by omega)]
      congr 1
      omega

/-- The runs of an expansion are the runs it came from, where these are maximal. -/
theorem runs_expandRuns {rs : List RunOf} (hruns : ∀ run ∈ rs, RunOk run) (hmax : Maximal rs) :
    runs (expandRuns rs) = rs := by
  induction rs with
  | nil => rfl
  | cons run rs ih =>
      obtain ⟨n, byte⟩ := run
      obtain ⟨hrun, hruns⟩ := List.forall_mem_cons.mp hruns
      have hn : 1 + (n - 1) = n := Nat.add_sub_cancel' hrun.1
      have hfirst : runs (expandRuns ((n, byte) :: rs)) = runsFrom byte n (expandRuns rs) := by
        rw [expandRuns_cons]
        show runs (List.replicate n byte ++ _) = _
        rw [show n = n - 1 + 1 by omega, List.replicate_succ, List.cons_append, runs,
          runsFrom_replicate (by have := hrun.2; simp only at this; omega)]
        congr 1
        omega
      rw [hfirst]
      have hrest := ih hruns hmax.tail
      rcases rs with _ | ⟨⟨m, byte'⟩, rs⟩
      · rfl
      · have hm : RunOk (m, byte') := (List.forall_mem_cons.mp hruns).1
        have hexpand : expandRuns ((m, byte') :: rs) =
            byte' :: (List.replicate (m - 1) byte' ++ expandRuns rs) := by
          rw [expandRuns_cons, ← List.cons_append, ← List.replicate_succ,
            Nat.sub_add_cancel hm.1]
        rw [hexpand] at hrest ⊢
        have hfull : ¬ (byte' = byte ∧ n < 255) := by
          rintro ⟨rfl, hlt⟩
          exact absurd ((List.isChain_cons_cons.mp hmax).1 rfl) (Nat.ne_of_lt hlt)
        rw [runsFrom, if_neg hfull]
        exact congrArg _ hrest

theorem packRuns_inj {rs rs' : List RunOf} (hruns : ∀ run ∈ rs, RunOk run)
    (hruns' : ∀ run ∈ rs', RunOk run) (h : packRuns rs = packRuns rs') : rs = rs' := by
  induction rs generalizing rs' with
  | nil =>
      rcases rs' with _ | ⟨run', rs'⟩
      · rfl
      · cases h
  | cons run rs ih =>
      rcases rs' with _ | ⟨run', rs'⟩
      · cases h
      · obtain ⟨hrun, hruns⟩ := List.forall_mem_cons.mp hruns
        obtain ⟨hrun', hruns'⟩ := List.forall_mem_cons.mp hruns'
        simp only [packRuns_cons, List.cons.injEq] at h
        obtain ⟨hlength, hbyte, hrest⟩ := h
        have hn : run.1 = run'.1 := by rw [← hrun.toNat, hlength, hrun'.toNat]
        rw [Prod.ext hn hbyte, ih hruns hruns' hrest]

/-- The payload's adjacent pairs, as they stand in it. -/
def pairs : Bytes → List RunOf
  | runLength :: runByte :: rest => (runLength.toNat, runByte) :: pairs rest
  | _ => []

theorem pairs_packRuns {rs : List RunOf} (hruns : ∀ run ∈ rs, RunOk run) :
    pairs (packRuns rs) = rs := by
  induction rs with
  | nil => rfl
  | cons run rs ih =>
      obtain ⟨hrun, hruns⟩ := List.forall_mem_cons.mp hruns
      rw [packRuns_cons, pairs, hrun.toNat, ih hruns]

/-- A payload that is accepted and whose pairs are maximal is what its block encodes to. -/
theorem encode_decode {payload output : Bytes} {expectedSize : ℕ}
    (h : decode payload expectedSize = .ok output) (hmax : Maximal (pairs payload)) :
    encode output = payload := by
  obtain ⟨rs, hruns, rfl, rfl⟩ := decode_eq_ok h
  rw [pairs_packRuns hruns] at hmax
  rw [encode, runs_expandRuns hruns hmax]

/-- What is left of the payload has an even length. -/
def Even (s : Cursor) : Prop := s.rest.length % 2 = 0

theorem round_bounded {expectedSize : ℕ} (s : Cursor) (hs : s.output.length ≤ expectedSize)
    (heven : Even s) :
    BoundedRound (fun s => s.output.length) (fun s => s.rest.length) Even expectedSize s
      (round expectedSize s) := by
  rcases s with ⟨_ | ⟨a, _ | ⟨b, rest⟩⟩, output⟩ <;> simp only [round]
  · split_ifs with hsize
    · exact isFormatError _
    · exact not_not.mp hsize
  · exact absurd heven (by simp [Even])
  · split_ifs with hzero hsize
    · exact isFormatError _
    · exact isFormatError _
    · have hrest : rest.length % 2 = 0 := by
        simp only [Even, List.length_cons] at heven
        omega
      refine ⟨⟨?_, hrest⟩, by simp only [List.length_cons]; omega⟩
      show (output ++ List.replicate a.toNat b).length ≤ expectedSize
      rw [List.length_append, List.length_replicate]
      exact Nat.le_of_not_lt hsize

/-- The decoder is total, and its output never exceeds the expected size. -/
theorem decode_total (payload : Bytes) (expectedSize : ℕ) :
    Decodes expectedSize (decode payload expectedSize) ∧
      ∀ s, payload.length % 2 = 0 → Iteration.Visits (round expectedSize) ⟨payload, []⟩ s →
        s.output.length ≤ expectedSize := by
  unfold decode
  split_ifs with heven
  · refine ⟨isFormatError _, fun s hpayload => absurd hpayload heven⟩
  · have h := decodes_of_rounds round_bounded (s := ⟨payload, []⟩) (n := payload.length + 1)
      (Nat.zero_le expectedSize) (not_not.mp heven) (Nat.lt_succ_self _)
    exact ⟨h.1, fun s _ hvisits => (h.2 s hvisits).1⟩

end RleMode

/-! ### DELTA8 -/

namespace Delta8Mode

/-- `(current - previous) % 256` over `pairwise(block)`; the subtraction of bytes wraps. -/
def deltas (block : Bytes) : Bytes :=
  List.zipWith (fun previous current => current - previous) block block.tail

/-- `Delta8Mode.encode` -/
def encode (block : Bytes) : Bytes :=
  if block = [] then [] else block.take 1 ++ RleMode.encode (deltas block)

/-- `output.append((output[-1] + delta) % 256)` for each delta. -/
def appendDeltas : Bytes → Bytes → Except PyError Bytes
  | [], output => .ok output
  | delta :: deltas, output =>
      match output.getLast? with
      | none => .error lookupError
      | some last => appendDeltas deltas (output ++ [last + delta])

/-- `Delta8Mode.decode` -/
def decode (payload : Bytes) (expectedSize : ℕ) : Except PyError Bytes :=
  if expectedSize = 0 then
    if payload ≠ [] then .error (.archiveFormat "empty DELTA8 block has a payload") else .ok []
  else if payload = [] then .error (.archiveFormat "DELTA8 block is missing its first byte")
  else do
    let deltas ← RleMode.decode (payload.drop 1) (expectedSize - 1)
    let output ← appendDeltas deltas (payload.take 1)
    if output.length ≠ expectedSize then
      .error (.archiveFormat "DELTA8 block size does not match its metadata")
    else .ok output

theorem deltas_length (block : Bytes) : (deltas block).length = block.length - 1 := by
  simp [deltas]

/-- Adding the differences to the first byte restores the block. -/
theorem appendDeltas_deltas (before : Bytes) (byte : UInt8) (rest : Bytes) :
    appendDeltas (deltas (byte :: rest)) (before ++ [byte]) = .ok (before ++ byte :: rest) := by
  induction rest generalizing before byte with
  | nil => rfl
  | cons next rest ih =>
      have hdeltas : deltas (byte :: next :: rest) = (next - byte) :: deltas (next :: rest) := rfl
      have hnext : byte + (next - byte) = next := by
        rw [UInt8.add_comm, UInt8.sub_add_cancel]
      rw [hdeltas, appendDeltas]
      simp only [List.getLast?_append_cons, List.getLast?_singleton, hnext]
      rw [ih (before ++ [byte]) next, List.append_assoc]
      rfl

theorem decode_encode (block : Bytes) : decode (encode block) block.length = .ok block := by
  rcases block with _ | ⟨byte, rest⟩
  · rfl
  · have hrle := RleMode.decode_encode (deltas (byte :: rest))
    rw [deltas_length] at hrle
    have hback := appendDeltas_deltas [] byte rest
    simp only [List.nil_append] at hback
    simp only [decode, encode, if_neg (List.cons_ne_nil byte rest), List.length_cons,
      Nat.succ_ne_zero, if_false, List.take_succ_cons, List.take_zero, List.cons_append,
      List.nil_append, List.drop_succ_cons, List.drop_zero]
    rw [if_neg (List.cons_ne_nil _ _)]
    have hrle' : RleMode.decode (RleMode.encode (deltas (byte :: rest))) (rest.length + 1 - 1) =
        .ok (deltas (byte :: rest)) := hrle
    simp only [hrle', hback, bind, Except.bind, List.length_cons, ne_eq, not_true_eq_false, if_false]

theorem appendDeltas_length (deltas : Bytes) {output : Bytes} (h : output ≠ []) :
    ∃ result, appendDeltas deltas output = .ok result ∧
      result.length = output.length + deltas.length := by
  induction deltas generalizing output with
  | nil => exact ⟨output, rfl, rfl⟩
  | cons delta deltas ih =>
      obtain ⟨result, hresult, hlength⟩ := @ih (output ++ [output.getLast h + delta]) (by simp)
      refine ⟨result, ?_, ?_⟩
      · simp only [appendDeltas, List.getLast?_eq_getLast_of_ne_nil h, hresult]
      · simp only [hlength, List.length_append, List.length_cons, List.length_nil]
        omega

/-- The decoder is total. -/
theorem decode_total (payload : Bytes) (expectedSize : ℕ) :
    Decodes expectedSize (decode payload expectedSize) := by
  unfold decode
  split_ifs with hzero hpayload hempty
  · exact isFormatError _
  · exact hzero.symm
  · exact isFormatError _
  · have hrle := (RleMode.decode_total (payload.drop 1) (expectedSize - 1)).1
    rcases hd : RleMode.decode (payload.drop 1) (expectedSize - 1) with e | deltas
    · rw [hd] at hrle
      exact hrle
    · rw [hd] at hrle
      have hlength : deltas.length = expectedSize - 1 := hrle
      obtain ⟨byte, rest, rfl⟩ := List.exists_cons_of_ne_nil hempty
      obtain ⟨result, hresult, hsize⟩ := appendDeltas_length deltas (List.cons_ne_nil byte [])
      have hexpected : result.length = expectedSize := by
        rw [hsize, hlength, List.length_singleton]
        omega
      simp only [List.take_succ_cons, List.take_zero, bind, Except.bind, hresult, hexpected,
        ne_eq, not_true_eq_false, if_false]
      exact hexpected

/-- What the decoder has written after some of the deltas; there is one delta less than bytes
are expected. -/
theorem appendDeltas_bounded {payload deltas before output : Bytes} {expectedSize : ℕ}
    (hsize : expectedSize ≠ 0) (hpayload : payload ≠ [])
    (hdeltas : RleMode.decode (payload.drop 1) (expectedSize - 1) = .ok deltas)
    (hbefore : before <+: deltas) (houtput : appendDeltas before (payload.take 1) = .ok output) :
    output.length ≤ expectedSize := by
  obtain ⟨byte, rest, rfl⟩ := List.exists_cons_of_ne_nil hpayload
  have hrle := (RleMode.decode_total rest (expectedSize - 1)).1
  rw [show RleMode.decode rest (expectedSize - 1) = .ok deltas from hdeltas] at hrle
  have hlength : deltas.length = expectedSize - 1 := hrle
  obtain ⟨result, hresult, hresultLength⟩ :=
    appendDeltas_length before (List.cons_ne_nil byte [])
  obtain rfl : result = output := Except.ok.inj (hresult.symm.trans houtput)
  have hle := hbefore.length_le
  rw [hresultLength, List.length_singleton]
  omega

end Delta8Mode

/-- Both modes restore every block, with run lengths of 1 to 255, and the run-length
mode encodes the block of an accepted payload with maximal pairs to that payload. -/
theorem rle_delta8_inverse :
    (∀ block, RleMode.decode (RleMode.encode block) block.length = .ok block ∧
      ∀ run ∈ RleMode.runs block, 1 ≤ run.1 ∧ run.1 ≤ 255) ∧
    (∀ block, Delta8Mode.decode (Delta8Mode.encode block) block.length = .ok block ∧
      ∀ run ∈ RleMode.runs (Delta8Mode.deltas block), 1 ≤ run.1 ∧ run.1 ≤ 255) ∧
    ∀ payload output expectedSize, RleMode.decode payload expectedSize = .ok output →
      RleMode.Maximal (RleMode.pairs payload) → RleMode.encode output = payload :=
  ⟨fun block => ⟨RleMode.decode_encode block, RleMode.runs_ok block⟩,
    fun block => ⟨Delta8Mode.decode_encode block, RleMode.runs_ok _⟩,
    fun _ _ _ => RleMode.encode_decode⟩

/-- A full run and the rest of it. -/
theorem rle_delta8_inverse_full_run :
    RleMode.encode (List.replicate 255 7 ++ [7]) = [255, 7, 1, 7] :=
  rle_delta8_inverse.2.2 [255, 7, 1, 7] _ 256 (by decide +kernel) (by decide)

end MosaicArchive.Modes
