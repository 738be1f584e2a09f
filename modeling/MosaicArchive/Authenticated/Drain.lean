import MosaicArchive.Authenticated.Loads

/-!
The reader of the envelope as a source of bytes. Whatever buffers it is called
with, it delivers the payloads of the records it can still load, in order, and
then ends, or fails where a record cannot be loaded.
-/

namespace MosaicArchive.Authenticated

open FixedWidth Sha256 MosaicArchive.Core IoProgram

/-- The payloads that loading records from a source gives, and the failure after
them. Every record takes bytes of the source. -/
def drain (suite : Suite) : ℕ → EnvelopeState → ByteSource → Bytes × Option IoError
  | 0, _, _ => ([], some readFailed)
  | fuel + 1, st, s =>
      match (st.loadNextRecord suite).eval s with
      | { result := .error _, .. } => ([], some readFailed)
      | { result := .ok (_, none), .. } => ([], none)
      | { result := .ok (st', some payload), reader := s', .. } =>
          (payload ++ (drain suite fuel st' s').1, (drain suite fuel st' s').2)

namespace EnvelopeState

variable {suite : Suite} {st st' : EnvelopeState} {s s' : ByteSource}

/-- A record that carries data takes bytes of the source. -/
theorem Loads.payload {payload : Bytes} (h : Loads suite st s st' (some payload) s') :
    payload ≠ [] ∧ st'.finished = st.finished ∧ s'.bytes.length < s.bytes.length := by
  cases h with
  | data ciphertext plaintext _ rest padding hbytes _ hparse _ =>
      refine ⟨(parseDataPlaintext_payload hparse).1, rfl, ?_⟩
      rw [hbytes, List.length_append, recordBytes_length, recordHeaderSize]
      dsimp only
      omega

theorem Loads.finished (h : Loads suite st s st' none s') : st'.finished = true := by
  cases h
  rfl

/-- The outcomes of loading a record. -/
theorem load_cases (suite : Suite) (st : EnvelopeState) (s : ByteSource) :
    (∃ e, ((st.loadNextRecord suite).eval s).result = .error e) ∨
      ∃ st' x w s', (st.loadNextRecord suite).Yields s (st', x) w s' ∧ Loads suite st s st' x s' := by
  rcases hresult : ((st.loadNextRecord suite).eval s).result with e | ⟨st', x⟩
  · exact .inl ⟨e, rfl⟩
  · have hyields := yields_of_result hresult
    exact .inr ⟨st', x, _, _, hyields, loadNextRecord_inv hyields⟩

end EnvelopeState

section

variable {suite : Suite} {st st' : EnvelopeState} {s s' : ByteSource}

theorem drain_error {e : Error} (h : ((st.loadNextRecord suite).eval s).result = .error e)
    (fuel : ℕ) : drain suite (fuel + 1) st s = ([], some readFailed) := by
  rcases hrun : (st.loadNextRecord suite).eval s with ⟨result, w, s'⟩
  rw [hrun] at h
  obtain rfl : result = .error e := h
  simp only [drain, hrun]

theorem drain_none {w : List Bytes} (h : (st.loadNextRecord suite).Yields s (st', none) w s')
    (fuel : ℕ) : drain suite (fuel + 1) st s = ([], none) := by
  rw [Yields] at h
  simp only [drain, h]

theorem drain_some {payload : Bytes} {w : List Bytes}
    (h : (st.loadNextRecord suite).Yields s (st', some payload) w s') (fuel : ℕ) :
    drain suite (fuel + 1) st s =
      (payload ++ (drain suite fuel st' s').1, (drain suite fuel st' s').2) := by
  rw [Yields] at h
  simp only [drain, h]

/-- More fuel than bytes makes no difference. -/
theorem drain_fuel {fuel fuel' : ℕ} (hfuel : s.bytes.length < fuel)
    (hfuel' : s.bytes.length < fuel') : drain suite fuel st s = drain suite fuel' st s := by
  induction fuel generalizing fuel' st s with
  | zero => omega
  | succ fuel ih =>
      obtain ⟨fuel', rfl⟩ : ∃ n, fuel' = n + 1 := ⟨fuel' - 1, by omega⟩
      rcases st.load_cases suite s with ⟨e, herror⟩ | ⟨st', x, w, s', hyields, hloads⟩
      · rw [drain_error herror, drain_error herror]
      · cases x with
        | none => rw [drain_none hyields, drain_none hyields]
        | some payload =>
            obtain ⟨-, -, hshorter⟩ := hloads.payload
            have hsame : drain suite fuel st' s' = drain suite fuel' st' s' :=
              ih (by omega) (by omega)
            rw [drain_some hyields, drain_some hyields, hsame]

end

/-! ### The reader stands for a source -/

namespace AuthenticatedReader

variable {suite : Suite} {ρ : Type}

/-- What is left of the current payload. -/
def pending (r : AuthenticatedReader suite ρ) : Bytes := r.current.drop r.currentOffset

section

variable [LawfulReader ρ]

/-- What comes after the current payload. -/
def remaining (r : AuthenticatedReader suite ρ) : Bytes × Option IoError :=
  if r.state.finished then ([], none)
  else if r.failure.isSome then ([], some readPreviouslyFailed)
  else drain suite ((LawfulReader.rest r.reader).bytes.length + 1) r.state
    (LawfulReader.rest r.reader)

def rest (r : AuthenticatedReader suite ρ) : ByteSource where
  bytes := r.pending ++ r.remaining.1
  fault := r.remaining.2
  sawEnd := r.state.finished

end

variable {r : AuthenticatedReader suite ρ} {n : ℕ}

/-- The current payload is served without a look at anything else. -/
theorem serve_pending (h : r.pending ≠ []) (n : ℕ) :
    ∃ current offset, r.serve n = some (.ok (r.pending.take n),
        { r with current := current, currentOffset := offset }) ∧
      current.drop offset = r.pending.drop n := by
  have hroom : r.currentOffset < r.current.length := by
    rw [pending] at h
    by_contra hge
    exact h (List.drop_eq_nil_of_le (by omega))
  have htake : (r.current.drop r.currentOffset).take
      (min (r.current.drop r.currentOffset).length n) = r.pending.take n := by
    rw [pending, Nat.min_comm, ← List.take_take, List.take_length]
  unfold serve
  rw [if_pos hroom]
  dsimp only
  rw [htake]
  rw [List.length_drop] at htake ⊢
  split_ifs with hall
  · refine ⟨[], 0, rfl, ?_⟩
    rw [pending, List.drop_drop, List.drop_nil, List.drop_eq_nil_of_le]
    omega
  · refine ⟨r.current, _, rfl, ?_⟩
    rw [pending, List.drop_drop]
    congr 1
    omega

theorem serve_finished (h : r.pending = []) (hfinished : r.state.finished = true) :
    r.serve n = some (.ok [], r) := by
  have hroom : ¬ r.currentOffset < r.current.length := by
    have := List.drop_eq_nil_iff.mp h
    omega
  rw [serve, if_neg hroom, if_pos hfinished]

theorem serve_failed (h : r.pending = []) (hfinished : r.state.finished = false)
    (hfailure : r.failure.isSome) : r.serve n = some (.error readPreviouslyFailed, r) := by
  have hroom : ¬ r.currentOffset < r.current.length := by
    have := List.drop_eq_nil_iff.mp h
    omega
  rw [serve, if_neg hroom, if_neg (by simp [hfinished]), if_pos hfailure]

theorem serve_none (h : r.pending = []) (hfinished : r.state.finished = false)
    (hfailure : r.failure = none) : r.serve n = none := by
  have hroom : ¬ r.currentOffset < r.current.length := by
    have := List.drop_eq_nil_iff.mp h
    omega
  rw [serve, if_neg hroom, if_neg (by simp [hfinished]), if_neg (by simp [hfailure])]

section

variable [LawfulReader ρ]

/-- What a read can do: serve the current payload, end, or load one record. -/
inductive Step (r : AuthenticatedReader suite ρ) (n : ℕ) :
    Except IoError Bytes → AuthenticatedReader suite ρ → Prop where
  | served (current : Bytes) (offset : ℕ) (hpending : r.pending ≠ [])
      (hleft : current.drop offset = r.pending.drop n) :
      Step r n (.ok (r.pending.take n)) { r with current := current, currentOffset := offset }
  | ended (hpending : r.pending = []) (hfinished : r.state.finished = true) : Step r n (.ok []) r
  | failedBefore (hpending : r.pending = []) (hfinished : r.state.finished = false)
      (hfailure : r.failure.isSome) : Step r n (.error readPreviouslyFailed) r
  | failed (reader : ρ) (e : Error) (hpending : r.pending = []) (hfinished : r.state.finished = false)
      (hfailure : r.failure = none)
      (hload : ((r.state.loadNextRecord suite).eval (LawfulReader.rest r.reader)).result = .error e) :
      Step r n (.error readFailed) { r with reader := reader, failure := some e }
  | loaded (reader : ρ) (state : EnvelopeState) (payload : Bytes) (written : List Bytes)
      (current : Bytes) (offset : ℕ) (hpending : r.pending = [])
      (hfinished : r.state.finished = false) (hfailure : r.failure = none)
      (hload : (r.state.loadNextRecord suite).Yields (LawfulReader.rest r.reader)
        (state, some payload) written (LawfulReader.rest reader))
      (hleft : current.drop offset = payload.drop n) :
      Step r n (.ok (payload.take n))
        { r with reader := reader, state := state, current := current, currentOffset := offset }
  | footer (reader : ρ) (state : EnvelopeState) (written : List Bytes) (hpending : r.pending = [])
      (hfinished : r.state.finished = false) (hfailure : r.failure = none)
      (hload : (r.state.loadNextRecord suite).Yields (LawfulReader.rest r.reader) (state, none)
        written (LawfulReader.rest reader)) :
      Step r n (.ok []) { r with reader := reader, state := state }

theorem readLoop_serve {exit : Except IoError Bytes × AuthenticatedReader suite ρ}
    (h : r.serve n = some exit) (rounds : ℕ) : readLoop (rounds + 1) r n = exit := by
  simp only [readLoop, h]

/-- After a record was loaded the loop goes on with what it carried. -/
theorem readLoop_load {state : EnvelopeState} {x : Option Bytes} {written : List Bytes} {reader : ρ}
    (hserve : r.serve n = none)
    (hrun : (r.state.loadNextRecord suite).run r.reader = ⟨.ok (state, x), written, reader⟩)
    (rounds : ℕ) :
    readLoop (rounds + 1) r n = readLoop rounds (x.elim { r with reader := reader, state := state }
      fun payload => { r with
        reader := reader, state := state, current := payload, currentOffset := 0 }) n := by
  cases x <;> simp only [readLoop, hserve, hrun, Option.elim]

theorem read_step (r : AuthenticatedReader suite ρ) {n : ℕ} (hn : 0 < n) :
    Step r n (r.read n).1 (r.read n).2 := by
  rw [read, if_neg (by omega)]
  by_cases hpending : r.pending = []
  · rcases hfinished : r.state.finished with _ | _
    · rcases hfailure : r.failure with _ | e
      · -- nothing is buffered: one record is loaded
        have hserve := @serve_none suite ρ r n hpending hfinished hfailure
        obtain ⟨hresult, hwritten, hrest⟩ :=
          (r.state.loadNextRecord suite).run_rest r.reader
        rcases hrun : (r.state.loadNextRecord suite).run r.reader with ⟨result, written, reader⟩
        rw [hrun] at hresult hwritten hrest
        rcases result with e | ⟨state, x⟩
        · simp only [readLoop, hserve, hrun]
          exact .failed reader e hpending hfinished hfailure hresult.symm
        · have hyields : (r.state.loadNextRecord suite).Yields (LawfulReader.rest r.reader) (state, x)
              written (LawfulReader.rest reader) := by
            rw [Yields, hrest _ rfl]
            dsimp only at hresult hwritten
            rw [hresult, hwritten]
          have hloads := EnvelopeState.loadNextRecord_inv hyields
          rw [readLoop_load hserve hrun]
          cases x with
          | none =>
              have hended := @serve_finished suite ρ { r with reader := reader, state := state } n
                hpending hloads.finished
              rw [Option.elim_none, readLoop_serve hended]
              exact .footer reader state written hpending hfinished hfailure hyields
          | some payload =>
              let r₁ : AuthenticatedReader suite ρ :=
                { r with reader := reader, state := state, current := payload, currentOffset := 0 }
              obtain ⟨current, offset, hserved, hleft⟩ :=
                @serve_pending suite ρ r₁ hloads.payload.1 n
              rw [Option.elim_some, readLoop_serve hserved]
              exact .loaded reader state payload written current offset hpending hfinished hfailure
                hyields hleft
      · have hserve := @serve_failed suite ρ r n hpending hfinished (by simp [hfailure])
        rw [readLoop_serve hserve]
        exact .failedBefore hpending hfinished (by simp [hfailure])
    · rw [readLoop_serve (serve_finished hpending hfinished)]
      exact .ended hpending hfinished
  · obtain ⟨current, offset, hserve, hleft⟩ := serve_pending hpending n
    rw [readLoop_serve hserve]
    exact .served current offset hpending hleft

theorem remaining_eq_drain {r : AuthenticatedReader suite ρ} (hfinished : r.state.finished = false)
    (hfailure : r.failure = none) :
    r.remaining = drain suite ((LawfulReader.rest r.reader).bytes.length + 1) r.state
      (LawfulReader.rest r.reader) := by
  rw [remaining, if_neg (by simp [hfinished]), if_neg (by simp [hfailure])]

theorem Step.error {r r' : AuthenticatedReader suite ρ} {e : IoError} (h : Step r n (.error e) r') :
    r.rest.bytes = [] ∧ r.rest.fault = some e := by
  cases h with
  | failedBefore hpending hfinished hfailure =>
      have hremaining : r.remaining = ([], some readPreviouslyFailed) := by
        rw [remaining, if_neg (by simp [hfinished]), if_pos hfailure]
      simp [rest, hpending, hremaining]
  | failed reader e hpending hfinished hfailure hload =>
      have hremaining : r.remaining = ([], some readFailed) := by
        rw [remaining_eq_drain hfinished hfailure, drain_error hload]
      simp [rest, hpending, hremaining]

theorem Step.end {r r' : AuthenticatedReader suite ρ} (hn : 0 < n) (h : Step r n (.ok []) r') :
    r.rest.bytes = [] ∧ r.rest.fault = none ∧ r'.rest = { r.rest with sawEnd := true } := by
  have hfinal : ∀ t : AuthenticatedReader suite ρ, t.pending = [] → t.state.finished = true →
      t.rest = ⟨[], none, true⟩ := by
    intro t hpending hfinished
    simp [rest, remaining, hpending, hfinished]
  generalize hresult : (Except.ok [] : Except IoError Bytes) = result at h
  cases h with
  | served current offset hpending hleft =>
      have htake := (Except.ok.inj hresult).symm
      rcases List.take_eq_nil_iff.mp htake with hzero | hnil
      · omega
      · exact absurd hnil hpending
  | ended hpending hfinished => simp [hfinal r hpending hfinished]
  | failedBefore => cases hresult
  | failed => cases hresult
  | loaded reader state payload written current offset hpending hfinished hfailure hload hleft =>
      have htake := (Except.ok.inj hresult).symm
      rcases List.take_eq_nil_iff.mp htake with hzero | hnil
      · omega
      · exact absurd hnil (EnvelopeState.loadNextRecord_inv hload).payload.1
  | footer reader state written hpending hfinished hfailure hload =>
      have hremaining : r.remaining = ([], none) := by
        rw [remaining_eq_drain hfinished hfailure, drain_none hload]
      have hloads := EnvelopeState.loadNextRecord_inv hload
      rw [hfinal { r with reader := reader, state := state } hpending hloads.finished]
      simp [rest, hpending, hremaining]

theorem Step.some {r r' : AuthenticatedReader suite ρ} {b : UInt8} {bs : Bytes}
    (h : Step r n (.ok (b :: bs)) r') :
    bs.length < n ∧ r.rest = { r'.rest with bytes := b :: bs ++ r'.rest.bytes } := by
  generalize hresult : (Except.ok (b :: bs) : Except IoError Bytes) = result at h
  have hshort : ∀ {data : Bytes}, b :: bs = data.take n → bs.length < n := by
    intro data hdata
    have hlength := congrArg List.length hdata
    rw [List.length_cons, List.length_take] at hlength
    omega
  cases h with
  | served current offset hpending hleft =>
      have htake := Except.ok.inj hresult
      refine ⟨hshort htake, ?_⟩
      rw [htake, ByteSource.mk.injEq]
      refine ⟨?_, rfl, rfl⟩
      change r.pending ++ r.remaining.1 = r.pending.take n ++ (current.drop offset ++ r.remaining.1)
      rw [hleft, ← List.append_assoc, List.take_append_drop]
  | ended => cases hresult
  | failedBefore => cases hresult
  | failed => cases hresult
  | loaded reader state payload written current offset hpending hfinished hfailure hload hleft =>
      have htake := Except.ok.inj hresult
      obtain ⟨-, hsame, hshorter⟩ := (EnvelopeState.loadNextRecord_inv hload).payload
      let r₁ : AuthenticatedReader suite ρ :=
        { r with reader := reader, state := state, current := current, currentOffset := offset }
      have hrest : r.remaining = (payload ++ r₁.remaining.1, r₁.remaining.2) := by
        rw [remaining_eq_drain hfinished hfailure,
          @remaining_eq_drain suite ρ _ r₁ (hsame.trans hfinished) hfailure, drain_some hload,
          drain_fuel hshorter (Nat.lt_succ_self _)]
      refine ⟨hshort htake, ?_⟩
      rw [htake, ByteSource.mk.injEq]
      refine ⟨?_, ?_, hsame.symm⟩
      rotate_left
      · change r.remaining.2 = r₁.remaining.2
        rw [hrest]
      change r.pending ++ r.remaining.1 = payload.take n ++ (current.drop offset ++ r₁.remaining.1)
      rw [hpending, hrest, hleft, List.nil_append, ← List.append_assoc, List.take_append_drop]
  | footer => cases hresult

instance : LawfulReader (AuthenticatedReader suite ρ) where
  rest := rest
  read_error r n e r' hn h := by
    have hstep := read_step r hn
    change read r n = _ at h
    rw [h] at hstep
    exact hstep.error
  read_end r n r' hn h := by
    have hstep := read_step r hn
    change read r n = _ at h
    rw [h] at hstep
    exact hstep.end hn
  read_some r n b bs r' hn h := by
    have hstep := read_step r hn
    change read r n = _ at h
    rw [h] at hstep
    exact hstep.some

/-- `P` holds of the state and the source of a reader that has not failed. -/
def Tracks (P : EnvelopeState → ByteSource → Prop) (broken : Prop)
    (r : AuthenticatedReader suite ρ) : Prop :=
  (r.failure = none → P r.state (LawfulReader.rest r.reader)) ∧ (r.failure.isSome → broken)

/-- What loading a record keeps is kept by every read. -/
theorem Tracks.read {P : EnvelopeState → ByteSource → Prop} {broken : Prop}
    (hload : ∀ st s st' x w s', P st s → st.finished = false →
      (st.loadNextRecord suite).Yields s (st', x) w s' → P st' s')
    (hfail : ∀ st s e, P st s → st.finished = false →
      ((st.loadNextRecord suite).eval s).result = .error e → broken)
    {r : AuthenticatedReader suite ρ} (n : ℕ) (h : r.Tracks P broken) :
    Tracks P broken (Reader.read r n : Except IoError Bytes × AuthenticatedReader suite ρ).2 := by
  change Tracks P broken (r.read n).2
  rcases Nat.eq_zero_or_pos n with rfl | hn
  · exact h
  · have hstep := read_step r hn
    generalize (r.read n).1 = result at hstep
    generalize (r.read n).2 = r' at hstep ⊢
    obtain ⟨hhealthy, hbroken⟩ := h
    cases hstep with
    | served => exact ⟨hhealthy, hbroken⟩
    | ended => exact ⟨hhealthy, hbroken⟩
    | failedBefore => exact ⟨hhealthy, hbroken⟩
    | failed reader e _ hfinished hfailure hrun =>
        exact ⟨fun hnone => (by cases hnone), fun _ => hfail _ _ _ (hhealthy hfailure) hfinished hrun⟩
    | loaded reader state payload written current offset _ hfinished hfailure hrun _ =>
        exact ⟨fun _ => hload _ _ _ _ _ _ (hhealthy hfailure) hfinished hrun, hbroken⟩
    | footer reader state written _ hfinished hfailure hrun =>
        exact ⟨fun _ => hload _ _ _ _ _ _ (hhealthy hfailure) hfinished hrun, hbroken⟩

end

end AuthenticatedReader

end MosaicArchive.Authenticated
