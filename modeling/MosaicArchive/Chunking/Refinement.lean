import MosaicArchive.Chunking.Gear

/-!
Both chunkers split every stream as the byte-at-a-time reference does. The
step between them is `maskedRule`, which keeps the fingerprint modulo the
average size: later low bits depend on the same low bits only.
-/

namespace MosaicArchive.Gear

open FixedWidth

/-! ### Keeping the low bits only -/

def maskedStep (config : ChunkingConfig) (s : ℕ × ℕ) (byte : UInt8) : (ℕ × ℕ) × Bool :=
  let size := s.1 + 1
  let mask := config.avgSize - 1
  let fingerprint :=
    if config.minSize ≤ size then ((s.2 <<< 1) ^^^ (gearTable byte &&& mask)) &&& mask else s.2
  ((size, fingerprint), size = config.maxSize ∨ (config.minSize ≤ size ∧ fingerprint = 0))

def maskedRule (config : ChunkingConfig) : ChunkRule (ℕ × ℕ) UInt8 where
  start := (0, 0)
  step := maskedStep config

theorem ChunkingConfig.minSize_pos (config : ChunkingConfig) : 0 < config.minSize := by
  have := config.window_le
  unfold windowSize at this
  omega

theorem ChunkingConfig.minSize_le_maxSize (config : ChunkingConfig) :
    config.minSize ≤ config.maxSize :=
  config.ordered.1.trans config.ordered.2

/-- The average size is one of the powers of two that fit a 64-bit mask. -/
theorem ChunkingConfig.avgSize_eq_pow (config : ChunkingConfig) :
    ∃ k, k ≤ 64 ∧ config.avgSize = 2 ^ k := by
  have hpos : config.avgSize ≠ 0 := by
    have := config.minSize_pos
    have := config.ordered.1
    omega
  obtain ⟨k, hk⟩ := (Nat.and_sub_one_eq_zero_iff_isPowerOfTwo hpos).mp config.avg_power
  refine ⟨k, ?_, hk⟩
  by_contra hlarge
  have hpow : 2 ^ 64 ≤ 2 ^ k := Nat.pow_le_pow_right (by norm_num) (by omega)
  have hmax := config.ordered.2.trans config.max_le
  rw [hk] at hmax
  norm_num at hmax hpow
  omega

/-- The low bits of the 64-bit fingerprint follow from its low bits. -/
theorem fingerprint_mod (config : ChunkingConfig) (full entry : ℕ) :
    (((full % config.avgSize) <<< 1) ^^^ (entry &&& (config.avgSize - 1))) &&&
        (config.avgSize - 1) =
      ((full <<< 1) ^^^ entry) % 2 ^ 64 % config.avgSize := by
  obtain ⟨k, hk, havg⟩ := config.avgSize_eq_pow
  rw [havg, Nat.and_two_pow_sub_one_eq_mod, Nat.and_two_pow_sub_one_eq_mod,
    Nat.mod_mod_of_dvd _ (Nat.pow_dvd_pow 2 hk), Nat.xor_mod_two_pow, Nat.xor_mod_two_pow,
    Nat.mod_two_pow_shiftLeft_mod_two_pow, Nat.mod_mod]

/-- The masked state that goes with a state of the reference. -/
def Masks (config : ChunkingConfig) (full masked : ℕ × ℕ) : Prop :=
  masked = (full.1, full.2 % config.avgSize)

theorem referenceStep_masks (config : ChunkingConfig) (s : ℕ × ℕ) (byte : UInt8) :
    maskedStep config (s.1, s.2 % config.avgSize) byte =
      (((referenceStep config s byte).1.1,
        (referenceStep config s byte).1.2 % config.avgSize), (referenceStep config s byte).2) := by
  unfold maskedStep referenceStep
  by_cases hmin : config.minSize ≤ s.1 + 1
  · simp only [hmin, if_true, true_and]
    rw [fingerprint_mod]
  · simp [hmin]

theorem maskedRule_chunks (config : ChunkingConfig) (data : Bytes) :
    (maskedRule config).chunks data = (referenceRule config).chunks data := by
  symm
  refine ChunkRule.chunksFrom_congr _ _ (Masks config) ?_ ?_ ?_ ?_ [] data
  · simp [Masks, maskedRule, referenceRule]
  · rintro s t byte rfl
    exact (congrArg Prod.snd (referenceStep_masks config s byte)).symm
  · rintro s t byte rfl -
    exact congrArg Prod.fst (referenceStep_masks config s byte)
  · simp [Masks, maskedRule, referenceRule]

/-- The bounds of every chunk of a stream. -/
theorem maskedRule_bounds (config : ChunkingConfig) (data : Bytes) :
    (∀ c ∈ ((maskedRule config).chunks data).dropLast,
        config.minSize ≤ c.length ∧ c.length ≤ config.maxSize) ∧
      ∀ c ∈ (maskedRule config).chunks data, c.length ≤ config.maxSize := by
  have hmin := config.minSize_le_maxSize
  have hpos := config.minSize_pos
  obtain ⟨hlast, hall⟩ := (maskedRule config).chunks_bounds
    (fun s n => s.1 = n ∧ n < config.maxSize)
    (fun n => config.minSize ≤ n ∧ n ≤ config.maxSize)
    ⟨rfl, by omega⟩
    (by
      rintro ⟨size, fingerprint⟩ n byte ⟨rfl, hn⟩ hcut
      have : size + 1 = config.maxSize ∨ config.minSize ≤ size + 1 := by
        rcases of_decide_eq_true hcut with h | h
        · exact Or.inl h
        · exact Or.inr h.1
      omega)
    (by
      rintro ⟨size, fingerprint⟩ n byte ⟨rfl, hn⟩ hkeep
      have : size + 1 ≠ config.maxSize := fun h => of_decide_eq_false hkeep (Or.inl h)
      exact ⟨rfl, by omega⟩)
    data
  refine ⟨hlast, ?_⟩
  intro c hc
  rcases hall c hc with h | ⟨s, -, h⟩
  · exact h.2
  · exact h.le

/-! ### Runs of bytes without a boundary -/

/-- Bytes below the minimum size are skipped without being hashed. -/
theorem feed_skip (config : ChunkingConfig) (size fingerprint : ℕ) (acc bytes rest : Bytes)
    (h : bytes.length ≤ config.minSize - 1 - size) :
    (maskedRule config).feed (size, fingerprint) acc (bytes ++ rest) =
      (maskedRule config).feed (size + bytes.length, fingerprint) (acc ++ bytes) rest := by
  have hmin := config.minSize_le_maxSize
  refine ChunkRule.feed_of_iterate _ (fun i => (size + i, fingerprint)) bytes ?_ acc rest
  intro i hi
  have hshort : ¬ config.minSize ≤ size + (i + 1) := by omega
  have hmax : size + (i + 1) ≠ config.maxSize := by omega
  simp [maskedRule, maskedStep, hshort, hmax, Nat.add_assoc]

/-- The hashing loop finds the boundary the rule finds, unless the run ends at
the maximum size. -/
theorem scanBytes_feed (config : ChunkingConfig) (size fingerprint offset : ℕ)
    (acc bytes rest : Bytes) (hmin : config.minSize ≤ size + 1)
    (hmax : size + bytes.length ≤ config.maxSize) :
    match scanBytes (config.avgSize - 1) fingerprint offset bytes with
    | (fingerprint', none) =>
        (size + bytes.length < config.maxSize →
          (maskedRule config).feed (size, fingerprint) acc (bytes ++ rest) =
            (maskedRule config).feed (size + bytes.length, fingerprint') (acc ++ bytes) rest) ∧
        (size + bytes.length = config.maxSize → bytes ≠ [] →
          (maskedRule config).feed (size, fingerprint) acc (bytes ++ rest) =
            ((acc ++ bytes) :: ((maskedRule config).feed (0, 0) [] rest).1,
              ((maskedRule config).feed (0, 0) [] rest).2))
    | (_, some boundaryOffset) =>
        ∃ i, boundaryOffset = offset + i ∧ i < bytes.length ∧
          (maskedRule config).feed (size, fingerprint) acc (bytes ++ rest) =
            ((acc ++ bytes.take (i + 1)) ::
                ((maskedRule config).feed (0, 0) [] (bytes.drop (i + 1) ++ rest)).1,
              ((maskedRule config).feed (0, 0) [] (bytes.drop (i + 1) ++ rest)).2) := by
  induction bytes generalizing size fingerprint offset acc with
  | nil => simp [scanBytes]
  | cons byte bytes ih =>
      set next := ((fingerprint <<< 1) ^^^ (gearTable byte &&& (config.avgSize - 1))) &&&
        (config.avgSize - 1) with hnext
      have hstep : (maskedRule config).step (size, fingerprint) byte =
          ((size + 1, next), decide (size + 1 = config.maxSize ∨ next = 0)) := by
        simp [maskedRule, maskedStep, hmin, hnext]
      simp only [List.length_cons] at hmax
      rw [scanBytes, ← hnext]
      by_cases hzero : next = 0
      · rw [if_pos hzero]
        refine ⟨0, rfl, by simp, ?_⟩
        rw [List.cons_append, ChunkRule.feed_cons_cut _ (by rw [hstep]; simp [hzero])]
        rfl
      · rw [if_neg hzero]
        by_cases hlast : size + 1 = config.maxSize
        · obtain rfl : bytes = [] := List.eq_nil_of_length_eq_zero (by omega)
          refine ⟨fun h => absurd h (by simp; omega), fun _ _ => ?_⟩
          rw [List.cons_append, ChunkRule.feed_cons_cut _ (by rw [hstep]; simp [hlast])]
          rfl
        · have hkeep : ((maskedRule config).step (size, fingerprint) byte).2 = false := by
            rw [hstep]
            simp [hzero, hlast]
          have hfeed : (maskedRule config).feed (size, fingerprint) acc (byte :: bytes ++ rest) =
              (maskedRule config).feed (size + 1, next) (acc ++ [byte]) (bytes ++ rest) := by
            rw [List.cons_append, ChunkRule.feed_cons_keep _ hkeep, hstep]
          have ih := ih (size + 1) next (offset + 1) (acc ++ [byte]) (by omega) (by omega)
          have hassoc : size + (bytes.length + 1) = size + 1 + bytes.length := by omega
          match hscan : scanBytes (config.avgSize - 1) next (offset + 1) bytes with
          | (fingerprint', none) =>
              obtain ⟨hopen, hcut⟩ := by simpa only [hscan] using ih
              simp only [List.length_cons, hassoc, hfeed]
              refine ⟨fun h => by simpa using hopen h, fun h _ => ?_⟩
              have hne : bytes ≠ [] := by
                rintro rfl
                exact hlast (by simpa using h)
              simpa using hcut h hne
          | (_, some boundaryOffset) =>
              obtain ⟨i, hoffset, hi, hcut⟩ := by simpa only [hscan] using ih
              refine ⟨i + 1, by omega, by simpa using hi, ?_⟩
              rw [hfeed, hcut]
              simp

/-! ### The Python chunker -/

/-- The buffer from `emittedSize` on: the open chunk, then bytes not scanned yet. -/
structure ScanState.Tracks (config : ChunkingConfig) (s : ScanState) (acc rest : Bytes) : Prop where
  buffer : s.chunk.drop s.emittedSize = acc ++ rest
  size : acc.length = s.chunkSize
  below : s.chunkSize < config.maxSize

/-- Scanning leads from one state to another as the rule does on the bytes
between them. -/
structure ScanState.Scans (config : ChunkingConfig) (s : ScanState) (acc rest : Bytes)
    (s' : ScanState) (acc' rest' : Bytes) : Prop where
  chunk : s'.chunk = s.chunk
  tracks : s'.Tracks config acc' rest'
  feed : ∃ ys, s'.yielded = s.yielded ++ ys ∧
    (maskedRule config).feed (s.chunkSize, s.fingerprint) acc rest =
      (ys ++ ((maskedRule config).feed (s'.chunkSize, s'.fingerprint) acc' rest').1,
        ((maskedRule config).feed (s'.chunkSize, s'.fingerprint) acc' rest').2)

namespace ScanState

variable {config : ChunkingConfig} {s s' s'' : ScanState} {acc acc' acc'' : Bytes}
  {rest rest' rest'' : Bytes}

theorem Scans.refl (h : s.Tracks config acc rest) : s.Scans config acc rest s acc rest :=
  ⟨rfl, h, [], by simp, by simp⟩

theorem Scans.trans (h : s.Scans config acc rest s' acc' rest')
    (h' : s'.Scans config acc' rest' s'' acc'' rest'') :
    s.Scans config acc rest s'' acc'' rest'' := by
  obtain ⟨hchunk, -, ys, hyielded, hfeed⟩ := h
  obtain ⟨hchunk', htracks', ys', hyielded', hfeed'⟩ := h'
  refine ⟨hchunk'.trans hchunk, htracks', ys ++ ys', ?_, ?_⟩
  · rw [hyielded', hyielded, List.append_assoc]
  · rw [hfeed, hfeed', List.append_assoc]

/-- Moving bytes into the open chunk. -/
theorem Scans.keep {bytes : Bytes} (size fingerprint : ℕ)
    (h : s.Tracks config acc (bytes ++ rest)) (hsize : size = s.chunkSize + bytes.length)
    (hbelow : size < config.maxSize)
    (hfeed : (maskedRule config).feed (s.chunkSize, s.fingerprint) acc (bytes ++ rest) =
      (maskedRule config).feed (size, fingerprint) (acc ++ bytes) rest) :
    s.Scans config acc (bytes ++ rest)
      { s with chunkSize := size, fingerprint := fingerprint } (acc ++ bytes) rest := by
  obtain ⟨hbuffer, hlength, -⟩ := h
  refine ⟨rfl, ⟨?_, ?_, hbelow⟩, [], by simp, by simpa using hfeed⟩
  · rw [List.append_assoc]
    exact hbuffer
  · simp [hlength, hsize]

/-- Moving bytes into the open chunk and emitting it. -/
theorem Scans.cut {bytes : Bytes} {size fingerprint : ℕ}
    (h : s.Tracks config acc (bytes ++ rest)) (hsize : size = s.chunkSize + bytes.length)
    (hfeed : (maskedRule config).feed (s.chunkSize, s.fingerprint) acc (bytes ++ rest) =
      ((acc ++ bytes) :: ((maskedRule config).feed (0, 0) [] rest).1,
        ((maskedRule config).feed (0, 0) [] rest).2)) :
    s.Scans config acc (bytes ++ rest)
      (emit { s with chunkSize := size, fingerprint := fingerprint }) [] rest := by
  obtain ⟨hbuffer, hlength, hbelow⟩ := h
  have hlen : size = (acc ++ bytes).length := by simp [hlength, hsize]
  rw [← List.append_assoc] at hbuffer
  have hyield : slice s.chunk s.emittedSize (s.emittedSize + size) = acc ++ bytes := by
    rw [slice, hbuffer, Nat.add_sub_cancel_left, hlen, List.take_left]
  refine ⟨rfl, ⟨?_, rfl, by simp only [emit]; omega⟩, [acc ++ bytes], ?_, hfeed⟩
  · change s.chunk.drop (s.emittedSize + size) = rest
    rw [← List.drop_drop, hbuffer, hlen, List.drop_left]
  · simp only [emit, hyield]

end ScanState

open ScanState in
/-- The part of a round after the skip: hash up to the end of the block or the
maximum size. -/
theorem hashed_scans (config : ChunkingConfig) (block : Bytes) (start scanEnd : ℕ) (s : ScanState)
    (acc : Bytes) (hlow : start < scanEnd) (hhigh : scanEnd ≤ block.length)
    (hmin : config.minSize ≤ s.chunkSize + 1)
    (hmax : s.chunkSize + (scanEnd - start) ≤ config.maxSize)
    (htracks : s.Tracks config acc (block.drop start)) :
    match scanBytes (config.avgSize - 1) s.fingerprint start (slice block start scanEnd) with
    | (fingerprint, none) =>
        (s.chunkSize + (scanEnd - start) < config.maxSize → ∃ acc',
          s.Scans config acc (block.drop start)
            { s with chunkSize := s.chunkSize + (scanEnd - start), fingerprint := fingerprint }
            acc' (block.drop scanEnd)) ∧
        (¬ s.chunkSize + (scanEnd - start) < config.maxSize →
          s.Scans config acc (block.drop start)
            (emit { s with
              chunkSize := s.chunkSize + (scanEnd - start), fingerprint := fingerprint })
            [] (block.drop scanEnd))
    | (fingerprint, some boundaryOffset) =>
        start ≤ boundaryOffset ∧ boundaryOffset < scanEnd ∧
          s.Scans config acc (block.drop start)
            (emit { s with
              chunkSize := s.chunkSize + (boundaryOffset - start + 1), fingerprint := fingerprint })
            [] (block.drop (boundaryOffset + 1)) := by
  have hlength : (slice block start scanEnd).length = scanEnd - start :=
    slice_length hlow.le hhigh
  have hrest : slice block start scanEnd ++ block.drop scanEnd = block.drop start :=
    slice_append_drop block hlow.le
  have hscan := scanBytes_feed config s.chunkSize s.fingerprint start acc
    (slice block start scanEnd) (block.drop scanEnd) hmin (by omega)
  match hloop : scanBytes (config.avgSize - 1) s.fingerprint start (slice block start scanEnd) with
  | (fingerprint, none) =>
      obtain ⟨hopen, hcut⟩ := by simpa only [hloop] using hscan
      rw [← hrest] at htracks ⊢
      refine ⟨fun hfull => ⟨acc ++ slice block start scanEnd, ?_⟩, fun hfull => ?_⟩
      · refine Scans.keep _ _ htracks (by rw [hlength]) hfull ?_
        rw [hopen (by omega), hlength]
      · refine Scans.cut htracks (by rw [hlength]) (hcut (by omega) ?_)
        intro hnil
        rw [hnil, List.length_nil] at hlength
        omega
  | (fingerprint, some boundaryOffset) =>
      obtain ⟨i, rfl, hi, hcut⟩ := by simpa only [hloop] using hscan
      rw [hlength] at hi
      have htaken : ((slice block start scanEnd).take (i + 1)).length = i + 1 := by
        rw [List.length_take, hlength]
        omega
      have hleft : (slice block start scanEnd).drop (i + 1) ++ block.drop scanEnd =
          block.drop (start + i + 1) := by
        have hdrop := congrArg (List.drop (i + 1)) hrest
        rwa [List.drop_append_of_le_length (by omega), List.drop_drop, ← Nat.add_assoc] at hdrop
      have hwhole : (slice block start scanEnd).take (i + 1) ++ block.drop (start + i + 1) =
          block.drop start := by
        rw [← hleft, ← List.append_assoc, List.take_append_drop, hrest]
      rw [hrest, hleft, ← hwhole] at hcut
      rw [← hwhole] at htracks ⊢
      refine ⟨by omega, by omega, Scans.cut htracks ?_ hcut⟩
      rw [htaken]
      omega

open ScanState in
/-- One round moves the position and does what the rule does on the bytes it
passes. -/
theorem scanRound_scans (config : ChunkingConfig) (block : Bytes) (position : ℕ) (s : ScanState)
    (acc : Bytes) (hposition : position < block.length)
    (htracks : s.Tracks config acc (block.drop position)) :
    position < (scanRound config block position s).1 ∧
      (scanRound config block position s).1 ≤ block.length ∧
      ∃ acc', s.Scans config acc (block.drop position) (scanRound config block position s).2 acc'
        (block.drop (scanRound config block position s).1) := by
  have hmin := config.minSize_le_maxSize
  have hminPos := config.minSize_pos
  have hbelow := htracks.below
  unfold scanRound
  set skip := min (config.minSize - 1 - s.chunkSize) (block.length - position) with hskip
  have hskipMin : skip ≤ config.minSize - 1 - s.chunkSize := min_le_left _ _
  have hskipBlock : skip ≤ block.length - position := min_le_right _ _
  set start := position + skip with hstart
  have hskipped : (slice block position start).length = skip := by
    rw [slice_length (by omega) (by omega)]
    omega
  have hwhole := slice_append_drop block (by omega : position ≤ start)
  -- the skipped bytes join the open chunk
  have hkeep := Scans.keep (s.chunkSize + skip) s.fingerprint
    (by rwa [hwhole]) (by rw [hskipped]) (by omega)
    (by rw [feed_skip config _ _ _ _ _ (by omega), hskipped])
  rw [hwhole] at hkeep
  set s₁ : ScanState := { s with chunkSize := s.chunkSize + skip } with hs₁
  dsimp only
  by_cases hend : block.length ≤ start
  · rw [if_pos hend]
    exact ⟨by omega, by omega, _, hkeep⟩
  · rw [if_neg hend]
    set scanEnd := min block.length (start + config.maxSize - (s.chunkSize + skip)) with hscanEnd
    have hsize₁ : s₁.chunkSize = s.chunkSize + skip := rfl
    have hscan := hashed_scans config block start scanEnd s₁ _ (by omega) (by omega) (by omega)
      (by omega) hkeep.tracks
    match hloop : scanBytes (config.avgSize - 1) s₁.fingerprint start
        (slice block start scanEnd) with
    | (fingerprint, none) =>
        obtain ⟨hopen, hcut⟩ := by simpa only [hloop] using hscan
        dsimp only
        by_cases hfull : s₁.chunkSize + (scanEnd - start) < config.maxSize
        · rw [if_pos hfull]
          obtain ⟨acc', hopen⟩ := hopen hfull
          exact ⟨by omega, by omega, acc', hkeep.trans hopen⟩
        · rw [if_neg hfull]
          exact ⟨by omega, by omega, [], hkeep.trans (hcut hfull)⟩
    | (fingerprint, some boundaryOffset) =>
        obtain ⟨hlow, hhigh, hcut⟩ := by simpa only [hloop] using hscan
        dsimp only
        exact ⟨by omega, by omega, [], hkeep.trans hcut⟩

open ScanState in
/-- The loop over a block reaches its end. -/
theorem scanBlock_scans (config : ChunkingConfig) (block : Bytes) (rounds position : ℕ)
    (s : ScanState) (acc : Bytes) (hposition : position ≤ block.length)
    (hrounds : block.length ≤ position + rounds)
    (htracks : s.Tracks config acc (block.drop position)) :
    ∃ acc', s.Scans config acc (block.drop position) (scanBlock config block rounds position s)
      acc' [] := by
  induction rounds generalizing position s acc with
  | zero =>
      rw [List.drop_of_length_le (by omega)] at htracks ⊢
      exact ⟨acc, Scans.refl htracks⟩
  | succ rounds ih =>
      rw [scanBlock]
      by_cases hinside : position < block.length
      · rw [if_pos hinside]
        obtain ⟨hmoves, hend, acc₁, hround⟩ :=
          scanRound_scans config block position s acc hinside htracks
        obtain ⟨acc₂, hrest⟩ := ih _ _ acc₁ hend (by omega) hround.tracks
        exact ⟨acc₂, hround.trans hrest⟩
      · rw [if_neg hinside]
        rw [List.drop_of_length_le (by omega)] at htracks ⊢
        exact ⟨acc, Scans.refl htracks⟩

/-- Between two reads the buffer is the open chunk and nothing else. -/
def ScanState.Settled (config : ChunkingConfig) (s : ScanState) : Prop :=
  s.emittedSize = 0 ∧ s.Tracks config s.chunk []

theorem ScanState.settled_initial (config : ChunkingConfig) :
    ScanState.initial.Settled config := by
  have hpos := config.minSize_pos
  have hle := config.minSize_le_maxSize
  exact ⟨rfl, rfl, rfl, by simp only [ScanState.initial]; omega⟩

theorem scanRead_feed (config : ChunkingConfig) (s : ScanState) (block : Bytes)
    (h : s.Settled config) :
    (scanRead config s block).Settled config ∧
      (scanRead config s block).yielded =
        s.yielded ++ ((maskedRule config).feed (s.chunkSize, s.fingerprint) s.chunk block).1 ∧
      ((maskedRule config).feed (s.chunkSize, s.fingerprint) s.chunk block).2 =
        (((scanRead config s block).chunkSize, (scanRead config s block).fingerprint),
          (scanRead config s block).chunk) := by
  obtain ⟨hemitted, -, hsize, hbelow⟩ := h
  have hstart : ({ s with chunk := s.chunk ++ block } : ScanState).Tracks config s.chunk
      (block.drop 0) := ⟨by simp [hemitted], hsize, hbelow⟩
  obtain ⟨acc', -, ⟨hbuffer, hsize', hbelow'⟩, ys, hyielded, hfeed⟩ :=
    scanBlock_scans config block block.length 0 _ s.chunk (by omega) (by omega) hstart
  rw [List.append_nil] at hbuffer
  simp only [List.drop_zero, ChunkRule.feed_nil, List.append_nil] at hfeed
  refine ⟨⟨rfl, ?_, ?_, hbelow'⟩, ?_, ?_⟩
  · simp [scanRead]
  · simp only [scanRead, hbuffer, hsize']
  · simp only [scanRead, hfeed, hyielded]
  · simp only [scanRead, hfeed, hbuffer]

theorem scanReads_feed (config : ChunkingConfig) (blocks : List Bytes) (s : ScanState)
    (h : s.Settled config) :
    (blocks.foldl (scanRead config) s).yielded ++
        ChunkRule.flush (blocks.foldl (scanRead config) s).chunk =
      s.yielded ++
        (maskedRule config).chunksFrom (s.chunkSize, s.fingerprint) s.chunk blocks.flatten := by
  induction blocks generalizing s with
  | nil => simp [ChunkRule.chunksFrom_nil]
  | cons block blocks ih =>
      obtain ⟨hsettled, hyielded, hfeed⟩ := scanRead_feed config s block h
      rw [List.foldl_cons, ih _ hsettled, List.flatten_cons, ChunkRule.chunksFrom_append, hfeed,
        hyielded, List.append_assoc]

/-- The generator yields the chunks of the rule, however the stream is read. -/
theorem iterContentDefinedChunks_eq (config : ChunkingConfig) (reads : Reads) :
    iterContentDefinedChunks config reads = (maskedRule config).chunks reads.data :=
  scanReads_feed config reads.blocks ScanState.initial (ScanState.settled_initial config)

/-! ### The native chunker -/

/-- The rule of `msc7-core`. -/
def nativeRule : ChunkRule (ℕ × ℕ) UInt8 := maskedRule defaultChunking

/-- One buffer: either the rule cuts inside it, or all of it joins the open
chunk. -/
theorem scanAvailable_feed (chunk available rest : Bytes) (fingerprint : ℕ) :
    match scanAvailable chunk fingerprint available with
    | (chunk', _, unread, true) =>
        nativeRule.feed (chunk.length, fingerprint) chunk (available ++ rest) =
          (chunk' :: (nativeRule.feed (0, 0) [] (unread ++ rest)).1,
            (nativeRule.feed (0, 0) [] (unread ++ rest)).2)
    | (chunk', fingerprint', _, false) =>
        nativeRule.feed (chunk.length, fingerprint) chunk (available ++ rest) =
          nativeRule.feed (chunk'.length, fingerprint') chunk' rest := by
  induction available generalizing chunk fingerprint with
  | nil => rfl
  | cons byte available ih =>
      set next := ((fingerprint <<< 1) ^^^ (gearTable byte &&& (avgChunkSize - 1))) &&&
        (avgChunkSize - 1) with hnext
      have hlength : (chunk ++ [byte]).length = chunk.length + 1 := by simp
      have hstep : nativeRule.step (chunk.length, fingerprint) byte =
          ((chunk.length + 1, if minChunkSize ≤ chunk.length + 1 then next else fingerprint),
            decide (chunk.length + 1 = maxChunkSize ∨ (minChunkSize ≤ chunk.length + 1 ∧
              (if minChunkSize ≤ chunk.length + 1 then next else fingerprint) = 0))) := rfl
      rw [scanAvailable, ← hnext]
      dsimp only
      rw [hlength]
      by_cases hmin : minChunkSize ≤ chunk.length + 1
      · simp only [hmin, if_true, true_and] at hstep ⊢
        by_cases hcut : next = 0 ∨ chunk.length + 1 = maxChunkSize
        · rw [if_pos hcut]
          have hstepCut : (nativeRule.step (chunk.length, fingerprint) byte).2 = true := by
            rw [hstep]
            simpa using hcut.symm
          rw [List.cons_append, ChunkRule.feed_cons_cut _ hstepCut]
          rfl
        · rw [if_neg hcut]
          have hstepKeep : (nativeRule.step (chunk.length, fingerprint) byte).2 = false := by
            rw [hstep]
            simpa [and_comm] using hcut
          rw [List.cons_append, ChunkRule.feed_cons_keep _ hstepKeep, hstep, ← hlength]
          exact ih (chunk ++ [byte]) next
      · have hmax : chunk.length + 1 ≠ maxChunkSize := by
          have : minChunkSize ≤ maxChunkSize := by decide
          omega
        have hstepKeep : (nativeRule.step (chunk.length, fingerprint) byte).2 = false := by
          rw [hstep]
          simp [hmin, hmax]
        simp only [hmin, if_false] at hstep ⊢
        rw [List.cons_append, ChunkRule.feed_cons_keep _ hstepKeep, hstep, ← hlength]
        exact ih (chunk ++ [byte]) fingerprint

namespace GearChunker

/-- What the chunker still has to deliver. -/
def remaining (g : GearChunker) : List Bytes :=
  nativeRule.chunksFrom (g.chunk.length, g.fingerprint) g.chunk g.buffers.flatten

/-- Once the end was seen nothing is buffered. -/
def Ended (g : GearChunker) : Prop := g.finished = true → g.chunk = [] ∧ g.buffers = []

theorem ended_new (reads : Reads) : (new reads).Ended := by simp [Ended, new]

theorem remaining_new (reads : Reads) : (new reads).remaining = nativeRule.chunks reads.data := rfl

end GearChunker

/-- The chunk of a call, if any, and all that later calls deliver. -/
def GearChunker.delivered : Option Bytes × GearChunker → List Bytes
  | (none, _) => []
  | (some c, g) => c :: g.remaining

theorem nextChunkLoop_remaining (buffers : List Bytes) (chunk : Bytes) (fingerprint : ℕ) :
    (nextChunkLoop buffers chunk fingerprint).2.Ended ∧
      nativeRule.chunksFrom (chunk.length, fingerprint) chunk buffers.flatten =
        GearChunker.delivered (nextChunkLoop buffers chunk fingerprint) := by
  induction buffers generalizing chunk fingerprint with
  | nil =>
      cases chunk with
      | nil =>
          simp [nextChunkLoop, GearChunker.delivered, GearChunker.Ended,
            ChunkRule.chunksFrom_nil, ChunkRule.flush]
      | cons b bs =>
          simp [nextChunkLoop, GearChunker.delivered, GearChunker.Ended, GearChunker.remaining,
            ChunkRule.chunksFrom_nil, ChunkRule.flush]
  | cons available buffers ih =>
      have hscan := scanAvailable_feed chunk available buffers.flatten fingerprint
      rw [nextChunkLoop]
      rcases hloop : scanAvailable chunk fingerprint available with
        ⟨chunk', fingerprint', unread, _ | _⟩
      · simp only [hloop] at hscan
        obtain ⟨hended, hremaining⟩ := ih chunk' fingerprint'
        refine ⟨hended, ?_⟩
        rw [← hremaining]
        simp only [ChunkRule.chunksFrom, List.flatten_cons, hscan]
      · simp only [hloop] at hscan
        refine ⟨by simp [GearChunker.Ended], ?_⟩
        have hunread : (if unread.isEmpty then buffers else unread :: buffers).flatten =
            unread ++ buffers.flatten := by
          cases unread <;> simp
        simp only [GearChunker.delivered, GearChunker.remaining, ChunkRule.chunksFrom,
          List.flatten_cons, hscan, hunread, List.cons_append, List.length_nil]

theorem GearChunker.nextChunk_remaining (g : GearChunker) (h : g.Ended) :
    g.nextChunk.2.Ended ∧ g.remaining = GearChunker.delivered g.nextChunk := by
  unfold GearChunker.nextChunk
  by_cases hfinished : g.finished = true
  · obtain ⟨hchunk, hbuffers⟩ := h hfinished
    rw [if_pos hfinished]
    exact ⟨h, by
      simp [delivered, remaining, hchunk, hbuffers, ChunkRule.chunksFrom_nil, ChunkRule.flush]⟩
  · rw [if_neg hfinished]
    exact nextChunkLoop_remaining g.buffers g.chunk g.fingerprint

theorem GearChunker.drainLoop_eq (calls : ℕ) (g : GearChunker) (h : g.Ended)
    (hcalls : g.remaining.length ≤ calls) : drainLoop calls g = g.remaining := by
  induction calls generalizing g with
  | zero => rw [drainLoop, List.eq_nil_of_length_eq_zero (by omega : g.remaining.length = 0)]
  | succ calls ih =>
      obtain ⟨hended, hremaining⟩ := g.nextChunk_remaining h
      rw [drainLoop]
      match hnext : g.nextChunk with
      | (none, g') =>
          rw [hnext] at hremaining
          exact hremaining.symm
      | (some c, g') =>
          rw [hnext] at hremaining hended
          simp only [delivered] at hremaining
          dsimp only
          rw [hremaining, ih g' hended (by simpa [hremaining] using hcalls)]

/-- The native chunker delivers the chunks of the rule, however the buffer is
refilled. -/
theorem GearChunker.drain_eq (reads : Reads) :
    GearChunker.drain reads = nativeRule.chunks reads.data := by
  have hlength : (nativeRule.chunks reads.data).length ≤ reads.data.length := by
    have hsum := congrArg List.length (nativeRule.chunks_flatten reads.data)
    rw [List.length_flatten] at hsum
    rw [← hsum]
    refine le_trans (by simp) (List.card_nsmul_le_sum _ 1 ?_)
    intro n hn
    obtain ⟨c, hc, rfl⟩ := List.mem_map.mp hn
    exact List.length_pos_iff.mpr (nativeRule.ne_nil_of_mem_chunks hc)
  exact drainLoop_eq _ _ (ended_new reads) (by rw [remaining_new]; omega)

/-! ### Agreement with the reference -/

/-- Both chunkers split every stream, however it is read, exactly as the
reference splits its bytes. -/
theorem chunkers_refine_reference (config : ChunkingConfig) (reads : Reads) :
    iterContentDefinedChunks config reads = (referenceRule config).chunks reads.data ∧
      GearChunker.drain reads = (referenceRule defaultChunking).chunks reads.data ∧
      (iterContentDefinedChunks config reads).flatten = reads.data ∧
      (∀ c ∈ iterContentDefinedChunks config reads, c ≠ [] ∧ c.length ≤ config.maxSize) ∧
      (∀ c ∈ (iterContentDefinedChunks config reads).dropLast, config.minSize ≤ c.length) ∧
      ∀ before after : List Bytes, iterContentDefinedChunks config reads = before ++ after →
        ∀ rest : Reads, rest.data = after.flatten → iterContentDefinedChunks config rest = after := by
  have hpython := iterContentDefinedChunks_eq config
  obtain ⟨hlast, hall⟩ := maskedRule_bounds config reads.data
  refine ⟨?_, ?_, ?_, ?_, ?_, ?_⟩
  · rw [hpython, maskedRule_chunks]
  · rw [GearChunker.drain_eq, nativeRule, maskedRule_chunks]
  · rw [hpython, ChunkRule.chunks_flatten]
  · intro c hc
    rw [hpython] at hc
    exact ⟨(maskedRule config).ne_nil_of_mem_chunks hc, hall c hc⟩
  · intro c hc
    rw [hpython] at hc
    exact (hlast c hc).1
  · intro before after h rest hrest
    rw [hpython] at h
    rw [hpython, hrest, (maskedRule config).chunks_suffix h]

end MosaicArchive.Gear
