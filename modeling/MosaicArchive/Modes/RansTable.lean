import MosaicArchive.Modes.Decoding

/-!
The frequency tables of the BYTE_RANS mode (`mosaic_archive/modes/rans.py`). A
dictionary of positive frequencies is a function that is 0 on the bytes without
an entry. The normalized counts of a block sum to the scale, and the starts of
the symbols cut the slots below the scale into one stretch for each of them.
-/

namespace MosaicArchive.Modes.ByteRansMode

open FixedWidth
open Manifest (PyError)

def scaleBits : ℕ := 12
def scale : ℕ := 2 ^ scaleBits
def ransL : ℕ := 2 ^ 23

abbrev Frequencies := UInt8 → ℕ

def allBytes : List UInt8 := (List.range 256).map UInt8.ofNat

/-- `sorted(frequencies)` -/
def symbols (f : Frequencies) : List UInt8 := allBytes.filter fun symbol => f symbol ≠ 0

/-- `sum(frequencies.values())` -/
def total (f : Frequencies) : ℕ := ((symbols f).map f).sum

theorem allBytes_nodup : allBytes.Nodup := by
  apply List.Nodup.map_on _ List.nodup_range
  intro a ha b hb h
  have hnat := congrArg UInt8.toNat h
  rw [List.mem_range] at ha hb
  rwa [UInt8.toNat_ofNat', UInt8.toNat_ofNat', Nat.mod_eq_of_lt ha, Nat.mod_eq_of_lt hb] at hnat

theorem mem_allBytes (symbol : UInt8) : symbol ∈ allBytes :=
  List.mem_map.mpr ⟨symbol.toNat, List.mem_range.mpr symbol.toNat_lt, UInt8.ofNat_toNat⟩

@[simp] theorem mem_symbols {f : Frequencies} {symbol : UInt8} : symbol ∈ symbols f ↔ f symbol ≠ 0 := by
  simp [symbols, mem_allBytes]

theorem symbols_nodup (f : Frequencies) : (symbols f).Nodup := allBytes_nodup.filter _

theorem symbols_length_le (f : Frequencies) : (symbols f).length ≤ 256 := by
  have h := List.length_filter_le (fun symbol => decide (f symbol ≠ 0)) allBytes
  simpa [symbols, allBytes] using h

theorem total_eq (f : Frequencies) : total f = (allBytes.map f).sum := by
  unfold total symbols
  induction allBytes with
  | nil => rfl
  | cons symbol rest ih =>
      by_cases h : f symbol = 0
      · rw [List.filter_cons_of_neg (by simp [h]), ih, List.map_cons, List.sum_cons, h, zero_add]
      · rw [List.filter_cons_of_pos (by simp [h]), List.map_cons, List.sum_cons, ih,
          List.map_cons, List.sum_cons]

theorem sum_update (f : Frequencies) (symbol : UInt8) {l : List UInt8} (hl : l.Nodup) (v : ℕ) :
    (l.map (Function.update f symbol v)).sum + (if symbol ∈ l then f symbol else 0) =
      (l.map f).sum + if symbol ∈ l then v else 0 := by
  induction l with
  | nil => rfl
  | cons other rest ih =>
      obtain ⟨hother, hrest⟩ := List.nodup_cons.mp hl
      have hrec := ih hrest
      by_cases heq : other = symbol
      · subst heq
        simp only [hother, if_false, add_zero, List.mem_cons, true_or, if_true, List.map_cons,
          List.sum_cons, Function.update_self] at hrec ⊢
        omega
      · have hmem : symbol ∈ other :: rest ↔ symbol ∈ rest := by
          simp [List.mem_cons, Ne.symm heq]
        simp only [hmem, List.map_cons, List.sum_cons, Function.update_of_ne heq]
        omega

/-- Changing one frequency changes the total by as much. -/
theorem total_update (f : Frequencies) (symbol : UInt8) (v : ℕ) :
    total (Function.update f symbol v) + f symbol = total f + v := by
  have h := sum_update f symbol allBytes_nodup v
  simpa only [mem_allBytes, if_true, ← total_eq] using h

/-! ### Normalization -/

def counts (data : Bytes) : Frequencies := fun symbol => data.count symbol

def floors (data : Bytes) : Frequencies := fun symbol =>
  if counts data symbol = 0 then 0 else max 1 (counts data symbol * scale / data.length)

def remainders (data : Bytes) : Frequencies := fun symbol => counts data symbol * scale % data.length

/-- `sorted(counts, key=lambda symbol: (-key[symbol], symbol))` -/
def orderBy (key f : Frequencies) : List UInt8 :=
  (symbols f).insertionSort fun a b => key b < key a ∨ key a = key b ∧ a ≤ b

/-- `order[index % len(order)]` -/
def cyclic (order : List UInt8) (index : ℕ) : Except PyError UInt8 :=
  match order[index % order.length]? with
  | none => .error .zeroDivision
  | some symbol => .ok symbol

/-- `for index in range(difference): frequencies[order[index % len(order)]] += 1` -/
def raise (order : List UInt8) : ℕ → Frequencies → Except PyError Frequencies
  | 0, f => .ok f
  | difference + 1, f => do
      let f ← raise order difference f
      let symbol ← cyclic order difference
      .ok (Function.update f symbol (f symbol + 1))

structure Lowering where
  frequencies : Frequencies
  remaining : ℕ
  index : ℕ

/-- A round of `while remaining`. -/
def lowerRound (order : List UInt8) (s : Lowering) : Except PyError (Lowering ⊕ Frequencies) :=
  if s.remaining = 0 then .ok (.inr s.frequencies)
  else
    match cyclic order s.index with
    | .error e => .error e
    | .ok symbol =>
        if 1 < s.frequencies symbol then
          .ok (.inl ⟨Function.update s.frequencies symbol (s.frequencies symbol - 1),
            s.remaining - 1, s.index + 1⟩)
        else .ok (.inl { s with index := s.index + 1 })

def lower (order : List UInt8) (remaining : ℕ) (f : Frequencies) : Except PyError Frequencies :=
  Iteration.run (lowerRound order) endless ((remaining + 1) * (order.length + 1)) ⟨f, remaining, 0⟩

/-- `_normalize_counts` -/
def normalizeCounts (data : Bytes) : Except PyError Frequencies :=
  let frequencies := floors data
  if total frequencies < scale then
    raise (orderBy (remainders data) (counts data)) (scale - total frequencies) frequencies
  else if scale < total frequencies then
    lower (orderBy frequencies (counts data)) (total frequencies - scale) frequencies
  else .ok frequencies

/-- A table over the symbols of a block that sums to the scale. -/
structure Normalized (data : Bytes) (f : Frequencies) : Prop where
  support : ∀ symbol, f symbol ≠ 0 ↔ symbol ∈ data
  total_eq : total f = scale

theorem mem_orderBy {key f : Frequencies} {symbol : UInt8} :
    symbol ∈ orderBy key f ↔ f symbol ≠ 0 := by
  rw [orderBy, List.mem_insertionSort, mem_symbols]

theorem counts_ne_zero {data : Bytes} {symbol : UInt8} : counts data symbol ≠ 0 ↔ symbol ∈ data := by
  rw [counts, ne_eq, List.count_eq_zero, not_not]

theorem floors_ne_zero {data : Bytes} {symbol : UInt8} : floors data symbol ≠ 0 ↔ symbol ∈ data := by
  rw [← counts_ne_zero, floors]
  split_ifs with h
  · simp [h]
  · have hpos : 1 ≤ max 1 (counts data symbol * scale / data.length) := le_max_left _ _
    exact iff_of_true (by omega) h

theorem cyclic_mem {order : List UInt8} (horder : order ≠ []) (index : ℕ) :
    ∃ symbol, cyclic order index = .ok symbol ∧ symbol ∈ order := by
  have hlt : index % order.length < order.length :=
    Nat.mod_lt _ (List.length_pos_iff.mpr horder)
  refine ⟨order[index % order.length], ?_, List.getElem_mem hlt⟩
  rw [cyclic, List.getElem?_eq_getElem hlt]

theorem support_update {data : Bytes} {f : Frequencies} {symbol : UInt8} {v : ℕ}
    (hf : ∀ s, f s ≠ 0 ↔ s ∈ data) (hmem : symbol ∈ data) (hv : v ≠ 0) :
    ∀ s, Function.update f symbol v s ≠ 0 ↔ s ∈ data := by
  intro s
  by_cases heq : s = symbol
  · subst heq
    rw [Function.update_self]
    exact iff_of_true hv hmem
  · rw [Function.update_of_ne heq]
    exact hf s

theorem raise_spec {data : Bytes} {order : List UInt8} (horder : ∀ s, s ∈ order ↔ s ∈ data)
    (hne : order ≠ []) (difference : ℕ) {f : Frequencies} (hf : ∀ s, f s ≠ 0 ↔ s ∈ data) :
    ∃ f', raise order difference f = .ok f' ∧ (∀ s, f' s ≠ 0 ↔ s ∈ data) ∧
      total f' = total f + difference := by
  induction difference with
  | zero => exact ⟨f, rfl, hf, rfl⟩
  | succ difference ih =>
      obtain ⟨f', hraise, hf', htotal⟩ := ih
      obtain ⟨symbol, hcyclic, hmem⟩ := cyclic_mem hne difference
      refine ⟨Function.update f' symbol (f' symbol + 1), ?_, ?_, ?_⟩
      · simp only [raise, hraise, hcyclic, bind, Except.bind]
      · exact support_update hf' ((horder symbol).mp hmem) (Nat.succ_ne_zero _)
      · have := total_update f' symbol (f' symbol + 1)
        omega

/-! ### Lowering ends -/

/-- The rounds ahead at which a frequency can be lowered. -/
def Ahead (order : List UInt8) (s : Lowering) : Set ℕ :=
  {k | ∃ symbol, cyclic order (s.index + k) = .ok symbol ∧ 1 < s.frequencies symbol}

/-- A round either lowers a frequency or comes nearer to one it can lower. -/
noncomputable def lowerMeasure (order : List UInt8) (s : Lowering) : ℕ :=
  s.remaining * (order.length + 1) + sInf (Ahead order s)

structure LowerInv (data : Bytes) (s : Lowering) : Prop where
  support : ∀ symbol, s.frequencies symbol ≠ 0 ↔ symbol ∈ data
  total_eq : total s.frequencies = scale + s.remaining

/-- Every position of the order is ahead of every index. -/
theorem exists_cyclic {order : List UInt8} {symbol : UInt8} (h : symbol ∈ order) (index : ℕ) :
    ∃ k < order.length, cyclic order (index + k) = .ok symbol := by
  obtain ⟨j, hj, rfl⟩ := List.getElem_of_mem h
  have hpos : 0 < order.length := Nat.zero_lt_of_lt hj
  refine ⟨(j + (order.length - index % order.length)) % order.length, Nat.mod_lt _ hpos, ?_⟩
  have hmod : (index + (j + (order.length - index % order.length)) % order.length) %
      order.length = j := by
    have hlt := Nat.mod_lt index hpos
    have hdiv := Nat.div_add_mod index order.length
    have hsum : index + (j + (order.length - index % order.length)) =
        j + order.length * (index / order.length + 1) := by
      rw [Nat.mul_add]
      omega
    rw [Nat.add_mod_mod, hsum, Nat.add_mul_mod_self_left, Nat.mod_eq_of_lt hj]
  rw [cyclic, hmod, List.getElem?_eq_getElem hj]

theorem ahead_nonempty {data : Bytes} {order : List UInt8} (horder : ∀ s, s ∈ order ↔ s ∈ data)
    {s : Lowering} (h : LowerInv data s) :
    ∃ k < order.length, k ∈ Ahead order s := by
  obtain ⟨symbol, hsymbol, hlt⟩ : ∃ symbol ∈ symbols s.frequencies, 1 < s.frequencies symbol := by
    by_contra hall
    push Not at hall
    have hle : ((symbols s.frequencies).map s.frequencies).sum ≤ (symbols s.frequencies).length • 1 :=
      List.sum_le_card_nsmul _ _ (by simpa using hall) |>.trans (by simp)
    have htotal := h.total_eq
    have hlength := symbols_length_le s.frequencies
    rw [total] at htotal
    simp only [scale, scaleBits, smul_eq_mul, mul_one] at *
    omega
  have hmem : symbol ∈ order := (horder symbol).mpr ((h.support symbol).mp (mem_symbols.mp hsymbol))
  obtain ⟨k, hk, hcyclic⟩ := exists_cyclic hmem s.index
  exact ⟨k, hk, symbol, hcyclic, hlt⟩

theorem lowerRound_spec {data : Bytes} {order : List UInt8} (horder : ∀ s, s ∈ order ↔ s ∈ data)
    (hne : order ≠ []) (s : Lowering) (h : LowerInv data s) :
    Iteration.Round (LowerInv data) (lowerMeasure order) (Normalized data) (fun _ => False) s
      (lowerRound order s) := by
  unfold lowerRound
  split_ifs with hzero
  · refine ⟨h.support, ?_⟩
    rw [h.total_eq, hzero, add_zero]
  · obtain ⟨symbol, hcyclic, hmem⟩ := cyclic_mem hne s.index
    obtain ⟨k, hk, hahead⟩ := ahead_nonempty horder h
    rw [hcyclic]
    simp only
    split_ifs with hlower
    · have htotal := total_update s.frequencies symbol (s.frequencies symbol - 1)
      have hinv : LowerInv data ⟨Function.update s.frequencies symbol (s.frequencies symbol - 1),
          s.remaining - 1, s.index + 1⟩ := by
        refine ⟨support_update h.support ((horder symbol).mp hmem) (by omega), ?_⟩
        have hsum := h.total_eq
        show total (Function.update s.frequencies symbol (s.frequencies symbol - 1)) =
          scale + (s.remaining - 1)
        omega
      refine ⟨hinv, ?_⟩
      -- The gap after the round is at most the length of the order.
      have hgap : sInf (Ahead order ⟨Function.update s.frequencies symbol
          (s.frequencies symbol - 1), s.remaining - 1, s.index + 1⟩) ≤ order.length := by
        obtain ⟨k', hk', hahead'⟩ := ahead_nonempty horder hinv
        exact (Nat.sInf_le hahead').trans hk'.le
      obtain ⟨r, hr⟩ : ∃ r, s.remaining = r + 1 := Nat.exists_eq_succ_of_ne_zero hzero
      simp only [lowerMeasure, hr, Nat.add_sub_cancel, Nat.succ_mul] at hgap ⊢
      omega
    · refine ⟨⟨h.support, h.total_eq⟩, ?_⟩
      have hmemInf := Nat.sInf_mem ⟨k, hahead⟩
      obtain ⟨target, htarget, hlt⟩ := hmemInf
      -- The frequency at the index cannot be lowered, so the next one is further ahead.
      have hpos : sInf (Ahead order s) ≠ 0 := by
        intro hz
        rw [hz, add_zero, hcyclic] at htarget
        exact hlower (Except.ok.inj htarget ▸ hlt)
      have hnext : sInf (Ahead order s) - 1 ∈ Ahead order { s with index := s.index + 1 } := by
        refine ⟨target, ?_, hlt⟩
        rw [← htarget]
        show cyclic order (s.index + 1 + (sInf (Ahead order s) - 1)) = _
        congr 1
        omega
      have hle := Nat.sInf_le hnext
      simp only [lowerMeasure]
      omega

theorem lower_spec {data : Bytes} {order : List UInt8} (horder : ∀ s, s ∈ order ↔ s ∈ data)
    (hne : order ≠ []) {remaining : ℕ} {f : Frequencies} (h : LowerInv data ⟨f, remaining, 0⟩) :
    ∃ f', lower order remaining f = .ok f' ∧ Normalized data f' := by
  obtain ⟨k, hk, hahead⟩ := ahead_nonempty horder h
  have hfuel : lowerMeasure order ⟨f, remaining, 0⟩ < (remaining + 1) * (order.length + 1) := by
    have hle := Nat.sInf_le hahead
    simp only [lowerMeasure, Nat.succ_mul]
    omega
  have hout := Iteration.run_outcome endless (lowerRound_spec horder hne) h hfuel
  rcases hrun : lower order remaining f with e | f'
  · rw [lower] at hrun
    rw [hrun] at hout
    exact hout.elim
  · rw [lower] at hrun
    rw [hrun] at hout
    exact ⟨f', rfl, hout⟩

/-- The normalized counts of a block that is not empty sum to the scale, over its bytes. -/
theorem normalizeCounts_spec {data : Bytes} (hdata : data ≠ []) :
    ∃ f, normalizeCounts data = .ok f ∧ Normalized data f := by
  obtain ⟨byte, rest, rfl⟩ := List.exists_cons_of_ne_nil hdata
  have horder : ∀ key s, s ∈ orderBy key (counts (byte :: rest)) ↔ s ∈ byte :: rest := fun key s =>
    mem_orderBy.trans counts_ne_zero
  have hne : ∀ key, orderBy key (counts (byte :: rest)) ≠ [] := fun key =>
    List.ne_nil_of_mem ((horder key byte).mpr List.mem_cons_self)
  simp only [normalizeCounts]
  split_ifs with hless hmore
  · obtain ⟨f, hf, hsupport, htotal⟩ := raise_spec (f := floors (byte :: rest)) (horder _) (hne _)
      (scale - total (floors (byte :: rest))) fun _ => floors_ne_zero
    exact ⟨f, hf, hsupport, by omega⟩
  · apply lower_spec (horder _) (hne _)
    refine ⟨fun _ => floors_ne_zero, ?_⟩
    show total (floors (byte :: rest)) = scale + (total (floors (byte :: rest)) - scale)
    omega
  · exact ⟨_, rfl, fun _ => floors_ne_zero, by omega⟩

/-! ### Starts and slots -/

/-- `_cumulative` over the sorted symbols, from a start on. -/
def cumulativeFrom (f : Frequencies) : ℕ → List UInt8 → List (UInt8 × ℕ)
  | _, [] => []
  | start, symbol :: rest => (symbol, start) :: cumulativeFrom f (start + f symbol) rest

/-- `_cumulative` -/
def cumulative (f : Frequencies) : Except PyError (List (UInt8 × ℕ)) :=
  if total f ≠ scale then .error (.runtime "internal rANS normalization error")
  else .ok (cumulativeFrom f 0 (symbols f))

/-- `lookup[start : start + frequencies[symbol]] = [symbol] * frequencies[symbol]` -/
def fill (f : Frequencies) (lookup : List UInt8) (entry : UInt8 × ℕ) : List UInt8 :=
  lookup.take entry.2 ++ List.replicate (f entry.1) entry.1 ++ lookup.drop (entry.2 + f entry.1)

def lookupTable (f : Frequencies) (starts : List (UInt8 × ℕ)) : List UInt8 :=
  starts.foldl (fill f) (List.replicate scale 0)

/-- Each symbol as often as its frequency. -/
def slots (f : Frequencies) (syms : List UInt8) : List UInt8 :=
  syms.flatMap fun symbol => List.replicate (f symbol) symbol

@[simp] theorem slots_cons (f : Frequencies) (symbol : UInt8) (syms : List UInt8) :
    slots f (symbol :: syms) = List.replicate (f symbol) symbol ++ slots f syms := by
  simp [slots]

theorem slots_length (f : Frequencies) (syms : List UInt8) :
    (slots f syms).length = (syms.map f).sum := by
  simp [slots, List.length_flatMap]

/-- The stretches are filled in one after the other. -/
theorem foldl_fill (f : Frequencies) (syms : List UInt8) (filled : List UInt8) {n : ℕ}
    (hn : (syms.map f).sum ≤ n) :
    (cumulativeFrom f filled.length syms).foldl (fill f) (filled ++ List.replicate n 0) =
      filled ++ slots f syms ++ List.replicate (n - (syms.map f).sum) 0 := by
  induction syms generalizing filled n with
  | nil => simp [cumulativeFrom, slots]
  | cons symbol syms ih =>
      rw [List.map_cons, List.sum_cons] at hn
      have hfill : fill f (filled ++ List.replicate n 0) (symbol, filled.length) =
          filled ++ List.replicate (f symbol) symbol ++ List.replicate (n - f symbol) 0 := by
        simp only [fill, List.take_left, List.drop_append, List.drop_replicate]
        simp
      have hlength : filled.length + f symbol =
          (filled ++ List.replicate (f symbol) symbol).length := by simp
      rw [cumulativeFrom, List.foldl_cons, hfill, hlength,
        ih (filled ++ List.replicate (f symbol) symbol) (by omega), slots_cons]
      simp only [List.map_cons, List.sum_cons, List.append_assoc, Nat.sub_sub]

theorem lookupTable_eq {f : Frequencies} (h : total f = scale) :
    lookupTable f (cumulativeFrom f 0 (symbols f)) = slots f (symbols f) := by
  have hfill := foldl_fill f (symbols f) [] (n := scale) (le_of_eq h)
  rw [List.nil_append, List.length_nil, show ((symbols f).map f).sum = scale from h] at hfill
  rw [lookupTable, hfill]
  simp

/-- The stretch of a symbol starts where the table says. -/
structure Stretch (f : Frequencies) (syms : List UInt8) (base : ℕ) (symbol : UInt8) (start : ℕ) :
    Prop where
  lookup : (cumulativeFrom f base syms).lookup symbol = some start
  base_le : base ≤ start
  le_total : start + f symbol ≤ base + (syms.map f).sum
  slot : ∀ i < f symbol, (slots f syms)[start - base + i]? = some symbol

theorem exists_stretch {f : Frequencies} {syms : List UInt8} {symbol : UInt8} (h : symbol ∈ syms)
    (base : ℕ) : ∃ start, Stretch f syms base symbol start := by
  induction syms generalizing base with
  | nil => cases h
  | cons other syms ih =>
      by_cases heq : symbol = other
      · subst heq
        refine ⟨base, by simp [cumulativeFrom], le_rfl, ?_, fun i hi => ?_⟩
        · rw [List.map_cons, List.sum_cons]
          omega
        · rw [Nat.sub_self, Nat.zero_add, slots_cons,
            List.getElem?_append_left (by rwa [List.length_replicate]), List.getElem?_replicate,
            if_pos hi]
      · obtain ⟨start, hs⟩ := ih ((List.mem_cons.mp h).resolve_left heq) (base + f other)
        have hbase := hs.base_le
        refine ⟨start, ?_, by omega, ?_, fun i hi => ?_⟩
        · rw [cumulativeFrom, List.lookup_cons, beq_false_of_ne heq]
          exact hs.lookup
        · have := hs.le_total
          rw [List.map_cons, List.sum_cons]
          omega
        · have hslot := hs.slot i hi
          rw [slots_cons, List.getElem?_append_right (by rw [List.length_replicate]; omega),
            List.length_replicate, ← hslot]
          congr 1
          omega

/-- The symbol of a slot, and the stretch the slot is in. -/
theorem stretch_of_slot {f : Frequencies} {syms : List UInt8} (hnodup : syms.Nodup) {base k : ℕ}
    {symbol : UInt8} (h : (slots f syms)[k]? = some symbol) :
    symbol ∈ syms ∧ ∃ start, Stretch f syms base symbol start ∧ start ≤ base + k ∧
      base + k < start + f symbol := by
  induction syms generalizing base k with
  | nil => simp [slots] at h
  | cons other syms ih =>
      obtain ⟨hother, hnodup⟩ := List.nodup_cons.mp hnodup
      rcases Nat.lt_or_ge k (f other) with hlt | hge
      · rw [slots_cons, List.getElem?_append_left (by rwa [List.length_replicate]),
          List.getElem?_replicate, if_pos hlt] at h
        obtain rfl := Option.some.inj h
        obtain ⟨start, hs⟩ := exists_stretch (f := f) (List.mem_cons_self (a := other) (l := syms)) base
        have hstart : start = base := by
          have hlookup := hs.lookup
          simpa [cumulativeFrom, eq_comm] using hlookup
        subst hstart
        exact ⟨List.mem_cons_self, start, hs, Nat.le_add_right _ _, by omega⟩
      · rw [slots_cons, List.getElem?_append_right (by rwa [List.length_replicate]),
          List.length_replicate] at h
        obtain ⟨hmem, start, hs, hle, hlt⟩ := @ih hnodup (base + f other) _ h
        have hne : symbol ≠ other := fun heq => hother (heq ▸ hmem)
        have hmem' : symbol ∈ other :: syms := List.mem_cons_of_mem _ hmem
        obtain ⟨start', hs'⟩ := exists_stretch (f := f) hmem' base
        have hsame : start' = start := by
          have hlookup := hs'.lookup
          rw [cumulativeFrom, List.lookup_cons, beq_false_of_ne hne] at hlookup
          exact Option.some.inj (hlookup.symm.trans hs.lookup)
        subst hsame
        exact ⟨hmem', start', hs', by omega, by omega⟩

end MosaicArchive.Modes.ByteRansMode
