import MosaicArchive.Modes.RansTable

/-!
The normalization of the symbol counts as a whole: it ends with a table over the occurring
symbols that sums to the scale, depends on the counts only, and on its way down never takes
a frequency away.
-/

namespace MosaicArchive.Modes.ByteRansMode

open FixedWidth

/-- The states of the reducing loop keep a frequency for each symbol. -/
theorem support_of_visits {data : Bytes} {order : List UInt8} (horder : ∀ s, s ∈ order ↔ s ∈ data)
    (hne : order ≠ []) {s s' : Lowering} (hs : LowerInv data s)
    (h : Iteration.Visits (lowerRound order) s s') : LowerInv data s' := by
  apply Iteration.Visits.invariant _ h hs
  intro s s' hs hnext
  have hround := lowerRound_spec horder hne s hs
  rw [Iteration.Next] at hnext
  rw [hnext] at hround
  exact hround.1

/-- Blocks with the same counts are normalized alike. -/
theorem normalizeCounts_congr {data data' : Bytes} (h : ∀ symbol, data'.count symbol = data.count symbol) :
    normalizeCounts data' = normalizeCounts data := by
  have hcounts : counts data' = counts data := funext h
  have hlength : data'.length = data.length := (List.perm_iff_count.mpr h).length_eq
  have hfloors : floors data' = floors data := by
    ext symbol
    rw [floors, floors, hcounts, hlength]
  have hremainders : remainders data' = remainders data := by
    ext symbol
    rw [remainders, remainders, hcounts, hlength]
  rw [normalizeCounts, normalizeCounts, hcounts, hfloors, hremainders]

theorem cumulative_eq_ok {f : Frequencies} (h : total f = scale) :
    cumulative f = .ok (cumulativeFrom f 0 (symbols f)) :=
  if_neg fun hne => hne h

/-- Normalization ends for every block that is not empty. It gives the occurring symbols, and no
others, a positive frequency, and the frequencies sum to 4096, so the starts are found. The
result depends on the counts only, and every state of the reducing loop has a positive
frequency for each occurring symbol. -/
theorem normalize_counts_total {data : Bytes} (hdata : data ≠ []) :
    (∃ f, normalizeCounts data = .ok f ∧ (∀ symbol, 1 ≤ f symbol ↔ symbol ∈ data) ∧ total f = 4096 ∧
      cumulative f = .ok (cumulativeFrom f 0 (symbols f))) ∧
    (∀ data', (∀ symbol, data'.count symbol = data.count symbol) →
      normalizeCounts data' = normalizeCounts data) ∧
    (scale < total (floors data) → ∀ s,
      Iteration.Visits (lowerRound (orderBy (floors data) (counts data)))
        ⟨floors data, total (floors data) - scale, 0⟩ s →
      ∀ symbol ∈ data, 1 ≤ s.frequencies symbol) := by
  refine ⟨?_, fun data' => normalizeCounts_congr, ?_⟩
  · obtain ⟨f, hf, hnormalized⟩ := normalizeCounts_spec hdata
    refine ⟨f, hf, ?_, hnormalized.total_eq, cumulative_eq_ok hnormalized.total_eq⟩
    intro symbol
    rw [Nat.one_le_iff_ne_zero]
    exact hnormalized.support symbol
  · intro hmore s hvisits symbol hmem
    have horder : ∀ symbol, symbol ∈ orderBy (floors data) (counts data) ↔ symbol ∈ data := fun _ =>
      mem_orderBy.trans counts_ne_zero
    have hstart : LowerInv data ⟨floors data, total (floors data) - scale, 0⟩ := by
      refine ⟨fun _ => floors_ne_zero, ?_⟩
      show total (floors data) = scale + (total (floors data) - scale)
      omega
    have hinv := support_of_visits horder (List.ne_nil_of_mem ((horder symbol).mpr hmem)) hstart hvisits
    exact Nat.one_le_iff_ne_zero.mpr ((hinv.support symbol).mpr hmem)

theorem normalize_counts_total_one_byte :
    ∃ f, normalizeCounts [7] = .ok f ∧ (∀ symbol, 1 ≤ f symbol ↔ symbol ∈ ([7] : Bytes)) ∧
      total f = 4096 ∧ cumulative f = .ok (cumulativeFrom f 0 (symbols f)) :=
  (@normalize_counts_total [7] (List.cons_ne_nil _ _)).1

end MosaicArchive.Modes.ByteRansMode
