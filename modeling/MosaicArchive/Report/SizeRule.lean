import MosaicArchive.Numbers.OrderStatistic
import MosaicArchive.Report.Contract

/-!
The size rule of the Competitive Contract v1 as a whole: the verdict says exactly what the
rule says, does not depend on any order, and can only improve when the candidate shrinks and
the comparators grow, also across the switch between the two rules.
-/

namespace MosaicArchive.Report

open Utf8 (Text)
open Except (raiseIf)

/-! ### Two tables of sizes -/

/-- Two tables with the same keys, whose values are related. -/
structure Corresponds (rel : Value → Value → Prop) (m m' : Mapping) : Prop where
  keys : m.keys.toFinset = m'.keys.toFinset
  values : ∀ k ∈ m.keys, rel (m.get k) (m'.get k)

/-- Integers, the second of which is no smaller. -/
def IntLe (a b : Value) : Prop := ∃ x y : ℤ, a = .int x ∧ b = .int y ∧ x ≤ y

/-- Lists of integers, each of which is no smaller in the second. -/
def ListIntLe (a b : Value) : Prop :=
  ∃ xs ys, a = .list xs ∧ b = .list ys ∧ List.Forall₂ IntLe xs ys

/-- Lists with the same items. -/
def Reordered (a b : Value) : Prop := ∃ xs ys, a = .list xs ∧ b = .list ys ∧ xs.Perm ys

theorem Corresponds.mem_keys {rel : Value → Value → Prop} {m m' : Mapping} (h : Corresponds rel m m')
    {k : Text} : k ∈ m.keys ↔ k ∈ m'.keys := by
  rw [← List.mem_toFinset, h.keys, List.mem_toFinset]

theorem Corresponds.keys_perm {rel : Value → Value → Prop} {m m' : Mapping} (h : Corresponds rel m m') :
    m.keys.Perm m'.keys :=
  List.perm_of_nodup_nodup_toFinset_eq m.keys_nodup m'.keys_nodup h.keys

section

variable {isSpace : Char → Bool} {size : Value → String → Except ReportError ℕ} {context : String}

theorem sizeOf_eq_ok {item : Text × Value} {s : Text × ℕ} : sizeOf isSpace size context item = .ok s ↔
    ¬ item.1.all isSpace = true ∧ s.1 = item.1 ∧
      size item.2 (context ++ "." ++ String.ofList item.1) = .ok s.2 := by
  simp only [sizeOf, Except.bind_eq_ok_iff, Except.raiseIf_eq_ok, Except.ok.injEq, exists_const]
  apply and_congr_right
  intro _
  constructor
  · rintro ⟨n, hn, rfl⟩
    exact ⟨rfl, hn⟩
  · rintro ⟨hname, hn⟩
    exact ⟨s.2, hn, Prod.ext hname.symm rfl⟩

theorem sizeMapping_eq_ok {m : Mapping} {sizes : List (Text × ℕ)} :
    sizeMapping isSpace size (.dict m) context = .ok sizes ↔ m.keys ≠ [] ∧
      List.Forall₂ (fun item s => sizeOf isSpace size context item = .ok s) m.items sizes := by
  simp only [sizeMapping, Except.bind_eq_ok_iff, Except.raiseIf_eq_ok, exists_const, forAll_eq_ok, ne_eq]

/-- Every entry of the table has its size. -/
theorem exists_size {m : Mapping} {sizes : List (Text × ℕ)}
    (h : sizeMapping isSpace size (.dict m) context = .ok sizes) {k : Text} (hk : k ∈ m.keys) :
    ∃ n, (k, n) ∈ sizes ∧ size (m.get k) (context ++ "." ++ String.ofList k) = .ok n := by
  obtain ⟨⟨name, n⟩, hs, hsize⟩ := exists_of_forall₂_left (sizeMapping_eq_ok.mp h).2
    (show (k, m.get k) ∈ m.items from List.mem_map_of_mem hk)
  obtain ⟨-, rfl, hn⟩ := sizeOf_eq_ok.mp hsize
  exact ⟨n, hs, hn⟩

/-- Every size is that of an entry of the table. -/
theorem entry_of_size {m : Mapping} {sizes : List (Text × ℕ)}
    (h : sizeMapping isSpace size (.dict m) context = .ok sizes) {s : Text × ℕ} (hs : s ∈ sizes) :
    s.1 ∈ m.keys ∧ size (m.get s.1) (context ++ "." ++ String.ofList s.1) = .ok s.2 := by
  obtain ⟨item, hitem, hsize⟩ := exists_of_forall₂_right (sizeMapping_eq_ok.mp h).2 hs
  obtain ⟨k, hk, rfl⟩ := List.mem_map.mp hitem
  obtain ⟨-, hname, hn⟩ := sizeOf_eq_ok.mp hsize
  rw [hname]
  exact ⟨hk, hn⟩

/-- A table that corresponds has the same sizes, in some order. -/
theorem sizeMapping_reorder {rel : Value → Value → Prop} {m m' : Mapping} {sizes : List (Text × ℕ)}
    (hrel : ∀ a b c n, rel a b → size a c = .ok n → size b c = .ok n) (hm : Corresponds rel m m')
    (h : sizeMapping isSpace size (.dict m) context = .ok sizes) :
    ∃ sizes', sizeMapping isSpace size (.dict m') context = .ok sizes' ∧ sizes'.Perm sizes := by
  obtain ⟨hne, hitems⟩ := sizeMapping_eq_ok.mp h
  have hsame : List.Forall₂ (fun item s => sizeOf isSpace size context item = .ok s)
      (m.keys.map fun k => (k, m'.get k)) sizes := by
    rw [Mapping.items, List.forall₂_map_left_iff] at hitems
    rw [List.forall₂_map_left_iff]
    have hkeys := (List.forall₂_and_left (p := fun k => k ∈ m.keys) m.keys sizes).mpr
      ⟨fun _ hk => hk, hitems⟩
    apply hkeys.imp
    rintro k s ⟨hk, hsize⟩
    obtain ⟨hspace, hname, hn⟩ := sizeOf_eq_ok.mp hsize
    exact sizeOf_eq_ok.mpr ⟨hspace, hname, hrel _ _ _ _ (hm.values k hk) hn⟩
  have hperm : m'.items.Perm (m.keys.map fun k => (k, m'.get k)) := (hm.keys_perm.symm.map _)
  obtain ⟨sizes', hsizes', hperm'⟩ := List.perm_comp_forall₂ hperm hsame
  refine ⟨sizes', sizeMapping_eq_ok.mpr ⟨?_, hsizes'⟩, hperm'⟩
  intro hnil
  have hempty := hm.keys_perm
  rw [hnil] at hempty
  exact hne hempty.eq_nil

end

/-! ### Medians -/

theorem medianSize_eq_ok {value : Value} {context : String} {n : ℕ} :
    medianSize value context = .ok n ↔ ∃ items sizes, value = .list items ∧ items.length = measuredRuns ∧
      List.Forall₂ (fun item s => requirePositiveInteger item context = .ok s) items sizes ∧
      n = (sizes.mergeSort (· ≤ ·)).getD (measuredRuns / 2) 0 := by
  cases value with
  | list items =>
      simp only [medianSize, Except.bind_eq_ok_iff, Except.raiseIf_eq_ok, not_not, forAll_eq_ok,
        Except.ok.injEq, exists_const, Value.list.injEq]
      constructor
      · rintro ⟨hlength, sizes, hsizes, rfl⟩
        exact ⟨items, sizes, rfl, hlength, hsizes, rfl⟩
      · rintro ⟨_, sizes, rfl, hlength, hsizes, rfl⟩
        exact ⟨hlength, sizes, hsizes, rfl⟩
  | _ => simp [medianSize]

/-- The median does not depend on the order of the sizes. -/
theorem medianSize_reordered {a b : Value} {context : String} {n : ℕ} (h : Reordered a b)
    (ha : medianSize a context = .ok n) : medianSize b context = .ok n := by
  obtain ⟨xs, ys, rfl, rfl, hperm⟩ := h
  obtain ⟨items, sizes, hitems, hlength, hsizes, rfl⟩ := medianSize_eq_ok.mp ha
  obtain rfl := Value.list.inj hitems
  obtain ⟨sizes', hsizes', hperm'⟩ := List.perm_comp_forall₂ hperm.symm hsizes
  refine medianSize_eq_ok.mpr ⟨ys, sizes', rfl, hperm.length_eq.symm.trans hlength, hsizes', ?_⟩
  rw [OrderStatistic.mergeSort_congr hperm']

theorem positiveSize_le {a b : Value} {context context' : String} {n n' : ℕ} (h : IntLe a b)
    (ha : requirePositiveInteger a context = .ok n) (hb : requirePositiveInteger b context' = .ok n') :
    n ≤ n' := by
  obtain ⟨x, y, rfl, rfl, hle⟩ := h
  obtain ⟨-, hx⟩ := requirePositiveInteger_eq_ok.mp ha
  obtain ⟨-, hy⟩ := requirePositiveInteger_eq_ok.mp hb
  rw [Value.int.inj hx, Value.int.inj hy] at hle
  exact Int.ofNat_le.mp hle

theorem forall₂_sizes_le {xs ys : List Value} {context context' : String} {sizes sizes' : List ℕ}
    (h : List.Forall₂ IntLe xs ys)
    (hx : List.Forall₂ (fun item s => requirePositiveInteger item context = .ok s) xs sizes)
    (hy : List.Forall₂ (fun item s => requirePositiveInteger item context' = .ok s) ys sizes') :
    List.Forall₂ (· ≤ ·) sizes sizes' := by
  induction h generalizing sizes sizes' with
  | nil =>
      cases hx
      cases hy
      exact .nil
  | cons hxy _ ih =>
      cases hx with
      | cons hfirst hrest =>
          cases hy with
          | cons hfirst' hrest' => exact .cons (positiveSize_le hxy hfirst hfirst') (ih hrest hrest')

/-- The median grows with the sizes. -/
theorem medianSize_le {a b : Value} {context context' : String} {n n' : ℕ} (h : ListIntLe a b)
    (ha : medianSize a context = .ok n) (hb : medianSize b context' = .ok n') : n ≤ n' := by
  obtain ⟨xs, ys, rfl, rfl, hle⟩ := h
  obtain ⟨_, sizes, hx, hlength, hsizes, rfl⟩ := medianSize_eq_ok.mp ha
  obtain ⟨_, sizes', hy, -, hsizes', rfl⟩ := medianSize_eq_ok.mp hb
  obtain rfl := Value.list.inj hx
  obtain rfl := Value.list.inj hy
  apply OrderStatistic.mergeSort_getD_le (forall₂_sizes_le hle hsizes hsizes')
  rw [← hsizes.length_eq, hlength]
  decide

/-! ### Smallest sizes -/

theorem smallestSize_eq_ok {sizes : List (Text × ℕ)} {least : Text × ℕ} (h : smallestSize sizes = .ok least) :
    least ∈ sizes ∧ ∀ s ∈ sizes, least.2 ≤ s.2 := by
  rw [smallestSize] at h
  cases hmin : (sizes.map fun s => toLex (s.2, s.1)).min? with
  | none =>
      rw [hmin] at h
      cases h
  | some found =>
      rw [hmin] at h
      obtain rfl := Except.ok.inj h
      obtain ⟨hmem, hle⟩ := List.min?_eq_some_iff.mp hmin
      obtain ⟨s, hs, rfl⟩ := List.mem_map.mp hmem
      refine ⟨hs, ?_⟩
      intro t ht
      have hst := hle _ (List.mem_map_of_mem ht)
      rcases Prod.Lex.toLex_le_toLex.mp hst with hlt | ⟨heq, -⟩
      · exact hlt.le
      · exact heq.le

/-- The smallest of sizes that grow grows. -/
theorem smallestSize_le {sizes sizes' : List (Text × ℕ)} {least least' : Text × ℕ}
    (h : smallestSize sizes = .ok least) (h' : smallestSize sizes' = .ok least')
    (hgrow : ∀ s' ∈ sizes', ∃ s ∈ sizes, s.2 ≤ s'.2) : least.2 ≤ least'.2 := by
  obtain ⟨s, hs, hle⟩ := hgrow least' (smallestSize_eq_ok h').1
  exact ((smallestSize_eq_ok h).2 s hs).trans hle

/-- The sizes of a table that corresponds, where the values do not shrink. -/
theorem sizes_grow {isSpace : Char → Bool} {size : Value → String → Except ReportError ℕ}
    {context : String} {rel : Value → Value → Prop} {m m' : Mapping} {sizes sizes' : List (Text × ℕ)}
    (hrel : ∀ a b c n n', rel a b → size a c = .ok n → size b c = .ok n' → n ≤ n')
    (hm : Corresponds rel m m') (h : sizeMapping isSpace size (.dict m) context = .ok sizes)
    (h' : sizeMapping isSpace size (.dict m') context = .ok sizes') :
    ∀ s' ∈ sizes', ∃ s ∈ sizes, s.2 ≤ s'.2 := by
  intro s' hs'
  obtain ⟨hk', hn'⟩ := entry_of_size h' hs'
  have hk := hm.mem_keys.mpr hk'
  obtain ⟨n, hs, hn⟩ := exists_size h hk
  exact ⟨_, hs, hrel _ _ _ _ _ (hm.values _ hk) hn hn'⟩

/-! ### The rule -/

/-- The steps of an evaluation. -/
structure Evaluated (isSpace : Char → Bool) (inputBytes candidateSize : ℕ) (candidate : Value)
    (raw encrypted : Mapping) (rawSizes encryptedSizes : List (Text × ℕ))
    (bestRaw least smallest : Text × ℕ) : Prop where
  input : 0 < inputBytes
  candidate : requirePositiveInteger candidate "candidate_archive_bytes" = .ok candidateSize
  raw : sizeMapping isSpace positiveSize (.dict raw) "raw_comparator_archive_bytes" = .ok rawSizes
  encrypted : sizeMapping isSpace medianSize (.dict encrypted) "encrypted_comparator_archive_bytes" =
    .ok encryptedSizes
  disjoint : (rawSizes.map Prod.fst).filter (· ∈ encryptedSizes.map Prod.fst) = []
  bestRaw : smallestSize rawSizes = .ok bestRaw
  least : smallestSize encryptedSizes = .ok least
  smallest : smallestSize (rawSizes ++ encryptedSizes) = .ok smallest

theorem evaluateSizeCase_eq_ok {isSpace : Char → Bool} {inputBytes : ℕ} {candidate : Value}
    {raw encrypted : Mapping} {v : SizeVerdict} :
    evaluateSizeCase isSpace inputBytes candidate (.dict raw) (.dict encrypted) = .ok v ↔
      ∃ candidateSize rawSizes encryptedSizes bestRaw least smallest,
        Evaluated isSpace inputBytes candidateSize candidate raw encrypted rawSizes encryptedSizes
          bestRaw least smallest ∧ v = sizeVerdict inputBytes candidateSize bestRaw least smallest := by
  simp only [evaluateSizeCase, Except.bind_eq_ok_iff, Except.raiseIf_eq_ok, not_not, Except.ok.injEq,
    @requirePositiveInteger_eq_ok (.int inputBytes), Value.int.injEq, Int.ofNat_inj, exists_const]
  constructor
  · rintro ⟨_, ⟨hinput, rfl⟩, candidateSize, hcandidate, rawSizes, hraw, encryptedSizes, hencrypted,
      hdisjoint, bestRaw, hbest, least, hleast, smallest, hsmallest, rfl⟩
    exact ⟨candidateSize, rawSizes, encryptedSizes, bestRaw, least, smallest,
      ⟨hinput, hcandidate, hraw, hencrypted, hdisjoint, hbest, hleast, hsmallest⟩, rfl⟩
  · rintro ⟨candidateSize, rawSizes, encryptedSizes, bestRaw, least, smallest, h, rfl⟩
    exact ⟨inputBytes, ⟨h.input, rfl⟩, candidateSize, h.candidate, rawSizes, h.raw, encryptedSizes,
      h.encrypted, h.disjoint, bestRaw, h.bestRaw, least, h.least, smallest, h.smallest, rfl⟩

/-- Reordered tables and samples are evaluated alike. -/
theorem evaluateSizeCase_reordered {isSpace : Char → Bool} {inputBytes : ℕ} {candidate : Value}
    {raw raw' encrypted encrypted' : Mapping} {v : SizeVerdict}
    (h : evaluateSizeCase isSpace inputBytes candidate (.dict raw) (.dict encrypted) = .ok v)
    (hraw : Corresponds Eq raw raw') (henc : Corresponds Reordered encrypted encrypted') :
    evaluateSizeCase isSpace inputBytes candidate (.dict raw') (.dict encrypted') = .ok v := by
  obtain ⟨candidateSize, rawSizes, encryptedSizes, bestRaw, least, smallest, he, rfl⟩ :=
    evaluateSizeCase_eq_ok.mp h
  obtain ⟨rawSizes', hraw', hrawPerm⟩ := sizeMapping_reorder (fun _ _ _ _ heq hn => heq ▸ hn) hraw he.raw
  have hmedian : ∀ a b c n, Reordered a b → medianSize a c = .ok n → medianSize b c = .ok n :=
    fun _ _ _ _ => medianSize_reordered
  obtain ⟨encryptedSizes', henc', hencPerm⟩ := sizeMapping_reorder hmedian henc he.encrypted
  refine evaluateSizeCase_eq_ok.mpr ⟨candidateSize, rawSizes', encryptedSizes', bestRaw, least, smallest,
    ⟨he.input, he.candidate, hraw', henc', ?_, ?_, ?_, ?_⟩, rfl⟩
  · have hdisjoint := he.disjoint
    rw [List.filter_eq_nil_iff] at hdisjoint ⊢
    intro k hk hmem
    apply hdisjoint k ((hrawPerm.map _).mem_iff.mp hk)
    exact decide_eq_true ((hencPerm.map _).mem_iff.mp (of_decide_eq_true hmem))
  · rw [smallestSize_perm hrawPerm, he.bestRaw]
  · rw [smallestSize_perm hencPerm, he.least]
  · rw [smallestSize_perm (hrawPerm.append hencPerm), he.smallest]

/-- The verdict improves with a smaller candidate and larger smallest sizes. -/
theorem sizeVerdict_mono {inputBytes candidateSize candidateSize' : ℕ}
    {bestRaw bestRaw' least least' smallest smallest' : Text × ℕ} (hcandidate : candidateSize' ≤ candidateSize)
    (hraw : bestRaw.2 ≤ bestRaw'.2) (hleast : least.2 ≤ least'.2) (hsmallest : smallest.2 ≤ smallest'.2)
    (hsmallestRaw : smallest.2 ≤ bestRaw.2) (hsmallestLeast : smallest.2 ≤ least.2)
    (h : (sizeVerdict inputBytes candidateSize bestRaw least smallest).passed = true) :
    (sizeVerdict inputBytes candidateSize' bestRaw' least' smallest').passed = true := by
  simp only [sizeVerdict, decide_eq_true_eq] at h ⊢
  by_cases hincompressible : inputBytes * 99 < bestRaw.2 * 100
  · have hincompressible' : inputBytes * 99 < bestRaw'.2 * 100 := by omega
    rw [if_pos hincompressible, decide_eq_true_eq] at h
    rw [if_pos hincompressible', decide_eq_true_eq]
    omega
  · rw [if_neg hincompressible, decide_eq_true_eq] at h
    by_cases hincompressible' : inputBytes * 99 < bestRaw'.2 * 100
    · -- the candidate is below the raw comparator, which is below 99% of the input
      rw [if_pos hincompressible', decide_eq_true_eq]
      omega
    · rw [if_neg hincompressible', decide_eq_true_eq]
      omega

theorem evaluateSizeCase_mono {isSpace : Char → Bool} {inputBytes : ℕ} {candidate candidate' : Value}
    {raw raw' encrypted encrypted' : Mapping} {v v' : SizeVerdict}
    (h : evaluateSizeCase isSpace inputBytes candidate (.dict raw) (.dict encrypted) = .ok v)
    (h' : evaluateSizeCase isSpace inputBytes candidate' (.dict raw') (.dict encrypted') = .ok v')
    (hcandidate : IntLe candidate' candidate) (hraw : Corresponds IntLe raw raw')
    (henc : Corresponds ListIntLe encrypted encrypted') (hpassed : v.passed = true) :
    v'.passed = true := by
  obtain ⟨candidateSize, rawSizes, encryptedSizes, bestRaw, least, smallest, he, rfl⟩ :=
    evaluateSizeCase_eq_ok.mp h
  obtain ⟨candidateSize', rawSizes', encryptedSizes', bestRaw', least', smallest', he', rfl⟩ :=
    evaluateSizeCase_eq_ok.mp h'
  have hpositive : ∀ a b c n n', IntLe a b → positiveSize a c = .ok n → positiveSize b c = .ok n' →
      n ≤ n' := fun _ _ _ _ _ => positiveSize_le
  have hmedian : ∀ a b c n n', ListIntLe a b → medianSize a c = .ok n → medianSize b c = .ok n' →
      n ≤ n' := fun _ _ _ _ _ => medianSize_le
  have hrawGrow := sizes_grow hpositive hraw he.raw he'.raw
  have hencGrow := sizes_grow hmedian henc he.encrypted he'.encrypted
  have hallGrow : ∀ s' ∈ rawSizes' ++ encryptedSizes', ∃ s ∈ rawSizes ++ encryptedSizes, s.2 ≤ s'.2 := by
    intro s' hs'
    rcases List.mem_append.mp hs' with hs' | hs'
    · obtain ⟨s, hs, hle⟩ := hrawGrow s' hs'
      exact ⟨s, List.mem_append_left _ hs, hle⟩
    · obtain ⟨s, hs, hle⟩ := hencGrow s' hs'
      exact ⟨s, List.mem_append_right _ hs, hle⟩
  have hsmallest := (smallestSize_eq_ok he.smallest).2
  exact sizeVerdict_mono (positiveSize_le hcandidate he'.candidate he.candidate)
    (smallestSize_le he.bestRaw he'.bestRaw hrawGrow) (smallestSize_le he.least he'.least hencGrow)
    (smallestSize_le he.smallest he'.smallest hallGrow)
    (hsmallest _ (List.mem_append_left _ (smallestSize_eq_ok he.bestRaw).1))
    (hsmallest _ (List.mem_append_right _ (smallestSize_eq_ok he.least).1)) hpassed

/-- The verdict is passed exactly below the selected limit, or at it where it is inclusive. -/
theorem sizeVerdict_passed {inputBytes candidateSize : ℕ} {bestRaw least smallest : Text × ℕ}
    {v : SizeVerdict} (hv : v = sizeVerdict inputBytes candidateSize bestRaw least smallest) :
    v.passed = true ↔ v.candidateArchiveBytes < v.selectedLimitBytes ∨
      v.selectedLimitInclusive = true ∧ v.candidateArchiveBytes = v.selectedLimitBytes := by
  subst hv
  simp only [sizeVerdict, decide_eq_true_eq]
  by_cases hincompressible : inputBytes * 99 < bestRaw.2 * 100
  · simp only [hincompressible, if_true, decide_eq_true_eq, true_and]
    split_ifs <;> omega
  · simp only [hincompressible, if_false, decide_eq_true_eq, false_and, or_false]

/-- One raw and one encrypted comparator, with the same size in all runs. -/
def oneComparatorEach : Mapping × Mapping :=
  ([("a".toList, .int 50)], [("b".toList, .list (List.replicate 11 (.int 60)))])

theorem medianSize_replicate (context : String) :
    medianSize (.list (List.replicate 11 (.int 60))) context = .ok 60 := by
  refine medianSize_eq_ok.mpr ⟨_, List.replicate 11 60, rfl, rfl, ?_, ?_⟩
  · rw [← forAll_eq_ok]
    rfl
  · have hsorted : (List.replicate 11 60).mergeSort (· ≤ ·) = List.replicate 11 60 :=
      List.mergeSort_of_pairwise (by decide)
    rw [hsorted]
    rfl

theorem evaluate_oneComparatorEach :
    evaluateSizeCase (· = ' ') 100 (.int 40) (.dict oneComparatorEach.1) (.dict oneComparatorEach.2) =
      .ok (sizeVerdict 100 40 ("a".toList, 50) ("b".toList, 60) ("a".toList, 50)) := by
  refine evaluateSizeCase_eq_ok.mpr ⟨40, [("a".toList, 50)], [("b".toList, 60)], ("a".toList, 50),
    ("b".toList, 60), ("a".toList, 50), ⟨by decide, rfl, rfl, ?_, by decide, rfl, rfl, by decide⟩, rfl⟩
  refine sizeMapping_eq_ok.mpr ⟨by decide, .cons ?_ .nil⟩
  exact sizeOf_eq_ok.mpr ⟨by decide, rfl, medianSize_replicate _⟩

end MosaicArchive.Report
