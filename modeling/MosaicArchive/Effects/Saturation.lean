import Mathlib.Data.Finset.Card
import Mathlib.Order.Bounds.Basic
import Mathlib.Tactic.Common
import MosaicArchive.Effects.Iteration

/-!
Saturation of a set. Items are scanned again and again; an item that is enabled by what was
known before the scan has its key added, and the scans end with one that adds nothing. The
result is the least set that contains the start and is closed under the items.
-/

namespace Saturation

variable {α ι : Type} [DecidableEq α] (key : ι → α) (enabled : Finset α → ι → Prop)
  [∀ known i, Decidable (enabled known i)]

/-- One item of a scan, and whether a key was added so far. -/
def scan (before : Finset α) (state : Finset α × Bool) (i : ι) : Finset α × Bool :=
  if enabled before i ∧ key i ∉ state.1 then (insert (key i) state.1, true) else state

/-- A scan of all items, which is the last one if it adds nothing. -/
def round (items : List ι) (known : Finset α) : Except Unit (Finset α ⊕ Finset α) :=
  let state := items.foldl (scan key enabled known) (known, false)
  .ok (if state.2 then .inl state.1 else .inr state.1)

/-- Each scan but the last adds a key, so one scan more than there are items is enough. -/
def saturate (items : List ι) (start : Finset α) : Except Unit (Finset α) :=
  Iteration.run (round key enabled items) () (items.length + 1) start

variable {key enabled}

theorem scan_fst (before : Finset α) (state : Finset α × Bool) (i : ι) :
    (scan key enabled before state i).1 = if enabled before i then insert (key i) state.1 else state.1 := by
  rw [scan]
  by_cases he : enabled before i
  · by_cases hmem : key i ∈ state.1
    · rw [if_neg (fun h => h.2 hmem), if_pos he, Finset.insert_eq_self.mpr hmem]
    · rw [if_pos ⟨he, hmem⟩, if_pos he]
  · rw [if_neg (fun h => he h.1), if_neg he]

theorem scan_snd (before : Finset α) (state : Finset α × Bool) (i : ι) :
    (scan key enabled before state i).2 = true ↔
      state.2 = true ∨ enabled before i ∧ key i ∉ state.1 := by
  rw [scan]
  split_ifs with h
  · exact iff_of_true rfl (Or.inr h)
  · exact (or_iff_left h).symm

/-- A scan adds the keys of the items that were enabled before it. -/
theorem mem_scan {before : Finset α} {items : List ι} {state : Finset α × Bool} {a : α} :
    a ∈ (items.foldl (scan key enabled before) state).1 ↔
      a ∈ state.1 ∨ ∃ i ∈ items, enabled before i ∧ key i = a := by
  induction items generalizing state with
  | nil => simp
  | cons i items ih =>
      have hfst : a ∈ (scan key enabled before state i).1 ↔
          a ∈ state.1 ∨ enabled before i ∧ key i = a := by
        rw [scan_fst]
        split_ifs with he
        · rw [Finset.mem_insert, eq_comm, or_comm]
          simp only [he, true_and]
        · simp only [he, false_and, or_false]
      rw [List.foldl_cons, ih, hfst, List.exists_mem_cons_iff, or_assoc]

/-- A scan notes whether it added a key. -/
theorem scan_changed {before : Finset α} {items : List ι} {state : Finset α × Bool} :
    (items.foldl (scan key enabled before) state).2 = true ↔
      state.2 = true ∨ ∃ i ∈ items, enabled before i ∧ key i ∉ state.1 := by
  induction items generalizing state with
  | nil => simp
  | cons i items ih =>
      rw [List.foldl_cons, ih, scan_snd, scan_fst, List.exists_mem_cons_iff, or_assoc]
      apply or_congr_right
      by_cases hfirst : enabled before i ∧ key i ∉ state.1
      · exact iff_of_true (Or.inl hfirst) (Or.inl hfirst)
      · have hsame : (if enabled before i then insert (key i) state.1 else state.1) = state.1 := by
          split_ifs with he
          · exact Finset.insert_eq_self.mpr (not_not.mp fun hmem => hfirst ⟨he, hmem⟩)
          · rfl
        rw [hsame]

/-! ### The result -/

/-- A set that contains the start and, with what enables an item, its key. -/
def Closed (premise : ι → α → Prop) (key : ι → α) (items : List ι) (start S : Set α) : Prop :=
  start ⊆ S ∧ ∀ i ∈ items, (∃ a ∈ S, premise i a) → key i ∈ S

variable {premise : ι → α → Prop}

/-- Saturation ends with the least closed set. -/
theorem saturate_least (henabled : ∀ known i, enabled known i ↔ ∃ a ∈ known, premise i a)
    (items : List ι) (start : Finset α) : ∃ result, saturate key enabled items start = .ok result ∧
      IsLeast {S | Closed premise key items ↑start S} (↑result : Set α) := by
  -- what is known contains the start and is contained in every closed set
  let I : Finset α → Prop := fun known => start ⊆ known ∧ ∀ S, Closed premise key items ↑start S → ↑known ⊆ S
  let Q : Finset α → Prop := fun result => IsLeast {S | Closed premise key items ↑start S} (↑result : Set α)
  let missing : Finset α → ℕ := fun known => ((items.map key).toFinset \ known).card
  have hround : ∀ known, I known →
      Iteration.Round I missing Q (fun _ => False) known (round key enabled items known) := by
    rintro known ⟨hstart, hleast⟩
    have hsound : ∀ S, Closed premise key items ↑start S →
        ↑(items.foldl (scan key enabled known) (known, false)).1 ⊆ S := by
      intro S hS a ha
      rcases mem_scan.mp ha with hknown | ⟨i, hi, he, rfl⟩
      · exact hleast S hS hknown
      · obtain ⟨b, hb, hpremise⟩ := (henabled known i).mp he
        exact hS.2 i hi ⟨b, hleast S hS hb, hpremise⟩
    have hgrows : known ⊆ (items.foldl (scan key enabled known) (known, false)).1 := fun a ha =>
      mem_scan.mpr (Or.inl ha)
    rw [round]
    cases hchanged : (items.foldl (scan key enabled known) (known, false)).2 with
    | true =>
        refine ⟨⟨hstart.trans hgrows, hsound⟩, ?_⟩
        obtain ⟨i, hi, he, hnew⟩ := (scan_changed.mp hchanged).resolve_left Bool.false_ne_true
        apply Finset.card_lt_card
        refine ⟨Finset.sdiff_subset_sdiff (Finset.Subset.refl _) hgrows, ?_⟩
        intro hsub
        have hmissing : key i ∈ (items.map key).toFinset \ known := by
          rw [Finset.mem_sdiff, List.mem_toFinset]
          exact ⟨List.mem_map_of_mem hi, hnew⟩
        exact (Finset.mem_sdiff.mp (hsub hmissing)).2 (mem_scan.mpr (Or.inr ⟨i, hi, he, rfl⟩))
    | false =>
        refine ⟨⟨fun a ha => hgrows (hstart ha), ?_⟩, fun S hS => hsound S hS⟩
        rintro i hi ⟨a, ha, hpremise⟩
        have hnone : ¬ ∃ i ∈ items, enabled known i ∧ key i ∉ known := by
          intro h
          have hadds : (items.foldl (scan key enabled known) (known, false)).2 = true :=
            scan_changed.mpr (Or.inr h)
          rw [hchanged] at hadds
          cases hadds
        have hsame : a ∈ known := by
          rcases mem_scan.mp ha with h | ⟨j, hj, he, rfl⟩
          · exact h
          · by_contra hnew
            exact hnone ⟨j, hj, he, hnew⟩
        by_contra hnew
        exact hnone ⟨i, hi, (henabled known i).mpr ⟨a, hsame, hpremise⟩, fun h => hnew (hgrows h)⟩
  have hfuel : missing start < items.length + 1 := by
    have hle : missing start ≤ (items.map key).toFinset.card := Finset.card_le_card Finset.sdiff_subset
    have hlength := List.toFinset_card_le (items.map key)
    rw [List.length_map] at hlength
    omega
  have hout := Iteration.run_outcome () hround ⟨Finset.Subset.refl _, fun S hS => hS.1⟩ hfuel
  cases hrun : saturate key enabled items start with
  | error e =>
      rw [saturate] at hrun
      rw [hrun] at hout
      exact hout.elim
  | ok result =>
      rw [saturate] at hrun
      rw [hrun] at hout
      exact ⟨result, rfl, hout⟩

end Saturation
