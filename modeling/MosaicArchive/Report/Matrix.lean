import MosaicArchive.Report.Competitive
import Mathlib.Data.List.Perm.Basic
import Mathlib.Data.Finset.Dedup

/-!
The pass over the cases of a report. The three dictionaries hold what the cases
before said, so the pass succeeds exactly when the cases are compatible pairwise,
and this does not depend on their order. Read out in canonical order, the cases
are a permutation of the ones entered.
-/

namespace MosaicArchive.Report

open Utf8 (Text encode)
open Except (raiseIf)

/-! ### Dictionaries filled in a pass -/

section

variable {κ α β : Type} [DecidableEq κ] {key : α → κ} {value : α → β}

/-- The table maps the key of everything seen to its value, and nothing else. -/
def Holds (table : List (κ × β)) (key : α → κ) (value : α → β) (seen : List α) : Prop :=
  ∀ k v, find table k = some v ↔ ∃ a ∈ seen, key a = k ∧ value a = v

theorem find_cons (k k' : κ) (v : β) (table : List (κ × β)) :
    find ((k, v) :: table) k' = if k = k' then some v else find table k' := by
  unfold find
  rw [List.find?_cons]
  by_cases h : k = k'
  · simp [h]
  · simp [h]

theorem find_isSome_iff {table : List (κ × β)} {k : κ} :
    (find table k).isSome = true ↔ k ∈ table.map Prod.fst := by
  simp [find, List.find?_isSome]

theorem holds_nil : Holds ([] : List (κ × β)) key value [] := by
  intro k v
  simp [find]

/-- A key that was not there. -/
theorem Holds.insert {table : List (κ × β)} {seen : List α} (h : Holds table key value seen) (a : α)
    (hnew : ∀ s ∈ seen, key s ≠ key a) :
    Holds ((key a, value a) :: table) key value (a :: seen) := by
  intro k v
  rw [find_cons]
  split_ifs with hk
  · subst hk
    simp only [Option.some.injEq, List.mem_cons, exists_eq_or_imp, true_and]
    constructor
    · exact Or.inl
    · rintro (hv | ⟨s, hs, hkey, -⟩)
      · exact hv
      · exact absurd hkey (hnew s hs)
  · rw [h k v]
    simp [hk]

theorem Holds.defaulted_eq_iff {table : List (κ × β)} {seen : List α}
    (h : Holds table key value seen) (a : α) :
    defaulted table (key a) (value a) = value a ↔ ∀ s ∈ seen, key s = key a → value s = value a := by
  unfold defaulted
  cases hfind : find table (key a) with
  | none =>
      simp only [Option.getD_none, true_iff]
      intro s hs hkey
      have hsome := (h (key a) (value s)).mpr ⟨s, hs, hkey, rfl⟩
      rw [hfind] at hsome
      cases hsome
  | some v =>
      obtain ⟨s, hs, hkey, hvalue⟩ := (h _ _).mp hfind
      simp only [Option.getD_some]
      constructor
      · rintro rfl s' hs' hkey'
        have hsome := (h (key a) (value s')).mpr ⟨s', hs', hkey', rfl⟩
        rw [hfind] at hsome
        exact (Option.some.inj hsome).symm
      · intro hall
        rw [← hvalue]
        exact hall s hs hkey

/-- A key that may have been there, with the same value. -/
theorem Holds.withDefault {table : List (κ × β)} {seen : List α} (h : Holds table key value seen)
    (a : α) (hsame : ∀ s ∈ seen, key s = key a → value s = value a) :
    Holds (withDefault table (key a) (value a)) key value (a :: seen) := by
  unfold Report.withDefault
  cases hfind : find table (key a) with
  | none =>
      refine h.insert a ?_
      intro s hs hkey
      have hsome := (h (key a) (value s)).mpr ⟨s, hs, hkey, rfl⟩
      rw [hfind] at hsome
      cases hsome
  | some v =>
      obtain ⟨s, hs, hkey, hvalue⟩ := (h _ _).mp hfind
      intro k w
      rw [h k w]
      simp only [List.mem_cons, exists_eq_or_imp]
      constructor
      · exact Or.inr
      · rintro (⟨rfl, rfl⟩ | hmem)
        · exact ⟨s, hs, hkey, hsame s hs hkey⟩
        · exact hmem

end

/-! ### The tables of the matrix -/

/-- Two cases of one report: at different coordinates, with the same size records in one tier and the
same prepared input in one corpus. -/
structure Compatible (c d : PreflightCase) : Prop where
  coordinate : c.coordinate ≠ d.coordinate
  sizes : c.tier = d.tier → c.sizeFingerprint = d.sizeFingerprint
  input : c.identity.corpusId = d.identity.corpusId → c.corpusInput = d.corpusInput

instance : Std.Symm Compatible where
  symm _ _ h :=
    ⟨h.coordinate.symm, fun ht => (h.sizes ht.symm).symm, fun hc => (h.input hc.symm).symm⟩

theorem pairwise_compatible_of_perm {cs ds : List PreflightCase} (hperm : cs.Perm ds)
    (h : cs.Pairwise Compatible) : ds.Pairwise Compatible := hperm.pairwise h (Std.Symm.symm _ _)

structure MatrixTables.Represents (t : MatrixTables) (seen : List PreflightCase) : Prop where
  byCoordinate : Holds t.byCoordinate PreflightCase.coordinate id seen
  sizeByTier : Holds t.sizeByTier PreflightCase.tier PreflightCase.sizeFingerprint seen
  inputByCorpus :
    Holds t.inputByCorpus (fun c => c.identity.corpusId) PreflightCase.corpusInput seen

namespace MatrixTables

variable {t t' : MatrixTables} {seen : List PreflightCase} {c : PreflightCase}

theorem represents_empty : Represents {} [] := ⟨holds_nil, holds_nil, holds_nil⟩

theorem Represents.mem_coordinates (h : t.Represents seen) (k : Coordinate) :
    k ∈ t.byCoordinate.map Prod.fst ↔ k ∈ seen.map PreflightCase.coordinate := by
  rw [← find_isSome_iff, Option.isSome_iff_exists, List.mem_map]
  constructor
  · rintro ⟨c, hc⟩
    obtain ⟨s, hs, hkey, -⟩ := (h.byCoordinate k c).mp hc
    exact ⟨s, hs, hkey⟩
  · rintro ⟨s, hs, hkey⟩
    exact ⟨s, (h.byCoordinate k s).mpr ⟨s, hs, hkey, rfl⟩⟩

/-- One round succeeds exactly for a case that is compatible with all before. -/
theorem enter_eq_ok (h : t.Represents seen) :
    (∃ t', t.enter c = .ok t') ↔ ∀ s ∈ seen, Compatible s c := by
  have hcoordinate : (find t.byCoordinate c.coordinate).isSome = true ↔
      c.coordinate ∈ seen.map PreflightCase.coordinate := by
    rw [find_isSome_iff]
    exact h.mem_coordinates c.coordinate
  simp only [enter, Except.bind_eq_ok_iff, Except.raiseIf_eq_ok, hcoordinate, not_not,
    h.sizeByTier.defaulted_eq_iff c, h.inputByCorpus.defaulted_eq_iff c]
  constructor
  · rintro ⟨-, -, hnew, -, hsizes, -, hinput, -⟩ s hs
    refine ⟨?_, hsizes s hs, hinput s hs⟩
    intro heq
    exact hnew (List.mem_map.mpr ⟨s, hs, heq⟩)
  · intro hall
    refine ⟨_, (), ?_, (), fun s hs => (hall s hs).sizes, (), fun s hs => (hall s hs).input, rfl⟩
    rw [List.mem_map]
    rintro ⟨s, hs, heq⟩
    exact (hall s hs).coordinate heq

theorem Represents.enter (h : t.Represents seen) (hok : t.enter c = .ok t') :
    t'.Represents (c :: seen) := by
  have hall := (enter_eq_ok h).mp ⟨t', hok⟩
  simp only [MatrixTables.enter, Except.bind_eq_ok_iff, Except.ok.injEq] at hok
  obtain ⟨-, -, -, -, -, -, rfl⟩ := hok
  refine ⟨h.byCoordinate.insert c ?_, h.sizeByTier.withDefault c ?_,
    h.inputByCorpus.withDefault c ?_⟩
  · intro s hs
    exact (hall s hs).coordinate
  · intro s hs
    exact (hall s hs).sizes
  · intro s hs
    exact (hall s hs).input

/-- The whole pass succeeds exactly when all cases are compatible pairwise. -/
theorem enterAll_eq_ok {cs : List PreflightCase} (h : t.Represents seen) :
    (∃ t', t.enterAll cs = .ok t') ↔
      (∀ c ∈ cs, ∀ s ∈ seen, Compatible s c) ∧ cs.Pairwise Compatible := by
  induction cs generalizing t seen with
  | nil => simp [enterAll]
  | cons c cs ih =>
      simp only [enterAll, Except.bind_eq_ok_iff, List.forall_mem_cons, List.pairwise_cons]
      constructor
      · rintro ⟨last, t', hfirst, hrest⟩
        obtain ⟨hbefore, hpairwise⟩ := (ih (h.enter hfirst)).mp ⟨last, hrest⟩
        refine ⟨⟨(enter_eq_ok h).mp ⟨t', hfirst⟩, ?_⟩, ?_, hpairwise⟩
        · intro d hd s hs
          exact hbefore d hd s (List.mem_cons_of_mem _ hs)
        · intro d hd
          exact hbefore d hd c List.mem_cons_self
      · rintro ⟨⟨hfirst, hbefore⟩, hthis, hpairwise⟩
        obtain ⟨t', ht'⟩ := (enter_eq_ok h).mpr hfirst
        have hrest : ∀ d ∈ cs, ∀ s ∈ c :: seen, Compatible s d := by
          intro d hd
          rw [List.forall_mem_cons]
          exact ⟨hthis d hd, hbefore d hd⟩
        obtain ⟨last, hlast⟩ := (ih (h.enter ht')).mpr ⟨hrest, hpairwise⟩
        exact ⟨last, t', ht', hlast⟩

theorem Represents.enterAll {cs : List PreflightCase} (h : t.Represents seen)
    (hok : t.enterAll cs = .ok t') : t'.Represents (cs.reverse ++ seen) := by
  induction cs generalizing t seen with
  | nil =>
      cases hok
      exact h
  | cons c cs ih =>
      simp only [MatrixTables.enterAll, Except.bind_eq_ok_iff] at hok
      obtain ⟨next, hfirst, hrest⟩ := hok
      simpa using ih (h.enter hfirst) hrest

end MatrixTables

/-! ### The required matrix -/

theorem requiredMatrix_nodup : requiredMatrix.Nodup := by decide +kernel

theorem injOn_coordinate {cs : List PreflightCase} (h : cs.Pairwise Compatible) {c d : PreflightCase}
    (hc : c ∈ cs) (hd : d ∈ cs) (heq : c.coordinate = d.coordinate) : c = d := by
  by_contra hne
  exact (h.forall hc hd hne).coordinate heq

theorem nodup_of_pairwise_compatible {cs : List PreflightCase} (h : cs.Pairwise Compatible) :
    cs.Nodup := by
  refine h.imp ?_
  rintro c d hcd rfl
  exact hcd.coordinate rfl

theorem MatrixTables.Represents.caseAt_eq_ok {t : MatrixTables} {seen : List PreflightCase}
    (h : t.Represents seen) {k : Coordinate} {c : PreflightCase} :
    t.caseAt k = .ok c ↔ c ∈ seen ∧ c.coordinate = k := by
  have hfind := h.byCoordinate k c
  simp only [id, exists_eq_right_right] at hfind
  rw [← hfind, caseAt]
  cases find t.byCoordinate k <;> simp

/-- The cases of the matrix are the ones entered, in the canonical order. -/
theorem MatrixTables.inOrder_eq_ok {t : MatrixTables} {seen pre : List PreflightCase}
    (h : t.Represents seen) (hseen : seen.Pairwise Compatible) :
    t.inOrder = .ok pre ↔ pre.Perm seen ∧ pre.map PreflightCase.coordinate = requiredMatrix := by
  have hkeys : (t.byCoordinate.map Prod.fst).toFinset = requiredMatrix.toFinset ↔
      ∀ k, k ∈ seen.map PreflightCase.coordinate ↔ k ∈ requiredMatrix := by
    simp only [Finset.ext_iff, List.mem_toFinset, h.mem_coordinates]
  simp only [inOrder, Except.bind_eq_ok_iff, Except.raiseIf_eq_ok, not_not, hkeys, exists_and_left,
    exists_const, forAll_eq_ok, h.caseAt_eq_ok]
  constructor
  · rintro ⟨hmatrix, hpre⟩
    have hcoordinates : pre.map PreflightCase.coordinate = requiredMatrix := by
      rw [← List.forall₂_eq_eq_eq, List.forall₂_map_left_iff]
      exact hpre.flip.imp fun _ _ hcase => hcase.2
    refine ⟨?_, hcoordinates⟩
    have hnodup : pre.Nodup := by
      refine List.Nodup.of_map PreflightCase.coordinate ?_
      rw [hcoordinates]
      exact requiredMatrix_nodup
    rw [List.perm_ext_iff_of_nodup hnodup (nodup_of_pairwise_compatible hseen)]
    intro c
    constructor
    · intro hc
      obtain ⟨k, -, hcase⟩ := exists_of_forall₂_right hpre hc
      exact hcase.1
    · intro hc
      have hk : c.coordinate ∈ pre.map PreflightCase.coordinate := by
        rw [hcoordinates, ← hmatrix]
        exact List.mem_map_of_mem hc
      obtain ⟨d, hd, heq⟩ := List.mem_map.mp hk
      obtain ⟨k, -, hcase⟩ := exists_of_forall₂_right hpre hd
      exact injOn_coordinate hseen hcase.1 hc heq ▸ hd
  · rintro ⟨hperm, hmap⟩
    constructor
    · intro k
      rw [← hmap]
      exact (hperm.map _).mem_iff.symm
    · rw [← hmap, List.forall₂_map_left_iff, List.forall₂_same]
      intro c hc
      exact ⟨hperm.mem_iff.mp hc, rfl⟩

/-! ### The cases of a report -/

theorem forall₂_zipIdx {α β : Type} {r : α → β → Prop} {as : List α} {bs : List β} :
    List.Forall₂ (fun item b => r item.1 b) as.zipIdx bs ↔ List.Forall₂ r as bs := by
  have hfst : as.zipIdx.map Prod.fst = as := List.zipIdx_map_fst 0 as
  rw [← List.forall₂_map_left_iff (f := Prod.fst), hfst]

/-- The cases are accepted exactly when they are compatible pairwise and form the required matrix. -/
theorem preflightCases_eq_ok {value : Value} {contract manifest : Text} {pre : List PreflightCase} :
    preflightCases value contract manifest = .ok pre ↔
      ∃ items, value = .list items ∧ items.length = expectedCaseCount ∧
        ∃ cases, List.Forall₂ (fun item c => preflightCase "" contract manifest item = .ok c) items cases ∧
          cases.Pairwise Compatible ∧ pre.Perm cases ∧
          pre.map PreflightCase.coordinate = requiredMatrix := by
  simp only [preflightCases, Except.bind_eq_ok_iff, requireSequence_eq_ok, forAll_eq_ok,
    preflightCase_context _ "", forall₂_zipIdx (r := fun item c =>
      preflightCase "" contract manifest item = .ok c)]
  constructor
  · rintro ⟨items, ⟨rfl, hlength⟩, cases, hcases, tables, htables, hpre⟩
    have hpass := (MatrixTables.enterAll_eq_ok MatrixTables.represents_empty).mp ⟨tables, htables⟩
    have hrepresents := MatrixTables.represents_empty.enterAll htables
    rw [List.append_nil] at hrepresents
    have hreverse : cases.reverse.Pairwise Compatible :=
      pairwise_compatible_of_perm (List.reverse_perm cases).symm hpass.2
    obtain ⟨hperm, hmatrix⟩ := (MatrixTables.inOrder_eq_ok hrepresents hreverse).mp hpre
    exact ⟨items, rfl, hlength, cases, hcases, hpass.2, hperm.trans (List.reverse_perm cases), hmatrix⟩
  · rintro ⟨items, rfl, hlength, cases, hcases, hpairwise, hperm, hmatrix⟩
    obtain ⟨tables, htables⟩ :=
      (MatrixTables.enterAll_eq_ok MatrixTables.represents_empty).mpr ⟨by simp, hpairwise⟩
    have hrepresents := MatrixTables.represents_empty.enterAll htables
    rw [List.append_nil] at hrepresents
    have hreverse : cases.reverse.Pairwise Compatible :=
      pairwise_compatible_of_perm (List.reverse_perm cases).symm hpairwise
    refine ⟨items, ⟨rfl, hlength⟩, cases, hcases, tables, htables, ?_⟩
    rw [MatrixTables.inOrder_eq_ok hrepresents hreverse]
    exact ⟨hperm.trans (List.reverse_perm cases).symm, hmatrix⟩

/-- The order of the cases does not matter. -/
theorem preflightCases_perm {items items' : List Value} (h : items.Perm items')
    {contract manifest : Text} {pre : List PreflightCase}
    (hok : preflightCases (.list items) contract manifest = .ok pre) :
    preflightCases (.list items') contract manifest = .ok pre := by
  rw [preflightCases_eq_ok] at hok ⊢
  obtain ⟨_, hvalue, hlength, cases, hcases, hpairwise, hperm, hmatrix⟩ := hok
  cases hvalue
  obtain ⟨cases', hcases', hperm'⟩ := List.perm_comp_forall₂ h.symm hcases
  exact ⟨items', rfl, h.length_eq ▸ hlength, cases', hcases',
    pairwise_compatible_of_perm hperm'.symm hpairwise, hperm.trans hperm'.symm, hmatrix⟩

end MosaicArchive.Report
