import MosaicArchive.Report.Matrix
import Mathlib.Data.List.Sort
import Mathlib.Data.List.FinRange

/-!
What an accepted report holds: one case at each coordinate of the required matrix
and in its order, the same size records in one tier, the same prepared input in
one corpus, and one well-formed reference for each sample, sorted by its id. No
outcome depends on the order in which the report lists its cases.
-/

namespace MosaicArchive.Report

open Utf8 (Text encode)
open Except (raiseIf)

/-! ### Well-formed references -/

section

variable {Verdict : Type} (library : Library Verdict)

/-- The authority of a URL is the canonical spelling of its host. -/
def IsAuthority (hostname authority : Text) : Prop :=
  hostname.all (fun c => c.toNat < 128) = true ∧
    match library.ipAddress hostname with
    | some (.v4 text) => authority = text
    | some (.v6 compressed) => authority = '[' :: compressed ++ [']']
    | none => authority = hostname ∧ hostname ≠ [] ∧ hostname.length ≤ 253 ∧
        hostname.getLast? ≠ some '.' ∧ isIpv4Like hostname = false ∧
        (hostname.splitOn '.').all isDnsLabel = true

/-- A canonical HTTPS URL without authentication that ends with the digest. -/
def IsEvidenceUrl (url digest : Text) : Prop :=
  isBoundedUrlText library url = true ∧
    ∃ parsed hostname, library.urlsplit url = some parsed ∧ parsed.hostname = some hostname ∧
      parsed.scheme = "https".toList ∧ "https://".toList <+: url ∧ parsed.username = none ∧
      parsed.password = none ∧ parsed.port = none ∧ parsed.query = [] ∧ parsed.fragment = [] ∧
      IsAuthority library hostname parsed.netloc ∧ isContentAddressed parsed.path digest = true

/-- The reference is the entry of the index for its sample, and well-formed. -/
structure RawEvidenceReference.WellFormed (evidence : Mapping) (r : RawEvidenceReference) : Prop where
  entry : ∃ entry, evidence.get r.sampleId = .dict entry ∧
    (Mapping.keys entry).toFinset = evidenceKeys.toFinset ∧
    Mapping.get entry "sha256".toList = .str r.sha256 ∧ Mapping.get entry "url".toList = .str r.url
  digest : isSha256 r.sha256 = true
  url : IsEvidenceUrl library r.url r.sha256

theorem canonicalUrlAuthority_eq_ok {hostname authority : Text} {context : String} :
    canonicalUrlAuthority library hostname context = .ok authority ↔
      IsAuthority library hostname authority := by
  have hascii : ¬ hostname.any (fun c => 128 ≤ c.toNat) = true ↔
      hostname.all (fun c => c.toNat < 128) = true := by
    simp
  simp only [canonicalUrlAuthority, Except.bind_eq_ok_iff, Except.raiseIf_eq_ok, hascii, IsAuthority,
    exists_and_left, exists_const]
  refine and_congr_right fun _ => ?_
  cases library.ipAddress hostname with
  | none =>
      simp only [Except.bind_eq_ok_iff, Except.raiseIf_eq_ok, Except.ok.injEq, not_or, not_lt,
        Bool.not_eq_false, Bool.not_eq_true, exists_and_left, exists_const]
      constructor
      · rintro ⟨⟨hne, hlength, hdot, hip⟩, hlabels, rfl⟩
        exact ⟨rfl, hne, hlength, hdot, hip, hlabels⟩
      · rintro ⟨rfl, hne, hlength, hdot, hip, hlabels⟩
        exact ⟨⟨hne, hlength, hdot, hip⟩, hlabels, rfl⟩
  | some address =>
      cases address with
      | v4 text => simp [eq_comm]
      | v6 compressed => simp [eq_comm]

theorem validateEvidenceUrl_eq_ok {value : Value} {digest url : Text} {context : String} :
    validateEvidenceUrl library value digest context = .ok url ↔
      value = .str url ∧ IsEvidenceUrl library url digest := by
  simp only [validateEvidenceUrl, Except.bind_eq_ok_iff, requireText_eq_ok, IsEvidenceUrl]
  constructor
  · rintro ⟨text, ⟨rfl, hbounded⟩, h⟩
    cases hsplit : library.urlsplit text with
    | none => simp [hsplit] at h
    | some parsed =>
        rw [hsplit] at h
        cases hhost : parsed.hostname with
        | none => simp [hhost] at h
        | some hostname =>
            simp only [hhost, Except.bind_eq_ok_iff, Except.raiseIf_eq_ok, not_or, not_not,
              Bool.not_eq_true, Option.isSome_eq_false_iff, Option.isNone_iff_eq_none,
              canonicalUrlAuthority_eq_ok, Except.ok.injEq] at h
            obtain ⟨-, ⟨hscheme, hstarts, huser, hpassword, hport, hquery, hfragment⟩, authority,
              hauthority, -, ⟨rfl, hpath⟩, rfl⟩ := h
            exact ⟨rfl, hbounded, parsed, hostname, hsplit, hhost, hscheme, hstarts, huser, hpassword,
              hport, hquery, hfragment, hauthority, by simpa using hpath⟩
  · rintro ⟨rfl, hbounded, parsed, hostname, hsplit, hhost, hscheme, hstarts, huser, hpassword, hport,
      hquery, hfragment, hauthority, hpath⟩
    refine ⟨url, ⟨rfl, hbounded⟩, ?_⟩
    simp only [hsplit, hhost, Except.bind_eq_ok_iff, Except.raiseIf_eq_ok, not_or, not_not,
      canonicalUrlAuthority_eq_ok]
    exact ⟨(), ⟨hscheme, hstarts, by simp [huser], by simp [hpassword], by simp [hport], hquery,
      hfragment⟩, parsed.netloc, hauthority, (), ⟨rfl, by simp [hpath]⟩, trivial⟩

theorem parseReference_eq_ok {evidence : Mapping} {id : Text} {r : RawEvidenceReference}
    (h : parseReference library evidence id = .ok r) :
    r.sampleId = id ∧ r.WellFormed library evidence := by
  simp only [parseReference, Except.bind_eq_ok_iff, requireObject_eq_ok, requireExactKeys_eq_ok,
    requireSha256_eq_ok, validateEvidenceUrl_eq_ok, Except.ok.injEq] at h
  obtain ⟨entry, hentry, -, hkeys, digest, ⟨hdigest, hvalid⟩, url, ⟨hurl, hwell⟩, rfl⟩ := h
  exact ⟨rfl, ⟨entry, hentry, hkeys, hdigest, hurl⟩, hvalid, hwell⟩

/-! ### The index of the raw evidence -/

theorem sorted_perm (texts : List Text) : (sorted texts).Perm texts := List.mergeSort_perm _ _

theorem pairwise_sorted {texts : List Text} (h : texts.Nodup) : (sorted texts).Pairwise (· < ·) := by
  have hle : (sorted texts).Pairwise (· ≤ ·) := List.pairwise_mergeSort' (· ≤ ·) texts
  have hne : (sorted texts).Nodup := (sorted_perm texts).symm.nodup h
  exact hle.imp₂ (fun _ _ => lt_of_le_of_ne) hne

theorem sampleIds_length (caseIds : List Text) :
    (sampleIds caseIds).length = 55 * caseIds.length := by
  induction caseIds with
  | nil => rfl
  | cons caseId caseIds ih =>
      have hcase : (toolsWithCandidate.flatMap fun toolId =>
          (List.range measuredRuns).map (sampleId caseId toolId)).length = 55 := by
        simp [toolsWithCandidate, bindingTools, measuredRuns]
      rw [sampleIds, List.flatMap_cons, List.length_append, hcase]
      rw [sampleIds] at ih
      rw [ih, List.length_cons]
      ring

/-- As many keys as samples, and the same ones: then no two samples have the same id. -/
theorem nodup_of_keys {keys expected : List Text} (hkeys : keys.Nodup)
    (hlength : keys.length = expected.length) (hsame : keys.toFinset = expected.toFinset) :
    expected.Nodup := by
  have hcard : expected.dedup.length = expected.length := by
    rw [← List.card_toFinset, ← hsame, List.toFinset_card_of_nodup hkeys, hlength]
  rw [← (List.dedup_sublist expected).eq_of_length hcard]
  exact List.nodup_dedup expected

theorem parseRawEvidenceIndex_eq_ok {value : Value} {caseIds : List Text}
    {references : List RawEvidenceReference} (hcount : caseIds.length = expectedCaseCount)
    (h : parseRawEvidenceIndex library value caseIds = .ok references) :
    ∃ evidence, value = .dict evidence ∧
      (Mapping.keys evidence).Perm (sampleIds caseIds) ∧
      (references.map RawEvidenceReference.sampleId).Perm (sampleIds caseIds) ∧
      (references.map RawEvidenceReference.sampleId).Pairwise (· < ·) ∧
      ∀ r ∈ references, r.WellFormed library evidence := by
  simp only [parseRawEvidenceIndex, Except.bind_eq_ok_iff, requireObject_eq_ok,
    Except.raiseIf_eq_ok, not_or, not_not] at h
  obtain ⟨evidence, rfl, -, ⟨hlength, hkeys⟩, hreferences⟩ := h
  have hnodup : (sampleIds caseIds).Nodup := by
    refine nodup_of_keys evidence.keys_nodup ?_ hkeys
    rw [hlength, sampleIds_length, hcount]
    rfl
  rw [hnodup.dedup] at hreferences
  have hids : references.map RawEvidenceReference.sampleId = sorted (sampleIds caseIds) := by
    have hmap := map_eq_of_forAll (g := id) (k := RawEvidenceReference.sampleId) hreferences ?_
    · simpa using hmap.symm
    · intro sample r hr
      exact (parseReference_eq_ok library hr).1.symm
  refine ⟨evidence, rfl, ?_, ?_, ?_, ?_⟩
  · exact List.perm_of_nodup_nodup_toFinset_eq evidence.keys_nodup hnodup hkeys
  · rw [hids]
    exact sorted_perm _
  · rw [hids]
    exact pairwise_sorted hnodup
  · intro r hr
    rw [forAll_eq_ok] at hreferences
    obtain ⟨sample, -, hsample⟩ := exists_of_forall₂_right hreferences hr
    exact (parseReference_eq_ok library hsample).2

/-! ### Complete reports -/

def ScorecardCase.coordinate (c : ScorecardCase Verdict) : Coordinate :=
  (c.identity.corpusId, c.identity.threadCount, c.identity.metric)

/-- What the cases of a report say, evaluated from the cases of its input in another order. -/
structure CompleteCases (items : List Value) (payloads : List Mapping)
    (cases : List (ScorecardCase Verdict)) : Prop where
  input : (payloads.map Value.dict).Perm items
  declared : List.Forall₂ (fun payload c => c.identity.DeclaredBy payload) payloads cases
  derived : ∀ c ∈ cases, c.caseId = c.identity.caseId ∧ c.threadCount = c.identity.threadCount
  matrix : cases.map ScorecardCase.coordinate = requiredMatrix
  records : ∀ p ∈ payloads, ∀ q ∈ payloads, p.get "corpus_id".toList = q.get "corpus_id".toList →
    p.get "thread_count".toList = q.get "thread_count".toList → sizeRecords p = sizeRecords q
  sizes : ∀ c ∈ cases, ∀ d ∈ cases, c.identity.corpusId = d.identity.corpusId →
    c.threadCount = d.threadCount → c.sizeVerdict = d.sizeVerdict
  preparedInput : ∀ c ∈ cases, ∀ d ∈ cases, c.identity.corpusId = d.identity.corpusId →
    c.identity.inputSha256 = d.identity.inputSha256 ∧ c.identity.inputBytes = d.identity.inputBytes

/-- One well-formed reference for each sample of each case, sorted by its id. -/
structure CompleteEvidence (evidence : Mapping) (caseIds : List Text)
    (references : List RawEvidenceReference) : Prop where
  keys : evidence.keys.Perm (sampleIds caseIds)
  samples : (references.map RawEvidenceReference.sampleId).Perm (sampleIds caseIds)
  ascending : (references.map RawEvidenceReference.sampleId).Pairwise (· < ·)
  wellFormed : ∀ r ∈ references, r.WellFormed library evidence

def CompetitiveReport.Complete (report : Value) (r : CompetitiveReport Verdict) : Prop :=
  ∃ (root : Mapping) (items : List Value) (payloads : List Mapping) (evidence : Mapping),
    report = .dict root ∧ root.get "cases".toList = .list items ∧
    root.get "raw_evidence_index".toList = .dict evidence ∧ CompleteCases items payloads r.cases ∧
    CompleteEvidence library evidence (r.cases.map ScorecardCase.caseId) r.rawEvidenceIndex

/-- The property holds if there is a result. -/
def IfAccepted {ε α : Type} (p : α → Prop) : Except ε α → Prop
  | .ok a => p a
  | .error _ => True

/-- The same result, or no result on both sides. -/
def SameOutcome {ε α : Type} : Except ε α → Except ε α → Prop
  | .ok a, .ok b => a = b
  | .error _, .error _ => True
  | _, _ => False

/-- The report with its cases in another order. -/
def permuteCases (order : ∀ count, Equiv.Perm (Fin count)) (root : Mapping) : Mapping :=
  match root.get "cases".toList with
  | .list items => root.set "cases".toList (.list (List.ofFn (items.get ∘ order items.length)))
  | _ => root

theorem sameOutcome_iff {ε α : Type} {x y : Except ε α} :
    SameOutcome x y ↔ ∀ a, x = .ok a ↔ y = .ok a := by
  cases x with
  | error e =>
      cases y with
      | error e' => simp [SameOutcome]
      | ok b =>
          simp only [SameOutcome, reduceCtorEq, false_iff, Except.ok.injEq, not_forall]
          exact ⟨b, by simp⟩
  | ok a =>
      cases y with
      | error e => simp [SameOutcome]
      | ok b =>
          simp only [SameOutcome, Except.ok.injEq]
          constructor
          · rintro rfl c
            rfl
          · intro h
            exact ((h a).mp rfl).symm

theorem sizes_eq_of_tier {pre : List PreflightCase} (h : pre.Pairwise Compatible)
    {c d : PreflightCase} (hc : c ∈ pre) (hd : d ∈ pre) (htier : c.tier = d.tier) :
    c.sizeFingerprint = d.sizeFingerprint := by
  by_cases heq : c = d
  · rw [heq]
  · exact (h.forall hc hd heq).sizes htier

theorem input_eq_of_corpus {pre : List PreflightCase} (h : pre.Pairwise Compatible)
    {c d : PreflightCase} (hc : c ∈ pre) (hd : d ∈ pre)
    (hcorpus : c.identity.corpusId = d.identity.corpusId) : c.corpusInput = d.corpusInput := by
  by_cases heq : c = d
  · rw [heq]
  · exact (h.forall hc hd heq).input hcorpus

/-- What the first pass over the cases establishes. -/
structure Preflighted (items : List Value) (pre : List PreflightCase) : Prop where
  input : (pre.map fun c => Value.dict c.payload).Perm items
  checked : ∀ c ∈ pre, c.Checked
  compatible : pre.Pairwise Compatible
  matrix : pre.map PreflightCase.coordinate = requiredMatrix

theorem preflighted_of_ok {value : Value} {contract manifest : Text} {pre : List PreflightCase}
    (h : preflightCases value contract manifest = .ok pre) :
    ∃ items, value = .list items ∧ Preflighted items pre := by
  obtain ⟨items, rfl, -, cases, hcases, hpairwise, hperm, hmatrix⟩ := preflightCases_eq_ok.mp h
  refine ⟨items, rfl, ?_, ?_, pairwise_compatible_of_perm hperm.symm hpairwise, hmatrix⟩
  · have hitems : cases.map (fun c => Value.dict c.payload) = items := by
      rw [← List.forall₂_eq_eq_eq, List.forall₂_map_left_iff]
      exact hcases.flip.imp fun _ _ hcase => (preflightCase_eq_ok hcase).1.symm
    rw [← hitems]
    exact hperm.map _
  · intro c hc
    obtain ⟨item, -, hitem⟩ := exists_of_forall₂_right hcases (hperm.mem_iff.mp hc)
    exact (preflightCase_eq_ok hitem).2

/-- Payloads with the same size records have the same size verdict. -/
theorem sizeVerdict_eq {c d : PreflightCase} (hc : c.Checked) (hd : d.Checked)
    (hrecords : sizeRecords c.payload = sizeRecords d.payload) {v w : SizeVerdict} {bytes : ℕ}
    (hv : evaluateSizeCase library.isSpace bytes (c.payload.get "candidate_archive_bytes".toList)
      (c.payload.get "raw_comparator_archive_bytes".toList)
      (c.payload.get "encrypted_comparator_archive_bytes".toList) = .ok v)
    (hw : evaluateSizeCase library.isSpace bytes (d.payload.get "candidate_archive_bytes".toList)
      (d.payload.get "raw_comparator_archive_bytes".toList)
      (d.payload.get "encrypted_comparator_archive_bytes".toList) = .ok w) : v = w := by
  obtain ⟨raw, hraw, hrawKeys⟩ := hc.raw
  obtain ⟨raw', hraw', hrawKeys'⟩ := hd.raw
  obtain ⟨encrypted, hencrypted, hencryptedKeys⟩ := hc.encrypted
  obtain ⟨encrypted', hencrypted', hencryptedKeys'⟩ := hd.encrypted
  simp only [sizeRecords, List.cons.injEq] at hrecords
  obtain ⟨-, -, hcandidate, hsizes⟩ := hrecords
  obtain ⟨hrawEntries, hencryptedEntries⟩ := List.append_inj hsizes (by simp)
  rw [hraw, hencrypted, hcandidate] at hv
  rw [hraw', hencrypted'] at hw
  rw [hraw, hraw', List.map_inj_left] at hrawEntries
  rw [hencrypted, hencrypted', List.map_inj_left] at hencryptedEntries
  refine evaluateSizeCase_congr (hrawKeys.trans hrawKeys'.symm) ?_
    (hencryptedKeys.trans hencryptedKeys'.symm) ?_ hv hw
  · intro k hk
    refine hrawEntries k ?_
    rw [← List.mem_toFinset, ← hrawKeys, List.mem_toFinset]
    exact hk
  · intro k hk
    refine hencryptedEntries k ?_
    rw [← List.mem_toFinset, ← hencryptedKeys, List.mem_toFinset]
    exact hk

/-- The evaluation of a checked case. -/
def Evaluates (c : PreflightCase) (case : ScorecardCase Verdict) : Prop :=
  evaluateScorecardCase library.isSpace library.timing c.payload = .ok case

theorem Evaluates.identity {c : PreflightCase} {case : ScorecardCase Verdict}
    (h : Evaluates library c case) (hc : c.Checked) : case.identity = c.identity :=
  (evaluateScorecardCase_eq_ok h).1.unique hc.declared

theorem forall₂_identity {items : List Value} {pre : List PreflightCase}
    {cases : List (ScorecardCase Verdict)} (h : Preflighted items pre)
    (hcases : List.Forall₂ (Evaluates library) pre cases) :
    List.Forall₂ (fun c case => case.identity = c.identity) pre cases := by
  have hboth : List.Forall₂ (fun c case => PreflightCase.Checked c ∧ Evaluates library c case)
      pre cases := (List.forall₂_and_left pre cases).mpr ⟨h.checked, hcases⟩
  exact hboth.imp fun _ _ hcase => hcase.2.identity library hcase.1

theorem completeCases {items : List Value} {pre : List PreflightCase}
    {cases : List (ScorecardCase Verdict)} (h : Preflighted items pre)
    (hcases : List.Forall₂ (Evaluates library) pre cases) :
    CompleteCases items (pre.map PreflightCase.payload) cases := by
  have hidentity {c : PreflightCase} (hc : c ∈ pre) {case : ScorecardCase Verdict}
      (hcase : Evaluates library c case) : case.identity = c.identity :=
    hcase.identity library (h.checked c hc)
  refine ⟨?_, ?_, ?_, ?_, ?_, ?_, ?_⟩
  · rw [List.map_map]
    exact h.input
  · rw [List.forall₂_map_left_iff]
    exact hcases.imp fun _ _ hcase => (evaluateScorecardCase_eq_ok hcase).1
  · intro case hcase
    obtain ⟨c, -, hc⟩ := exists_of_forall₂_right hcases hcase
    exact ⟨(evaluateScorecardCase_eq_ok hc).2.1, (evaluateScorecardCase_eq_ok hc).2.2.1⟩
  · rw [← h.matrix, ← List.forall₂_eq_eq_eq, List.forall₂_map_left_iff, List.forall₂_map_right_iff]
    refine (forall₂_identity library h hcases).flip.imp ?_
    intro case c hcase
    rw [ScorecardCase.coordinate, hcase]
    rfl
  · rintro p hp q hq hcorpus hthreads
    obtain ⟨c, hc, rfl⟩ := List.mem_map.mp hp
    obtain ⟨d, hd, rfl⟩ := List.mem_map.mp hq
    rw [(h.checked c hc).declared.corpusId, (h.checked d hd).declared.corpusId,
      Value.str.injEq] at hcorpus
    rw [(h.checked c hc).declared.threadCount, (h.checked d hd).declared.threadCount,
      Value.int.injEq] at hthreads
    rw [(h.checked c hc).records, (h.checked d hd).records,
      sizes_eq_of_tier h.compatible hc hd (Prod.ext hcorpus hthreads)]
  · intro case hcase case' hcase' hcorpus hthreads
    obtain ⟨c, hc, hceval⟩ := exists_of_forall₂_right hcases hcase
    obtain ⟨d, hd, hdeval⟩ := exists_of_forall₂_right hcases hcase'
    obtain ⟨-, -, hthread, hv⟩ := evaluateScorecardCase_eq_ok hceval
    obtain ⟨-, -, hthread', hw⟩ := evaluateScorecardCase_eq_ok hdeval
    rw [hthread, hthread'] at hthreads
    rw [hidentity hc hceval, hidentity hd hdeval] at hcorpus hthreads
    have hsame := sizes_eq_of_tier h.compatible hc hd (Prod.ext hcorpus hthreads)
    have hinput := input_eq_of_corpus h.compatible hc hd hcorpus
    rw [(h.checked c hc).input, (h.checked d hd).input, Prod.mk.injEq] at hinput
    rw [hidentity hc hceval] at hv
    rw [hidentity hd hdeval, ← hinput.2] at hw
    refine sizeVerdict_eq library (h.checked c hc) (h.checked d hd) ?_ hv hw
    rw [(h.checked c hc).records, (h.checked d hd).records, hsame]
  · intro case hcase case' hcase' hcorpus
    obtain ⟨c, hc, hceval⟩ := exists_of_forall₂_right hcases hcase
    obtain ⟨d, hd, hdeval⟩ := exists_of_forall₂_right hcases hcase'
    rw [hidentity hc hceval, hidentity hd hdeval] at hcorpus ⊢
    have hinput := input_eq_of_corpus h.compatible hc hd hcorpus
    rw [(h.checked c hc).input, (h.checked d hd).input, Prod.mk.injEq] at hinput
    exact hinput

/-- Whatever is accepted is complete. -/
theorem evaluate_complete {report : Value} {r : CompetitiveReport Verdict}
    (h : evaluateCompetitiveReport library report = .ok r) : r.Complete library report := by
  simp only [evaluateCompetitiveReport, Except.bind_eq_ok_iff, requireObject_eq_ok,
    Except.ok.injEq] at h
  obtain ⟨root, rfl, -, -, schema, -, contract, -, -, -, manifest, -, candidate, -, runner, -, pre,
    hpre, evidence, hevidence, cases, hcases, rfl⟩ := h
  obtain ⟨items, hitems, hpreflighted⟩ := preflighted_of_ok hpre
  have hevaluates : List.Forall₂ (Evaluates library) pre cases := by
    simp only [forAll_eq_ok, Except.mapError_eq_ok] at hcases
    exact forall₂_zipIdx.mp hcases
  have hcomplete := completeCases library hpreflighted hevaluates
  have hcaseIds : pre.map (fun c => c.identity.caseId) = cases.map ScorecardCase.caseId := by
    have hids : cases.map ScorecardCase.caseId = cases.map fun case => case.identity.caseId := by
      refine List.map_congr_left ?_
      intro case hcase
      exact (hcomplete.derived case hcase).1
    rw [hids, ← List.forall₂_eq_eq_eq, List.forall₂_map_left_iff, List.forall₂_map_right_iff]
    refine (forall₂_identity library hpreflighted hevaluates).imp ?_
    intro c case hcase
    rw [hcase]
  have hcount : (cases.map ScorecardCase.caseId).length = expectedCaseCount := by
    rw [List.length_map, ← List.length_map ScorecardCase.coordinate, hcomplete.matrix]
    rfl
  rw [hcaseIds] at hevidence
  obtain ⟨index, hindex, hkeys, hsamples, hascending, hwell⟩ :=
    parseRawEvidenceIndex_eq_ok library hcount hevidence
  exact ⟨root, items, _, index, rfl, hitems, hindex, hcomplete, hkeys, hsamples, hascending, hwell⟩

/-- The outcome depends on the other entries and on what the first pass makes of the cases. -/
theorem evaluate_congr {root root' : Mapping} (hkeys : root.keys.toFinset = root'.keys.toFinset)
    (hget : ∀ key, key ≠ "cases".toList → root.get key = root'.get key)
    (hpre : ∀ contract manifest pre,
      preflightCases (root.get "cases".toList) contract manifest = .ok pre ↔
        preflightCases (root'.get "cases".toList) contract manifest = .ok pre)
    (r : CompetitiveReport Verdict) :
    evaluateCompetitiveReport library (.dict root) = .ok r ↔
      evaluateCompetitiveReport library (.dict root') = .ok r := by
  have hschema := hget "schema_name".toList (by decide)
  have hcontract := hget "contract_sha256".toList (by decide)
  have hmanifest := hget "corpus_manifest_sha256".toList (by decide)
  have hcandidate := hget "candidate".toList (by decide)
  have hrunner := hget "runner".toList (by decide)
  have hevidence := hget "raw_evidence_index".toList (by decide)
  simp only [evaluateCompetitiveReport, requireObject, Except.bind_eq_ok_iff, Except.ok.injEq,
    exists_eq_left', requireExactKeys_eq_ok, hkeys, hschema, hcontract, hmanifest, hcandidate,
    hrunner, hevidence, hpre]

theorem evaluate_permuteCases (order : ∀ count, Equiv.Perm (Fin count)) (root : Mapping)
    (r : CompetitiveReport Verdict) :
    evaluateCompetitiveReport library (.dict root) = .ok r ↔
      evaluateCompetitiveReport library (.dict (permuteCases order root)) = .ok r := by
  unfold permuteCases
  split
  · rename_i items hitems
    have hperm : items.Perm (List.ofFn (items.get ∘ order items.length)) := by
      have hofFn := (order items.length).ofFn_comp_perm items.get
      rw [List.ofFn_get] at hofFn
      exact hofFn.symm
    refine evaluate_congr library ?_ ?_ ?_ r
    · refine (Mapping.keys_set ?_ _).symm
      refine Mapping.mem_keys_of_get ?_
      rw [hitems]
      exact Value.noConfusion
    · intro key hkey
      exact (Mapping.get_set_of_ne root hkey.symm _).symm
    · intro contract manifest pre
      rw [Mapping.get_set_self, hitems]
      exact ⟨preflightCases_perm hperm, preflightCases_perm hperm.symm⟩
  · rfl

/-- An accepted report is complete and consistent, and every order of its cases has the same
outcome. -/
theorem competitive_report_complete :
    (∀ report, IfAccepted (fun r => r.Complete library report)
      (evaluateCompetitiveReport library report)) ∧
    ∀ order root, SameOutcome (evaluateCompetitiveReport library (.dict root))
      (evaluateCompetitiveReport library (.dict (permuteCases order root))) := by
  constructor
  · intro report
    cases h : evaluateCompetitiveReport library report with
    | error e => trivial
    | ok r => exact evaluate_complete library h
  · intro order root
    rw [sameOutcome_iff]
    exact evaluate_permuteCases library order root

end

end MosaicArchive.Report
