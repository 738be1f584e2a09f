import MosaicArchive.Crypto.Sha256
import MosaicArchive.Report.Value
import Mathlib.Data.Char
import Mathlib.Data.Prod.Lex
import Mathlib.Data.Finset.Dedup
import Mathlib.Data.List.Perm.Basic

/-!
The parts of the Competitive Contract v1 a report is evaluated with
(`mosaic_archive/competitive_contract.py`): case identities and their derived
names, the size rule, and the evaluation of one scorecard case. What is computed
with floating-point numbers is a parameter.
-/

namespace MosaicArchive.Report

open Utf8 (Text encode)
open FixedWidth
open Except (raiseIf)

/-! ### Constants -/

def contractSha256 : Text :=
  "5f76317e4e03c2b4a5e5c9414e08edd7fd64d53e35afb3681cd6ba93e93b3d6d".toList
def measuredRuns : ℕ := 11
def minimumInputBytes : ℕ := 67108864
def maxCorpusIdBytes : ℕ := 128
def caseIdPrefix : Text := "msc-case-v1-".toList
def maxCaseIdBytes : ℕ := 76
def caseIdDomain : Text := "mosaic-competitive-case-id-v1".toList

def bindingTools : List Text :=
  ["7zip_raw".toList, "7zip_aes256_headers".toList, "zstd_raw".toList, "zstd_age_passphrase".toList]
def bindingRawTools : List Text := ["7zip_raw".toList, "zstd_raw".toList]
def bindingEncryptedTools : List Text :=
  ["7zip_aes256_headers".toList, "zstd_age_passphrase".toList]
def metrics : List Text :=
  ["encode_wall_seconds".toList, "decode_wall_seconds".toList,
    "encode_cgroup_v2_memory_peak_bytes".toList, "decode_cgroup_v2_memory_peak_bytes".toList]
/-- `_THREAD_TIERS` of the report, and the literal `(1, 8)` here. -/
def threadTiers : List ℤ := [1, 8]

/-- `_CORPUS_ID_PATTERN` -/
def corpusIdPattern : RegularExpression Char :=
  let letters := anyOf (lowerLetters ++ digits)
  oneOrMore letters * (anyOf "._-".toList * oneOrMore letters).star

/-! ### Case identities -/

structure CaseIdentity where
  contractSha256 : Text
  corpusManifestSha256 : Text
  corpusId : Text
  inputSha256 : Text
  inputBytes : ℕ
  threadCount : ℤ
  metric : Text
  deriving DecidableEq, Repr

def metricMessage : String :=
  "metric must be one of ('encode_wall_seconds', 'decode_wall_seconds', " ++
    "'encode_cgroup_v2_memory_peak_bytes', 'decode_cgroup_v2_memory_peak_bytes')"

def requireInputBytes (value : Value) : Except ReportError ℕ :=
  match value with
  | .int z =>
      if (minimumInputBytes : ℤ) ≤ z then .ok z.toNat
      else .error (.message "input_bytes must meet minimum_input_bytes=67108864")
  | _ => .error (.message "input_bytes must meet minimum_input_bytes=67108864")

/-- The constructor of `CaseIdentity`, with `_validate_case_identity`. -/
def CaseIdentity.create (contract manifest corpusId : Text) (inputSha256 inputBytes : Value)
    (threadCount : ℤ) (metric : Text) : Except ReportError CaseIdentity := do
  let contract ← requireSha256 (.str contract) "contract_sha256"
  raiseIf (contract ≠ MosaicArchive.Report.contractSha256)
    (.message "contract_sha256 must bind the exact Competitive Contract v1 bytes")
  let manifest ← requireSha256 (.str manifest) "corpus_manifest_sha256"
  raiseIf (corpusIdPattern.rmatch corpusId = false ∨ maxCorpusIdBytes < (encode corpusId).length)
    (.message "corpus_id must be a canonical lowercase identifier of at most 128 bytes")
  let inputSha256 ← requireSha256 inputSha256 "input_sha256"
  let inputBytes ← requireInputBytes inputBytes
  raiseIf (threadCount ∉ threadTiers) (.message "thread_count must be one of (1, 8)")
  raiseIf (metric ∉ metrics) (.message metricMessage)
  .ok ⟨contract, manifest, corpusId, inputSha256, inputBytes, threadCount, metric⟩

theorem requireInputBytes_eq_ok {value : Value} {n : ℕ} :
    requireInputBytes value = .ok n ↔ minimumInputBytes ≤ n ∧ value = .int n := by
  cases value with
  | int z =>
      simp only [requireInputBytes, Value.int.injEq]
      split_ifs with h
      · simp only [Except.ok.injEq]
        omega
      · simp only [false_iff]
        omega
  | _ => simp [requireInputBytes]

/-- What a case identity has been checked for. -/
structure CaseIdentity.Checked (i : CaseIdentity) : Prop where
  contract : i.contractSha256 = MosaicArchive.Report.contractSha256
  manifest : isSha256 i.corpusManifestSha256 = true
  corpusId : corpusIdPattern.rmatch i.corpusId = true
  corpusIdBytes : (encode i.corpusId).length ≤ maxCorpusIdBytes
  inputSha256 : isSha256 i.inputSha256 = true
  inputBytes : minimumInputBytes ≤ i.inputBytes
  threadCount : i.threadCount ∈ threadTiers
  metric : i.metric ∈ metrics

theorem CaseIdentity.create_eq_ok {contract manifest corpusId metric : Text}
    {inputSha256 inputBytes : Value} {threadCount : ℤ} {i : CaseIdentity}
    (h : create contract manifest corpusId inputSha256 inputBytes threadCount metric = .ok i) :
    i.Checked ∧ i = ⟨contract, manifest, corpusId, i.inputSha256, i.inputBytes, threadCount, metric⟩ ∧
      inputSha256 = .str i.inputSha256 ∧ inputBytes = .int i.inputBytes := by
  simp only [create, Except.bind_eq_ok_iff, Except.raiseIf_eq_ok, requireSha256_eq_ok,
    requireInputBytes_eq_ok, Except.ok.injEq, Value.str.injEq, not_not, not_or, not_lt,
    Bool.not_eq_false] at h
  obtain ⟨_, ⟨rfl, -⟩, -, rfl, _, ⟨rfl, hmanifest⟩, -, ⟨hcorpus, hlength⟩, digest, ⟨rfl, hdigest⟩, size,
    ⟨hsize, rfl⟩, -, hthreads, -, hmetric, rfl⟩ := h
  exact ⟨⟨rfl, hmanifest, hcorpus, hlength, hdigest, hsize, hthreads, hmetric⟩, rfl, rfl, rfl⟩

/-- The identity is the one a case declares. -/
structure CaseIdentity.DeclaredBy (i : CaseIdentity) (payload : Mapping) : Prop where
  contract : payload.get "contract_sha256".toList = .str i.contractSha256
  manifest : payload.get "corpus_manifest_sha256".toList = .str i.corpusManifestSha256
  corpusId : payload.get "corpus_id".toList = .str i.corpusId
  inputSha256 : payload.get "input_sha256".toList = .str i.inputSha256
  inputBytes : payload.get "input_bytes".toList = .int i.inputBytes
  threadCount : payload.get "thread_count".toList = .int i.threadCount
  metric : payload.get "metric".toList = .str i.metric

theorem CaseIdentity.DeclaredBy.unique {i j : CaseIdentity} {payload : Mapping}
    (hi : i.DeclaredBy payload) (hj : j.DeclaredBy payload) : i = j := by
  have hbytes := Value.int.inj (hi.inputBytes.symm.trans hj.inputBytes)
  rw [CaseIdentity.mk.injEq]
  exact ⟨Value.str.inj (hi.contract.symm.trans hj.contract),
    Value.str.inj (hi.manifest.symm.trans hj.manifest),
    Value.str.inj (hi.corpusId.symm.trans hj.corpusId),
    Value.str.inj (hi.inputSha256.symm.trans hj.inputSha256), Int.ofNat_inj.mp hbytes,
    Value.int.inj (hi.threadCount.symm.trans hj.threadCount),
    Value.str.inj (hi.metric.symm.trans hj.metric)⟩

/-- `_length_prefixed_identity` -/
def lengthPrefixedIdentity (fields : List Text) : Bytes :=
  fields.flatMap fun field => beBytes 4 (encode field).length ++ encode field

/-- `_case_identity_fields` -/
def CaseIdentity.fields (i : CaseIdentity) : List Text :=
  [i.contractSha256, i.corpusManifestSha256, i.corpusId, i.inputSha256,
    (toString i.inputBytes).toList, (toString i.threadCount).toList, i.metric]

def hexDigit (n : ℕ) : Char := "0123456789abcdef".toList.getD n '0'

/-- `hexdigest` -/
def hexDigest (b : Bytes) : Text :=
  b.flatMap fun byte => [hexDigit (byte.toNat / 16), hexDigit (byte.toNat % 16)]

/-- `derive_case_id` -/
def CaseIdentity.caseId (i : CaseIdentity) : Text :=
  caseIdPrefix ++ hexDigest (sha256 (lengthPrefixedIdentity (caseIdDomain :: i.fields)))

/-- `re.fullmatch(r"msc-case-v1-[0-9a-f]{64}", value)` -/
def isCaseId (text : Text) : Bool :=
  text.take caseIdPrefix.length = caseIdPrefix ∧ isSha256 (text.drop caseIdPrefix.length)

def requireCaseId (value : Value) (expected : Text) : Except ReportError Text := do
  let text ← requireText (fun text => isCaseId text ∧ (encode text).length ≤ maxCaseIdBytes) value
    "case_id must be the canonical derived identifier"
  raiseIf (text ≠ expected) (.message "case_id does not match the bound case identity")
  .ok text

/-! ### The size rule -/

/-- `max(4096, ceil(input_bytes / 2000))` -/
def allowedIncompressibleOverhead (inputBytes : ℕ) : ℕ := max 4096 ((inputBytes + 1999) / 2000)

/-- `_positive_integer` of the size of one comparator -/
def positiveSize (value : Value) (context : String) : Except ReportError ℕ :=
  requirePositiveInteger value context

/-- `sorted(sizes)[MEASURED_RUNS // 2]` of the sizes of one comparator -/
def medianSize (value : Value) (context : String) : Except ReportError ℕ :=
  match value with
  | .list items => do
      raiseIf (items.length ≠ measuredRuns) (.message (context ++ " must contain exactly 11 sizes"))
      let sizes ← forAll (fun sample => requirePositiveInteger sample context) items
      .ok ((sizes.mergeSort (· ≤ ·)).getD (measuredRuns / 2) 0)
  | _ => .error (.message (context ++ " must contain exactly 11 sizes"))

/-- One item of `_positive_size_mapping` and `_encrypted_size_mapping`. -/
def sizeOf (isSpace : Char → Bool) (size : Value → String → Except ReportError ℕ) (context : String)
    (item : Text × Value) : Except ReportError (Text × ℕ) := do
  raiseIf (item.1.all isSpace = true) (.message (context ++ " keys must be nonempty strings"))
  let n ← size item.2 (context ++ "." ++ String.ofList item.1)
  .ok (item.1, n)

def sizeMapping (isSpace : Char → Bool) (size : Value → String → Except ReportError ℕ)
    (value : Value) (context : String) : Except ReportError (List (Text × ℕ)) :=
  match value with
  | .dict m => do
      raiseIf (Mapping.keys m = []) (.message (context ++ " must be a nonempty mapping"))
      forAll (sizeOf isSpace size context) (Mapping.items m)
  | _ => .error (.message (context ++ " must be a nonempty mapping"))

/-- `min((size, comparator_id) for comparator_id, size in sizes.items())` -/
def smallestSize (sizes : List (Text × ℕ)) : Except ReportError (Text × ℕ) :=
  match (sizes.map fun s => toLex (s.2, s.1)).min? with
  | none => .error (.message "min() iterable argument is empty")
  | some least => .ok ((ofLex least).2, (ofLex least).1)

/-- The smallest size does not depend on the order of the comparators. -/
theorem smallestSize_perm {sizes sizes' : List (Text × ℕ)} (h : sizes.Perm sizes') :
    smallestSize sizes = smallestSize sizes' := by
  have hleast : (sizes.map fun s => toLex (s.2, s.1)).min? =
      (sizes'.map fun s => toLex (s.2, s.1)).min? := by
    ext least
    rw [List.min?_eq_some_iff, List.min?_eq_some_iff]
    simp only [(h.map _).mem_iff]
  rw [smallestSize, smallestSize, hleast]

/-- Two tables of sizes with the same entries. -/
theorem sizeMapping_perm {isSpace : Char → Bool} {size : Value → String → Except ReportError ℕ}
    {m m' : Mapping} {context : String} {sizes sizes' : List (Text × ℕ)}
    (hkeys : m.keys.toFinset = m'.keys.toFinset) (hget : ∀ k ∈ m.keys, m.get k = m'.get k)
    (h : sizeMapping isSpace size (.dict m) context = .ok sizes)
    (h' : sizeMapping isSpace size (.dict m') context = .ok sizes') : sizes.Perm sizes' := by
  simp only [sizeMapping, Except.bind_eq_ok_iff, forAll_eq_ok] at h h'
  obtain ⟨-, -, h⟩ := h
  obtain ⟨-, -, h'⟩ := h'
  have hitems : m.items.Perm m'.items := by
    have hsame : m.items = m.keys.map fun k => (k, m'.get k) := by
      refine List.map_congr_left ?_
      intro k hk
      rw [hget k hk]
    rw [hsame]
    exact (List.perm_of_nodup_nodup_toFinset_eq m.keys_nodup m'.keys_nodup hkeys).map _
  refine List.rel_perm_imp ?_ h h' hitems
  intro item s s' hs hs'
  exact Except.ok.inj (hs.symm.trans hs')

structure SizeVerdict where
  inputBytes : ℕ
  candidateArchiveBytes : ℕ
  bestRawComparatorId : Text
  bestRawArchiveBytes : ℕ
  smallestEncryptedComparatorId : Text
  smallestEncryptedComparatorArchiveBytes : ℕ
  smallestComparatorId : Text
  smallestComparatorArchiveBytes : ℕ
  incompressible : Bool
  allowanceBytes : ℕ
  selectedLimitBytes : ℕ
  selectedLimitSource : Text
  selectedLimitInclusive : Bool
  passed : Bool
  deriving DecidableEq, Repr

/-- The verdict on the three smallest sizes. -/
def sizeVerdict (inputSize candidateSize : ℕ) (bestRaw encrypted smallest : Text × ℕ) : SizeVerdict :=
  let incompressible : Bool := inputSize * 99 < bestRaw.2 * 100
  let allowance := allowedIncompressibleOverhead inputSize
  let inputLimit := inputSize + allowance
  { inputBytes := inputSize
    candidateArchiveBytes := candidateSize
    bestRawComparatorId := bestRaw.1
    bestRawArchiveBytes := bestRaw.2
    smallestEncryptedComparatorId := encrypted.1
    smallestEncryptedComparatorArchiveBytes := encrypted.2
    smallestComparatorId := smallest.1
    smallestComparatorArchiveBytes := smallest.2
    incompressible
    allowanceBytes := allowance
    selectedLimitBytes :=
      if incompressible then (if encrypted.2 ≤ inputLimit then encrypted.2 else inputLimit)
      else smallest.2
    selectedLimitSource :=
      if incompressible then
        (if encrypted.2 ≤ inputLimit then encrypted.1 else "input_plus_allowance".toList)
      else smallest.1
    selectedLimitInclusive := incompressible
    passed :=
      if incompressible then candidateSize ≤ inputLimit ∧ candidateSize ≤ encrypted.2
      else candidateSize < smallest.2 }

/-- `evaluate_size_case` -/
def evaluateSizeCase (isSpace : Char → Bool) (inputBytes : ℕ) (candidate raw encrypted : Value) :
    Except ReportError SizeVerdict := do
  let inputSize ← requirePositiveInteger (.int inputBytes) "input_bytes"
  let candidateSize ← requirePositiveInteger candidate "candidate_archive_bytes"
  let rawSizes ← sizeMapping isSpace positiveSize raw "raw_comparator_archive_bytes"
  let encryptedSizes ← sizeMapping isSpace medianSize encrypted "encrypted_comparator_archive_bytes"
  let overlap := (rawSizes.map Prod.fst).filter (· ∈ encryptedSizes.map Prod.fst)
  raiseIf (overlap ≠ [])
    (.listing "raw and encrypted comparator IDs must be disjoint: " (sorted overlap))
  let bestRaw ← smallestSize rawSizes
  let smallestEncrypted ← smallestSize encryptedSizes
  let smallest ← smallestSize (rawSizes ++ encryptedSizes)
  .ok (sizeVerdict inputSize candidateSize bestRaw smallestEncrypted smallest)

/-- The verdict depends on the entries of the two tables only. -/
theorem evaluateSizeCase_congr {isSpace : Char → Bool} {inputBytes : ℕ} {candidate : Value}
    {raw raw' encrypted encrypted' : Mapping} {v v' : SizeVerdict}
    (hraw : raw.keys.toFinset = raw'.keys.toFinset) (hrawGet : ∀ k ∈ raw.keys, raw.get k = raw'.get k)
    (henc : encrypted.keys.toFinset = encrypted'.keys.toFinset)
    (hencGet : ∀ k ∈ encrypted.keys, encrypted.get k = encrypted'.get k)
    (h : evaluateSizeCase isSpace inputBytes candidate (.dict raw) (.dict encrypted) = .ok v)
    (h' : evaluateSizeCase isSpace inputBytes candidate (.dict raw') (.dict encrypted') = .ok v') :
    v = v' := by
  simp only [evaluateSizeCase, Except.bind_eq_ok_iff, Except.ok.injEq] at h h'
  obtain ⟨input, hinput, candidateSize, hcandidate, rawSizes, hrawSizes, encryptedSizes,
    hencryptedSizes, -, -, best, hbest, least, hleast, smallest, hsmallest, rfl⟩ := h
  obtain ⟨input', hinput', candidateSize', hcandidate', rawSizes', hrawSizes', encryptedSizes',
    hencryptedSizes', -, -, best', hbest', least', hleast', smallest', hsmallest', rfl⟩ := h'
  have hrawPerm := sizeMapping_perm hraw hrawGet hrawSizes hrawSizes'
  have hencPerm := sizeMapping_perm henc hencGet hencryptedSizes hencryptedSizes'
  rw [smallestSize_perm hrawPerm] at hbest
  rw [smallestSize_perm hencPerm] at hleast
  rw [smallestSize_perm (hrawPerm.append hencPerm)] at hsmallest
  rw [Except.ok.inj (hinput.symm.trans hinput'), Except.ok.inj (hcandidate.symm.trans hcandidate'),
    Except.ok.inj (hbest.symm.trans hbest'), Except.ok.inj (hleast.symm.trans hleast'),
    Except.ok.inj (hsmallest.symm.trans hsmallest')]

/-! ### One scorecard case -/

/-- What is computed with floating-point numbers, with verdicts in `Verdict`. -/
structure Timing (Verdict : Type) where
  /-- The fastest comparator, after `_binding_metric_samples`. -/
  fastest : Text → Value → Except ReportError Text
  /-- `evaluate_metric_case` for every binding tool, from the samples of the candidate and those of
  the comparators. -/
  evaluate : CaseIdentity → Value → Value → Except ReportError (List Verdict)
  passed : Verdict → Bool

structure ScorecardCase (Verdict : Type) where
  caseId : Text
  identity : CaseIdentity
  threadCount : ℤ
  fastestComparatorId : Text
  metricVerdicts : List Verdict
  sizeVerdict : SizeVerdict
  passed : Bool

def scorecardCaseKeys : List Text :=
  ["case_id".toList, "contract_sha256".toList, "corpus_manifest_sha256".toList, "corpus_id".toList,
    "input_sha256".toList, "thread_count".toList, "metric".toList, "input_bytes".toList,
    "candidate_archive_bytes".toList, "candidate_samples".toList, "comparator_samples".toList,
    "raw_comparator_archive_bytes".toList, "encrypted_comparator_archive_bytes".toList]

def requireCorpusId (value : Value) : Except ReportError Text :=
  requireText (fun _ => true) value "corpus_id must be a canonical lowercase identifier"

def requireThreadCount (value : Value) (message : String) : Except ReportError ℤ :=
  match value with
  | .int z => if z ∈ threadTiers then .ok z else .error (.message message)
  | _ => .error (.message message)

/-- The check of the comparator names of a table of sizes. -/
def requireComparators (value : Value) (tools : List Text) (message : String) :
    Except ReportError Unit :=
  match value with
  | .dict m => raiseIf ((Mapping.keys m).toFinset ≠ tools.toFinset) (.message message)
  | _ => .error (.message message)

theorem requireThreadCount_eq_ok {value : Value} {message : String} {z : ℤ} :
    requireThreadCount value message = .ok z ↔ value = .int z ∧ z ∈ threadTiers := by
  cases value with
  | int w =>
      simp only [requireThreadCount, Value.int.injEq]
      split_ifs with h
      · simp only [Except.ok.injEq]
        constructor
        · rintro rfl
          exact ⟨rfl, h⟩
        · exact And.left
      · simp only [false_iff]
        rintro ⟨rfl, hz⟩
        exact h hz
  | _ => simp [requireThreadCount]

theorem requireComparators_eq_ok {value : Value} {tools : List Text} {message : String} {u : Unit} :
    requireComparators value tools message = .ok u ↔
      ∃ m, value = .dict m ∧ (Mapping.keys m).toFinset = tools.toFinset := by
  cases value <;> simp [requireComparators]

theorem requireCaseId_eq_ok {value : Value} {expected text : Text}
    (h : requireCaseId value expected = .ok text) : text = expected := by
  simp only [requireCaseId, Except.bind_eq_ok_iff, Except.raiseIf_eq_ok, Except.ok.injEq,
    not_not] at h
  obtain ⟨_, -, -, rfl, rfl⟩ := h
  rfl

/-- `evaluate_scorecard_case` -/
def evaluateScorecardCase {Verdict : Type} (isSpace : Char → Bool) (timing : Timing Verdict)
    (payload : Mapping) : Except ReportError (ScorecardCase Verdict) := do
  requireExactKeys payload scorecardCaseKeys "scorecard case"
  let contract ← requireSha256 (payload.get "contract_sha256".toList) "contract_sha256"
  let manifest ← requireSha256 (payload.get "corpus_manifest_sha256".toList) "corpus_manifest_sha256"
  let corpusId ← requireCorpusId (payload.get "corpus_id".toList)
  let inputSha256 ← requireSha256 (payload.get "input_sha256".toList) "input_sha256"
  let inputBytes ← requirePositiveInteger (payload.get "input_bytes".toList) "input_bytes"
  let threadCount ← requireThreadCount (payload.get "thread_count".toList)
    "thread_count must be one of (1, 8)"
  let metric ← requireText (fun text => text ∈ metrics) (payload.get "metric".toList) metricMessage
  let identity ← CaseIdentity.create contract manifest corpusId (.str inputSha256) (.int inputBytes)
    threadCount metric
  let caseId ← requireCaseId (payload.get "case_id".toList) identity.caseId
  let fastest ← timing.fastest metric (payload.get "comparator_samples".toList)
  requireComparators (payload.get "raw_comparator_archive_bytes".toList) bindingRawTools
    "raw comparator IDs must be exactly ['7zip_raw', 'zstd_raw']"
  requireComparators (payload.get "encrypted_comparator_archive_bytes".toList) bindingEncryptedTools
    "encrypted comparator IDs must be exactly ['7zip_aes256_headers', 'zstd_age_passphrase']"
  let verdicts ← timing.evaluate identity (payload.get "candidate_samples".toList)
    (payload.get "comparator_samples".toList)
  let size ← evaluateSizeCase isSpace inputBytes (payload.get "candidate_archive_bytes".toList)
    (payload.get "raw_comparator_archive_bytes".toList)
    (payload.get "encrypted_comparator_archive_bytes".toList)
  .ok ⟨caseId, identity, threadCount, fastest, verdicts, size,
    verdicts.all timing.passed && size.passed⟩

/-- What is evaluated is the case its payload declares. -/
theorem evaluateScorecardCase_eq_ok {Verdict : Type} {isSpace : Char → Bool} {timing : Timing Verdict}
    {payload : Mapping} {c : ScorecardCase Verdict}
    (h : evaluateScorecardCase isSpace timing payload = .ok c) :
    c.identity.DeclaredBy payload ∧ c.caseId = c.identity.caseId ∧
      c.threadCount = c.identity.threadCount ∧
      evaluateSizeCase isSpace c.identity.inputBytes (payload.get "candidate_archive_bytes".toList)
        (payload.get "raw_comparator_archive_bytes".toList)
        (payload.get "encrypted_comparator_archive_bytes".toList) = .ok c.sizeVerdict := by
  simp only [evaluateScorecardCase, Except.bind_eq_ok_iff, requireSha256_eq_ok, requireCorpusId,
    requireText_eq_ok, requirePositiveInteger_eq_ok, requireThreadCount_eq_ok,
    Except.ok.injEq] at h
  obtain ⟨-, -, contract, ⟨hcontract, -⟩, manifest, ⟨hmanifest, -⟩, corpusId, ⟨hcorpus, -⟩, digest,
    ⟨hdigest, -⟩, size, ⟨-, hsize⟩, threads, ⟨hthreads, -⟩, metric, ⟨hmetric, -⟩, identity, hidentity,
    caseId, hcaseId, fastest, -, -, -, -, -, verdicts, -, verdict, hverdict, rfl⟩ := h
  rcases identity with ⟨i₁, i₂, i₃, i₄, i₅, i₆, i₇⟩
  obtain ⟨-, heq, hdigest', hsize'⟩ := CaseIdentity.create_eq_ok hidentity
  simp only [CaseIdentity.mk.injEq, true_and] at heq
  obtain ⟨rfl, rfl, rfl, rfl, rfl⟩ := heq
  rw [Value.str.injEq] at hdigest'
  rw [Value.int.injEq, Int.ofNat_inj] at hsize'
  subst hdigest' hsize'
  exact ⟨⟨hcontract, hmanifest, hcorpus, hdigest, hsize, hthreads, hmetric⟩,
    requireCaseId_eq_ok hcaseId, rfl, hverdict⟩

end MosaicArchive.Report
