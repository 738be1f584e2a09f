import MosaicArchive.Report.Contract

/-!
The evaluation of a whole report (`mosaic_archive/competitive_report.py`): the
declared identities, the cases, which must form the required matrix, and the
index of the raw evidence, which must name every sample of every case. Splitting
a URL and reading an IP address are the library's.
-/

namespace MosaicArchive.Report

open Utf8 (Text encode)
open Except (raiseIf)

/-! ### Constants -/

def schemaName : Text := "report-v1".toList
def developmentEvidenceClass : Text := "development-unverified".toList
/-- `REQUIRED_CORPUS_IDS` -/
def requiredCorpusIds : List Text :=
  ["silesia-mixed".toList, "enwik8-text".toList, "linux-v6.12-v6.13-source-tree".toList,
    "gharchive-utc-hour-json".toList, "geonames-allcountries".toList,
    "wikimedia-precompressed-media".toList]
def expectedCaseCount : ℕ := 48
def expectedEvidenceCount : ℕ := 2640
def maxUrlBytes : ℕ := 2048
def maxWorkflowIdentityBytes : ℕ := 512
def maxCandidateTagBytes : ℕ := 128
/-- `_TOOLS_WITH_CANDIDATE` -/
def toolsWithCandidate : List Text := "candidate".toList :: bindingTools

def alphanumeric : Text := upperLetters ++ lowerLetters ++ digits

def isCommit (text : Text) : Bool := isHexOf 40 text

/-- `_CANDIDATE_TAG_RE` -/
def candidateTagPattern : RegularExpression Char :=
  let number := .char '0' + anyOf "123456789".toList * (anyOf digits).star
  let letters := oneOrMore (anyOf alphanumeric)
  .char 'v' * number * .char '.' * number * .char '.' * number *
    (1 + .char '-' * letters * (anyOf ".-".toList * letters).star)

def isCandidateTag (text : Text) : Bool :=
  (encode text).length ≤ maxCandidateTagBytes ∧ candidateTagPattern.rmatch text = true

/-- The pattern `_WORKFLOW_IDENTITY_RE` and the bound on the bytes. -/
def isWorkflowIdentity (text : Text) : Bool :=
  (encode text).length ≤ maxWorkflowIdentityBytes ∧
    (text.take 1).any (· ∈ alphanumeric) ∧ (text.drop 1).length ≤ 511 ∧
    (text.drop 1).all (· ∈ alphanumeric ++ "._:/@+-".toList)

/-! ### What the interpreter and its library do -/

/-- The attributes of `urlsplit(value)` that are read. -/
structure SplitUrl where
  scheme : Text
  netloc : Text
  path : Text
  query : Text
  fragment : Text
  hostname : Option Text
  username : Option Text
  password : Option Text
  port : Option ℕ

inductive IpAddress where
  | v4 (text : Text)
  | v6 (compressed : Text)

structure Library (Verdict : Type) where
  /-- `character.isspace()` -/
  isSpace : Char → Bool
  /-- `none` where it, or its port, raises `ValueError`. -/
  urlsplit : Text → Option SplitUrl
  /-- `ipaddress.ip_address`; `none` where it raises `ValueError`. -/
  ipAddress : Text → Option IpAddress
  timing : Timing Verdict

/-! ### Declared identities -/

structure CandidateIdentity where
  archiveFormat : Text
  profile : Text
  configurationId : Text
  nativeBinarySha256 : Text
  commitSha : Text
  candidateTag : Text
  deriving DecidableEq, Repr

structure RunnerIdentity where
  evidenceClass : Text
  runnerPolicySha256 : Text
  hardwareFingerprintSha256 : Text
  workflowIdentity : Text
  deriving DecidableEq, Repr

def candidateKeys : List Text :=
  ["archive_format".toList, "profile".toList, "configuration_id".toList,
    "native_binary_sha256".toList, "commit_sha".toList, "candidate_tag".toList]

def runnerKeys : List Text :=
  ["evidence_class".toList, "runner_policy_sha256".toList, "hardware_fingerprint_sha256".toList,
    "workflow_identity".toList]

def parseCandidate (value : Value) : Except ReportError CandidateIdentity := do
  let candidate ← requireObject value "candidate"
  requireExactKeys candidate candidateKeys "candidate"
  let archiveFormat ← requireLiteral (candidate.get "archive_format".toList) "MSC7".toList
    "candidate.archive_format"
  let profile ← requireLiteral (candidate.get "profile".toList) "adaptive-v1".toList
    "candidate.profile"
  let configurationId ← requireLiteral (candidate.get "configuration_id".toList)
    "msc7-default-v1".toList "candidate.configuration_id"
  let nativeBinarySha256 ← requireSha256 (candidate.get "native_binary_sha256".toList)
    "candidate.native_binary_sha256"
  let commitSha ← requireText isCommit (candidate.get "commit_sha".toList)
    "candidate.commit_sha must be a lowercase 40-character SHA"
  let candidateTag ← requireText isCandidateTag (candidate.get "candidate_tag".toList)
    "candidate.candidate_tag must be a canonical version tag"
  .ok ⟨archiveFormat, profile, configurationId, nativeBinarySha256, commitSha, candidateTag⟩

def parseRunner (value : Value) : Except ReportError RunnerIdentity := do
  let runner ← requireObject value "runner"
  requireExactKeys runner runnerKeys "runner"
  let _ ← requireLiteral (runner.get "evidence_class".toList) developmentEvidenceClass
    "runner.evidence_class"
  let runnerPolicySha256 ← requireSha256 (runner.get "runner_policy_sha256".toList)
    "runner.runner_policy_sha256"
  let hardwareFingerprintSha256 ← requireSha256 (runner.get "hardware_fingerprint_sha256".toList)
    "runner.hardware_fingerprint_sha256"
  let workflowIdentity ← requireText isWorkflowIdentity (runner.get "workflow_identity".toList)
    "runner.workflow_identity must be a canonical bounded workflow identity"
  .ok ⟨developmentEvidenceClass, runnerPolicySha256, hardwareFingerprintSha256, workflowIdentity⟩

/-! ### Cases -/

structure SizeFingerprint where
  inputSha256 : Text
  inputBytes : ℕ
  candidateArchiveBytes : ℕ
  rawSizes : List (Text × ℕ)
  encryptedSizes : List (Text × List ℕ)
  deriving DecidableEq, Repr

/-- `_PreflightCase` -/
structure PreflightCase where
  payload : Mapping
  identity : CaseIdentity
  sizeFingerprint : SizeFingerprint

/-- `case.size_fingerprint[:2]` -/
def PreflightCase.corpusInput (c : PreflightCase) : Text × ℕ :=
  (c.sizeFingerprint.inputSha256, c.sizeFingerprint.inputBytes)

/-- `_require_exact_size_mapping` -/
def requireExactSizeMapping (value : Value) (expectedIds : List Text) (context : String) :
    Except ReportError (List (Text × ℕ)) := do
  let sizes ← requireObject value context
  requireExactKeys sizes expectedIds context
  forAll (fun comparatorId => do
    let size ← requirePositiveInteger (sizes.get comparatorId)
      (context ++ "." ++ String.ofList comparatorId)
    .ok (comparatorId, size)) expectedIds

/-- `_require_encrypted_sizes` -/
def requireEncryptedSizes (value : Value) : Except ReportError (List (Text × List ℕ)) := do
  let context := "encrypted_comparator_archive_bytes"
  let sizes ← requireObject value context
  requireExactKeys sizes bindingEncryptedTools context
  forAll (fun comparatorId => do
    let samples ← requireSequence (sizes.get comparatorId)
      (context ++ "." ++ String.ofList comparatorId) measuredRuns
    let bytes ← forAll (fun sample =>
      requirePositiveInteger sample (context ++ "." ++ String.ofList comparatorId)) samples
    .ok (comparatorId, bytes)) bindingEncryptedTools

/-- `_preflight_case`, at `context` in the report -/
def preflightCase (context : String) (contract manifest : Text) (value : Value) :
    Except ReportError PreflightCase := do
  let case ← requireObject value context
  requireExactKeys case scorecardCaseKeys context
  let _ ← requireText (· = contract) (case.get "contract_sha256".toList)
    (context ++ ".contract_sha256 is inconsistent with report")
  let _ ← requireText (· = manifest) (case.get "corpus_manifest_sha256".toList)
    (context ++ ".corpus_manifest_sha256 is inconsistent with report")
  let corpusId ← requireText (· ∈ requiredCorpusIds) (case.get "corpus_id".toList)
    (context ++ ".corpus_id is not in the exact corpus matrix")
  let metric ← requireText (· ∈ metrics) (case.get "metric".toList)
    (context ++ ".metric is not in the exact metric matrix")
  let threadCount ← requireThreadCount (case.get "thread_count".toList)
    (context ++ ".thread_count is not in the exact thread matrix")
  let identity ← (CaseIdentity.create contract manifest corpusId (case.get "input_sha256".toList)
    (case.get "input_bytes".toList) threadCount metric).mapError (.within context)
  let _ ← requireText (· = identity.caseId) (case.get "case_id".toList)
    (context ++ ".case_id does not match its bound identity")
  let inputBytes ← requirePositiveInteger (case.get "input_bytes".toList) (context ++ ".input_bytes")
  let candidateArchiveBytes ← requirePositiveInteger (case.get "candidate_archive_bytes".toList)
    (context ++ ".candidate_archive_bytes")
  let rawSizes ← requireExactSizeMapping (case.get "raw_comparator_archive_bytes".toList)
    bindingRawTools (context ++ ".raw_comparator_archive_bytes")
  let encryptedSizes ← requireEncryptedSizes (case.get "encrypted_comparator_archive_bytes".toList)
  .ok ⟨case, identity,
    ⟨identity.inputSha256, inputBytes, candidateArchiveBytes, rawSizes, encryptedSizes⟩⟩

/-- The records of sizes of a case, as the report has them. -/
def sizeRecords (payload : Mapping) : List Value :=
  payload.get "input_sha256".toList :: payload.get "input_bytes".toList ::
    payload.get "candidate_archive_bytes".toList ::
    (bindingRawTools.map (payload.get "raw_comparator_archive_bytes".toList).entry ++
      bindingEncryptedTools.map (payload.get "encrypted_comparator_archive_bytes".toList).entry)

def SizeFingerprint.records (f : SizeFingerprint) : List Value :=
  .str f.inputSha256 :: .int f.inputBytes :: .int f.candidateArchiveBytes ::
    (f.rawSizes.map (fun size => .int size.2) ++
      f.encryptedSizes.map fun size => .list (size.2.map fun bytes : ℕ => .int bytes))

theorem requireExactSizeMapping_eq_ok {value : Value} {ids : List Text} {context : String}
    {sizes : List (Text × ℕ)} (h : requireExactSizeMapping value ids context = .ok sizes) :
    (∃ m, value = .dict m ∧ (Mapping.keys m).toFinset = ids.toFinset) ∧
      ids.map value.entry = sizes.map fun size => .int size.2 := by
  simp only [requireExactSizeMapping, Except.bind_eq_ok_iff, requireObject_eq_ok,
    requireExactKeys_eq_ok] at h
  obtain ⟨m, rfl, -, hkeys, hsizes⟩ := h
  refine ⟨⟨m, rfl, hkeys⟩, map_eq_of_forAll hsizes ?_⟩
  intro comparatorId size hsize
  simp only [Except.bind_eq_ok_iff, requirePositiveInteger_eq_ok, Except.ok.injEq] at hsize
  obtain ⟨n, ⟨-, hn⟩, rfl⟩ := hsize
  exact hn

theorem requireEncryptedSizes_eq_ok {value : Value} {sizes : List (Text × List ℕ)}
    (h : requireEncryptedSizes value = .ok sizes) :
    (∃ m, value = .dict m ∧ (Mapping.keys m).toFinset = bindingEncryptedTools.toFinset) ∧
      bindingEncryptedTools.map value.entry =
        sizes.map fun size => .list (size.2.map fun bytes : ℕ => .int bytes) := by
  simp only [requireEncryptedSizes, Except.bind_eq_ok_iff, requireObject_eq_ok,
    requireExactKeys_eq_ok] at h
  obtain ⟨m, rfl, -, hkeys, hsizes⟩ := h
  refine ⟨⟨m, rfl, hkeys⟩, map_eq_of_forAll hsizes ?_⟩
  intro comparatorId size hsize
  simp only [Except.bind_eq_ok_iff, requireSequence_eq_ok, Except.ok.injEq] at hsize
  obtain ⟨samples, ⟨hsamples, -⟩, bytes, hbytes, rfl⟩ := hsize
  rw [Value.entry_dict, hsamples, Value.list.injEq]
  have hmap := map_eq_of_forAll (g := id) (k := fun n : ℕ => Value.int n) hbytes ?_
  · simpa using hmap
  · intro sample n hn
    exact (requirePositiveInteger_eq_ok.mp hn).2

/-- What a pre-checked case has been checked for. -/
structure PreflightCase.Checked (c : PreflightCase) : Prop where
  declared : c.identity.DeclaredBy c.payload
  valid : c.identity.Checked
  records : sizeRecords c.payload = c.sizeFingerprint.records
  input : c.corpusInput = (c.identity.inputSha256, c.identity.inputBytes)
  raw : ∃ m, c.payload.get "raw_comparator_archive_bytes".toList = .dict m ∧
    (Mapping.keys m).toFinset = bindingRawTools.toFinset
  encrypted : ∃ m, c.payload.get "encrypted_comparator_archive_bytes".toList = .dict m ∧
    (Mapping.keys m).toFinset = bindingEncryptedTools.toFinset

/-- The place in the report is in the messages only. -/
theorem preflightCase_context (context context' : String) {contract manifest : Text} {value : Value}
    {c : PreflightCase} : preflightCase context contract manifest value = .ok c ↔
      preflightCase context' contract manifest value = .ok c := by
  simp only [preflightCase, requireExactSizeMapping, Except.bind_eq_ok_iff, requireObject_eq_ok,
    requireExactKeys_eq_ok, requireText_eq_ok, requireThreadCount_eq_ok, Except.mapError_eq_ok,
    requirePositiveInteger_eq_ok, forAll_eq_ok]

theorem preflightCase_eq_ok {context : String} {contract manifest : Text} {value : Value}
    {c : PreflightCase} (h : preflightCase context contract manifest value = .ok c) :
    value = .dict c.payload ∧ c.Checked := by
  simp only [preflightCase, Except.bind_eq_ok_iff, requireObject_eq_ok,
    requireExactKeys_eq_ok, requireText_eq_ok, requireThreadCount_eq_ok, Except.mapError_eq_ok,
    requirePositiveInteger_eq_ok, Except.ok.injEq, decide_eq_true_eq] at h
  obtain ⟨payload, rfl, -, -, _, ⟨hcontract, rfl⟩, _, ⟨hmanifest, rfl⟩, corpusId, ⟨hcorpus, -⟩,
    metric, ⟨hmetric, -⟩, threads, ⟨hthreads, -⟩, identity, hidentity, caseId, ⟨hcaseId, -⟩, size,
    ⟨-, hsize⟩, candidate, ⟨-, hcandidate⟩, raw, hraw, encrypted, hencrypted, rfl⟩ := h
  rcases identity with ⟨i₁, i₂, i₃, i₄, i₅, i₆, i₇⟩
  obtain ⟨hchecked, heq, hdigest, hbytes⟩ := CaseIdentity.create_eq_ok hidentity
  simp only [CaseIdentity.mk.injEq, true_and] at heq
  obtain ⟨rfl, rfl, rfl, rfl, rfl⟩ := heq
  have hsame : size = i₅ := Int.ofNat_inj.mp (Value.int.inj (hsize.symm.trans hbytes))
  subst hsame
  obtain ⟨hrawKeys, hrawEntries⟩ := requireExactSizeMapping_eq_ok hraw
  obtain ⟨hencryptedKeys, hencryptedEntries⟩ := requireEncryptedSizes_eq_ok hencrypted
  refine ⟨rfl, ⟨⟨hcontract, hmanifest, hcorpus, hdigest, hbytes, hthreads, hmetric⟩, hchecked, ?_, rfl,
    hrawKeys, hencryptedKeys⟩⟩
  rw [sizeRecords, hdigest, hbytes, hcandidate, hrawEntries, hencryptedEntries]
  rfl

/-- A corpus, a thread tier and a metric. -/
abbrev Coordinate := Text × ℤ × Text

def PreflightCase.coordinate (c : PreflightCase) : Coordinate :=
  (c.identity.corpusId, c.identity.threadCount, c.identity.metric)

def PreflightCase.tier (c : PreflightCase) : Text × ℤ := (c.identity.corpusId, c.identity.threadCount)

/-- `table.get(key)` of a dictionary, the latest item first. -/
def find {κ α : Type} [DecidableEq κ] (table : List (κ × α)) (key : κ) : Option α :=
  (List.find? (fun item => item.1 = key) table).map Prod.snd

/-- `table.setdefault(key, value)`: what it returns. -/
def defaulted {κ α : Type} [DecidableEq κ] (table : List (κ × α)) (key : κ) (value : α) : α :=
  (find table key).getD value

/-- `table.setdefault(key, value)`: the table it leaves. -/
def withDefault {κ α : Type} [DecidableEq κ] (table : List (κ × α)) (key : κ) (value : α) :
    List (κ × α) :=
  match find table key with
  | some _ => table
  | none => (key, value) :: table

/-- The three dictionaries of `_preflight_cases`. -/
structure MatrixTables where
  byCoordinate : List (Coordinate × PreflightCase) := []
  sizeByTier : List ((Text × ℤ) × SizeFingerprint) := []
  inputByCorpus : List (Text × (Text × ℕ)) := []

def Coordinate.text (c : Coordinate) : String :=
  "('" ++ String.ofList c.1 ++ "', " ++ toString c.2.1 ++ ", '" ++ String.ofList c.2.2 ++ "')"

/-- One round of the loop of `_preflight_cases`. -/
def MatrixTables.enter (t : MatrixTables) (c : PreflightCase) : Except ReportError MatrixTables := do
  raiseIf ((find t.byCoordinate c.coordinate).isSome = true)
    (.message ("duplicate report case coordinate: " ++ Coordinate.text c.coordinate))
  raiseIf (defaulted t.sizeByTier c.tier c.sizeFingerprint ≠ c.sizeFingerprint)
    (.message ("inconsistent input identity or size records for corpus/thread ('" ++
      String.ofList c.tier.1 ++ "', " ++ toString c.tier.2 ++ ")"))
  raiseIf (defaulted t.inputByCorpus c.identity.corpusId c.corpusInput ≠ c.corpusInput)
    (.message ("inconsistent prepared input identity across corpus thread tiers: '" ++
      String.ofList c.identity.corpusId ++ "'"))
  .ok ⟨(c.coordinate, c) :: t.byCoordinate, withDefault t.sizeByTier c.tier c.sizeFingerprint,
    withDefault t.inputByCorpus c.identity.corpusId c.corpusInput⟩

def MatrixTables.enterAll : MatrixTables → List PreflightCase → Except ReportError MatrixTables
  | t, [] => .ok t
  | t, c :: cs => do
      let t ← t.enter c
      t.enterAll cs

/-- The required coordinates in canonical order. -/
def requiredMatrix : List Coordinate :=
  requiredCorpusIds.flatMap fun corpusId => threadTiers.flatMap fun threadCount =>
    metrics.map fun metric => (corpusId, threadCount, metric)

/-- `by_coordinate[coordinate]` -/
def MatrixTables.caseAt (t : MatrixTables) (coordinate : Coordinate) :
    Except ReportError PreflightCase :=
  match find t.byCoordinate coordinate with
  | some c => .ok c
  | none => .error (.message (Coordinate.text coordinate))

/-- The cases of the required matrix, from the tables. -/
def MatrixTables.inOrder (t : MatrixTables) : Except ReportError (List PreflightCase) := do
  raiseIf ((t.byCoordinate.map Prod.fst).toFinset ≠ requiredMatrix.toFinset)
    (.message "cases do not form the exact required report matrix")
  forAll t.caseAt requiredMatrix

def caseContext (index : ℕ) : String := "cases[" ++ toString index ++ "]"

/-- `_preflight_cases` -/
def preflightCases (value : Value) (contract manifest : Text) :
    Except ReportError (List PreflightCase) := do
  let cases ← requireSequence value "cases" expectedCaseCount
  let preflight ← forAll (fun item : Value × ℕ =>
    preflightCase (caseContext item.2) contract manifest item.1) cases.zipIdx
  let tables ← MatrixTables.enterAll {} preflight
  tables.inOrder

/-! ### Raw evidence -/

/-- `f"{index:02d}"` -/
def twoDigits (index : ℕ) : Text :=
  if index < 10 then '0' :: (toString index).toList else (toString index).toList

def sampleId (caseId toolId : Text) (runIndex : ℕ) : Text :=
  caseId ++ '/' :: toolId ++ '/' :: twoDigits runIndex

structure RawEvidenceReference where
  sampleId : Text
  sha256 : Text
  url : Text
  deriving DecidableEq, Repr

def evidenceKeys : List Text := ["sha256".toList, "url".toList]

/-- `[a-z0-9](?:[a-z0-9-]{0,61}[a-z0-9])?` -/
def isDnsLabel (label : Text) : Bool :=
  label.length ≤ 63 ∧ (label.take 1).any (· ∈ lowerLetters ++ digits) ∧
    (label.reverse.take 1).any (· ∈ lowerLetters ++ digits) ∧
    label.all (· ∈ '-' :: lowerLetters ++ digits)

/-- `[0-9.]+` -/
def isIpv4Like (hostname : Text) : Bool := hostname ≠ [] ∧ hostname.all (· ∈ '.' :: digits)

/-- `[A-Za-z0-9._~-]+` -/
def isUrlPathSegment (segment : Text) : Bool :=
  segment ≠ [] ∧ segment.all (· ∈ alphanumeric ++ "._~-".toList)

section

variable {Verdict : Type} (library : Library Verdict)

/-- `value.strip()` -/
def strip (value : Text) : Text :=
  ((value.dropWhile library.isSpace).reverse.dropWhile library.isSpace).reverse

/-- `_canonical_url_authority` -/
def canonicalUrlAuthority (hostname : Text) (context : String) : Except ReportError Text := do
  raiseIf (hostname.any (fun c => 128 ≤ c.toNat) = true)
    (.message (context ++ " host must use canonical ASCII syntax"))
  match library.ipAddress hostname with
  | some (.v4 text) => .ok text
  | some (.v6 compressed) => .ok ('[' :: compressed ++ [']'])
  | none => do
      raiseIf (hostname = [] ∨ 253 < hostname.length ∨ hostname.getLast? = some '.' ∨
          isIpv4Like hostname = true)
        (.message (context ++ " host must be a canonical DNS name or IP address"))
      raiseIf ((hostname.splitOn '.').all isDnsLabel = false)
        (.message (context ++ " host must be a canonical DNS name or IP address"))
      .ok hostname

/-- The checks of the text before it is split. -/
def isBoundedUrlText (value : Text) : Bool :=
  value ≠ [] ∧ (encode value).length ≤ maxUrlBytes ∧ value = strip library value ∧ '%' ∉ value ∧
    '\\' ∉ value ∧
    value.all fun c => library.isSpace c = false ∧ 0x20 ≤ c.toNat ∧ c.toNat ≠ 0x7f

/-- The checks of the path of a content-addressed URL. -/
def isContentAddressed (path digest : Text) : Bool :=
  let segments := path.splitOn '/'
  path.head? = some '/' ∧ 2 ≤ segments.length ∧
    (segments.drop 1).all (fun segment =>
      segment ∉ [[], ['.'], ['.', '.']] ∧ isUrlPathSegment segment = true) ∧
    segments.getLastD [] ∈ [digest, digest ++ ".json".toList]

/-- `_validate_evidence_url` -/
def validateEvidenceUrl (value : Value) (digest : Text) (context : String) :
    Except ReportError Text := do
  let url ← requireText (isBoundedUrlText library) value
    (context ++ " must be a bounded canonical HTTPS URL")
  match library.urlsplit url with
  | none => .error (.message (context ++ " must be a valid HTTPS URL"))
  | some parsed =>
      match parsed.hostname with
      | none => .error (.message (context ++ " must be an unauthenticated content-addressed HTTPS URL"))
      | some hostname => do
          raiseIf (parsed.scheme ≠ "https".toList ∨ ¬ "https://".toList <+: url ∨
              parsed.username.isSome = true ∨ parsed.password.isSome = true ∨
              parsed.port.isSome = true ∨ parsed.query ≠ [] ∨ parsed.fragment ≠ [])
            (.message (context ++ " must be an unauthenticated content-addressed HTTPS URL"))
          let authority ← canonicalUrlAuthority library hostname context
          raiseIf (parsed.netloc ≠ authority ∨ isContentAddressed parsed.path digest = false)
            (.message (context ++ " must be a canonical content-addressed HTTPS URL"))
          .ok url

/-- The ids of all samples of the cases. -/
def sampleIds (caseIds : List Text) : List Text :=
  caseIds.flatMap fun caseId => toolsWithCandidate.flatMap fun toolId =>
    (List.range measuredRuns).map (sampleId caseId toolId)

def parseReference (evidence : Mapping) (id : Text) : Except ReportError RawEvidenceReference := do
  let context := "raw_evidence_index['" ++ String.ofList id ++ "']"
  let entry ← requireObject (evidence.get id) context
  requireExactKeys entry evidenceKeys context
  let digest ← requireSha256 (entry.get "sha256".toList) (context ++ ".sha256")
  let url ← validateEvidenceUrl library (entry.get "url".toList) digest (context ++ ".url")
  .ok ⟨id, digest, url⟩

/-- `_parse_raw_evidence_index` -/
def parseRawEvidenceIndex (value : Value) (caseIds : List Text) :
    Except ReportError (List RawEvidenceReference) := do
  let evidence ← requireObject value "raw_evidence_index"
  let expected := sampleIds caseIds
  let actual := evidence.keys.toFinset
  raiseIf (evidence.keys.length ≠ expectedEvidenceCount ∨ actual ≠ expected.toFinset)
    (.message ("raw_evidence_index must map every and only expected run/sample; expected=2640, " ++
      "actual=" ++ toString evidence.keys.length ++ ", missing=" ++
      toString (expected.toFinset \ actual).card ++ ", unexpected=" ++
      toString (actual \ expected.toFinset).card))
  forAll (parseReference library evidence) (sorted expected.dedup)

/-! ### The report -/

structure CompetitiveReport (Verdict : Type) where
  schemaName : Text
  contractSha256 : Text
  corpusManifestSha256 : Text
  candidate : CandidateIdentity
  runner : RunnerIdentity
  cases : List (ScorecardCase Verdict)
  rawEvidenceIndex : List RawEvidenceReference
  scorecardPassed : Bool

def reportKeys : List Text :=
  ["schema_name".toList, "contract_sha256".toList, "corpus_manifest_sha256".toList,
    "candidate".toList, "runner".toList, "cases".toList, "raw_evidence_index".toList]

/-- `evaluate_competitive_report` -/
def evaluateCompetitiveReport (report : Value) : Except ReportError (CompetitiveReport Verdict) := do
  let root ← requireObject report "report"
  requireExactKeys root reportKeys "report"
  let schema ← requireLiteral (root.get "schema_name".toList) schemaName "schema_name"
  let contract ← requireSha256 (root.get "contract_sha256".toList) "contract_sha256"
  raiseIf (contract ≠ contractSha256)
    (.message "contract_sha256 must bind the exact Competitive Contract v1 bytes")
  let manifest ← requireSha256 (root.get "corpus_manifest_sha256".toList) "corpus_manifest_sha256"
  let candidate ← parseCandidate (root.get "candidate".toList)
  let runner ← parseRunner (root.get "runner".toList)
  let preflight ← preflightCases (root.get "cases".toList) contract manifest
  let evidence ← parseRawEvidenceIndex library (root.get "raw_evidence_index".toList)
    (preflight.map fun c => c.identity.caseId)
  let cases ← forAll (fun item : PreflightCase × ℕ =>
    (evaluateScorecardCase library.isSpace library.timing item.1.payload).mapError
      (.within (caseContext item.2 ++ " failed raw recomputation"))) preflight.zipIdx
  .ok ⟨schema, contract, manifest, candidate, runner, cases, evidence,
    cases.length = expectedCaseCount ∧ cases.all (fun c => c.passed)⟩

end

end MosaicArchive.Report
