import MosaicArchive.Corpus.Decoder
import MosaicArchive.Crypto.Sha256
import MosaicArchive.Report.Contract

/-!
The parser of a corpus lock (`mosaic_archive/competitive_corpus.py`), from the bytes of the file
to the lock. A context is the path of the value that is checked.
-/

namespace MosaicArchive.Corpus

open FixedWidth
open Except (raiseIf)

/-! ### Constants -/

def schemaVersion : ℕ := 1
def expectedContractId : PyText := lit "mosaic-competitive-contract-v1"
def minPreparedBytes : ℕ := 67108864
def maxLockBytes : ℕ := 1048576
def maxCorpusFileBytes : ℕ := 16 * 1024 ^ 3
def maxTotalDeclaredBytes : ℕ := 64 * 1024 ^ 3

def requiredCorpusIds : List PyText :=
  [lit "silesia-mixed", lit "enwik8-text", lit "linux-v6.12-v6.13-source-tree",
    lit "gharchive-utc-hour-json", lit "geonames-allcountries", lit "wikimedia-precompressed-media"]

def topLevelKeys : List PyText := [lit "schema_version", lit "contract_id", lit "corpora"]
def corpusKeys : List PyText :=
  [lit "id", lit "snapshot_id", lit "source", lit "prepared", lit "preparation", lit "license"]
def sourceKeys : List PyText := [lit "path", lit "bytes", lit "sha256", lit "url"]
def lockedFileKeys : List PyText := [lit "path", lit "bytes", lit "sha256"]
def preparationKeys : List PyText := [lit "recipe_id", lit "parameters"]
def parameterKeys : List PyText := [lit "name", lit "value"]
def licenseKeys : List PyText :=
  [lit "name", lit "spdx_id", lit "non_spdx_explanation", lit "url", lit "attribution",
    lit "attribution_url", lit "redistribution_approved", lit "human_approver",
    lit "approval_date", lit "evidence"]

/-! ### The lock -/

structure LockedFile where
  path : PyText
  bytes : ℕ
  sha256 : PyText
  deriving DecidableEq

structure SourceArtifact extends LockedFile where
  url : PyText

inductive ParameterValue where
  | str (text : PyText)
  | int (z : ℤ)
  | bool (b : Bool)

structure PreparationParameter where
  name : PyText
  value : ParameterValue

structure PreparationRecipe where
  recipeId : PyText
  parameters : List PreparationParameter

def isLeapYear (year : ℕ) : Bool := year % 4 = 0 ∧ (year % 100 ≠ 0 ∨ year % 400 = 0)

def daysInMonth (year month : ℕ) : ℕ :=
  if month = 2 then (if isLeapYear year = true then 29 else 28)
  else if month ∈ [4, 6, 9, 11] then 30 else 31

/-- A day of the calendar. -/
structure Date where
  year : ℕ
  month : ℕ
  day : ℕ
  isValid : (1 ≤ year ∧ year ≤ 9999) ∧ (1 ≤ month ∧ month ≤ 12) ∧
    1 ≤ day ∧ day ≤ daysInMonth year month

structure LicenseRecord where
  name : PyText
  spdxId : Option PyText
  nonSpdxExplanation : Option PyText
  url : PyText
  attribution : PyText
  attributionUrl : PyText
  humanApprover : PyText
  approvalDate : Date
  evidence : LockedFile

structure CompetitiveCorpus where
  id : PyText
  snapshotId : PyText
  source : SourceArtifact
  prepared : LockedFile
  preparation : PreparationRecipe
  license : LicenseRecord

def CompetitiveCorpus.files (corpus : CompetitiveCorpus) : List LockedFile :=
  [corpus.source.toLockedFile, corpus.prepared, corpus.license.evidence]

structure CompetitiveCorpusLock where
  schemaVersion : ℕ
  contractId : PyText
  corpora : List CompetitiveCorpus
  manifestSha256 : Utf8.Text

/-! ### Objects and arrays -/

abbrev Entries := List (PyText × Value)

/-- `value[key]` -/
def Entries.item (entries : Entries) (key : String) : Except LockError Value :=
  match entries.find? fun entry => entry.1 = lit key with
  | some entry => .ok entry.2
  | none => .error .missingKey

def sortTexts (texts : List PyText) : List PyText :=
  texts.mergeSort fun first second => decide (first.map CodePoint.ord ≤ second.map CodePoint.ord)

/-- `_expect_object` -/
def expectObject (value : Value) (expectedKeys : List PyText) (context : String) :
    Except LockError Entries :=
  match value with
  | .dict entries => do
      let actualKeys := entries.map Prod.fst
      let missing := sortTexts (expectedKeys.filter (· ∉ actualKeys))
      let extra := sortTexts (actualKeys.filter (· ∉ expectedKeys))
      raiseIf ((∃ key ∈ expectedKeys, key ∉ actualKeys) ∨ ∃ key ∈ actualKeys, key ∉ expectedKeys)
        (.validation (context ++ " keys must be exact; missing, extra: ") (missing ++ extra))
      pure entries
  | _ => .error (invalid (context ++ " must be a JSON object"))

/-- `_expect_array` -/
def expectArray (value : Value) (context : String) : Except LockError (List Value) :=
  match value with
  | .list items => .ok items
  | _ => .error (invalid (context ++ " must be a JSON array"))

section

variable (library : Library)

/-! ### Files -/

/-- A number of bytes between the least and the greatest one. -/
def expectSize (value : Value) (context : String) (minimumBytes : ℕ) : Except LockError ℕ := do
  let byteLength ← expectPositiveInt value (context ++ ".bytes")
  raiseIf (byteLength < minimumBytes) (invalid
    (context ++ ".bytes is below the minimum of " ++ toString minimumBytes ++ " bytes"))
  raiseIf (maxCorpusFileBytes < byteLength) (invalid
    (context ++ ".bytes exceeds the per-file limit of " ++ toString maxCorpusFileBytes))
  pure byteLength

/-- The path, the size and the digest of a file. -/
def parseIdentity (value : Entries) (context : String) (minimumBytes : ℕ) :
    Except LockError LockedFile := do
  let byteLength ← expectSize (← value.item "bytes") context minimumBytes
  let path ← expectRelativePath library (← value.item "path") context
  let sha256 ← expectSha256 (← value.item "sha256") context
  pure ⟨path, byteLength, sha256⟩

/-- `_parse_locked_file` -/
def parseLockedFile (raw : Value) (context : String) (minimumBytes : ℕ) :
    Except LockError LockedFile := do
  let value ← expectObject raw lockedFileKeys context
  parseIdentity library value context minimumBytes

/-- `_parse_source`; the size is positive, so that a least size of one changes nothing. -/
def parseSource (raw : Value) (context : String) : Except LockError SourceArtifact := do
  let value ← expectObject raw sourceKeys context
  let file ← parseIdentity library value context 1
  let url ← expectHttpsUrl library (← value.item "url") (context ++ ".url")
  pure ⟨file, url⟩

/-! ### The preparation -/

/-- `_parse_parameter_value` -/
def parseParameterValue (value : Value) (context : String) : Except LockError ParameterValue :=
  match value with
  | .bool b => .ok (.bool b)
  | .int z => .ok (.int z)
  | .str text => do
      let text ← expectString library (.str text) context
      pure (.str text)
  | _ => .error (invalid (context ++ " value must be a string, integer, or boolean"))

/-- One parameter, with the names before it. -/
def parseParameter (raw : Value) (context : String) (index : ℕ) (names : List PyText) :
    Except LockError PreparationParameter := do
  let parameterContext := context ++ ".parameters[" ++ toString index ++ "]"
  let parameter ← expectObject raw parameterKeys parameterContext
  let name ← expectStableIdentifier library (← parameter.item "name") (parameterContext ++ ".name")
  raiseIf (name ∈ names)
    (.validation (context ++ ".parameters has duplicate parameter name: ") [name])
  let value ← parseParameterValue library (← parameter.item "value") (parameterContext ++ ".value")
  pure ⟨name, value⟩

def parseParameters (context : String) : ℕ → List PyText → List Value →
    Except LockError (List PreparationParameter)
  | _, _, [] => pure []
  | index, names, raw :: parametersRaw => do
      let parameter ← parseParameter library raw context index names
      let parameters ← parseParameters context (index + 1) (parameter.name :: names) parametersRaw
      pure (parameter :: parameters)

/-- `_parse_preparation` -/
def parsePreparation (raw : Value) (context : String) : Except LockError PreparationRecipe := do
  let value ← expectObject raw preparationKeys context
  let parametersRaw ← expectArray (← value.item "parameters") (context ++ ".parameters")
  let parameters ← parseParameters library context 0 [] parametersRaw
  let recipeId ← expectStableIdentifier library (← value.item "recipe_id") (context ++ ".recipe_id")
  pure ⟨recipeId, parameters⟩

/-! ### The licence -/

def digitValue (c : CodePoint) : ℕ := c.ord - '0'.toNat

def numberOf (digits : PyText) : ℕ := digits.foldl (fun n c => 10 * n + digitValue c) 0

/-- `_DATE_RE.fullmatch` -/
def isDateText (text : PyText) : Bool :=
  text.length = 10 ∧ text.zipIdx.all fun character =>
    if character.2 = 4 ∨ character.2 = 7 then character.1 = .scalar '-'
    else oneOf digits character.1

/-- `date.fromisoformat(raw)` for what the pattern accepts; nothing where it raises
`ValueError`. -/
def dateFromIsoFormat (raw : PyText) : Option Date :=
  let year := numberOf (raw.take 4)
  let month := numberOf ((raw.drop 5).take 2)
  let day := numberOf (raw.drop 8)
  if h : (1 ≤ year ∧ year ≤ 9999) ∧ (1 ≤ month ∧ month ≤ 12) ∧
      1 ≤ day ∧ day ≤ daysInMonth year month then
    some ⟨year, month, day, h⟩
  else none

/-- `_parse_approval_date` -/
def parseApprovalDate (value : Value) (context : String) : Except LockError Date := do
  let raw ← expectString library value context
  raiseIf (isDateText raw = false) (invalid (context ++ " must use YYYY-MM-DD"))
  match dateFromIsoFormat raw with
  | some date => pure date
  | none => .error (invalid (context ++ " is not a valid calendar date"))

/-- A string or nothing. -/
def expectOptionalText (value : Value) (context : String) : Except LockError (Option PyText) :=
  match value with
  | .null => .ok none
  | .str text => .ok (some text)
  | _ => .error (invalid (context ++ " must be a string or null"))

/-- The identifier and the explanation, one of which is there. -/
def parseTerms (value : Entries) (context : String) :
    Except LockError (Option PyText × Option PyText) := do
  let rawSpdxId ← value.item "spdx_id"
  let rawExplanation ← value.item "non_spdx_explanation"
  let spdxText ← expectOptionalText rawSpdxId (context ++ ".spdx_id")
  let explanationText ← expectOptionalText rawExplanation (context ++ ".non_spdx_explanation")
  let spdxId := spdxText.filter fun text => strip library text ≠ []
  let explanation := explanationText.filter fun text => strip library text ≠ []
  raiseIf (spdxId.isSome = explanation.isSome)
    (invalid (context ++ " requires exactly one of spdx_id or non_spdx_explanation"))
  raiseIf (spdxId.any (fun text => !isSpdxId text) = true)
    (invalid (context ++ ".spdx_id is not a valid SPDX ID"))
  pure (spdxId, explanation)

def requireApproved (approved : Value) (context : String) : Except LockError Unit :=
  match approved with
  | .bool true => pure ()
  | _ => .error (invalid (context ++ ".redistribution_approved must be the boolean true"))

/-- `_parse_license` -/
def parseLicense (raw : Value) (context : String) : Except LockError LicenseRecord := do
  let value ← expectObject raw licenseKeys context
  let terms ← parseTerms library value context
  requireApproved (← value.item "redistribution_approved") context
  let name ← expectString library (← value.item "name") (context ++ ".name")
  let url ← expectHttpsUrl library (← value.item "url") (context ++ ".url")
  let attribution ← expectString library (← value.item "attribution") (context ++ ".attribution")
  let attributionUrl ←
    expectHttpsUrl library (← value.item "attribution_url") (context ++ ".attribution_url")
  let humanApprover ←
    expectString library (← value.item "human_approver") (context ++ ".human_approver")
  let approvalDate ←
    parseApprovalDate library (← value.item "approval_date") (context ++ ".approval_date")
  let evidence ← parseLockedFile library (← value.item "evidence") (context ++ ".evidence") 1
  pure ⟨name, terms.1, terms.2, url, attribution, attributionUrl, humanApprover, approvalDate,
    evidence⟩

/-! ### The corpora -/

/-- `_parse_corpus` -/
def parseCorpus (raw : Value) (index : ℕ) : Except LockError CompetitiveCorpus := do
  let context := "corpora[" ++ toString index ++ "]"
  let value ← expectObject raw corpusKeys context
  let id ← expectString library (← value.item "id") (context ++ ".id")
  let snapshotId ←
    expectSnapshotId library (← value.item "snapshot_id") (context ++ ".snapshot_id")
  let source ← parseSource library (← value.item "source") (context ++ ".source")
  let prepared ←
    parseLockedFile library (← value.item "prepared") (context ++ ".prepared") minPreparedBytes
  let preparation ←
    parsePreparation library (← value.item "preparation") (context ++ ".preparation")
  let license ← parseLicense library (← value.item "license") (context ++ ".license")
  pure ⟨id, snapshotId, source, prepared, preparation, license⟩

def parseCorpora : ℕ → List Value → Except LockError (List CompetitiveCorpus)
  | _, [] => pure []
  | index, raw :: rawCorpora => do
      let corpus ← parseCorpus library raw index
      let corpora ← parseCorpora (index + 1) rawCorpora
      pure (corpus :: corpora)

end

/-- `_check_declared_identity_collisions`, with the identities of the files before these. -/
def checkIdentities (identities : List (PyText × ℕ × PyText)) :
    List LockedFile → Except LockError Unit
  | [] => pure ()
  | file :: files =>
      match identities.lookup file.path with
      | none => checkIdentities ((file.path, file.bytes, file.sha256) :: identities) files
      | some previous =>
          if previous ≠ (file.bytes, file.sha256) then
            .error (.validation "path has conflicting identities in corpus lock: " [file.path])
          else checkIdentities identities files

/-- `_check_distinct_prepared_inputs` -/
def checkDistinctPrepared (corpora : List CompetitiveCorpus) : Except LockError Unit := do
  raiseIf (¬ (corpora.map fun corpus => corpus.prepared.path).Nodup)
    (invalid "prepared paths must be distinct across corpus IDs")
  raiseIf (¬ (corpora.map fun corpus => corpus.prepared.sha256).Nodup)
    (invalid "prepared sha256s must be distinct across corpus IDs")

/-- `declared_by_path`, with what the files before these declared. -/
def declaredByPath (declared : List (PyText × ℕ)) : List LockedFile → List (PyText × ℕ)
  | [] => declared
  | file :: files =>
      if (declared.lookup file.path).isSome then declaredByPath declared files
      else declaredByPath ((file.path, file.bytes) :: declared) files

/-- `_check_declared_resource_limits` -/
def checkResourceLimits (corpora : List CompetitiveCorpus) : Except LockError Unit :=
  let totalBytes := ((declaredByPath [] (corpora.flatMap CompetitiveCorpus.files)).map Prod.snd).sum
  raiseIf (maxTotalDeclaredBytes < totalBytes)
    (invalid ("declared corpus bytes exceed the total limit of " ++ toString maxTotalDeclaredBytes))

/-- `by_id[corpus_id]`, where the last one of an ID counts. -/
def byId (corpora : List CompetitiveCorpus) (corpusId : PyText) :
    Except LockError CompetitiveCorpus :=
  match corpora.reverse.find? fun corpus => corpus.id = corpusId with
  | some corpus => .ok corpus
  | none => .error .missingKey

/-- The corpora in the order of the required IDs. -/
def normalize (corpora : List CompetitiveCorpus) : Except LockError (List CompetitiveCorpus) := do
  let corpusIds := corpora.map CompetitiveCorpus.id
  raiseIf (corpusIds.length ≠ requiredCorpusIds.length ∨
      (∃ id ∈ corpusIds, id ∉ requiredCorpusIds) ∨ ∃ id ∈ requiredCorpusIds, id ∉ corpusIds)
    (.validation "corpus IDs must be exactly: " requiredCorpusIds)
  requiredCorpusIds.mapM (byId corpora)

/-! ### The loader -/

def requireSchemaVersion (value : Value) : Except LockError Unit :=
  match value with
  | .int z => raiseIf (z ≠ schemaVersion) (invalid "schema_version must be the integer 1")
  | _ => .error (invalid "schema_version must be the integer 1")

def requireContractId (value : Value) : Except LockError PyText := do
  let error := .validation "contract_id must be " [expectedContractId]
  let contractId ← expectText value error
  raiseIf (contractId ≠ expectedContractId) error
  pure contractId

/-- `load_competitive_corpus_lock`, from the decoded document on. -/
def parseLock (library : Library) (raw : Bytes) (parsed : Value) :
    Except LockError CompetitiveCorpusLock := do
  let root ← expectObject parsed topLevelKeys "corpus lock"
  requireSchemaVersion (← root.item "schema_version")
  let contractId ← requireContractId (← root.item "contract_id")
  let rawCorpora ← expectArray (← root.item "corpora") "corpora"
  let corpora ← parseCorpora library 0 rawCorpora
  let normalizedCorpora ← normalize corpora
  checkDistinctPrepared normalizedCorpora
  checkIdentities [] (normalizedCorpora.flatMap CompetitiveCorpus.files)
  checkResourceLimits normalizedCorpora
  pure ⟨schemaVersion, contractId, normalizedCorpora, Report.hexDigest (sha256 raw)⟩

/-- `except json.JSONDecodeError` -/
def LockError.ofDecoder : LockError → LockError
  | jsonDecode => invalid "corpus lock contains invalid JSON"
  | e => e

/-- `load_competitive_corpus_lock`, from the bytes on. -/
def loadLock (library : Library) (decoder : Decoder) (raw : Bytes) :
    Except LockError CompetitiveCorpusLock :=
  match Utf8.decode raw with
  | none => .error (invalid "corpus lock must be valid UTF-8")
  | some text => do
      let parsed ← (loads decoder text).mapError LockError.ofDecoder
      parseLock library raw parsed

end MosaicArchive.Corpus
