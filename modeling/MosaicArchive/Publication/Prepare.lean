import MosaicArchive.Publication.Open

/-!
`prepare_local_source`: a verified copy of a local file is published under a name
that does not exist yet, by one `linkat`. The `try` block keeps its local
variables with the exception that leaves it; the handler looks at the outcome of
the commit and reports it.
-/

namespace MosaicArchive.Publication

open Utf8 (Text)
open FixedWidth CallHistory
open MosaicArchive.Report (hexDigest requiredCorpusIds)
open Routine (raise raiseIf lift attempt)

/-! ### The commit -/

def enoent : ℕ := 2
def eperm : ℕ := 1
def einval : ℕ := 22
def eexist : ℕ := 17

/-- The failures after which the descriptor path is tried. -/
def retriesLink (errno : ℕ) : Bool := errno = enoent ∨ errno = eperm ∨ errno = einval

def linkFailure (errno : ℕ) : PrepError :=
  if errno = eexist then .notCommitted "destination already exists; overwrite is forbidden" none
  else .notCommitted "atomic no-overwrite publication failed" (some (.system (.os errno)))

/-- `except (AttributeError, OSError)` around the lookup of `linkat` -/
def libraryReply : Except SystemError Unit → Except PrepError Unit
  | .ok () => .ok ()
  | .error e =>
      if e.isOsError ∨ e = .exception "AttributeError" then
        .error (.notCommitted "atomic no-overwrite publication primitive is unavailable"
          (some (.system e)))
      else .error (.system e)

/-- The result of the last `linkat`. -/
def linkReply : LinkReply → Except PrepError Unit
  | .linked => .ok ()
  | .failed errno => .error (linkFailure errno)
  | .cutOff e _ => .error (.system e)

/-! ### The local variables of the `try` block -/

structure Locals where
  source : Option OpenedRegular := none
  destinationParent : Option ℕ := none
  temporary : Option ℕ := none
  publicationState : PublicationState := .notCommitted
  prepared : Option PreparedLocalCorpus := none
  candidate : Option PreparedLocalCorpus := none
  attempted : Bool := false

/-- An exception in the `try` block, with the variables it leaves. -/
abbrev Try := Routine History (Locals × PrepError)

def within {α : Type} (l : Locals) (p : Run α) : Try α := Routine.mapError (fun e => (l, e)) p

/-- The descriptors of the locals, with their roles. -/
def Locals.descriptors (l : Locals) : List (String × ℕ) :=
  present "anonymous prepared output" l.temporary ++
    (present "destination parent" l.destinationParent ++
      (present "source file" (l.source.map OpenedRegular.fileDescriptor) ++
        present "source parent" (l.source.map OpenedRegular.parentDescriptor)))

/-- What was established about the copy before the commit. -/
structure VerifiedCopy where
  copiedBytes : ℕ
  sourceSha256 : Text
  preparedSha256 : Text
  output : StatResult
  afterHash : StatResult

section

variable (env : Environment Call Reply) (platform : Platform)

/-- `_publish_anonymous_no_replace` -/
def publishAnonymousNoReplace (temporary parent : ℕ) (name : Text) : Run Unit := do
  let loaded ← ask env .loadLibrary
  let () ← lift (libraryReply loaded)
  let reply ← ask env (.linkEmptyPath temporary parent name)
  match reply with
  | .failed errno =>
      if retriesLink errno then do
        let again ← ask env (.linkDescriptorPath temporary parent name)
        lift (linkReply again)
      else lift (linkReply (.failed errno))
  | other => lift (linkReply other)

/-- `_validate_source_metadata` -/
def validateSourceMetadata (m : StatResult) (expectedBytes : ℕ) : Except PrepError Unit := do
  Except.raiseIf (¬ m.isRegular) (.preparation "source must be a regular file" none)
  Except.raiseIf (m.nlink ≠ 1) (.preparation "source hardlinks are forbidden" none)
  Except.raiseIf (m.size ≠ expectedBytes)
    (.preparation ("source size is " ++ toString m.size ++ "; expected " ++ toString expectedBytes)
      none)

/-- What `_descriptor_for_operation` finds complete. -/
structure Operation where
  descriptor : CorpusDescriptor
  expectedBytes : ℕ
  expectedSha256 : Text

/-- `_descriptor_for_operation`, with the two expected values -/
def descriptorForOperation (plan : AcquisitionPlan) (corpusId : Text) : Except PrepError Operation := do
  Except.raiseIf (corpusId ∉ requiredCorpusIds)
    (.preparation "corpus_id is not a canonical contract corpus ID" none)
  match plan.corpora.find? fun descriptor => descriptor.id = corpusId with
  | none => .error (.system (.exception "StopIteration"))
  | some descriptor => do
      Except.raiseIf (descriptor.status ≠ "unverified_technical_copy".toList)
        (.preparation ("corpus '" ++ String.ofList corpusId ++
          "' is blocked and cannot be verified or prepared") none)
      let incomplete : PrepError := .preparation ("corpus '" ++ String.ofList corpusId ++
        "' is not a complete unverified technical-copy descriptor") none
      match descriptor.expectedSourceBytes, descriptor.expectedSourceSha256 with
      | some bytes, some digest => do
          Except.raiseIf (descriptor.sourceUrl = none ∨ descriptor.licenseEvidenceSha256Claim = none ∨
            descriptor.claims.recordClaim = false ∨ descriptor.claims.benchmarkUseClaim = false ∨
            descriptor.claims.redistributionClaim = false) incomplete
          .ok ⟨descriptor, bytes, digest⟩
      | _, _ => .error incomplete

/-! ### The stages of the `try` block -/

/-- From the copy to the hash of the anonymous file. -/
def verifyCopy (source : OpenedRegular) (temporary expectedBytes : ℕ) (expectedSha256 : Text) :
    Run VerifiedCopy := do
  let copied ← copySourceToFd env source.fileDescriptor temporary expectedBytes
  let sourceAfter ← fstat env source.fileDescriptor
  raiseIf (metadataChanged source.fileMetadata sourceAfter = true)
    (.preparation "source changed while it was being copied" none)
  raiseIf (copied.2 ≠ expectedSha256)
    (.preparation ("source SHA-256 mismatch: expected " ++ String.ofList expectedSha256 ++ ", got " ++
      String.ofList copied.2) none)
  fsync env temporary
  let output ← fstat env temporary
  raiseIf (¬ output.isRegular ∨ output.nlink ≠ 0 ∨ output.size ≠ expectedBytes)
    (.preparation "temporary output identity or size changed before publication" none)
  let hashed ← hashFdExact env temporary expectedBytes
  let afterHash ← fstat env temporary
  raiseIf (metadataChanged output afterHash = true)
    (.preparation "temporary output changed during post-write verification" none)
  raiseIf (hashed.2 ≠ expectedSha256 ∨ hashed.2 ≠ copied.2)
    (.preparation "post-write SHA-256 does not match the verified source identity" none)
  pure ⟨copied.1, copied.2, hashed.2, output, afterHash⟩

/-- The published inode through the descriptor; the metadata after the last hash. -/
def verifyPublished (temporary expectedBytes : ℕ) (expectedSha256 : Text) (copy : VerifiedCopy)
    (candidate : PreparedLocalCorpus) : Run StatResult := do
  let published ← fstat env temporary
  raiseIf (¬ published.isRegular ∨ published.nlink ≠ 1 ∨ published.size ≠ expectedBytes ∨
      publicationLinkMetadataChanged copy.afterHash published = true ∨
      identityMatches published candidate.identity.fileDevice candidate.identity.fileInode = false)
    (.preparation ("published inode identity changed; publication is committed but " ++
      "directory durability is unconfirmed") none)
  let hashed ← hashFdExact env temporary expectedBytes
  let after ← fstat env temporary
  raiseIf (metadataChanged published after = true)
    (.preparation ("published inode changed during post-publication verification; " ++
      "publication is committed but directory durability is unconfirmed") none)
  raiseIf (hashed.2 ≠ expectedSha256 ∨ hashed.2 ≠ copy.sourceSha256 ∨ hashed.2 ≠ copy.preparedSha256)
    (.preparation ("post-publication SHA-256 does not match the verified source identity; " ++
      "publication is committed but directory durability is unconfirmed") none)
  pure after

/-- The metadata of the committed name; an `OSError` becomes a report of its own. -/
def namedMetadata (prepared : PreparedLocalCorpus) : Except SystemError StatResult →
    Except PrepError StatResult
  | .ok m => .ok m
  | .error e =>
      if e.isOsError then
        .error (.nameUnavailable ("destination directory was fsynced, but the committed name is " ++
          "absent or cannot be inspected; no pathname rollback was attempted") prepared
          (some (.system e)))
      else .error (.system e)

/-- The name after the directory was fsynced. -/
def confirmName (parent : ℕ) (name : Text) (expectedBytes : ℕ) (after : StatResult)
    (prepared : PreparedLocalCorpus) : Run Unit := do
  let reply ← ask env (.statAt parent name)
  let named ← lift (namedMetadata prepared reply)
  raiseIf (¬ named.isRegular ∨ named.nlink ≠ 1 ∨ named.size ≠ expectedBytes ∨
      metadataChanged after named = true ∨
      identityMatches named prepared.identity.fileDevice prepared.identity.fileInode = false)
    (.nameUnavailable ("destination directory was fsynced, but the committed name was " ++
      "replaced or no longer has the last verified inode identity and " ++
      "metadata; no pathname rollback was attempted") prepared none)

/-- What is open before the copy. -/
structure OpenedFiles where
  source : OpenedRegular
  parent : OpenedParent
  temporary : ℕ

def OpenedFiles.locals (o : OpenedFiles) : Locals :=
  { source := some o.source
    destinationParent := some o.parent.descriptor
    temporary := some o.temporary }

/-- Everything up to the anonymous file. -/
def openAll (sourcePath destinationPath : Text) (expectedBytes : ℕ) : Try OpenedFiles := do
  let source ← within {} (openRegularPath env platform sourcePath "source path")
  let opened : Locals := { source := some source }
  within opened (lift (validateSourceMetadata source.fileMetadata expectedBytes))
  let parent ← within opened (openDestinationParent env platform destinationPath)
  let opened : Locals := { source := some source, destinationParent := some parent.descriptor }
  let taken ← within opened (destinationExists env parent.descriptor parent.name)
  within opened (raiseIf (taken = true)
    (.preparation "destination already exists; overwrite is forbidden" none))
  let temporary ← within opened (createTemporaryOutput env parent.descriptor)
  pure ⟨source, parent, temporary⟩

/-- The record of the copy, issued before the commit. -/
def candidateRecord (plan : AcquisitionPlan) (corpusId destinationPath : Text)
    (operation : Operation) (parent : OpenedParent) (copy : VerifiedCopy) : PreparedLocalCorpus :=
  { corpusId, displayPath := destinationPath
    identity := localFileIdentity copy.output parent.metadata
    bytes := copy.copiedBytes
    sha256 := copy.preparedSha256
    sourceSha256 := copy.sourceSha256
    recipeId := operation.descriptor.recipe.id
    recipeVersion := operation.descriptor.recipe.version
    recipeImplementationSha256 := operation.descriptor.recipe.implementationSha256
    planSha256 := plan.planSha256
    publicationState := .committedNotDurable }

def PreparedLocalCorpus.inState (r : PreparedLocalCorpus) (state : PublicationState) :
    PreparedLocalCorpus := { r with publicationState := state }

/-- The locals after the publication reached a state, with the record in that state. -/
def Locals.reached (l : Locals) (candidate : PreparedLocalCorpus) (state : PublicationState) :
    Locals :=
  { l with publicationState := state, prepared := some (candidate.inState state) }

/-- The `try` block. -/
def prepareBlock (plan : AcquisitionPlan) (corpusId sourcePath destinationPath : Text)
    (operation : Operation) : Try Locals := do
  let files ← openAll env platform sourcePath destinationPath operation.expectedBytes
  let copy ← within files.locals (verifyCopy env files.source files.temporary
    operation.expectedBytes operation.expectedSha256)
  let candidate := candidateRecord plan corpusId destinationPath operation files.parent copy
  let attempted := { files.locals with candidate := some candidate, attempted := true }
  -- The single commit point.
  within attempted
    (publishAnonymousNoReplace env files.temporary files.parent.descriptor files.parent.name)
  let committed := attempted.reached candidate .committedNotDurable
  let after ← within committed (verifyPublished env files.temporary operation.expectedBytes
    operation.expectedSha256 copy candidate)
  within committed (fsync env files.parent.descriptor)
  within (attempted.reached candidate .committedNameUnavailable)
    (confirmName env files.parent.descriptor files.parent.name operation.expectedBytes after
      (candidate.inState .committedNameUnavailable))
  pure (attempted.reached candidate .durable)

/-! ### The handler -/

/-- What the handler makes of the metadata after an unclassified failure of the commit. -/
def Locals.classify (l : Locals) (candidate : PreparedLocalCorpus) :
    Except PrepError StatResult → Locals × Option PrepError
  | .ok m =>
      if 1 ≤ m.nlink ∧
          identityMatches m candidate.identity.fileDevice candidate.identity.fileInode = true then
        ({ l with publicationState := .committedNotDurable, prepared := some candidate }, none)
      else
        ({ l with
            publicationState := .commitOutcomeUnknown
            prepared := some (candidate.inState .commitOutcomeUnknown) },
          if 1 ≤ m.nlink then
            some (.preparation "post-failure anonymous inode identity changed" none)
          else none)
  | .error e =>
      ({ l with
          publicationState := .commitOutcomeUnknown
          prepared := some (candidate.inState .commitOutcomeUnknown) }, some e)

/-- The look at the outcome of a commit that was attempted and not classified. -/
def inspectOutcome (l : Locals) (e : PrepError) : Run (Locals × Option PrepError) :=
  if l.attempted = true ∧ l.publicationState = .notCommitted ∧ e.isNotCommitted = false then
    match l.temporary, l.candidate with
    | some temporary, some candidate => do
        let outcome ← attempt (fstat env temporary)
        pure (l.classify candidate outcome)
    | _, _ => pure (l, none)
  else pure (l, none)

/-- The exception reported for one outcome. -/
def reportOutcome (l : Locals) (e : PrepError) (inspection : Option PrepError) : PrepError :=
  match l.publicationState, l.prepared with
  | .commitOutcomeUnknown, some prepared =>
      if e.isException ∧ inspection.all PrepError.isException then
        .outcomeUnknown e inspection prepared
      else
        .group "no pathname rollback was attempted" .commitOutcomeUnknown
          (e :: (inspection.toList ++ [.outcomeUnknown e inspection prepared]))
  | .committedNotDurable, some prepared =>
      if e.isException then
        .durability ("destination inode was committed, but destination-directory " ++
          "durability was not confirmed; no pathname rollback was attempted") prepared e
      else .noted e .committedNotDurable
  | .committedNameUnavailable, some prepared =>
      if e.isNameUnavailable then e
      else if e.isException then
        .nameUnavailable ("destination directory was fsynced, but post-fsync name " ++
          "inspection did not complete; no pathname rollback was attempted") prepared (some e)
      else .noted e .committedNameUnavailable
  | .durable, _ =>
      if e.isPreparation then e
      else if e.isOsError then
        .preparation "local deterministic preparation failed safely before publication" (some e)
      else .noted e .durable
  | .notCommitted, _ =>
      if e.isPreparation then e
      else if e.isOsError then
        .preparation "local deterministic preparation failed safely before publication" (some e)
      else e
  | _, none => assertionError

/-- The `except BaseException` clause. -/
def handleFailure (failure : Locals × PrepError) : Run (Locals × Option PrepError) := do
  let inspected ← inspectOutcome env failure.1 failure.2
  pure (inspected.1, some (reportOutcome inspected.1 failure.2 inspected.2))

def afterTry : Except (Locals × PrepError) Locals → Run (Locals × Option PrepError)
  | .ok l => pure (l, none)
  | .error failure => handleFailure env failure

/-- `prepare_local_source` -/
def prepareLocalSource (planPath corpusId sourcePath destinationPath : Text) (maxBytes : ℕ) :
    Run PreparedLocalCorpus := do
  let plan ← loadAcquisitionPlan env platform planPath maxBytes
  let operation ← lift (descriptorForOperation plan corpusId)
  lift (requireSecurePreparation platform)
  let outcome ← attempt (prepareBlock env platform plan corpusId sourcePath destinationPath operation)
  let ended ← afterTry env outcome
  let failures ← closeDescriptors env ended.1.descriptors
  let () ← lift (raiseOperationOrCleanup "local deterministic preparation/cleanup failed" ended.2
    failures .corpus ended.1.publicationState ended.1.prepared)
  match ended.1.prepared with
  | some prepared => pure prepared
  | none => raise assertionError

end

end MosaicArchive.Publication
