import MosaicArchive.Effects.Embedding
import MosaicArchive.Publication.Reported

/-!
Reopening a verified file (`_reopen_bound_local_file`): it is opened again, compared with its
record, and copied into an anonymous file that is then sealed. These calls come on top of those
of `Publication/Calls`.
-/

namespace MosaicArchive.Publication

open Utf8 (Text)
open CallHistory Resources
open Routine (raise raiseIf lift attempt)

def maxReopenSnapshotBytes : ℕ := 128 * 1024 ^ 2

/-! ### System calls -/

inductive SnapshotCall where
  /-- `os.memfd_create("mosaic-corpus-snapshot", …)` -/
  | createSnapshot
  /-- `fcntl(descriptor, F_ADD_SEALS, required_seals)` -/
  | addSeals (descriptor : ℕ)
  /-- `fcntl(descriptor, F_GET_SEALS)` -/
  | getSeals (descriptor : ℕ)
  deriving DecidableEq

def SnapshotReply : SnapshotCall → Type
  | .createSnapshot => Except SystemError ℕ
  | .addSeals _ => Except SystemError Unit
  | .getSeals _ => Except SystemError ℕ

abbrev SnapshotHistory := CallHistory (Call ⊕ SnapshotCall) (Sum.elim Reply SnapshotReply)

abbrev SnapshotEvent := Σ c : Call ⊕ SnapshotCall, Sum.elim Reply SnapshotReply c

abbrev SnapshotEnvironment := Environment (Call ⊕ SnapshotCall) (Sum.elim Reply SnapshotReply)

abbrev SnapshotRun := Routine SnapshotHistory PrepError

/-- What the platform offers for snapshots; a text is that of the `CorpusPreparationError` for what
it does not offer. -/
structure SnapshotPlatform where
  /-- `os.memfd_create` and its flags -/
  creator : Except String Unit
  /-- `_snapshot_sealing_constants()`: the required seals -/
  sealing : Except String ℕ
  /-- `_snapshot_fcntl_function()` -/
  fcntl : Except String Unit

section

variable (env : SnapshotEnvironment) (platform : Platform) (snapshots : SnapshotPlatform)

def require {α : Type} (offered : Except String α) : SnapshotRun α :=
  lift (offered.mapError fun message => .preparation message none)

/-! ### Cleanup -/

/-- The end of an operation that failed: the descriptors it holds are closed. -/
def abandonSnapshot {α : Type} (context : String) (primary : Option PrepError)
    (failures : List (String × SystemError)) (held : List (String × ℕ)) (state : PublicationState)
    (prepared : Option PreparedLocalCorpus) : SnapshotRun α := do
  let more ← embed env fun env => closeDescriptors env held
  let () ← lift (raiseOperationOrCleanup context primary (failures ++ more) .corpus state prepared)
  raise assertionError

/-- `p`, abandoned with the descriptors held if it fails. -/
def guardedSnapshot {α : Type} (p : SnapshotRun α) (onFailure : PrepError → PrepError)
    (context : String) (held : List (String × ℕ)) (state : PublicationState)
    (prepared : Option PreparedLocalCorpus) : SnapshotRun α := do
  let outcome ← attempt p
  match outcome with
  | .ok a => pure a
  | .error e => abandonSnapshot env context (some (onFailure e)) [] held state prepared

/-! ### Snapshots -/

def createSnapshot : SnapshotRun ℕ := do
  require snapshots.creator
  let reply ← ask env (.inr .createSnapshot)
  lift (Except.mapError .system reply)

def requireFresh (descriptor : ℕ) : SnapshotRun Unit := do
  let metadata ← embed env fun env => fstat env descriptor
  raiseIf (¬ metadata.isRegular ∨ metadata.nlink ≠ 0 ∨ metadata.size ≠ 0)
    (.preparation "sealed snapshot backing object is not a fresh anonymous regular file" none)

/-- `_create_snapshot_fd` -/
def createSnapshotFd : SnapshotRun ℕ := do
  let onFailure := asPreparation "could not create sealed Linux snapshot"
  let descriptor ← guardedSnapshot env (createSnapshot env snapshots) onFailure
    "sealed snapshot creation failed" [] .notCommitted none
  guardedSnapshot env (requireFresh env descriptor) onFailure "sealed snapshot creation failed"
    [("sealed snapshot", descriptor)] .notCommitted none
  pure descriptor

def getSeals (descriptor : ℕ) : SnapshotRun ℕ := do
  require snapshots.fcntl
  let reply ← ask env (.inr (.getSeals descriptor))
  lift (Except.mapError .system reply)

def addSeals (descriptor : ℕ) : SnapshotRun Unit := do
  require snapshots.fcntl
  let reply ← ask env (.inr (.addSeals descriptor))
  lift (Except.mapError .system reply)

/-- `_verify_snapshot_seals` -/
def verifySnapshotSeals (descriptor : ℕ) : SnapshotRun Unit := do
  let required ← require snapshots.sealing
  let actual ← Routine.mapError (asPreparation "could not inspect verified Linux snapshot seals")
    (getSeals env snapshots descriptor)
  raiseIf (actual &&& required ≠ required)
    (.preparation "verified Linux snapshot is missing required immutable seals" none)

/-- `_seal_snapshot_fd` -/
def sealSnapshotFd (descriptor : ℕ) : SnapshotRun Unit :=
  Routine.mapError (asPreparation "could not seal verified Linux snapshot") do
    let _ ← require snapshots.sealing
    addSeals env snapshots descriptor
    verifySnapshotSeals env snapshots descriptor

/-! ### Reopening -/

/-- The file is still the one of the record. -/
def requireSameFile (opened : OpenedRegular) (identity : LocalFileIdentity) (expectedBytes : ℕ)
    (context : String) : Except PrepError Unit := do
  Except.raiseIf (identityMatches opened.parentMetadata identity.parentDevice
      identity.parentInode = false)
    (.preparation
      (context ++ " display-only parent path no longer names the verified directory") none)
  Except.raiseIf (identityMatches opened.fileMetadata identity.fileDevice identity.fileInode = false)
    (.preparation (context ++ " display-only pathname no longer names the verified inode") none)
  validateSourceMetadata opened.fileMetadata expectedBytes

/-- The copy into the snapshot, its seals and its checks. -/
def fillSnapshot (opened : OpenedRegular) (snapshot expectedBytes : ℕ) (expectedSha256 : Text)
    (context : String) : SnapshotRun Unit := do
  let copied ← embed env fun env => copySourceToFd env opened.fileDescriptor snapshot expectedBytes
  let after ← embed env fun env => fstat env opened.fileDescriptor
  raiseIf (metadataChanged opened.fileMetadata after)
    (.preparation (context ++ " changed while it was being reopened") none)
  raiseIf (copied.1 ≠ expectedBytes ∨ copied.2 ≠ expectedSha256)
    (.preparation (context ++ " content no longer matches its descriptor-bound identity") none)
  let snapshotMetadata ← embed env fun env => fstat env snapshot
  raiseIf (¬ snapshotMetadata.isRegular ∨ snapshotMetadata.nlink ≠ 0 ∨
      snapshotMetadata.size ≠ expectedBytes)
    (.preparation (context ++ " sealed snapshot identity or size changed during copy") none)
  sealSnapshotFd env snapshots snapshot
  let sealedMetadata ← embed env fun env => fstat env snapshot
  let hashed ← embed env fun env => hashFdExact env snapshot expectedBytes
  let finalMetadata ← embed env fun env => fstat env snapshot
  verifySnapshotSeals env snapshots snapshot
  raiseIf (¬ sealedMetadata.isRegular ∨ sealedMetadata.nlink ≠ 0 ∨
      sealedMetadata.size ≠ expectedBytes ∨ snapshotMetadata.inode ≠ sealedMetadata.inode ∨
      metadataChanged sealedMetadata finalMetadata)
    (.preparation (context ++ " sealed snapshot identity changed while sealing") none)
  raiseIf (hashed.1 ≠ expectedBytes ∨ hashed.2 ≠ expectedSha256)
    (.preparation (context ++ " sealed snapshot content does not match the verified SHA-256") none)
  embed env fun env => rewind env snapshot

/-- `_reopen_bound_local_file` -/
def reopenBoundLocalFile (displayPath : Text) (identity : LocalFileIdentity) (expectedBytes : ℕ)
    (expectedSha256 : Text) (context : String) (state : PublicationState)
    (prepared : Option PreparedLocalCorpus) : SnapshotRun ℕ := do
  let onFailure := asPreparation ("could not securely reopen " ++ context)
  let failed := "secure reopen of " ++ context ++ " failed"
  guardedSnapshot env (raiseIf (¬ (1 ≤ expectedBytes ∧ expectedBytes ≤ maxReopenSnapshotBytes))
    (.preparation (context ++ " exceeds the sealed snapshot limit of " ++
      toString maxReopenSnapshotBytes ++ " bytes") none)) onFailure failed [] state prepared
  let opened ← guardedSnapshot env (embed env fun env => openRegularPath env platform displayPath context)
    onFailure failed [] state prepared
  let originals := [(context, opened.fileDescriptor), (context ++ " parent", opened.parentDescriptor)]
  guardedSnapshot env (lift (requireSameFile opened identity expectedBytes context)) onFailure failed
    originals state prepared
  let snapshot ← guardedSnapshot env (createSnapshotFd env snapshots) onFailure failed originals state
    prepared
  guardedSnapshot env (fillSnapshot env snapshots opened snapshot expectedBytes expectedSha256 context)
    onFailure failed (("sealed immutable snapshot", snapshot) :: originals) state prepared
  let unreleased := "secure reopen of " ++ context ++ " could not release original descriptors"
  let failures ← embed env fun env => closeDescriptors env originals
  if failures = [] then pure snapshot
  else
    abandonSnapshot env unreleased none failures [("sealed immutable snapshot", snapshot)] state
      prepared

end

end MosaicArchive.Publication
