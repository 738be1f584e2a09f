import MosaicArchive.Crypto.Sha256
import MosaicArchive.Effects.CallHistory
import MosaicArchive.Report.Competitive

/-!
The data of `mosaic_archive/competitive_corpus_prep.py`: acquisition plans, file
metadata, prepared records, the exceptions with the records they carry, and the
system calls. A system call fails with an `OSError` or is cut off by another
exception; the foreign `linkat` may have linked before it was cut off.
-/

namespace MosaicArchive.Publication

open Utf8 (Text)
open FixedWidth CallHistory
open MosaicArchive.Report (hexDigest requiredCorpusIds)

/-! ### Constants -/

def maxPlanBytes : ℕ := 1048576
def readChunkBytes : ℕ := 1048576

/-! ### Metadata -/

/-- `os.stat_result` -/
structure StatResult where
  dev : ℕ
  ino : ℕ
  mode : ℕ
  nlink : ℕ
  size : ℕ
  mtimeNs : ℤ
  ctimeNs : ℤ
  fileAttributes : ℕ
  deriving DecidableEq, Repr

/-- A device and an inode on it. -/
abbrev Inode := ℕ × ℕ

def StatResult.inode (m : StatResult) : Inode := (m.dev, m.ino)

def formatOf (mode : ℕ) : ℕ := mode &&& 0o170000

/-- `stat.S_ISREG(st_mode)` -/
def StatResult.isRegular (m : StatResult) : Bool := formatOf m.mode = 0o100000

/-- `stat.S_ISDIR(st_mode)` -/
def StatResult.isDirectory (m : StatResult) : Bool := formatOf m.mode = 0o040000

/-- `_is_reparse_point` -/
def StatResult.isReparsePoint (m : StatResult) : Bool := m.fileAttributes &&& 0x400 ≠ 0

/-- `_metadata_changed` -/
def metadataChanged (before after : StatResult) : Bool :=
  before.dev ≠ after.dev ∨ before.ino ≠ after.ino ∨ before.mode ≠ after.mode ∨
    before.nlink ≠ after.nlink ∨ before.size ≠ after.size ∨ before.mtimeNs ≠ after.mtimeNs ∨
    before.ctimeNs ≠ after.ctimeNs

/-- `_plan_metadata_changed`; whether `st_ctime_ns` is unstable depends on the platform. -/
def planMetadataChanged (ctimeUnstable : Bool) (before after : StatResult) : Bool :=
  before.dev ≠ after.dev ∨ before.ino ≠ after.ino ∨ before.mode ≠ after.mode ∨
    before.nlink ≠ after.nlink ∨ before.size ≠ after.size ∨ before.mtimeNs ≠ after.mtimeNs ∨
    (ctimeUnstable = false ∧ before.ctimeNs ≠ after.ctimeNs)

/-- `_publication_link_metadata_changed` -/
def publicationLinkMetadataChanged (before after : StatResult) : Bool :=
  before.nlink ≠ 0 ∨ after.nlink ≠ 1 ∨ before.dev ≠ after.dev ∨ before.ino ≠ after.ino ∨
    before.mode ≠ after.mode ∨ before.size ≠ after.size ∨ before.mtimeNs ≠ after.mtimeNs

structure LocalFileIdentity where
  parentDevice : ℕ
  parentInode : ℕ
  fileDevice : ℕ
  fileInode : ℕ
  deriving DecidableEq, Repr

/-- The inode of the file. -/
def LocalFileIdentity.file (i : LocalFileIdentity) : Inode := (i.fileDevice, i.fileInode)

/-- `_local_file_identity` -/
def localFileIdentity (file parent : StatResult) : LocalFileIdentity :=
  ⟨parent.dev, parent.ino, file.dev, file.ino⟩

/-- `_identity_matches` -/
def identityMatches (m : StatResult) (device inode : ℕ) : Bool := m.dev = device ∧ m.ino = inode

/-! ### Plans and records -/

structure RecipeIdentity where
  id : Text
  version : ℕ
  implementationSha256 : Text
  deriving DecidableEq, Repr

/-- `UnverifiedApprovalClaims`, with whether there is a record claim. -/
structure ApprovalClaims where
  benchmarkUseClaim : Bool
  redistributionClaim : Bool
  recordClaim : Bool
  deriving DecidableEq, Repr

structure CorpusDescriptor where
  id : Text
  status : Text
  sourceUrl : Option Text
  expectedSourceBytes : Option ℕ
  expectedSourceSha256 : Option Text
  recipe : RecipeIdentity
  licenseEvidenceSha256Claim : Option Text
  claims : ApprovalClaims
  deriving DecidableEq, Repr

structure AcquisitionPlan where
  corpora : List CorpusDescriptor
  planSha256 : Text

inductive PublicationState where
  | notCommitted
  | commitOutcomeUnknown
  | committedNotDurable
  | committedNameUnavailable
  | durable
  deriving DecidableEq, Repr

def PublicationState.text : PublicationState → String
  | notCommitted => "not_committed"
  | commitOutcomeUnknown => "commit_outcome_unknown"
  | committedNotDurable => "committed_not_durable"
  | committedNameUnavailable => "committed_name_unavailable"
  | durable => "durable"

structure PreparedLocalCorpus where
  corpusId : Text
  displayPath : Text
  identity : LocalFileIdentity
  bytes : ℕ
  sha256 : Text
  sourceSha256 : Text
  recipeId : Text
  recipeVersion : ℕ
  recipeImplementationSha256 : Text
  planSha256 : Text
  publicationState : PublicationState
  deriving DecidableEq, Repr

/-! ### Exceptions -/

/-- How a system call fails. -/
inductive SystemError where
  /-- `FileNotFoundError` -/
  | notFound
  | os (errno : ℕ)
  /-- Another `Exception`. -/
  | exception (name : String)
  /-- A `BaseException` that is not an `Exception`. -/
  | interrupt (name : String)
  deriving DecidableEq, Repr

def SystemError.isOsError : SystemError → Bool
  | notFound => true
  | os _ => true
  | _ => false

inductive PrepError where
  | system (e : SystemError)
  /-- `OSError` of `_write_all` -/
  | noProgress
  /-- `AcquisitionPlanValidationError` -/
  | plan (message : String) (cause : Option PrepError)
  /-- `CorpusPreparationError` -/
  | preparation (message : String) (cause : Option PrepError)
  /-- `CorpusPublicationNotCommittedError` -/
  | notCommitted (message : String) (cause : Option PrepError)
  /-- `CorpusPublicationDurabilityError` -/
  | durability (message : String) (prepared : PreparedLocalCorpus) (cause : PrepError)
  /-- `CorpusPublicationOutcomeUnknownError` -/
  | outcomeUnknown (operation : PrepError) (inspection : Option PrepError)
      (candidate : PreparedLocalCorpus)
  /-- `CorpusPublicationNameUnavailableError` -/
  | nameUnavailable (message : String) (prepared : PreparedLocalCorpus) (cause : Option PrepError)
  /-- `AcquisitionPlanCleanupError` -/
  | planCleanup (context : String) (primary : Option PrepError)
      (failures : List (String × SystemError))
  /-- `CorpusPreparationCleanupError` -/
  | cleanup (context : String) (primary : Option PrepError) (failures : List (String × SystemError))
      (state : PublicationState) (prepared : Option PreparedLocalCorpus)
  /-- `BaseExceptionGroup`, with the state in its message. -/
  | group (context : String) (state : PublicationState) (errors : List PrepError)
  /-- The exception after `add_note`. -/
  | noted (e : PrepError) (state : PublicationState)

namespace PrepError

/-- `isinstance(error, OSError)` -/
def isOsError : PrepError → Bool
  | system e => e.isOsError
  | noProgress => true
  | noted e _ => e.isOsError
  | _ => false

/-- `isinstance(error, Exception)` -/
def isException : PrepError → Bool
  | system (.interrupt _) => false
  | group .. => false
  | noted e _ => e.isException
  | _ => true

/-- `isinstance(error, CorpusPreparationError)` -/
def isPreparation : PrepError → Bool
  | preparation .. => true
  | notCommitted .. => true
  | durability .. => true
  | outcomeUnknown .. => true
  | nameUnavailable .. => true
  | cleanup .. => true
  | noted e _ => e.isPreparation
  | _ => false

/-- `isinstance(error, CorpusPublicationNotCommittedError)` -/
def isNotCommitted : PrepError → Bool
  | notCommitted .. => true
  | noted e _ => e.isNotCommitted
  | _ => false

/-- `isinstance(error, CorpusPublicationNameUnavailableError)` -/
def isNameUnavailable : PrepError → Bool
  | nameUnavailable .. => true
  | noted e _ => e.isNameUnavailable
  | _ => false

/-- The publication state an exception carries, or implies by carrying none. -/
def state : PrepError → PublicationState
  | durability .. => .committedNotDurable
  | outcomeUnknown .. => .commitOutcomeUnknown
  | nameUnavailable .. => .committedNameUnavailable
  | cleanup _ _ _ state _ => state
  | group _ state _ => state
  | noted _ state => state
  | _ => .notCommitted

/-- The record attached to an exception. -/
def record : PrepError → Option PreparedLocalCorpus
  | durability _ prepared _ => some prepared
  | outcomeUnknown _ _ candidate => some candidate
  | nameUnavailable _ prepared _ => some prepared
  | cleanup _ _ _ _ prepared => prepared
  | noted e _ => e.record
  | _ => none

end PrepError

/-! ### System calls -/

/-- What `linkat` does; `linked` is whether it had linked before it was cut off. -/
inductive LinkReply where
  | linked
  | failed (errno : ℕ)
  | cutOff (e : SystemError) (linked : Bool)
  deriving DecidableEq, Repr

inductive Call where
  /-- `os.lstat(path)` -/
  | lstat (path : Text)
  /-- `os.open(path, flags)` of the plan -/
  | openPlan (path : Text)
  /-- `os.open(anchor, _directory_open_flags())` -/
  | openAnchor (anchor : Text)
  | openDirectory (directory : ℕ) (name : Text)
  | openRegular (directory : ℕ) (name : Text)
  /-- `os.open(".", O_TMPFILE, dir_fd=directory)` -/
  | openTemporary (directory : ℕ)
  | fstat (descriptor : ℕ)
  /-- `os.stat(name, dir_fd=directory, follow_symlinks=False)` -/
  | statAt (directory : ℕ) (name : Text)
  /-- `os.lseek(descriptor, 0, os.SEEK_SET)` -/
  | rewind (descriptor : ℕ)
  | read (descriptor size : ℕ)
  | write (descriptor : ℕ) (data : Bytes)
  | fsync (descriptor : ℕ)
  /-- `ctypes.CDLL(None).linkat` and the encoded names -/
  | loadLibrary
  /-- `linkat(temporary, "", directory, name, AT_EMPTY_PATH)` -/
  | linkEmptyPath (temporary directory : ℕ) (name : Text)
  /-- `linkat(AT_FDCWD, "/proc/self/fd/…", directory, name, AT_SYMLINK_FOLLOW)` -/
  | linkDescriptorPath (temporary directory : ℕ) (name : Text)
  | close (descriptor : ℕ)
  deriving DecidableEq, Repr

def Reply : Call → Type
  | .lstat _ => Except SystemError StatResult
  | .openPlan _ => Except SystemError ℕ
  | .openAnchor _ => Except SystemError ℕ
  | .openDirectory _ _ => Except SystemError ℕ
  | .openRegular _ _ => Except SystemError ℕ
  | .openTemporary _ => Except SystemError ℕ
  | .fstat _ => Except SystemError StatResult
  | .statAt _ _ => Except SystemError StatResult
  | .rewind _ => Except SystemError Unit
  | .read _ size => Except SystemError { data : Bytes // data.length ≤ size }
  | .write _ data => Except SystemError { count : ℕ // count ≤ data.length }
  | .fsync _ => Except SystemError Unit
  | .loadLibrary => Except SystemError Unit
  | .linkEmptyPath _ _ _ => LinkReply
  | .linkDescriptorPath _ _ _ => LinkReply
  | .close _ => Except SystemError Unit

abbrev History := CallHistory Call Reply

abbrev Run := Routine History PrepError

/-- The platform, and the plan parser, which makes no calls. -/
structure Platform where
  /-- `secure_local_preparation_supported()` -/
  secureSupported : Bool
  /-- `_WINDOWS_PLAN_CTIME_UNSTABLE` -/
  ctimeUnstable : Bool
  /-- `load_acquisition_plan` after its reads; an error is the text of an
  `AcquisitionPlanValidationError`. -/
  parsePlan : Bytes → Except String (List CorpusDescriptor)

end MosaicArchive.Publication
