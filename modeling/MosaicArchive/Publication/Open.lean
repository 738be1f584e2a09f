import MosaicArchive.Publication.Calls

/-!
Opening and reading files without following symbolic links: every descriptor
opened on the way is closed when something fails, and failures to close are
reported together with the first error.
-/

namespace MosaicArchive.Publication

open Utf8 (Text)
open FixedWidth CallHistory
open MosaicArchive.Report (hexDigest requiredCorpusIds)
open Routine (raise raiseIf lift attempt)

/-! ### Cleanup -/

inductive Domain where
  | plan
  | corpus
  deriving DecidableEq, Repr

def SystemError.isException : SystemError → Bool
  | interrupt _ => false
  | _ => true

/-- The error of an operation with descriptors that could not be closed. -/
def cleanupError (context : String) (primary : Option PrepError)
    (failures : List (String × SystemError)) (domain : Domain) (state : PublicationState)
    (prepared : Option PreparedLocalCorpus) : PrepError :=
  if primary.all PrepError.isException ∧ failures.all (fun failure => failure.2.isException) then
    match domain with
    | .plan => .planCleanup context primary failures
    | .corpus => .cleanup context primary failures state prepared
  else .group context state (primary.toList ++ failures.map fun failure => .system failure.2)

/-- `_raise_operation_or_cleanup` -/
def raiseOperationOrCleanup (context : String) (primary : Option PrepError)
    (failures : List (String × SystemError)) (domain : Domain) (state : PublicationState)
    (prepared : Option PreparedLocalCorpus) : Except PrepError Unit :=
  match failures, primary with
  | [], none => .ok ()
  | [], some e => .error e
  | failure :: failures, primary =>
      .error (cleanupError context primary (failure :: failures) domain state prepared)

/-- `AssertionError` -/
def assertionError : PrepError := .system (.exception "AssertionError")

/-- The descriptor of one role, if there is one. -/
def present (role : String) : Option ℕ → List (String × ℕ)
  | none => []
  | some descriptor => [(role, descriptor)]

def closeFailure (role : String) : Except SystemError Unit → List (String × SystemError)
  | .ok () => []
  | .error e => [(role, e)]

/-- `except OSError as exc: primary_error = CorpusPreparationError(message)` -/
def asPreparation (message : String) (e : PrepError) : PrepError :=
  if e.isOsError then .preparation message (some e) else e

section

variable (env : Environment Call Reply) (platform : Platform)

/-- `_close_descriptors_independently` -/
def closeDescriptors : List (String × ℕ) → Run (List (String × SystemError))
  | [] => pure []
  | descriptor :: descriptors => do
      let reply ← ask env (.close descriptor.2)
      let failures ← closeDescriptors descriptors
      pure (closeFailure descriptor.1 reply ++ failures)

/-- The end of an operation that failed: the descriptors it holds are closed. -/
def abandon {α : Type} (context : String) (primary : Option PrepError) (held : List (String × ℕ))
    (domain : Domain) : Run α := do
  let failures ← closeDescriptors env held
  let () ← lift (raiseOperationOrCleanup context primary failures domain .notCommitted none)
  raise assertionError

/-- `p`, abandoned with the descriptors held if it fails. -/
def guarded {α : Type} (p : Run α) (onFailure : PrepError → PrepError) (context : String)
    (held : List (String × ℕ)) : Run α := do
  let outcome ← attempt p
  match outcome with
  | .ok a => pure a
  | .error e => abandon env context (some (onFailure e)) held .corpus

/-! ### Single calls -/

def orRaise {α : Type} (reply : Except SystemError α) : Run α := lift (reply.mapError .system)

def lstat (path : Text) : Run StatResult := do
  let reply ← ask env (.lstat path)
  orRaise reply

def fstat (descriptor : ℕ) : Run StatResult := do
  let reply ← ask env (.fstat descriptor)
  orRaise reply

def rewind (descriptor : ℕ) : Run Unit := do
  let reply ← ask env (.rewind descriptor)
  orRaise reply

def readBounded (descriptor size : ℕ) : Run { data : Bytes // data.length ≤ size } := do
  let reply ← ask env (.read descriptor size)
  orRaise reply

def read (descriptor size : ℕ) : Run Bytes := do
  let data ← readBounded env descriptor size
  pure data.1

def write (descriptor : ℕ) (data : Bytes) : Run { count : ℕ // count ≤ data.length } := do
  let reply ← ask env (.write descriptor data)
  orRaise reply

def fsync (descriptor : ℕ) : Run Unit := do
  let reply ← ask env (.fsync descriptor)
  orRaise reply

def openPlan (path : Text) : Run ℕ := do
  let reply ← ask env (.openPlan path)
  orRaise reply

/-! ### Reading whole files -/

/-- `while remaining: chunk = os.read(…)`, with what is done at an early end and with each block. -/
def readBlocks (descriptor : ℕ) (onEnd : Bytes → Run Bytes) (onBlock : Bytes → Run Unit) :
    ℕ → ℕ → Bytes → Run Bytes
  | 0, _, data => pure data
  | _ + 1, 0, data => pure data
  | rounds + 1, remaining + 1, data => do
      let chunk ← read env descriptor (min readChunkBytes (remaining + 1))
      if chunk = [] then onEnd data
      else do
        onBlock chunk
        readBlocks descriptor onEnd onBlock rounds (remaining + 1 - chunk.length) (data ++ chunk)

/-- `_read_plan_descriptor_bounded` -/
def readPlanDescriptorBounded (descriptor maxBytes : ℕ) : Run Bytes := do
  rewind env descriptor
  let raw ← readBlocks env descriptor (fun data => pure data) (fun _ => pure ()) (maxBytes + 1)
    (maxBytes + 1) []
  raiseIf (maxBytes < raw.length)
    (.plan ("acquisition plan exceeds " ++ toString maxBytes ++ " bytes") none)
  pure raw

/-- `_hash_fd_exact` -/
def hashFdExact (descriptor expectedBytes : ℕ) : Run (ℕ × Text) := do
  rewind env descriptor
  let data ← readBlocks env descriptor
    (fun data => raise (.preparation ("file ended after " ++ toString data.length ++
      " bytes; expected " ++ toString expectedBytes) none))
    (fun _ => pure ()) expectedBytes expectedBytes []
  let extra ← read env descriptor 1
  raiseIf (extra ≠ [])
    (.preparation ("file exceeds expected byte length " ++ toString expectedBytes) none)
  pure (data.length, hexDigest (sha256 data))

/-- `_write_all` -/
def writeAll (descriptor : ℕ) : ℕ → Bytes → Run Unit
  | 0, _ => pure ()
  | _ + 1, [] => pure ()
  | rounds + 1, b :: data => do
      let count ← write env descriptor (b :: data)
      raiseIf (count.1 = 0) .noProgress
      writeAll descriptor rounds ((b :: data).drop count.1)

/-- `_copy_source_to_fd` -/
def copySourceToFd (source output expectedBytes : ℕ) : Run (ℕ × Text) := do
  rewind env source
  let data ← readBlocks env source
    (fun data => raise (.preparation ("source ended after " ++ toString data.length ++
      " bytes; expected " ++ toString expectedBytes) none))
    (fun chunk => writeAll env output chunk.length chunk) expectedBytes expectedBytes []
  let extra ← read env source 1
  raiseIf (extra ≠ [])
    (.preparation ("source exceeds expected byte length " ++ toString expectedBytes) none)
  pure (data.length, hexDigest (sha256 data))

/-! ### The acquisition plan -/

def hardlinkDetail (m : StatResult) : String :=
  if m.nlink ≠ 1 then "hardlinks are forbidden" else "regular file required"

/-- `except OSError as exc: … AcquisitionPlanValidationError(message)` -/
def asPlanError (message : String) (e : PrepError) : PrepError :=
  if e.isOsError then .plan message (some e) else e

/-- The `try` block of `_read_plan_bytes` after the open. -/
def readOpenPlan (before : StatResult) (maxBytes descriptor : ℕ) : Run Bytes := do
  let opened ← fstat env descriptor
  raiseIf (¬ opened.isRegular ∨ opened.isReparsePoint ∨ opened.nlink ≠ 1 ∨
      before.inode ≠ opened.inode)
    (.plan "acquisition plan changed or became a symlink/hardlink while opening" none)
  raiseIf (planMetadataChanged platform.ctimeUnstable before opened)
    (.plan "acquisition plan changed while it was being opened" none)
  let raw ← readPlanDescriptorBounded env descriptor maxBytes
  let afterFirstRead ← fstat env descriptor
  raiseIf (planMetadataChanged platform.ctimeUnstable opened afterFirstRead)
    (.plan "acquisition plan changed while it was being read" none)
  let confirmed ← readPlanDescriptorBounded env descriptor maxBytes
  let afterSecondRead ← fstat env descriptor
  raiseIf (raw ≠ confirmed ∨
      planMetadataChanged platform.ctimeUnstable afterFirstRead afterSecondRead)
    (.plan "acquisition plan changed between two exact bounded reads" none)
  pure raw

/-- The exception that leaves a `try` statement, after its `except` clauses. -/
def primaryError {α : Type} (onFailure : PrepError → PrepError) : Except PrepError α → Option PrepError
  | .ok _ => none
  | .error e => some (onFailure e)

/-- `_read_plan_bytes` -/
def readPlanBytes (path : Text) (maxBytes : ℕ) : Run Bytes := do
  raiseIf (¬ (1 ≤ maxBytes ∧ maxBytes ≤ maxPlanBytes))
    (.plan ("max_bytes must be an integer from 1 through " ++ toString maxPlanBytes) none)
  let before ← Routine.mapError (asPlanError "acquisition plan must be an existing regular file")
    (lstat env path)
  raiseIf (¬ before.isRegular ∨ before.isReparsePoint ∨ before.nlink ≠ 1)
    (.plan ("acquisition plan is not an independent regular file; " ++ hardlinkDetail before) none)
  raiseIf (maxBytes < before.size)
    (.plan ("acquisition plan exceeds " ++ toString maxBytes ++ " bytes") none)
  let descriptor ← Routine.mapError (asPlanError "could not safely read acquisition plan")
    (openPlan env path)
  let outcome ← attempt (readOpenPlan env platform before maxBytes descriptor)
  let failures ← closeDescriptors env [("acquisition plan", descriptor)]
  let () ← lift (raiseOperationOrCleanup "acquisition plan read/close failed"
    (primaryError (asPlanError "could not safely read acquisition plan") outcome) failures .plan
    .notCommitted none)
  lift (outcome.mapError fun _ => assertionError)

/-- `load_acquisition_plan` -/
def loadAcquisitionPlan (path : Text) (maxBytes : ℕ) : Run AcquisitionPlan := do
  let raw ← readPlanBytes env platform path maxBytes
  let corpora ← lift ((platform.parsePlan raw).mapError fun message => .plan message none)
  pure ⟨corpora, hexDigest (sha256 raw)⟩

/-! ### Paths -/

/-- `_secure_path_parts`: the anchor and the components. -/
def securePathParts (path : Text) (context : String) : Except PrepError (Text × List Text) := do
  Except.raiseIf (path = [] ∨ '\x00' ∈ path ∨ "//".toList <+: path ∨ '\\' ∈ path)
    (.preparation (context ++ " must be a normalized local path") none)
  Except.raiseIf (path = ['/'] ∨ path = ['.'])
    (.preparation (context ++ " must name a regular file") none)
  let absolute := path.head? = some '/'
  let parts := if absolute then (path.splitOn '/').drop 1 else path.splitOn '/'
  Except.raiseIf (parts = [] ∨ parts.any (· ∈ [[], ['.'], ['.', '.']]) = true)
    (.preparation (context ++ " must be a normalized local path") none)
  .ok (if absolute then ['/'] else ['.'], parts)

/-- `_require_secure_preparation` -/
def requireSecurePreparation : Except PrepError Unit :=
  Except.raiseIf (platform.secureSupported = false)
    (.preparation "atomic no-follow local preparation is unavailable on this platform" none)

/-! ### Directories -/

def requireDirectory (context : String) (descriptor : ℕ) : Run Unit := do
  let m ← fstat env descriptor
  raiseIf (¬ m.isDirectory) (.preparation (context ++ " is not a directory") none)

def symlinksForbidden (context : String) (e : PrepError) : PrepError :=
  asPreparation ("could not securely open " ++ context ++ "; symlinks are forbidden") e

/-- A descriptor that is opened and checked, with the descriptors held until then. -/
def openChecked {α : Type} (opening : Run ℕ) (check : ℕ → Run α) (onFailure : PrepError → PrepError)
    (context role : String) (held : List (String × ℕ)) : Run (ℕ × α) := do
  let descriptor ← guarded env opening onFailure context held
  let a ← guarded env (check descriptor) onFailure context ((role, descriptor) :: held)
  pure (descriptor, a)

def openAnchor (anchor : Text) : Run ℕ := do
  let reply ← ask env (.openAnchor anchor)
  orRaise reply

def openDirectory (directory : ℕ) (name : Text) : Run ℕ := do
  let reply ← ask env (.openDirectory directory name)
  orRaise reply

def openRegular (directory : ℕ) (name : Text) : Run ℕ := do
  let reply ← ask env (.openRegular directory name)
  orRaise reply

def openTemporary (directory : ℕ) : Run ℕ := do
  let reply ← ask env (.openTemporary directory)
  orRaise reply

/-- `_open_anchor_directory` -/
def openAnchorDirectory (anchor : Text) (context : String) : Run ℕ := do
  let opened ← openChecked env (openAnchor env anchor) (requireDirectory env context)
    (symlinksForbidden context) ("securely opening " ++ context ++ " failed")
    (context ++ " anchor") []
  pure opened.1

/-- The loop of `_open_directory_parts_secure`. -/
def descend (context : String) : List Text → ℕ → Run ℕ
  | [], current => pure current
  | part :: parts, current => do
      let following ← openChecked env (openDirectory env current part) (requireDirectory env context)
        (symlinksForbidden context) ("secure directory traversal for " ++ context ++ " failed")
        (context ++ " next component") [(context ++ " current component", current)]
      let failures ← closeDescriptors env [(context ++ " previous component", current)]
      if failures = [] then descend context parts following.1
      else do
        let more ← closeDescriptors env [(context ++ " next component", following.1)]
        let () ← lift (raiseOperationOrCleanup
          ("secure directory traversal for " ++ context ++ " could not release ancestors") none
          (failures ++ more) .corpus .notCommitted none)
        raise assertionError

/-- `_open_directory_parts_secure` -/
def openDirectoryParts (anchor : Text) (parts : List Text) (context : String) : Run ℕ := do
  let first ← openAnchorDirectory env anchor context
  let current ← descend env context parts first
  guarded env (requireDirectory env context current)
    (asPreparation ("could not validate " ++ context))
    ("secure directory validation for " ++ context ++ " failed")
    [(context ++ " final component", current)]
  pure current

/-! ### The source and the destination -/

/-- `_SecureOpenedRegular` -/
structure OpenedRegular where
  fileDescriptor : ℕ
  fileMetadata : StatResult
  parentDescriptor : ℕ
  parentMetadata : StatResult

def requireSingleRegular (context : String) (descriptor : ℕ) : Run StatResult := do
  let m ← fstat env descriptor
  raiseIf (¬ m.isRegular) (.preparation (context ++ " must be a regular file") none)
  raiseIf (m.nlink ≠ 1) (.preparation (context ++ " hardlinks are forbidden") none)
  pure m

/-- `_open_regular_path_secure` -/
def openRegularPath (path : Text) (context : String) : Run OpenedRegular := do
  lift (requireSecurePreparation platform)
  let anchored ← lift (securePathParts path context)
  let parent ← openDirectoryParts env anchored.1 anchored.2.dropLast (context ++ " parent")
  let failed := "securely opening " ++ context ++ " failed"
  let parentMetadata ← guarded env (fstat env parent) (symlinksForbidden context) failed
    [(context ++ " parent", parent)]
  let opened ← openChecked env (openRegular env parent (anchored.2.getLastD []))
    (requireSingleRegular env context) (symlinksForbidden context) failed context
    [(context ++ " parent", parent)]
  pure ⟨opened.1, opened.2, parent, parentMetadata⟩

structure OpenedParent where
  descriptor : ℕ
  name : Text
  metadata : StatResult

/-- `_open_destination_parent_secure` -/
def openDestinationParent (path : Text) : Run OpenedParent := do
  lift (requireSecurePreparation platform)
  let anchored ← lift (securePathParts path "destination path")
  let parent ← openDirectoryParts env anchored.1 anchored.2.dropLast "destination parent"
  let m ← guarded env (fstat env parent)
    (asPreparation "could not validate destination parent identity")
    "destination parent validation failed" [("destination parent", parent)]
  pure ⟨parent, anchored.2.getLastD [], m⟩

def existsReply : Except SystemError StatResult → Except PrepError Bool
  | .ok _ => .ok true
  | .error .notFound => .ok false
  | .error e =>
      .error (asPreparation "could not inspect destination without following symlinks" (.system e))

/-- `_destination_exists` -/
def destinationExists (parent : ℕ) (name : Text) : Run Bool := do
  let reply ← ask env (.statAt parent name)
  lift (existsReply reply)

def requireUnlinked (descriptor : ℕ) : Run Unit := do
  let m ← fstat env descriptor
  raiseIf (¬ m.isRegular ∨ m.nlink ≠ 0)
    (.preparation "anonymous temporary output is not an unlinked regular file" none)

/-- `_create_temporary_output` -/
def createTemporaryOutput (parent : ℕ) : Run ℕ := do
  let opened ← openChecked env (openTemporary env parent) (requireUnlinked env)
    (asPreparation "destination filesystem does not support anonymous atomic output")
    "anonymous temporary output creation failed" "anonymous temporary output" []
  pure opened.1

end

end MosaicArchive.Publication
