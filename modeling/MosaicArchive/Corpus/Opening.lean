import MosaicArchive.Corpus.Fields
import MosaicArchive.Publication.Calls

/-!
How `mosaic_archive/competitive_corpus.py` opens directories and files without following
symbolic links: from an anchor one component at a time, each directory closed when the next
one is open. A `try` body that fails leaves its loop variables to the handler.
-/

namespace MosaicArchive.Corpus

open FixedWidth CallHistory
open Publication (StatResult SystemError)
open Routine (raise raiseIf lift attempt mapError)

/-! ### System calls -/

inductive Call where
  /-- `os.open(anchor, _directory_open_flags())` -/
  | openAnchor (anchor : PyText)
  /-- `os.open(part, _directory_open_flags(), dir_fd=directory)` -/
  | openDirectory (part : PyText) (directory : ℕ)
  /-- `os.open(part, _regular_file_open_flags(), dir_fd=directory)` -/
  | openRegular (part : PyText) (directory : ℕ)
  | fstat (descriptor : ℕ)
  | close (descriptor : ℕ)
  deriving DecidableEq

def Reply : Call → Type
  | .openAnchor _ => Except SystemError ℕ
  | .openDirectory _ _ => Except SystemError ℕ
  | .openRegular _ _ => Except SystemError ℕ
  | .fstat _ => Except SystemError StatResult
  | .close _ => Except SystemError Unit

abbrev History := CallHistory Call Reply

abbrev Event := Σ c : Call, Reply c

/-- The class of the exceptions a function is told to raise. -/
inductive ErrorType where
  | lockValidation
  | verification
  deriving DecidableEq

inductive OpenError where
  /-- An exception of the given class, with the `OSError` it is raised from. -/
  | rejected (errorType : ErrorType) (message : String) (cause : Option SystemError)
  /-- The same with the path of a file in its message. -/
  | rejectedFile (message : String) (path : PyText) (cause : Option SystemError)
  | system (e : SystemError)
  /-- What the check of a path raises. -/
  | field (e : LockError)
  deriving DecidableEq

abbrev Run := Routine History OpenError

/-- The locals of the loops: the directory that is open last, and whether it is to be closed. -/
structure Walk where
  current : ℕ
  ownsCurrent : Bool
  deriving DecidableEq

/-- A `try` body; an exception leaves it with the locals. -/
abbrev Body := Routine History (OpenError × Walk)

/-- A part of a `try` body that is run with these locals. -/
def within {α : Type} (w : Walk) (p : Run α) : Body α := mapError (fun e => (e, w)) p

/-! ### Single calls -/

def orRaise {α : Type} (reply : Except SystemError α) : Run α := lift (reply.mapError .system)

/-- `except OSError as exc: raise error from exc` -/
def except (error : SystemError → OpenError) (e : SystemError) : OpenError :=
  if e.isOsError then error e else .system e

section

variable (env : Environment Call Reply)

def openAnchor (anchor : PyText) (error : SystemError → OpenError) : Run ℕ := do
  let reply ← ask env (.openAnchor anchor)
  lift (reply.mapError (except error))

def openDirectory (part : PyText) (directory : ℕ) (error : SystemError → OpenError) : Run ℕ := do
  let reply ← ask env (.openDirectory part directory)
  lift (reply.mapError (except error))

def openRegular (part : PyText) (directory : ℕ) (error : SystemError → OpenError) : Run ℕ := do
  let reply ← ask env (.openRegular part directory)
  lift (reply.mapError (except error))

def fstatOr (descriptor : ℕ) (error : SystemError → OpenError) : Run StatResult := do
  let reply ← ask env (.fstat descriptor)
  lift (reply.mapError error)

def fstat (descriptor : ℕ) : Run StatResult := fstatOr env descriptor .system

def close (descriptor : ℕ) : Run Unit := do
  let reply ← ask env (.close descriptor)
  orRaise reply

/-- `if owns_current: os.close(current)` -/
def closeOwned (w : Walk) : Run Unit :=
  if w.ownsCurrent then close env w.current else pure ()

/-! ### Directories -/

/-- `_open_anchor_directory` -/
def openAnchorDirectory (anchor : PyText) (context : String) (errorType : ErrorType) : Run ℕ := do
  let error := fun e => OpenError.rejected errorType
    ("could not securely open " ++ context ++ " directory; symlinks are forbidden") (some e)
  let descriptor ← openAnchor env anchor error
  let metadata ← fstatOr env descriptor (except error)
  if ¬ metadata.isDirectory then do
    close env descriptor
    raise (.rejected errorType (context ++ " is not a directory") none)
  else pure descriptor

/-- The loop over the directories of a path. -/
def descend (error : SystemError → OpenError) : List PyText → Walk → Body Walk
  | [], w => pure w
  | part :: parts, w => do
      let following ← within w (openDirectory env part w.current error)
      within w (closeOwned env w)
      descend error parts ⟨following, true⟩

/-- `try: … except BaseException: os.close(current); raise` -/
def closingOnError {α : Type} (body : Body α) : Run α := do
  let outcome ← attempt body
  match outcome with
  | .ok a => pure a
  | .error (e, w) => do
      closeOwned env w
      raise e

/-- `try: … finally: if owns_current: os.close(current)` -/
def closingFinally {α : Type} (body : Body (α × Walk)) : Run α := do
  let outcome ← attempt body
  match outcome with
  | .ok (a, w) => do
      closeOwned env w
      pure a
  | .error (e, w) => do
      closeOwned env w
      raise e

end

/-! ### Paths -/

/-- `_secure_path_parts`: the anchor and the components. -/
def securePathParts (path : PyText) (context : String) (errorType : ErrorType)
    (allowAnchorOnly : Bool) : Except OpenError (PyText × List PyText) := do
  let unnormalized := OpenError.rejected errorType (context ++ " must be a normalized local path") none
  Except.raiseIf (path = [] ∨ .scalar '\x00' ∈ path ∨ lit "//" <+: path) unnormalized
  if path = lit "/" ∨ path = lit "." then do
    Except.raiseIf (allowAnchorOnly = false)
      (.rejected errorType (context ++ " must name a regular file") none)
    .ok (path, [])
  else do
    let absolute := path.head? = some (.scalar '/')
    let parts := if absolute then (path.splitOn (.scalar '/')).drop 1
      else path.splitOn (.scalar '/')
    Except.raiseIf (parts = [] ∨ parts.any (· ∈ [[], lit ".", lit ".."]) = true) unnormalized
    .ok (if absolute then lit "/" else lit ".", parts)

/-- `_require_secure_access`, given `secure_local_verification_supported()` -/
def requireSecureAccess (supported : Bool) (errorType : ErrorType) : Except OpenError Unit :=
  Except.raiseIf (supported = false) (.rejected errorType
    "atomic no-follow local file access is unavailable on this platform" none)

/-- The checks before anything is opened. -/
def pathToOpen (supported : Bool) (path : PyText) (context : String) (errorType : ErrorType)
    (allowAnchorOnly : Bool) : Except OpenError (PyText × List PyText) := do
  requireSecureAccess supported errorType
  securePathParts path context errorType allowAnchorOnly

/-- The path of a locked file, checked again. -/
def lockedParts (library : Library) (path : PyText) : Except OpenError (List PyText) :=
  match expectRelativePath library (.str path) "locked file" with
  | .ok normalized => .ok (normalized.splitOn (.scalar '/'))
  | .error (.validation message _) => .error (.rejected .verification message none)
  | .error e => .error (.field e)

section

variable (env : Environment Call Reply)

/-! ### The three functions -/

/-- The `try` body of `_open_directory_path_secure`. -/
def directoryBody (parts : List PyText) (context : String) (errorType : ErrorType) (first : ℕ) :
    Body ℕ := do
  let w ← descend env (fun e => .rejected errorType
    ("could not securely open " ++ context ++ " directory; symlinks are forbidden") (some e)) parts
    ⟨first, true⟩
  let metadata ← within w (fstat env w.current)
  within w (raiseIf (¬ metadata.isDirectory)
    (.rejected errorType (context ++ " is not a directory") none))
  pure w.current

/-- `_open_directory_path_secure` -/
def openDirectoryPathSecure (supported : Bool) (path : PyText) (context : String)
    (errorType : ErrorType) : Run ℕ := do
  let anchored ← lift (pathToOpen supported path context errorType true)
  let first ← openAnchorDirectory env anchored.1 context errorType
  closingOnError env (directoryBody env anchored.2 context errorType first)

/-- A regular file in a directory, closed again where it is not what it should be. -/
def openRegularChecked (part : PyText) (directory : ℕ) (error : SystemError → OpenError)
    (irregular : OpenError) : Run (ℕ × StatResult) := do
  let descriptor ← openRegular env part directory error
  let outcome ← attempt (do
    let metadata ← fstat env descriptor
    raiseIf (¬ metadata.isRegular) irregular
    pure metadata)
  match outcome with
  | .ok metadata => pure (descriptor, metadata)
  | .error e => do
      close env descriptor
      raise e

/-- The `try` body of the functions that open a regular file. -/
def regularBody (parts : List PyText) (directoryError fileError : SystemError → OpenError)
    (irregular : OpenError) (first : Walk) : Body ((ℕ × StatResult) × Walk) := do
  let w ← descend env directoryError parts.dropLast first
  let opened ← within w
    (openRegularChecked env (parts.getLastD []) w.current fileError irregular)
  pure (opened, w)

/-- `_open_regular_path_secure` -/
def openRegularPathSecure (supported : Bool) (path : PyText) (context : String)
    (errorType : ErrorType) : Run (ℕ × StatResult) := do
  let anchored ← lift (pathToOpen supported path context errorType false)
  let first ← openAnchorDirectory env anchored.1 context errorType
  closingFinally env (regularBody env anchored.2
    (fun e => .rejected errorType
      ("could not securely open " ++ context ++ " parent directory; symlinks are forbidden") (some e))
    (fun e => .rejected errorType
      ("could not securely open " ++ context ++ " regular file; symlinks are forbidden") (some e))
    (.rejected errorType (context ++ " is not a regular file") none) ⟨first, true⟩)

/-- `_open_relative_regular_secure`; the descriptor of the root stays with the caller. -/
def openRelativeRegularSecure (library : Library) (rootDescriptor : ℕ) (path : PyText) :
    Run (ℕ × StatResult) := do
  let parts ← lift (lockedParts library path)
  closingFinally env (regularBody env parts
    (fun e => .rejectedFile "could not securely open parent of" path (some e))
    (fun e => .rejectedFile "could not securely open locked file" path (some e))
    (.rejectedFile "locked path is not a regular file" path none) ⟨rootDescriptor, false⟩)

end

end MosaicArchive.Corpus
