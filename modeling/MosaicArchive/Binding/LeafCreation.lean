import Mathlib.Tactic
import MosaicArchive.Binding.ControlText
import MosaicArchive.Publication.Calls

/-!
The creation of a cgroup leaf: the backend over an inherited descriptor
(`_PinnedDescriptorCgroupBackend` in `competitive_binding_io.py`) makes and inspects the
directory, and `_create_configured_binding_cgroup` (`competitive_binding_cgroup.py`) writes and
verifies its control files. Each of the two layers rolls back on its own.
-/

namespace MosaicArchive.Cgroup

open FixedWidth CallHistory
open Utf8 (Text)
open Binding (ObjectId Raised LeaseState hostError osError valueError errorGroup
  combinedFailures singleLine controlScalar parseIdSet checkEffectiveIdSet formatIdSet strOfInt
  maxControlBytes)
open Publication (StatResult)
open Routine (raise raiseIf lift attempt mapError onError)

/-! ### Exceptions -/

/-- An exception with those it was raised from or is a group of. -/
inductive Failure where
  | mk (raised : Raised) (holds : List Failure)

def Failure.raised : Failure → Raised
  | mk raised _ => raised

/-- An exception that was not raised from another. -/
def Failure.plain (raised : Raised) : Failure := ⟨raised, []⟩

inductive Failure.Contains : Failure → Failure → Prop
  | itself (e : Failure) : Contains e e
  | held {raised : Raised} {holds : List Failure} {e f : Failure} :
      e ∈ holds → Contains e f → Contains (.mk raised holds) f

/-- `_raise_combined_failures` -/
def combined (context : String) (primaryError cleanupError : Failure) : Failure :=
  ⟨combinedFailures context primaryError.raised cleanupError.raised, [primaryError, cleanupError]⟩

/-- `_raise_primary_and_cleanup` and `_raise_backend_failures` -/
def grouped (context : String) (primaryError cleanupError : Failure) : Failure :=
  ⟨errorGroup context [primaryError.raised, cleanupError.raised], [primaryError, cleanupError]⟩

/-! ### System calls -/

inductive LeafCall where
  | fstat (descriptor : ℤ)
  | fstatfs (descriptor : ℤ)
  /-- `os.mkdir(name, mode=0o700, dir_fd=directory)` -/
  | mkdir (name : Text) (directory : ℤ)
  /-- `os.open(name, _directory_open_flags(), dir_fd=directory)` -/
  | openLeaf (name : Text) (directory : ℤ)
  /-- `os.rmdir(name, dir_fd=directory)` -/
  | rmdir (name : Text) (directory : ℤ)
  | openRead (filename : String) (directory : ℤ)
  | openWrite (filename : String) (directory : ℤ)
  | read (descriptor : ℤ) (limit : ℕ)
  | write (descriptor : ℤ) (data : Bytes)
  | close (descriptor : ℤ)
  /-- `os.getpid()`, which cannot fail -/
  | getpid

def LeafReply : LeafCall → Type
  | .fstat _ => Except Raised StatResult
  | .fstatfs _ => Except Raised ℤ
  | .mkdir _ _ => Except Raised Unit
  | .openLeaf _ _ => Except Raised ℤ
  | .rmdir _ _ => Except Raised Unit
  | .openRead _ _ => Except Raised ℤ
  | .openWrite _ _ => Except Raised ℤ
  | .read _ _ => Except Raised Bytes
  | .write _ _ => Except Raised ℤ
  | .close _ => Except Raised Unit
  | .getpid => ℕ

abbrev LeafHistory := CallHistory LeafCall LeafReply

abbrev LeafEnvironment := Environment LeafCall LeafReply

abbrev LeafRun := Routine LeafHistory Failure

def orRaise {α : Type} (reply : Except Raised α) : LeafRun α := lift (reply.mapError .plain)

section

variable (env : LeafEnvironment)

def fstat (descriptor : ℤ) : LeafRun StatResult := do
  let reply ← ask env (.fstat descriptor)
  orRaise reply

def fstatfs (descriptor : ℤ) : LeafRun ℤ := do
  let reply ← ask env (.fstatfs descriptor)
  orRaise reply

def mkdir (name : Text) (directory : ℤ) : LeafRun Unit := do
  let reply ← ask env (.mkdir name directory)
  orRaise reply

def openDirectory (name : Text) (directory : ℤ) : LeafRun ℤ := do
  let reply ← ask env (.openLeaf name directory)
  orRaise reply

def rmdir (name : Text) (directory : ℤ) : LeafRun Unit := do
  let reply ← ask env (.rmdir name directory)
  orRaise reply

def openRead (filename : String) (directory : ℤ) : LeafRun ℤ := do
  let reply ← ask env (.openRead filename directory)
  orRaise reply

def openWrite (filename : String) (directory : ℤ) : LeafRun ℤ := do
  let reply ← ask env (.openWrite filename directory)
  orRaise reply

def read (descriptor : ℤ) (limit : ℕ) : LeafRun Bytes := do
  let reply ← ask env (.read descriptor limit)
  orRaise reply

def write (descriptor : ℤ) (data : Bytes) : LeafRun ℤ := do
  let reply ← ask env (.write descriptor data)
  orRaise reply

def close (descriptor : ℤ) : LeafRun Unit := do
  let reply ← ask env (.close descriptor)
  orRaise reply

/-- `_close_after_failure` -/
def closeAfterFailure {α : Type} (descriptor : ℤ) (primaryError : Failure) (context : String) :
    LeafRun α := do
  onError (close env descriptor) fun cleanupError =>
    raise (grouped context primaryError cleanupError)
  raise primaryError

/-- `_run_and_close` -/
def runAndClose {α : Type} (descriptor : ℤ) (operation : LeafRun α) (context : String) : LeafRun α := do
  let result ← onError operation fun primaryError =>
    closeAfterFailure env descriptor primaryError context
  close env descriptor
  pure result

/-! ### Control files -/

/-- `_validate_control_filename` -/
def isUnsafeControlFilename (filename : String) : Bool :=
  filename = "" ∨ '/' ∈ filename.toList ∨ '\\' ∈ filename.toList ∨ '\x00' ∈ filename.toList ∨
    filename = "." ∨ filename = ".."

/-- `bytes.decode("ascii")` -/
def decodeAscii (data : Bytes) : Option Text :=
  if data.all (· < 128) then some (data.map fun b => Char.ofNat b.toNat) else none

/-- `str.encode("ascii")` -/
def encodeAscii (value : Text) : Option Bytes :=
  if value.all (·.toNat < 128) then some (value.map fun c => UInt8.ofNat c.toNat) else none

/-- The loop of `_read_control_file`, with what has been read. A chunk is not empty, so the limit
is reached before the fuel is used up. -/
def readChunks (descriptor : ℤ) : ℕ → Bytes → LeafRun Bytes
  | 0, _ => raise (.plain (osError "cgroup control file exceeds the bounded read limit"))
  | fuel + 1, chunks => do
      let chunk ← read env descriptor (min 4096 (maxControlBytes + 1 - chunks.length))
      if chunk = [] then pure chunks
      else do
        raiseIf ((chunks ++ chunk).length > maxControlBytes)
          (.plain (osError "cgroup control file exceeds the bounded read limit"))
        readChunks descriptor fuel (chunks ++ chunk)

def readValue (descriptor : ℤ) : LeafRun Text := do
  let data ← readChunks env descriptor (maxControlBytes + 1) []
  match decodeAscii data with
  | none => raise (.plain (osError "cgroup control file is not ASCII"))
  | some text => pure text

/-- `_read_control_file` -/
def readControlFile (directory : ℤ) (filename : String) : LeafRun Text := do
  raiseIf (isUnsafeControlFilename filename = true) (.plain (osError "unsafe cgroup control filename"))
  let descriptor ← openRead env filename directory
  runAndClose env descriptor (readValue env descriptor)
    "cgroup control read and file-descriptor cleanup both failed"

/-- `_write_control_file` -/
def writeControlFile (directory : ℤ) (filename : String) (value : Text) : LeafRun ℤ := do
  raiseIf (isUnsafeControlFilename filename = true) (.plain (osError "unsafe cgroup control filename"))
  match encodeAscii value with
  | none => raise (.plain (osError "cgroup control value is not ASCII"))
  | some encoded => do
      let descriptor ← openWrite env filename directory
      runAndClose env descriptor (write env descriptor encoded)
        "cgroup control write and file-descriptor cleanup both failed"

end

/-! ### The backend -/

/-- `_PinnedRootHandle`; the token tells the object. -/
structure RootHandle where
  token : ObjectId
  device : ℕ
  inode : ℕ
  deriving DecidableEq, Repr

/-- `_PinnedLeafHandle` -/
structure LeafHandle where
  root : RootHandle
  name : Text
  device : ℕ
  inode : ℕ
  deriving DecidableEq, Repr

/-- `_PinnedDescriptorCgroupBackend`; once it is closed it has no descriptor. -/
structure Backend where
  descriptor : Option ℤ
  rootHandle : RootHandle
  deriving DecidableEq, Repr

def cgroup2SuperMagic : ℤ := 0x63677270

/-- A `try` body; an exception leaves it with the local `created`. -/
abbrev LeafBody := Routine LeafHistory (Failure × Bool)

def within {α : Type} (created : Bool) (p : LeafRun α) : LeafBody α := mapError (fun e => (e, created)) p

section

variable (env : LeafEnvironment) (backend : Backend)

/-- `_require_root` -/
def requireRoot (root : RootHandle) : LeafRun ℤ := do
  raiseIf (root ≠ backend.rootHandle) (.plain (osError "invalid pinned cgroup root handle"))
  match backend.descriptor with
  | none => raise (.plain (osError "pinned cgroup root backend is closed"))
  | some descriptor => do
      let status ← fstat env descriptor
      raiseIf (status.isDirectory = false ∨ status.ino = 0)
        (.plain (osError "pinned cgroup root descriptor is no longer a stable directory"))
      let magic ← fstatfs env descriptor
      raiseIf (magic ≠ cgroup2SuperMagic)
        (.plain (osError "pinned root is no longer on a cgroup-v2 filesystem"))
      raiseIf ((status.dev, status.ino) ≠ (root.device, root.inode))
        (.plain (osError "pinned cgroup root identity changed"))
      pure descriptor

/-- `inspect_leaf` -/
def inspectLeaf (leafFd : ℤ) (root : RootHandle) (name : Text) : LeafRun LeafHandle := do
  let status ← fstat env leafFd
  raiseIf (status.isDirectory = false ∨ status.ino = 0)
    (.plain (osError "new cgroup leaf is not a stable directory"))
  let magic ← fstatfs env leafFd
  raiseIf (magic ≠ cgroup2SuperMagic)
    (.plain (osError "new cgroup leaf is not on a cgroup-v2 filesystem"))
  pure ⟨root, name, status.dev, status.ino⟩

/-- The `try` body of `create_leaf`. -/
def makeLeaf (rootFd : ℤ) (root : RootHandle) (name : Text) : LeafBody LeafHandle := do
  within false (mkdir env name rootFd)
  within true do
    let leafFd ← openDirectory env name rootFd
    runAndClose env leafFd (inspectLeaf env leafFd root name)
      "cgroup leaf inspection and descriptor cleanup both failed"

/-- The directory that `create_leaf` made is removed again. -/
def removeMade (rootFd : ℤ) (root : RootHandle) (name : Text) : LeafRun Unit := do
  let _ ← requireRoot env backend root
  rmdir env name rootFd

/-- `create_leaf` -/
def createLeaf (root : RootHandle) (name : Text) : LeafRun LeafHandle := do
  let rootFd ← requireRoot env backend root
  let outcome ← attempt (makeLeaf env rootFd root name)
  match outcome with
  | .ok leaf => pure leaf
  | .error (setupError, created) =>
      if created then do
        onError (removeMade env backend rootFd root name) fun cleanupError =>
          raise (grouped "cgroup leaf creation and cleanup both failed" setupError cleanupError)
        raise setupError
      else raise setupError

/-- What `_open_leaf` requires of the directory it opened. -/
def revalidateLeaf (descriptor : ℤ) (leaf : LeafHandle) : LeafRun Unit := do
  let status ← fstat env descriptor
  raiseIf (status.isDirectory = false ∨ status.ino = 0)
    (.plain (osError "pinned cgroup leaf is no longer a stable directory"))
  let magic ← fstatfs env descriptor
  raiseIf (magic ≠ cgroup2SuperMagic) (.plain (osError "pinned cgroup leaf is no longer on cgroup-v2"))
  raiseIf ((status.dev, status.ino) ≠ (leaf.device, leaf.inode))
    (.plain (osError "pinned cgroup leaf identity changed"))

/-- `_open_leaf` -/
def openLeaf (leaf : LeafHandle) : LeafRun ℤ := do
  raiseIf (leaf.root ≠ backend.rootHandle) (.plain (osError "invalid pinned cgroup leaf handle"))
  let rootFd ← requireRoot env backend leaf.root
  let descriptor ← openDirectory env leaf.name rootFd
  onError (revalidateLeaf env descriptor leaf) fun inspectError =>
    closeAfterFailure env descriptor inspectError
      "cgroup leaf revalidation and descriptor cleanup both failed"
  pure descriptor

def readLeaf (leaf : LeafHandle) (filename : String) : LeafRun Text := do
  let descriptor ← openLeaf env backend leaf
  runAndClose env descriptor (readControlFile env descriptor filename)
    "cgroup leaf read and descriptor cleanup both failed"

def writeLeaf (leaf : LeafHandle) (filename : String) (value : Text) : LeafRun ℤ := do
  let descriptor ← openLeaf env backend leaf
  runAndClose env descriptor (writeControlFile env descriptor filename value)
    "cgroup leaf write and descriptor cleanup both failed"

def removeLeaf (root : RootHandle) (leaf : LeafHandle) : LeafRun Unit := do
  let rootFd ← requireRoot env backend root
  raiseIf (leaf.root ≠ root) (.plain (osError "invalid pinned cgroup leaf handle"))
  let descriptor ← openLeaf env backend leaf
  runAndClose env descriptor (pure ()) "cgroup leaf validation and descriptor cleanup both failed"
  let _ ← requireRoot env backend root
  rmdir env leaf.name rootFd

end

/-! ### The lease -/

structure Policy where
  leafNamePrefix : Text
  pidsMax : ℕ
  memoryMaxBytes : ℕ
  memorySwapMaxBytes : ℕ
  deriving DecidableEq, Repr

/-- `BindingHostQualification`, with what its `__post_init__` requires. -/
structure Qualification where
  policy : Policy
  selectedCpus : List ℕ
  cpusetCpus : Text
  selectedMems : List ℕ
  cpusetMems : Text
  backend : Backend
  rootHandle : RootHandle
  capability : Option ObjectId
  cpus_sorted : selectedCpus.Pairwise (· < ·)
  cpus_text : cpusetCpus = formatIdSet selectedCpus
  mems_sorted : selectedMems.Pairwise (· < ·)
  mems_nonempty : selectedMems ≠ []
  mems_text : cpusetMems = formatIdSet selectedMems

/-- The authority of a lease: a production lease retains the capability that qualified its root. -/
inductive Attachment (q : Qualification) where
  | nativePreexecRequired (capability : ObjectId) (h : q.capability = some capability)
  | testOnlyDirectAttach

/-- `BindingCgroupLease` -/
structure Lease (q : Qualification) where
  leafName : Text
  leafHandle : LeafHandle
  attachment : Attachment q
  issuingPid : ℕ
  closed : Bool
  state : LeaseState

def maxLeafNameBytes : ℕ := 255

/-- `_LEAF_NAME_RE.fullmatch` -/
def matchesLeafName : Text → Bool
  | [] => false
  | c :: rest =>
      let isLower := fun c : Char => decide ('a' ≤ c ∧ c ≤ 'z' ∨ '0' ≤ c ∧ c ≤ '9')
      isLower c && rest.all fun c => isLower c || c ∈ ['.', '_', '-']

/-- `_validate_leaf_name` -/
def validateLeafName (name : Text) (policy : Policy) : Except Failure Unit :=
  match encodeAscii name with
  | none => .error (.plain (valueError "cgroup leaf name must be ASCII"))
  | some encoded =>
      Except.raiseIf (¬ policy.leafNamePrefix <+: name ∨ encoded = [] ∨
          encoded.length > maxLeafNameBytes ∨ matchesLeafName name = false ∨ name = ['.'] ∨
          name = ['.', '.'])
        (.plain (valueError "cgroup leaf name is outside the fixed safe namespace"))

/-- What `_backend_call` makes of an exception. -/
def asHostError (context : String) (e : Failure) : Failure :=
  if e.raised.kind.isHostError then e
  else if e.raised.kind.isException then ⟨hostError (context ++ ": " ++ e.raised.text), [e]⟩
  else e

/-- `_backend_call` -/
def backendCall {α : Type} (context : String) (operation : LeafRun α) : LeafRun α :=
  mapError (asHostError context) operation

section

variable (env : LeafEnvironment) (q : Qualification) (leaf : LeafHandle)

/-- `_write_exact` -/
def writeExact (filename : String) (value : Text) : LeafRun Unit := do
  match encodeAscii value with
  | none => raise (.plain ⟨.other "UnicodeEncodeError" true, "ordinal not in range(128)", []⟩)
  | some encoded => do
      let written ← backendCall ("exact write to " ++ filename ++ " failed")
        (writeLeaf env q.backend leaf filename value)
      raiseIf (written ≠ encoded.length)
        (.plain (hostError ("exact write to " ++ filename ++ " wrote " ++ toString written ++ " of " ++
          toString encoded.length ++ " bytes")))

/-- `_write_and_verify` -/
def writeAndVerify (filename : String) (value : Text) : LeafRun Unit := do
  writeExact env q leaf filename value
  let observed ← backendCall ("readback of " ++ filename ++ " failed")
    (readLeaf env q.backend leaf filename)
  let scalar ← orRaise (controlScalar (.text observed) filename)
  raiseIf (scalar ≠ value) (.plain (hostError ("exact readback mismatch for " ++ filename)))

/-- `_verify_effective_id_set` -/
def verifyEffectiveIdSet (filename : String) (expected : List ℕ) (context : String) : LeafRun Unit := do
  let observed ← backendCall ("failed to read " ++ filename) (readLeaf env q.backend leaf filename)
  orRaise (checkEffectiveIdSet (.text observed) expected context)

/-- The control files with their qualified values. -/
def controlValues (q : Qualification) : Except Raised (List (String × Text)) := do
  let pidsMax ← strOfInt q.policy.pidsMax
  let memoryMax ← strOfInt q.policy.memoryMaxBytes
  let memorySwapMax ← strOfInt q.policy.memorySwapMaxBytes
  pure [("cpuset.mems", q.cpusetMems), ("cpuset.cpus", q.cpusetCpus), ("pids.max", pidsMax),
    ("memory.max", memoryMax), ("memory.swap.max", memorySwapMax)]

/-- The loop over the control files. -/
def writeAll : List (String × Text) → LeafRun Unit
  | [] => pure ()
  | (filename, value) :: rest => do
      writeAndVerify env q leaf filename value
      writeAll rest

/-- The check of the initial `memory.peak`. -/
def verifyInitialPeak : LeafRun Unit := do
  let initialPeak ← backendCall "initial memory.peak read failed"
    (readLeaf env q.backend leaf "memory.peak")
  let scalar ← orRaise (controlScalar (.text initialPeak) "memory.peak")
  raiseIf (scalar ≠ ['0'])
    (.plain (hostError "fresh unpopulated cgroup memory.peak must start at zero"))

/-- The `try` body of `_create_configured_binding_cgroup`. -/
def configure : LeafRun Unit := do
  let values ← orRaise (controlValues q)
  writeAll env q leaf values
  verifyEffectiveIdSet env q leaf "cpuset.cpus.effective" q.selectedCpus "child CPU"
  verifyEffectiveIdSet env q leaf "cpuset.mems.effective" q.selectedMems "child memory-node"
  verifyInitialPeak env q leaf

/-- What is raised when the configuration failed and the leaf was removed. -/
def setupFailure (setupError : Failure) : Failure :=
  if setupError.raised.kind.isHostError then setupError
  else if setupError.raised.kind.isException = false then setupError
  else ⟨hostError ("cgroup leaf setup failed: " ++ setupError.raised.text), [setupError]⟩

/-- The handler of `_create_configured_binding_cgroup`. -/
def removeAfterFailure (setupError : Failure) : LeafRun Unit := do
  onError (removeLeaf env q.backend q.rootHandle leaf) fun cleanupError =>
    raise (combined "cgroup setup and fresh-leaf cleanup both failed" setupError cleanupError)
  raise (setupFailure setupError)

/-- `_create_configured_binding_cgroup` -/
def createConfiguredBindingCgroup (leafName : Text) (attachment : Attachment q) :
    LeafRun (Lease q) := do
  lift (validateLeafName leafName q.policy)
  let leafHandle ← backendCall "fresh cgroup leaf creation failed"
    (createLeaf env q.backend q.rootHandle leafName)
  onError (configure env q leafHandle) (removeAfterFailure env q leafHandle)
  let issuingPid ← ask env .getpid
  pure ⟨leafName, leafHandle, attachment, issuingPid, false, .ready⟩

end

end MosaicArchive.Cgroup
