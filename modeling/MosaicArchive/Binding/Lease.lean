import MosaicArchive.Binding.Capability
import MosaicArchive.Binding.ControlText

/-!
The operations of a cgroup lease. Each runs with the lease's lock held, so the
operations on one lease follow one another; they call each other, and every
call goes through the authority checks again.
-/

namespace MosaicArchive.Binding

open Utf8 (Text)

inductive AttachmentAuthority where
  | nativePreexecRequired
  | testOnlyDirectAttach
  deriving DecidableEq, Repr

structure CleanupPolicy where
  cleanupTimeoutSeconds : ℕ
  cleanupPollIntervalMilliseconds : ℕ
  deriving DecidableEq, Repr

structure BindingHostQualification where
  policy : CleanupPolicy
  selectedCpus : List ℕ
  selectedMems : List ℕ
  sessionId : Option String
  rootIdentity : Option RootIdentity
  policyDigest : Option String
  backend : ObjectId
  rootHandle : ObjectId
  capability : Option ObjectId
  deriving DecidableEq, Repr

/-- What a lease is created with; the last two fields are the checks of `__init__`. -/
structure BindingCgroupLease where
  qualification : BindingHostQualification
  backend : ObjectId
  rootHandle : ObjectId
  leafHandle : ObjectId
  attachmentAuthority : AttachmentAuthority
  productionCapability : Option ObjectId
  issuingPid : ℕ
  exactQualified : qualification.backend = backend ∧ qualification.rootHandle = rootHandle
  exactAuthority :
    match attachmentAuthority with
    | .nativePreexecRequired =>
        productionCapability.isSome ∧ qualification.capability = productionCapability
    | .testOnlyDirectAttach => productionCapability = none

inductive Operation where
  | attachProcess (pid : Option ℤ)
  | verifyEffectiveCpuset
  | readMemoryPeakBytes
  | awaitUnpopulated
  | kill
  | cleanup
  | enter
  | exit (exception : Option Raised)
  deriving DecidableEq, Repr

def LeaseState.text : LeaseState → String
  | .ready => "ready"
  | .attachmentUncertain => "attachment-uncertain"
  | .attached => "attached"
  | .finalizing => "finalizing"
  | .measured => "measured"
  | .terminationRequested => "termination-requested"

/-- `_backend_call` -/
def backendCall {α : Type} (context : String) (operation : Run α) : Run α :=
  Routine.onError operation fun error =>
    if error.kind.isHostError then Routine.raise error
    else if error.kind.isException then Routine.raise (hostError (context ++ ": " ++ error.text))
    else Routine.raise error

namespace BindingCgroupLease

variable {Time : Type} (env : Environment Time) (l : ObjectId) (lease : BindingCgroupLease)

/-! ### Checks -/

def requireOpen : Run Unit := do
  let w ← Routine.get
  Routine.raiseIf ((w.lease l).closed = true) (hostError "cgroup lease is closed")

def requireIssuingProcess : Run Unit := do
  let w ← Routine.get
  Routine.raiseIf (lease.issuingPid ≠ w.pid) (hostError "cgroup lease belongs to another process")

def requireState (expected : LeaseState) (operation : String) : Run Unit := do
  let w ← Routine.get
  Routine.raiseIf ((w.lease l).state ≠ expected)
    (hostError ("cannot " ++ operation ++ " while cgroup lease state is '" ++
      (w.lease l).state.text ++ "'"))

def setState (state : LeaseState) : Run Unit :=
  Routine.update fun w => w.setLease l { w.lease l with state := state }

def setClosed : Run Unit :=
  Routine.update fun w => w.setLease l { w.lease l with closed := true }

/-- The access is the one the lease was qualified with. -/
def AuthorityMatches (capability : ObjectId) (access : CapabilityAccess) : Prop :=
  access.productionInherited = true ∧
    access.backend = lease.backend ∧
    access.rootHandle = lease.rootHandle ∧
    lease.qualification.capability = some capability ∧
    lease.qualification.sessionId = some access.sessionId ∧
    lease.qualification.rootIdentity = some access.rootIdentity ∧
    lease.qualification.policyDigest = some access.policyDigest

instance (capability : ObjectId) (access : CapabilityAccess) :
    Decidable (lease.AuthorityMatches capability access) :=
  inferInstanceAs (Decidable (_ ∧ _))

/-- `except DelegatedRootCapabilityError` -/
def convertCapabilityError {α : Type} (error : Raised) : Run α :=
  if error.kind = .capabilityError then
    Routine.raise (hostError ("invalid delegated-root capability: " ++ error.text))
  else Routine.raise error

/-- `with self._locked_backend_authority(): body` -/
def lockedBackendAuthority {α : Type} (body : Run α) : Run α := do
  requireIssuingProcess lease
  match lease.productionCapability with
  | none => body
  | some capability =>
      Routine.onError
        (do
          let access ← lockedCapabilityAccess env (.lease l) capability
          Routine.raiseIf (¬ lease.AuthorityMatches capability access)
            (hostError "cgroup lease authority no longer matches its delegated-root session")
          body)
        convertCapabilityError

/-- What every operation but `cleanup` does around its body. -/
def withAuthority {α : Type} (body : Run α) : Run α := do
  requireIssuingProcess lease
  requireOpen l
  lockedBackendAuthority env l lease body

/-! ### Control files -/

/-- `_read_leaf` -/
def readFile (filename : String) : Run ReadReply :=
  backendCall ("failed to read " ++ filename)
    (readLeaf env (.lease l) lease.backend lease.leafHandle filename)

def isPopulated : Run Bool := do
  let value ← readFile env l lease "cgroup.events"
  Routine.lift (populatedOf value)

/-- `_write_exact` -/
def writeExact (filename : String) (value : Text) : Run Unit := do
  let written ← backendCall ("exact write to " ++ filename ++ " failed")
    (writeLeaf env (.lease l) lease.backend lease.leafHandle filename value)
  let repr := match written with
    | .int number => toString number
    | .other repr => repr
  Routine.raiseIf (written ≠ .int value.length)
    (hostError ("exact write to " ++ filename ++ " wrote " ++ repr ++ " of " ++
      toString value.length ++ " bytes"))

/-- `_verify_effective_id_set` -/
def verifyEffectiveIdSet (filename : String) (expected : List ℕ) (context : String) : Run Unit := do
  let observed ← readFile env l lease filename
  Routine.lift (checkEffectiveIdSet observed expected context)

def readClock : Run Time :=
  backendCall "failed to read cleanup clock" (monotonic env (.lease l) lease.backend)

/-! ### Operations -/

def verifyEffectiveCpuset : Run Unit :=
  withAuthority env l lease do
    verifyEffectiveIdSet env l lease "cpuset.cpus.effective" lease.qualification.selectedCpus
      "child CPU"
    verifyEffectiveIdSet env l lease "cpuset.mems.effective" lease.qualification.selectedMems
      "child memory-node"

/-- The body of `attach_process` after the check of the process ID. -/
def attachChecked (pid : ℕ) : Run Unit := do
  requireState l .ready "attach a process"
  verifyEffectiveCpuset env l lease
  setState l .attachmentUncertain
  let value ← Routine.lift (strOfInt pid)
  writeExact env l lease "cgroup.procs" value
  let observed ← readFile env l lease "cgroup.procs"
  let members ← Routine.lift (membersOf observed)
  Routine.raiseIf (pid ∉ members)
    (hostError ("cgroup.procs membership readback does not contain process " ++ toString pid))
  setState l .attached

def attachProcess (pid : Option ℤ) : Run Unit := do
  requireIssuingProcess lease
  requireOpen l
  Routine.raiseIf (lease.attachmentAuthority = .nativePreexecRequired)
    (hostError "production process attachment requires native clone3 pre-exec placement")
  lockedBackendAuthority env l lease do
    match pid with
    | some (Int.ofNat (n + 1)) => attachChecked env l lease (n + 1)
    | _ => Routine.raise (valueError "process ID must be a positive exact integer")

/-- The loop of `await_unpopulated`. -/
def pollUnpopulated (deadline : Time) : ℕ → Run Unit
  | 0 => Routine.raise ⟨.other "KeyboardInterrupt" false, "", []⟩
  | polls + 1 => do
      let populated ← isPopulated env l lease
      if populated then do
        let now ← readClock env l lease
        let late ← Routine.lift (env.reached now deadline)
        Routine.raiseIf (late = true)
          (hostError "cgroup cleanup timed out while the leaf remained populated")
        backendCall "cgroup cleanup polling failed"
          (sleep env (.lease l) lease.backend
            lease.qualification.policy.cleanupPollIntervalMilliseconds)
        pollUnpopulated deadline polls
      else
        pure ()

def awaitUnpopulated : Run Unit :=
  withAuthority env l lease do
    let now ← readClock env l lease
    let deadline ← Routine.lift (env.deadline now lease.qualification.policy.cleanupTimeoutSeconds)
    let w ← Routine.get
    pollUnpopulated env l lease deadline (env.polls w.history)

def readMemoryPeakBytes : Run ℕ :=
  withAuthority env l lease do
    requireState l .attached "finalize memory.peak"
    setState l .finalizing
    awaitUnpopulated env l lease
    verifyEffectiveCpuset env l lease
    let populatedBefore ← isPopulated env l lease
    Routine.raiseIf (populatedBefore = true)
      (hostError "cgroup became populated before memory.peak capture")
    let reply ← readFile env l lease "memory.peak"
    let value ← Routine.lift (controlScalar reply "memory.peak")
    let populatedAfter ← isPopulated env l lease
    Routine.raiseIf (populatedAfter = true)
      (hostError "cgroup became populated during memory.peak capture")
    verifyEffectiveCpuset env l lease
    let result ← Routine.lift (peakOf value)
    setState l .measured
    pure result

def kill : Run Unit :=
  withAuthority env l lease do
    setState l .terminationRequested
    writeExact env l lease "cgroup.kill" ['1']

def killIf (populated : Bool) : Run Unit :=
  if populated then kill env l lease else pure ()

def cleanup : Run Unit := do
  requireIssuingProcess lease
  let w ← Routine.get
  if (w.lease l).closed then
    pure ()
  else
    lockedBackendAuthority env l lease do
      let populated ← isPopulated env l lease
      killIf env l lease populated
      awaitUnpopulated env l lease
      backendCall "failed to remove cgroup leaf"
        (removeLeaf env (.lease l) lease.backend lease.leafHandle)
      setClosed l

/-- `__enter__` -/
def enter : Run Unit := do
  requireIssuingProcess lease
  requireOpen l

/-- `__exit__` -/
def exit (exception : Option Raised) : Run Unit :=
  Routine.onError (cleanup env l lease) fun cleanupError =>
    match exception with
    | none => Routine.raise cleanupError
    | some bodyError =>
        Routine.raise (combinedFailures "cgroup body and cleanup both failed" bodyError cleanupError)

/-- One operation on the lease, with what it returns. -/
def perform : Operation → Run (Option ℕ)
  | .attachProcess pid => do attachProcess env l lease pid; pure none
  | .verifyEffectiveCpuset => do verifyEffectiveCpuset env l lease; pure none
  | .readMemoryPeakBytes => do
      let peak ← readMemoryPeakBytes env l lease
      pure (some peak)
  | .awaitUnpopulated => do awaitUnpopulated env l lease; pure none
  | .kill => do kill env l lease; pure none
  | .cleanup => do cleanup env l lease; pure none
  | .enter => do enter l lease; pure none
  | .exit exception => do exit env l lease exception; pure none

end BindingCgroupLease

end MosaicArchive.Binding
