import MosaicArchive.Effects.Routine
import MosaicArchive.Bytes.Utf8

/-!
The process that holds delegated cgroup authority: its capability objects with
the records of their issue, the pinned backends and control sockets behind
them, its leases, and the history of what it did. What the kernel, a backend or
the peer answers is given by an `Environment` as a function of the history, so
a statement about every environment is one about every choice of answers.
-/

namespace MosaicArchive.Binding

/-- Objects are named by their `id()`. -/
abbrev ObjectId := ℕ

/-! ### Exceptions -/

inductive ExceptionClass where
  | hostError
  | cleanupError
  | capabilityError
  | valueError
  | attributeError
  | osError
  | exceptionGroup
  | baseExceptionGroup
  /-- Any other class, with whether it is an `Exception`. -/
  | other (name : String) (isException : Bool)
  deriving DecidableEq, Repr

structure Raised where
  kind : ExceptionClass
  text : String
  notes : List String
  deriving DecidableEq, Repr

namespace ExceptionClass

def name : ExceptionClass → String
  | hostError => "BindingRunnerHostError"
  | cleanupError => "BindingRunnerCleanupError"
  | capabilityError => "DelegatedRootCapabilityError"
  | valueError => "ValueError"
  | attributeError => "AttributeError"
  | osError => "OSError"
  | exceptionGroup => "ExceptionGroup"
  | baseExceptionGroup => "BaseExceptionGroup"
  | other name _ => name

/-- `isinstance(error, Exception)` -/
def isException : ExceptionClass → Bool
  | baseExceptionGroup => false
  | other _ isException => isException
  | _ => true

/-- `isinstance(error, BindingRunnerHostError)` -/
def isHostError : ExceptionClass → Bool
  | hostError | cleanupError => true
  | _ => false

end ExceptionClass

def hostError (text : String) : Raised := ⟨.hostError, text, []⟩
def capabilityError (text : String) : Raised := ⟨.capabilityError, text, []⟩
def valueError (text : String) : Raised := ⟨.valueError, text, []⟩
def osError (text : String) : Raised := ⟨.osError, text, []⟩

/-- `_raise_error_group` -/
def errorGroup (context : String) (errors : List Raised) : Raised :=
  let kind := if errors.all (·.kind.isException) then .exceptionGroup else .baseExceptionGroup
  let plural := if errors.length = 1 then "" else "s"
  ⟨kind, context ++ " (" ++ toString errors.length ++ " sub-exception" ++ plural ++ ")", []⟩

/-- `_raise_combined_failures` -/
def combinedFailures (context : String) (primaryError cleanupError : Raised) : Raised :=
  if primaryError.kind.isException ∧ cleanupError.kind.isException then
    ⟨.cleanupError, context ++ ": primary " ++ primaryError.kind.name ++ ": " ++ primaryError.text ++
      "; cleanup " ++ cleanupError.kind.name ++ ": " ++ cleanupError.text, []⟩
  else errorGroup context [primaryError, cleanupError]

/-! ### Backend calls -/

/-- What a backend's `read_leaf` returns. -/
inductive ReadReply where
  | text (value : Utf8.Text)
  /-- Text that has no UTF-8 form, with the message of the codec. -/
  | surrogates (message : String)
  | other
  deriving DecidableEq, Repr

/-- What a backend's `write_leaf` returns. -/
inductive WriteReply where
  | int (written : ℤ)
  | other (repr : String)
  deriving DecidableEq, Repr

inductive BackendCall where
  | readLeaf (leaf : ObjectId) (filename : String) (reply : Except Raised ReadReply)
  | writeLeaf (leaf : ObjectId) (filename : String) (value : Utf8.Text)
      (reply : Except Raised WriteReply)
  | removeLeaf (leaf : ObjectId) (reply : Except Raised Unit)
  | validateRoot (reply : Except Raised Unit)
  | monotonic
  | sleep (milliseconds : ℕ)

/-- On whose behalf a backend is called. -/
inductive Holder where
  | capability (capability : ObjectId)
  | lease (lease : ObjectId)
  deriving DecidableEq, Repr

inductive Event where
  | backend (holder : Holder) (call : BackendCall)
  | accessGranted (capability : ObjectId)
  | channelEvent (capability : ObjectId)
  | capabilityClosed (capability : ObjectId)
  | descriptorClosed (backend : ObjectId)
  | socketClosed (socket : ObjectId)
  | forkedChild (pid : ℕ)

abbrev History := List Event

/-- The answers of everything outside the process. -/
structure Environment (Time : Type) where
  readLeaf : History → ObjectId → ObjectId → String → Except Raised ReadReply
  writeLeaf : History → ObjectId → ObjectId → String → Utf8.Text → Except Raised WriteReply
  removeLeaf : History → ObjectId → ObjectId → Except Raised Unit
  validateRoot : History → ObjectId → Except Raised Unit
  monotonic : History → ObjectId → Except Raised Time
  sleep : History → ObjectId → Except Raised Unit
  closeDescriptor : History → ObjectId → Except Raised Unit
  closeSocket : History → ObjectId → Except Raised Unit
  /-- `SO_ERROR` or `select` report something on an open socket. -/
  channelEvent : History → ObjectId → Except Raised Bool
  /-- `time + cleanup_timeout_seconds` -/
  deadline : Time → ℕ → Except Raised Time
  /-- `now >= deadline` -/
  reached : Time → Time → Except Raised Bool
  /-- How often a cleanup loop polls before it is interrupted, if it does not end. -/
  polls : History → ℕ
  fixedPolicySha256 : String

/-! ### Objects -/

structure RootIdentity where
  device : ℕ
  inode : ℕ
  deriving DecidableEq, Repr

/-- A `_PinnedDescriptorCgroupBackend`, or another backend (`pinned = false`). -/
structure Backend where
  pinned : Bool
  rootHandle : ObjectId
  descriptor : Option ℕ
  closed : Bool
  deriving DecidableEq, Repr

structure ExclusiveDelegatedCgroupRoot where
  backend : ObjectId
  closed : Bool
  controlSocket : Option ObjectId
  issuingPid : ℕ
  policyDigest : String
  productionInherited : Bool
  rootHandle : ObjectId
  rootIdentity : RootIdentity
  sessionId : String
  deriving DecidableEq, Repr

structure IssuanceRecord where
  issuingPid : ℕ
  backend : ObjectId
  rootHandle : ObjectId
  sessionId : String
  rootIdentity : RootIdentity
  policyDigest : String
  productionInherited : Bool
  controlSocket : Option ObjectId
  deriving DecidableEq, Repr

structure CapabilityAccess where
  backend : ObjectId
  rootHandle : ObjectId
  sessionId : String
  rootIdentity : RootIdentity
  policyDigest : String
  productionInherited : Bool
  deriving DecidableEq, Repr

inductive LeaseState where
  | ready
  | attachmentUncertain
  | attached
  | finalizing
  | measured
  | terminationRequested
  deriving DecidableEq, Repr

/-- The fields of a lease that change. -/
structure LeaseFields where
  state : LeaseState
  closed : Bool
  deriving DecidableEq, Repr

structure World where
  pid : ℕ
  issued : List (ObjectId × IssuanceRecord)
  capability : ObjectId → ExclusiveDelegatedCgroupRoot
  backend : ObjectId → Backend
  socketOpen : ObjectId → Bool
  lease : ObjectId → LeaseFields
  history : History

abbrev Run := Routine World Raised

namespace World

def record (w : World) (e : Event) : World := { w with history := w.history ++ [e] }

def setCapability (w : World) (c : ObjectId) (value : ExclusiveDelegatedCgroupRoot) : World :=
  { w with capability := Function.update w.capability c value }

def setBackend (w : World) (b : ObjectId) (value : Backend) : World :=
  { w with backend := Function.update w.backend b value }

def closeSocket (w : World) (s : ObjectId) : World :=
  { w with socketOpen := Function.update w.socketOpen s false }

def setLease (w : World) (l : ObjectId) (value : LeaseFields) : World :=
  { w with lease := Function.update w.lease l value }

variable (w : World) (e : Event) (c b s l : ObjectId)

@[simp] theorem record_pid : (w.record e).pid = w.pid := rfl
@[simp] theorem record_issued : (w.record e).issued = w.issued := rfl
@[simp] theorem record_capability : (w.record e).capability = w.capability := rfl
@[simp] theorem record_backend : (w.record e).backend = w.backend := rfl
@[simp] theorem record_socketOpen : (w.record e).socketOpen = w.socketOpen := rfl
@[simp] theorem record_lease : (w.record e).lease = w.lease := rfl
@[simp] theorem record_history : (w.record e).history = w.history ++ [e] := rfl

variable (value : ExclusiveDelegatedCgroupRoot)

@[simp] theorem setCapability_issued : (w.setCapability c value).issued = w.issued := rfl
@[simp] theorem setCapability_self : (w.setCapability c value).capability c = value := by
  simp [setCapability]
@[simp] theorem setCapability_backend : (w.setCapability c value).backend = w.backend := rfl
@[simp] theorem setCapability_socketOpen : (w.setCapability c value).socketOpen = w.socketOpen := rfl
@[simp] theorem setCapability_lease : (w.setCapability c value).lease = w.lease := rfl
@[simp] theorem setCapability_history : (w.setCapability c value).history = w.history := rfl

theorem setCapability_apply (c' : ObjectId) :
    (w.setCapability c value).capability c' = if c' = c then value else w.capability c' := by
  simp [setCapability, Function.update_apply]

variable (fields : LeaseFields)

@[simp] theorem setLease_pid : (w.setLease l fields).pid = w.pid := rfl
@[simp] theorem setLease_issued : (w.setLease l fields).issued = w.issued := rfl
@[simp] theorem setLease_capability : (w.setLease l fields).capability = w.capability := rfl
@[simp] theorem setLease_backend : (w.setLease l fields).backend = w.backend := rfl
@[simp] theorem setLease_socketOpen : (w.setLease l fields).socketOpen = w.socketOpen := rfl
@[simp] theorem setLease_self : (w.setLease l fields).lease l = fields := by
  simp [setLease]
@[simp] theorem setLease_history : (w.setLease l fields).history = w.history := rfl

theorem setLease_apply (l' : ObjectId) :
    (w.setLease l fields).lease l' = if l' = l then fields else w.lease l' := by
  simp [setLease, Function.update_apply]

end World

/-! ### Calling a backend -/

section Calls

variable {Time : Type} (env : Environment Time)

def record (e : Event) : Run Unit := Routine.update fun w => w.record e

/-- The part of `_require_root` that looks at the backend object: a pinned
backend that was closed does nothing more. -/
def requireRoot (b : ObjectId) : Run Unit := do
  let w ← Routine.get
  Routine.raiseIf ((w.backend b).pinned ∧ ((w.backend b).closed ∨ (w.backend b).descriptor = none))
    (osError "pinned cgroup root backend is closed")

def readLeaf (holder : Holder) (b leaf : ObjectId) (filename : String) : Run ReadReply := do
  requireRoot b
  let w ← Routine.get
  let reply := env.readLeaf w.history b leaf filename
  record (.backend holder (.readLeaf leaf filename reply))
  Routine.lift reply

def writeLeaf (holder : Holder) (b leaf : ObjectId) (filename : String) (value : Utf8.Text) :
    Run WriteReply := do
  requireRoot b
  let w ← Routine.get
  let reply := env.writeLeaf w.history b leaf filename value
  record (.backend holder (.writeLeaf leaf filename value reply))
  Routine.lift reply

def removeLeaf (holder : Holder) (b leaf : ObjectId) : Run Unit := do
  requireRoot b
  let w ← Routine.get
  let reply := env.removeLeaf w.history b leaf
  record (.backend holder (.removeLeaf leaf reply))
  Routine.lift reply

/-- `validate_root` of a pinned backend -/
def validateRoot (holder : Holder) (b root : ObjectId) : Run Unit := do
  let w ← Routine.get
  Routine.raiseIf (root ≠ (w.backend b).rootHandle) (osError "invalid pinned cgroup root handle")
  requireRoot b
  let w ← Routine.get
  let reply := env.validateRoot w.history b
  record (.backend holder (.validateRoot reply))
  Routine.lift reply

def monotonic (holder : Holder) (b : ObjectId) : Run Time := do
  let w ← Routine.get
  record (.backend holder .monotonic)
  Routine.lift (env.monotonic w.history b)

def sleep (holder : Holder) (b : ObjectId) (milliseconds : ℕ) : Run Unit := do
  let w ← Routine.get
  record (.backend holder (.sleep milliseconds))
  Routine.lift (env.sleep w.history b)

end Calls

end MosaicArchive.Binding
