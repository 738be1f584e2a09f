import MosaicArchive.Publication.Calls
import MosaicArchive.Supervisor.HandoffPacket

/-!
How the coordinator takes over the delegated root
(`mosaic_archive/competitive_binding_supervisor.py`): it wraps the control descriptor,
receives one record with its ancillary messages, checks it, and duplicates the descriptor
of the root for the backend (`competitive_binding_io.py`). A failure leaves the `try` body
with its locals, and the handler closes what they own.
-/

namespace MosaicArchive.Inheritance

open FixedWidth CallHistory
open MosaicArchive.Report (hexDigest)
open Publication (StatResult)
open Supervisor (DelegatedRootIdentity DelegatedRootProtocolError SupervisorPacket parseSupervisorPacket)
open Routine (raise raiseIf lift attempt mapError onError)

/-! ### Constants -/

def delegatedRootControlFd : ℤ := 4
def delegatedRootReceiverReady : Bytes := [0x52]
def delegatedRootHandshakeTimeoutSeconds : ℕ := 30
def intBytes : ℕ := 4
def credentialsSize : ℕ := 12
def delegatedCgroup2SuperMagic : ℤ := 0x63677270
def afUnix : ℤ := 1
def sockSeqpacket : ℤ := 5
def solSocket : ℤ := 1
def scmRights : ℤ := 1
def scmCredentials : ℤ := 2
def msgTrunc : ℕ := 0x20
def msgCtrunc : ℕ := 0x8

/-! ### What is received -/

/-- The byte order of the host. -/
inductive ByteOrder where
  | little
  | big
  deriving DecidableEq, Repr

def ByteOrder.nat : ByteOrder → Bytes → ℕ
  | little => leNat
  | big => beNat

/-- A signed `int` of four bytes. -/
def ByteOrder.int (order : ByteOrder) (b : Bytes) : ℤ :=
  if order.nat b < 2 ^ 31 then order.nat b else order.nat b - 2 ^ 32

/-- `array.array("i").frombytes` of the bytes up to the last complete `int` -/
def intArray (order : ByteOrder) : Bytes → List ℤ
  | a :: b :: c :: d :: rest => order.int [a, b, c, d] :: intArray order rest
  | _ => []

structure AncillaryMessage where
  level : ℤ
  kind : ℤ
  data : Bytes
  deriving DecidableEq, Repr

def AncillaryMessage.isRights (m : AncillaryMessage) : Bool := m.level = solSocket ∧ m.kind = scmRights

def AncillaryMessage.isCredentials (m : AncillaryMessage) : Bool :=
  m.level = solSocket ∧ m.kind = scmCredentials

/-- The result of `recvmsg`. -/
structure ReceivedRecord where
  payload : Bytes
  ancillary : List AncillaryMessage
  messageFlags : ℕ
  deriving DecidableEq, Repr

/-- The loop after `recvmsg`: every descriptor that the rights carry. -/
def receivedDescriptors (order : ByteOrder) (ancillary : List AncillaryMessage) : List ℤ :=
  ancillary.flatMap fun m => if m.isRights then intArray order m.data else []

/-! ### Exceptions -/

/-- What a system call raises. -/
inductive Fault where
  /-- `TimeoutError`, which is an `OSError` -/
  | timeout
  | os (errno : ℕ)
  | value
  /-- Another exception. -/
  | other (name : String)
  deriving DecidableEq, Repr

def Fault.isOsError : Fault → Bool
  | timeout => true
  | os _ => true
  | _ => false

inductive InheritError where
  | system (fault : Fault)
  | protocol (e : DelegatedRootProtocolError) (cause : Option Fault)
  | os (message : String)
  | value (message : String)
  | index
  /-- A group of exceptions. -/
  | group (context : String) (errors : List InheritError)

/-- `raise DelegatedRootProtocolError(message)` -/
def InheritError.rejected (message : String) : InheritError := .protocol ⟨message⟩ none

/-! ### Objects -/

/-- `_PinnedDescriptorCgroupBackend`; once it is closed it has no descriptor. -/
structure PinnedBackend where
  descriptor : Option ℤ
  device : ℕ
  inode : ℕ
  deriving DecidableEq

/-- `ExclusiveDelegatedCgroupRoot` -/
structure DelegatedRoot where
  backend : PinnedBackend
  controlSocket : ℤ
  productionInherited : Bool
  issuingPid : ℤ
  sessionId : Utf8.Text
  supervisorPid : ℕ
  supervisorUid : ℕ
  supervisorGid : ℕ
  policyDigest : Utf8.Text
  rootIdentity : DelegatedRootIdentity
  deriving DecidableEq

/-! ### System calls -/

inductive InheritCall where
  /-- `socket.socket(fileno=DELEGATED_ROOT_CONTROL_FD)`, with the family of the socket -/
  | wrapControl
  | setInheritable (descriptor : ℤ)
  /-- `control.getsockopt(SOL_SOCKET, SO_TYPE)` -/
  | socketType
  | getpeername
  /-- `control.setsockopt(SOL_SOCKET, SO_PASSCRED, 1)` -/
  | passCredentials
  | settimeout (seconds : Option ℕ)
  | send (data : Bytes)
  | recvmsg
  | geteuid
  | getegid
  /-- `control.getsockopt(SOL_SOCKET, SO_ERROR)` -/
  | socketError
  /-- `select.select([control], [], [control], 0.0)`: whether it is readable, or exceptional -/
  | select
  | getInheritable (descriptor : ℤ)
  | fstat (descriptor : ℤ)
  | fstatfs (descriptor : ℤ)
  | dup (descriptor : ℤ)
  | getpid
  | close (descriptor : ℤ)
  /-- `control.close()` -/
  | closeControl
  /-- `_ISSUED[capability] = record` -/
  | issue (capability : DelegatedRoot)

def InheritValue : InheritCall → Type
  | .wrapControl => ℤ
  | .socketType => ℤ
  | .send _ => ℤ
  | .recvmsg => ReceivedRecord
  | .geteuid => ℤ
  | .getegid => ℤ
  | .socketError => ℤ
  | .select => Bool × Bool
  | .getInheritable _ => Bool
  | .fstat _ => StatResult
  | .fstatfs _ => ℤ
  | .dup _ => ℤ
  | .getpid => ℤ
  | _ => Unit

/-- Every call may fail. -/
def InheritReply (c : InheritCall) : Type := Except Fault (InheritValue c)

abbrev InheritHistory := CallHistory InheritCall InheritReply

abbrev InheritEnvironment := Environment InheritCall InheritReply

abbrev InheritRun := Routine InheritHistory InheritError

/-- What `_inherit_exclusive_delegated_root_locked` owns at a point of its body. -/
structure Locals where
  control : Bool
  received : List ℤ
  backend : Option PinnedBackend

/-- The `try` body; an exception leaves it with the locals. -/
abbrev InheritBody := Routine InheritHistory (InheritError × Locals)

/-- A part of the `try` body that runs with these locals. -/
def within {α : Type} (l : Locals) (p : InheritRun α) : InheritBody α := mapError (fun e => (e, l)) p

variable (env : InheritEnvironment)

def call (c : InheritCall) : InheritRun (InheritValue c) := do
  let reply ← CallHistory.ask env c
  lift (Except.mapError InheritError.system reply)

/-- `os.close` -/
def closeDescriptor (descriptor : ℤ) : InheritRun Unit := call env (.close descriptor)

/-- `control.close()` -/
def closeControl : InheritRun Unit := call env .closeControl

/-! ### Cleanup -/

/-- What an attempted operation adds to `cleanup_errors`. -/
def failureOf : Except InheritError Unit → List InheritError
  | .ok () => []
  | .error e => [e]

/-- The loop of `_raise_with_cleanup`. -/
def cleanupErrors : List (InheritRun Unit) → InheritRun (List InheritError)
  | [] => pure []
  | operation :: operations => do
      let outcome ← attempt operation
      let errors ← cleanupErrors operations
      pure (failureOf outcome ++ errors)

/-- `_raise_with_cleanup` -/
def raiseWithCleanup {α : Type} (primaryError : InheritError) (cleanupOperations : List (InheritRun Unit))
    (context : String) : InheritRun α := do
  let errors ← cleanupErrors cleanupOperations
  if errors ≠ [] then raise (.group context (primaryError :: errors)) else raise primaryError

/-- `_close_after_failure` -/
def closeAfterFailure {α : Type} (descriptor : ℤ) (primaryError : InheritError) (context : String) :
    InheritRun α := do
  onError (closeDescriptor env descriptor) fun cleanupError =>
    raise (.group context [primaryError, cleanupError])
  raise primaryError

/-- `_PinnedDescriptorCgroupBackend.close` -/
def closeBackend (backend : PinnedBackend) : InheritRun Unit :=
  match backend.descriptor with
  | none => pure ()
  | some descriptor => closeDescriptor env descriptor

/-! ### Checks -/

/-- `_control_channel_has_event` -/
def controlChannelHasEvent : InheritRun Bool :=
  if delegatedRootControlFd < 0 then pure true
  else
    onError (do
      let (error : ℤ) ← call env .socketError
      if error ≠ 0 then pure true
      else do
        let (readable, exceptional) ← call env .select
        pure (readable || exceptional)) fun
      | .system (.other name) => raise (.system (.other name))
      | .system _ => pure true
      | e => raise e

/-- The credentials of a message, `struct.Struct("=iII")`. -/
def unpackCredentials (order : ByteOrder) (data : Bytes) : ℤ × ℕ × ℕ :=
  (order.int (slice data 0 4), order.nat (slice data 4 8), order.nat (slice data 8 12))

/-- What the loop of `_received_descriptors_and_credentials` has gathered. -/
structure Gathered where
  rights : List ℤ
  credentials : List (ℤ × ℕ × ℕ)
  unknown : Bool

/-- The loop of `_received_descriptors_and_credentials`. -/
def gather (order : ByteOrder) (g : Gathered) (m : AncillaryMessage) : Gathered :=
  if m.isRights then
    if m.data.length = 0 ∨ m.data.length % intBytes ≠ 0 then { g with unknown := true }
    else { g with rights := g.rights ++ intArray order m.data }
  else if m.isCredentials then
    if m.data.length ≠ credentialsSize then { g with unknown := true }
    else { g with credentials := g.credentials ++ [unpackCredentials order m.data] }
  else { g with unknown := true }

/-- `_received_descriptors_and_credentials` -/
def receivedDescriptorsAndCredentials (order : ByteOrder) (ancillary : List AncillaryMessage) :
    Except InheritError (List ℤ × (ℤ × ℕ × ℕ)) := do
  let g := ancillary.foldl (gather order) ⟨[], [], false⟩
  Except.raiseIf (g.unknown = true ∨ ancillary.length ≠ 2)
    (.rejected "delegated-root packet has extra ancillary messages")
  Except.raiseIf (g.rights.length ≠ 1)
    (.rejected "delegated-root packet must carry exactly one descriptor")
  match g.credentials with
  | [credentials] => pure (g.rights, credentials)
  | _ => .error (.rejected "delegated-root packet needs one kernel credential")

/-- `_validate_root_descriptor` -/
def validateRootDescriptor (descriptor : ℤ) (identity : DelegatedRootIdentity) : InheritRun Unit := do
  let (inheritable : Bool) ← call env (.getInheritable descriptor)
  raiseIf (inheritable = true) (.rejected "delegated-root descriptor is not close-on-exec")
  let (status : StatResult) ← call env (.fstat descriptor)
  raiseIf (status.isDirectory = false) (.rejected "delegated-root descriptor is not a directory")
  raiseIf (status.ino = 0) (.rejected "delegated-root descriptor has no stable inode")
  let (magic : ℤ) ← call env (.fstatfs descriptor)
  raiseIf (magic ≠ delegatedCgroup2SuperMagic) (.rejected "delegated-root descriptor is not cgroup v2")
  raiseIf ((status.dev, status.ino) ≠ (identity.device, identity.inode))
    (.rejected "delegated-root descriptor identity mismatches header")

/-! ### The backend -/

/-- What `_PinnedDescriptorCgroupBackend.__init__` requires of its duplicate. -/
def inspectDuplicate (duplicate : ℤ) (expectedDevice expectedInode : ℕ) : InheritRun Unit := do
  let _ ← call env (.setInheritable duplicate)
  let (status : StatResult) ← call env (.fstat duplicate)
  raiseIf (status.isDirectory = false) (.os "inherited cgroup root descriptor is not a directory")
  raiseIf (status.ino = 0) (.os "inherited cgroup root does not expose a stable inode")
  let (magic : ℤ) ← call env (.fstatfs duplicate)
  raiseIf (magic ≠ delegatedCgroup2SuperMagic) (.os "inherited root is not on a cgroup-v2 filesystem")
  raiseIf ((status.dev, status.ino) ≠ (expectedDevice, expectedInode))
    (.os "inherited cgroup root identity changed while it was duplicated")

/-- `_PinnedDescriptorCgroupBackend.__init__` -/
def pinnedDescriptorCgroupBackend (receivedDescriptor : ℤ) (expectedDevice expectedInode : ℕ) :
    InheritRun PinnedBackend := do
  raiseIf (receivedDescriptor < 0)
    (.value "received cgroup root descriptor must be a non-negative integer")
  raiseIf (expectedDevice = 0) (.value "expected cgroup root device must be positive")
  raiseIf (expectedInode = 0) (.value "expected cgroup root inode must be positive")
  let (duplicate : ℤ) ← call env (.dup receivedDescriptor)
  onError (inspectDuplicate env duplicate expectedDevice expectedInode) fun setupError =>
    closeAfterFailure env duplicate setupError
      "pinned cgroup root setup and descriptor cleanup both failed"
  pure ⟨some duplicate, expectedDevice, expectedInode⟩

/-! ### The capability -/

/-- `_initialize_capability` -/
def initializeCapability (packet : SupervisorPacket) (backend : PinnedBackend) (controlSocket : ℤ)
    (productionInherited : Bool) : InheritRun DelegatedRoot := do
  let issuingPid ← call env .getpid
  let capability : DelegatedRoot := {
    backend, controlSocket, productionInherited, issuingPid
    sessionId := hexDigest packet.nonce
    supervisorPid := packet.supervisorPid
    supervisorUid := packet.supervisorUid
    supervisorGid := packet.supervisorGid
    policyDigest := packet.policyDigest
    rootIdentity := packet.rootIdentity }
  -- The registration is an assignment, which does not fail.
  let _ ← CallHistory.ask env (.issue capability)
  pure capability

/-! ### The inheritance -/

/-- The control descriptor becomes a socket, or it is closed. -/
def wrapControlDescriptor : InheritRun ℤ :=
  onError (call env .wrapControl) fun wrapError =>
    raiseWithCleanup wrapError [closeDescriptor env delegatedRootControlFd]
      "control socket wrapping and cleanup both failed"

/-- `except TimeoutError as error: raise DelegatedRootProtocolError(…) from error` -/
def handshakeError : InheritError → InheritError
  | .system .timeout => .protocol ⟨"delegated-root supervisor handshake timed out"⟩ (some .timeout)
  | e => e

def getpeernameError : InheritError → InheritError
  | .system fault =>
      if fault.isOsError then
        .protocol ⟨"delegated-root control socket is not connected"⟩ (some fault)
      else .system fault
  | e => e

/-- The socket is checked, the receiver says it is ready, and one record arrives. -/
def receiveRecord (family : ℤ) : InheritRun ReceivedRecord := do
  let _ ← call env (.setInheritable delegatedRootControlFd)
  raiseIf (family ≠ afUnix) (.rejected "delegated-root control fd must be AF_UNIX")
  let (socketType : ℤ) ← call env .socketType
  raiseIf (socketType ≠ sockSeqpacket) (.rejected "delegated-root control fd must be SOCK_SEQPACKET")
  let _ ← mapError getpeernameError (call env .getpeername)
  let _ ← call env .passCredentials
  let _ ← call env (.settimeout (some delegatedRootHandshakeTimeoutSeconds))
  mapError handshakeError do
    let (readyBytes : ℤ) ← call env (.send delegatedRootReceiverReady)
    raiseIf (readyBytes ≠ delegatedRootReceiverReady.length)
      (.rejected "delegated-root receiver-ready record was not sent exactly")
    call env .recvmsg

/-- The checks of the kernel credentials. -/
def checkCredentials (packet : SupervisorPacket) (credentials : ℤ × ℕ × ℕ) : InheritRun Unit := do
  let (peerPid, peerUid, peerGid) := credentials
  let (expectedUid : ℤ) ← call env .geteuid
  let (expectedGid : ℤ) ← call env .getegid
  raiseIf (peerPid ≤ 0) (.rejected "kernel supervisor credentials are out of range")
  raiseIf ((peerPid, peerUid, peerGid) ≠
      ((packet.supervisorPid : ℤ), packet.supervisorUid, packet.supervisorGid))
    (.rejected "kernel credentials mismatch delegated-root header")
  raiseIf ((peerUid : ℤ) ≠ expectedUid ∨ (peerGid : ℤ) ≠ expectedGid)
    (.rejected "supervisor is not the dedicated service identity")

/-- Every check of a record, up to the descriptor of the root. -/
def acceptRecord (order : ByteOrder) (record : ReceivedRecord) :
    InheritRun (SupervisorPacket × ℤ) := do
  let received := receivedDescriptors order record.ancillary
  let _ ← call env (.settimeout none)
  raiseIf (record.messageFlags &&& (msgTrunc ||| msgCtrunc) ≠ 0)
    (.rejected "delegated-root packet or ancillary data was truncated")
  let packet ← lift ((parseSupervisorPacket record.payload).mapError (.protocol · none))
  let (parsedDescriptors, credentials) ←
    lift (receivedDescriptorsAndCredentials order record.ancillary)
  raiseIf (parsedDescriptors ≠ received)
    (.rejected "delegated-root descriptor parsing is inconsistent")
  checkCredentials env packet credentials
  let event ← controlChannelHasEvent env
  raiseIf (event = true) (.rejected "control channel has a trailing packet or closed peer")
  match received with
  | [] => raise .index
  | rootFd :: _ => do
      validateRootDescriptor env rootFd packet.rootIdentity
      pure (packet, rootFd)

/-- The `try` body of `_inherit_exclusive_delegated_root_locked`. -/
def inheritBody (order : ByteOrder) : InheritBody DelegatedRoot := do
  let family ← within ⟨false, [], none⟩ (wrapControlDescriptor env)
  let record ← within ⟨true, [], none⟩ (receiveRecord env family)
  let received := receivedDescriptors order record.ancillary
  let (packet, rootFd) ← within ⟨true, received, none⟩ (acceptRecord env order record)
  let backend ← within ⟨true, received, none⟩
    (pinnedDescriptorCgroupBackend env rootFd packet.rootIdentity.device packet.rootIdentity.inode)
  -- `received.pop()` comes before the close: a failed close is not repeated.
  let _ ← within ⟨true, received.dropLast, some backend⟩ (closeDescriptor env rootFd)
  within ⟨true, received.dropLast, some backend⟩
    (initializeCapability env packet backend delegatedRootControlFd true)

/-- The cleanup operations of the handler, in their order. -/
def cleanup (l : Locals) : List (InheritRun Unit) :=
  l.received.reverse.map (closeDescriptor env) ++
    l.backend.toList.map (closeBackend env) ++
    if l.control then [closeControl env] else []

/-- `_inherit_exclusive_delegated_root_locked` -/
def inheritExclusiveDelegatedRootLocked (order : ByteOrder) : InheritRun DelegatedRoot := do
  let outcome ← attempt (inheritBody env order)
  match outcome with
  | .ok capability => pure capability
  | .error (primaryError, l) =>
      raiseWithCleanup primaryError (cleanup env l)
        "delegated-root inheritance and descriptor cleanup both failed"

end MosaicArchive.Inheritance
