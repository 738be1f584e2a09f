import MosaicArchive.Effects.Process
import Mathlib.Tactic

/-!
The control channel of the native supervisor
(`native/binding-supervisor/src/linux/control.rs`): receiving one record,
sending the revocation, and the loop that waits after the handoff until the
coordinator has closed its end. Every system call is a step of its own.
-/

namespace MosaicArchive.Supervisor

/-! ### System calls -/

abbrev Errno := ℕ

def eintr : Errno := 4
def eagain : Errno := 11
def epipe : Errno := 32
def econnreset : Errno := 104
def enotconn : Errno := 107
def eshutdown : Errno := 108

/-- `pollfd.revents` -/
structure Revents where
  pollIn : Bool
  pollErr : Bool
  pollHup : Bool
  pollRdhup : Bool
  pollNval : Bool
  deriving DecidableEq, Repr

/-- The revents of the control socket and of the signal descriptor. -/
structure Polled where
  control : Revents
  signals : Revents
  deriving DecidableEq, Repr

/-- What `recvmsg` reports, with a buffer of two bytes and none for ancillary data. -/
structure Message where
  received : ℕ
  /-- `MSG_TRUNC` or `MSG_CTRUNC` is set. -/
  truncated : Bool
  firstByte : ℕ
  deriving DecidableEq, Repr

structure SignalInfo where
  count : ℕ
  signal : ℕ
  deriving DecidableEq, Repr

/-- The steps of the supervisor that do not touch the control channel. -/
inductive HostOperation where
  | installSignalMonitor
  | acquireInheritedDescriptors
  | qualifyParent
  | createSession
  | configureSession
  | requireParentEntryIdentity
  | requireSessionIdentity
  | requireDomainUnpopulated
  | requireEmptyProcesses
  | writeKill
  | waitUntilUnpopulated
  | removeValidatedLeaf (entry : String)
  | requireParentIdentity
  | removeSessionRoot
  deriving DecidableEq, Repr

inductive Call where
  /-- With what is asked of the control socket, and whether the signal descriptor is polled. -/
  | poll (peerWriteHalfClosed monitorSignals : Bool)
  | receiveMessage
  | sendRevoke
  | readSignal
  | sendRights
  | host (operation : HostOperation)
  | listDirectChildren
  deriving DecidableEq, Repr

/-- What a call answers: a value, or the error number or message of its failure. -/
def Reply : Call → Type
  | .poll _ _ => Except Errno Polled
  | .receiveMessage => Except Errno Message
  | .sendRevoke => Except Errno ℕ
  | .readSignal => Except Errno SignalInfo
  | .sendRights => Except Errno ℕ
  | .host _ => Except String Unit
  | .listDirectChildren => Except String (List String)

abbrev Native := Process Call Reply

open Process

def poll (peerWriteHalfClosed monitorSignals : Bool) : Native (Except Errno Polled) :=
  perform (Call.poll peerWriteHalfClosed monitorSignals)

def receiveMessage : Native (Except Errno Message) := perform Call.receiveMessage

def sendRevokeByte : Native (Except Errno ℕ) := perform Call.sendRevoke

def readSignal : Native (Except Errno SignalInfo) := perform Call.readSignal

structure SupervisorError where
  text : String
  deriving DecidableEq, Repr

variable (strerror : Errno → String)

/-- `SupervisorError::io` -/
def SupervisorError.io (context : String) (error : Errno) : SupervisorError :=
  ⟨context ++ ": " ++ strerror error⟩

/-! ### Receiving -/

inductive ControlRead where
  | byte (value : ℕ)
  | emptyRecord
  | invalidLength
  | truncated
  | wouldBlock
  deriving DecidableEq, Repr

/-- What a message is read as. The truncation flags come first: a record
without bytes that carries rights is truncated, not empty. -/
def classify (message : Message) : ControlRead :=
  if message.truncated then .truncated
  else if message.received = 0 then .emptyRecord
  else if message.received ≠ 1 then .invalidLength
  else .byte message.firstByte

/-- `receive_control_packet` -/
def receiveControlPacket : Native (Except Errno ControlRead) :=
  repeats (fun () => do
    let reply ← receiveMessage
    match reply with
    | .error error =>
        if error = eintr then pure (.inl ())
        else if error = eagain then pure (.inr (.ok .wouldBlock))
        else pure (.inr (.error error))
    | .ok message => pure (.inr (.ok (classify message)))) ()

def signalInfoBytes : ℕ := 128

def sighup : ℕ := 1
def sigint : ℕ := 2
def sigterm : ℕ := 15

/-- `read_termination_signal` -/
def readTerminationSignal : Native (Except SupervisorError Bool) :=
  repeats (fun () => do
    let reply ← readSignal
    match reply with
    | .error error =>
        if error = eintr then pure (.inl ())
        else if error = eagain then pure (.inr (.ok false))
        else pure (.inr (.error (.io strerror "cannot read supervisor termination signal" error)))
    | .ok info =>
        if info.count ≠ signalInfoBytes then
          pure (.inr (.error ⟨"signalfd produced an incomplete termination event"⟩))
        else if info.signal ∉ [sigterm, sigint, sighup] then
          pure (.inr (.error ⟨"signalfd produced an unexpected signal number"⟩))
        else pure (.inr (.ok true))) ()

/-! ### Revocation -/

inductive RevokeOutcome where
  | sent
  | peerUnavailable
  deriving DecidableEq, Repr

/-- `send_revoke` -/
def sendRevoke : Native (Except SupervisorError RevokeOutcome) :=
  repeats (fun () => do
    let reply ← sendRevokeByte
    match reply with
    | .error error =>
        if error = eintr then pure (.inl ())
        else if error ∈ [epipe, econnreset, enotconn, eshutdown] then
          pure (.inr (.ok .peerUnavailable))
        else pure (.inr (.error (.io strerror "cannot send coordinator revocation" error)))
    | .ok sent =>
        if sent ≠ 1 then
          pure (.inr (.error ⟨"coordinator revocation was not sent as exactly one byte"⟩))
        else pure (.inr (.ok .sent))) ()

inductive RevocationState where
  | notRequested
  | sent
  | peerUnavailable
  | failed
  deriving DecidableEq, Repr

/-- `record_primary`: the first failure is kept. -/
def recordPrimary (primary : Option String) (message : String) : Option String :=
  match primary with
  | none => some message
  | some primary => some primary

/-- `append_failure` -/
def appendFailure (primary : Option String) (message : String) : Option String :=
  match primary with
  | none => some message
  | some primary => some (primary ++ "; " ++ message)

/-- The variables of `wait_for_post_handoff_eof`. -/
structure Barrier where
  primary : Option String
  revocation : RevocationState
  monitorSignals : Bool
  peerWriteHalfClosed : Bool
  deriving DecidableEq, Repr

namespace Barrier

def recordPrimary (b : Barrier) (message : String) : Barrier :=
  { b with primary := Supervisor.recordPrimary b.primary message }

/-- What `request_revocation` makes of the outcome of its one attempt. -/
def revoked (b : Barrier) : Except SupervisorError RevokeOutcome → Barrier
  | .ok .sent => { b with revocation := .sent }
  | .ok .peerUnavailable => { b with revocation := .peerUnavailable }
  | .error error =>
      { b with
        revocation := .failed
        primary := appendFailure b.primary ("revocation send failed: " ++ error.text) }

end Barrier

/-- `request_revocation` -/
def requestRevocation (b : Barrier) : Native Barrier :=
  if b.revocation ≠ .notRequested then pure b
  else do
    let outcome ← sendRevoke strerror
    pure (b.revoked outcome)

/-! ### The barrier -/

inductive BarrierOutcome where
  | eofVerified (primary : Except SupervisorError Unit)
  | eofUnverified (error : SupervisorError)

def eofVerified : Option String → BarrierOutcome
  | some error => .eofVerified (.error ⟨error⟩)
  | none => .eofVerified (.ok ())

def eofUnverified (primary : Option String) (error : String) : BarrierOutcome :=
  let failures := appendFailure primary ("post-handoff EOF barrier failed: " ++ error)
  .eofUnverified ⟨failures.getD ""⟩

/-- The revocation is requested, and the barrier gives up. -/
def giveUp (b : Barrier) (error : String) : Native (Barrier ⊕ BarrierOutcome) := do
  let b ← requestRevocation strerror b
  pure (.inr (eofUnverified b.primary error))

/-- A protocol failure is recorded and answered by the revocation; the barrier
goes on without the signals. -/
def protocolFailure (b : Barrier) (message : String) : Native Barrier := do
  let b ← requestRevocation strerror (b.recordPrimary message)
  pure { b with monitorSignals := false }

def continueWith (p : Native Barrier) : Native (Barrier ⊕ BarrierOutcome) := do
  let b ← p
  pure (.inl b)

def halfClosed (b : Barrier) : Native Barrier := do
  let b ← protocolFailure strerror b
    "control peer half-closed its write side without closing the endpoint"
  pure { b with peerWriteHalfClosed := true }

/-- What follows from the record received after a poll. -/
def afterReceive (b : Barrier) (revents : Revents) :
    Except Errno ControlRead → Native (Barrier ⊕ BarrierOutcome)
  | .ok (.byte _) => continueWith (protocolFailure strerror b
      "control peer sent unexpected data after the one-way handoff")
  | .ok .emptyRecord =>
      if revents.pollHup then pure (.inr (eofVerified b.primary))
      else if revents.pollRdhup then continueWith (halfClosed strerror b)
      else continueWith (protocolFailure strerror b
        "control peer sent a zero-length SOCK_SEQPACKET record after handoff")
  | .ok .invalidLength => continueWith (protocolFailure strerror b
      "control peer sent a post-handoff record that was not exactly one byte")
  | .ok .truncated => continueWith (protocolFailure strerror b
      "control peer sent truncated post-handoff data or ancillary rights")
  | .ok .wouldBlock =>
      if revents.pollHup then pure (.inr (eofVerified b.primary))
      else if revents.pollRdhup then continueWith (halfClosed strerror b)
      else if revents.pollErr then
        giveUp strerror b "control socket reported POLLERR without readable closure state"
      else pure (.inl b)
  | .error error =>
      if revents.pollHup ∨ error = econnreset ∧ b.revocation = .sent then
        pure (.inr (eofVerified b.primary))
      else giveUp strerror b ("cannot receive post-handoff control state: " ++ strerror error)

def controlEvent (b : Barrier) (revents : Revents) : Native (Barrier ⊕ BarrierOutcome) :=
  if revents.pollIn ∨ revents.pollHup ∨ revents.pollErr ∨ revents.pollRdhup then do
    let read ← receiveControlPacket
    afterReceive strerror b revents read
  else pure (.inl b)

/-- What follows from reading the signal descriptor. -/
def afterSignal (b : Barrier) : Except SupervisorError Bool → Native Barrier
  | .ok true => do
      let b ← requestRevocation strerror b
      pure { b with monitorSignals := false }
  | .ok false => pure b
  | .error error => protocolFailure strerror b ("cannot consume termination signal: " ++ error.text)

def signalInvalid (b : Barrier) (revents : Revents) : Native Barrier :=
  if b.monitorSignals ∧ revents.pollNval then
    protocolFailure strerror b "signal poll reported an invalid retained signalfd descriptor"
  else pure b

def signalReadable (b : Barrier) (revents : Revents) : Native Barrier :=
  if b.monitorSignals ∧ revents.pollIn then do
    let signal ← readTerminationSignal strerror
    afterSignal strerror b signal
  else pure b

def signalFailed (b : Barrier) (revents : Revents) : Native Barrier :=
  if b.monitorSignals ∧ revents.pollErr then
    protocolFailure strerror b "signalfd reported POLLERR"
  else pure b

def signalEvent (b : Barrier) (revents : Revents) : Native Barrier := do
  let b ← signalInvalid strerror b revents
  let b ← signalReadable strerror b revents
  signalFailed strerror b revents

/-- The control socket first; the signals only if the barrier goes on. -/
def afterPoll (b : Barrier) (polled : Polled) : Native (Barrier ⊕ BarrierOutcome) := do
  let result ← controlEvent strerror b polled.control
  match result with
  | .inr outcome => pure (.inr outcome)
  | .inl b => continueWith (signalEvent strerror b polled.signals)

/-- The body of the loop. -/
def barrierRound (b : Barrier) : Native (Barrier ⊕ BarrierOutcome) := do
  let reply ← poll b.peerWriteHalfClosed b.monitorSignals
  match reply with
  | .error error =>
      if error = eintr then pure (.inl b)
      else giveUp strerror b ("control poll failed: " ++ strerror error)
  | .ok polled =>
      if polled.control.pollNval then
        giveUp strerror b "control poll reported an invalid retained socket descriptor"
      else afterPoll strerror b polled

/-- Before the loop: a failure of the handoff is answered by the revocation. -/
def enterBarrier (initialFailure : Option SupervisorError) : Native Barrier :=
  let b : Barrier :=
    { primary := initialFailure.map SupervisorError.text, revocation := .notRequested,
      monitorSignals := true, peerWriteHalfClosed := false }
  if b.primary.isSome then do
    let b ← requestRevocation strerror b
    pure { b with monitorSignals := false }
  else pure b

/-- `wait_for_post_handoff_eof` -/
def waitForPostHandoffEof (initialFailure : Option SupervisorError) : Native BarrierOutcome := do
  let b ← enterBarrier strerror initialFailure
  repeats (barrierRound strerror) b

end MosaicArchive.Supervisor
