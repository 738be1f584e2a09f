import MosaicArchive.Effects.Recorded
import MosaicArchive.Supervisor.Control
import MosaicArchive.Supervisor.HandoffPacket

/-!
The way of the supervisor to the handoff (`native/binding-supervisor/src/linux.rs`,
`linux/cgroup.rs`, `linux/control.rs`): it creates the session, inspects it and sends
one packet. Every call may be answered in any way; only a process id is positive. What
is sent are the answers to its own calls, encoded, and the coordinator accepts it.
-/

namespace MosaicArchive.Supervisor

open FixedWidth (Bytes)
open Process CallSystem

/-! ### System calls -/

structure Identity where
  device : UInt64
  inode : UInt64
  mode : UInt32
  deriving DecidableEq, Repr

/-- The steps before the handoff of which only the success matters here. -/
inductive HandoffOperation where
  | configureSession
  | waitForReady
  | requireDomainUnpopulated (context : String)
  | requireEmptyProcesses (context : String)
  deriving DecidableEq, Repr

inductive HandoffCall where
  | getrandom
  | mkdirat (name : Utf8.Text)
  | openat (name : Utf8.Text)
  | unlinkat (name : Utf8.Text)
  | fstat (fd : ℕ)
  | fstatfs (fd : ℕ)
  | host (operation : HandoffOperation)
  | getpid
  | getuid
  | getgid
  /-- With the packet and the descriptor that is passed. -/
  | sendmsg (packet : Bytes) (fd : ℕ)
  deriving DecidableEq, Repr

def HandoffReply : HandoffCall → Type
  | .getrandom => Except Errno Nonce
  | .mkdirat _ => Except Errno Unit
  | .openat _ => Except Errno ℕ
  | .unlinkat _ => Except Errno Unit
  | .fstat _ => Except Errno Identity
  | .fstatfs _ => Except Errno ℤ
  | .host _ => Except SupervisorError Unit
  | .getpid => Int32
  | .getuid => UInt32
  | .getgid => UInt32
  | .sendmsg _ _ => Except Errno ℤ

abbrev Handoff := Process HandoffCall HandoffReply
abbrev Fallible (ε α : Type) := ExceptT ε Handoff α

def ask (c : HandoffCall) {ε : Type} : Fallible ε (HandoffReply c) := ExceptT.lift (perform c)

/-- A value, or the failure of the call as an error. -/
def require {ε ε' α : Type} (toError : ε' → ε) : Except ε' α → Fallible ε α
  | .ok a => pure a
  | .error e => throw (toError e)

def raiseIf {ε : Type} (c : Prop) [Decidable c] (e : ε) : Fallible ε Unit :=
  if c then throw e else pure ()

/-! ### Identities -/

def sIfmt : UInt32 := 0o170000
def sIfdir : UInt32 := 0o040000
def cgroup2SuperMagic : ℤ := 0x63677270

/-- `Identity::require_directory` -/
def Identity.requireDirectory (identity : Identity) (context : String) :
    Fallible SupervisorError Identity := do
  raiseIf (identity.device = 0 ∨ identity.inode = 0) ⟨context ++ " has a zero filesystem identity"⟩
  raiseIf (identity.mode &&& sIfmt ≠ sIfdir) ⟨context ++ " is not a directory"⟩
  pure identity

variable (strerror : Errno → String)

/-- `descriptor_identity` -/
def descriptorIdentity (fd : ℕ) (context : String) : Fallible SupervisorError Identity := do
  let reply ← ask (.fstat fd)
  require (SupervisorError.io strerror ("cannot stat " ++ context)) reply

/-- `stable_identity` -/
def stableIdentity (fd : ℕ) (context : String) : Fallible SupervisorError Identity := do
  let before ← descriptorIdentity strerror fd context
  let after ← descriptorIdentity strerror fd context
  raiseIf (before ≠ after) ⟨context ++ " identity changed during inspection"⟩
  pure before

/-- `require_same_identity` -/
def requireSameIdentity (fd : ℕ) (expected : Identity) (context : String) :
    Fallible SupervisorError Unit := do
  let observed ← stableIdentity strerror fd context
  raiseIf (observed ≠ expected) ⟨context ++ " no longer has its retained identity"⟩

/-- `require_cgroup2` -/
def requireCgroup2 (fd : ℕ) (context : String) : Fallible SupervisorError Unit := do
  let reply ← ask (.fstatfs fd)
  let fsType ← require (SupervisorError.io strerror ("cannot inspect filesystem for " ++ context)) reply
  raiseIf (fsType ≠ cgroup2SuperMagic) ⟨context ++ " is not on cgroup v2"⟩

/-- `open_directory_at` -/
def openDirectoryAt (name : Utf8.Text) : Fallible SupervisorError ℕ := do
  let reply ← ask (.openat name)
  require (SupervisorError.io strerror "cannot open direct child cgroup without following links") reply

/-! ### The session -/

structure Session where
  descriptor : ℕ
  identity : Identity
  name : Utf8.Text
  nonce : Nonce

def sessionCollisionAttempts : ℕ := 16
def sessionPrefix : Utf8.Text := "mosaic-supervisor-".toList
def eexist : Errno := 17

/-- `session_name` -/
def sessionName (nonce : Nonce) : Utf8.Text := sessionPrefix ++ Report.hexDigest nonce.val

/-- `is_valid_session_name` -/
def isValidSessionName (name : Utf8.Text) : Bool :=
  name.length = sessionPrefix.length + 32 ∧ name.take sessionPrefix.length = sessionPrefix ∧
    (name.drop sessionPrefix.length).all fun c => c.isDigit = true ∨ 'a' ≤ c ∧ c ≤ 'f'

/-- A session directory that cannot be used is removed again. -/
def removeSession (name : Utf8.Text) (context : String) (primary : SupervisorError) {α : Type} :
    Fallible SupervisorError α := do
  match (← ask (.unlinkat name) : Except Errno Unit) with
  | .error error =>
      throw ⟨primary.text ++ "; cleanup failure: cannot remove " ++ context ++ " session cgroup: " ++
        strerror error⟩
  | .ok () => throw primary

/-- What the identity of a new session has to pass. -/
def newSessionIdentity (descriptor : ℕ) : Fallible SupervisorError Identity := do
  let identity ← stableIdentity strerror descriptor "new session cgroup"
  let identity ← identity.requireDirectory "new session cgroup"
  requireCgroup2 strerror descriptor "new session cgroup"
  pure identity

/-- `create_session`, once the directory is there. -/
def openSession (nonce : Nonce) (name : Utf8.Text) : Fallible SupervisorError Session := do
  let opened ← ExceptT.lift (openDirectoryAt strerror name).run
  match opened with
  | .error primary => removeSession strerror name "unopened" primary
  | .ok descriptor => do
      let inspected ← ExceptT.lift (newSessionIdentity strerror descriptor).run
      match inspected with
      | .error primary => removeSession strerror name "invalid new" primary
      | .ok identity => pure { descriptor, identity, name, nonce }

/-- The loop of `create_session`, with the attempts that are left. -/
def createSessionIn : ℕ → Fallible SupervisorError Session
  | 0 => throw ⟨"bounded session collision loop always returns"⟩
  | attempts + 1 => do
      let drawn ← ask .getrandom
      let nonce ← require (fun error => ⟨"getrandom failed: " ++ strerror error⟩) drawn
      if isValidSessionNonce nonce = false then do
        raiseIf (attempts = 0) ⟨"getrandom returned an all-zero nonce through the retry bound"⟩
        createSessionIn attempts
      else do
        let name := sessionName nonce
        raiseIf (isValidSessionName name = false)
          ⟨"internal session-name generation violated its invariant"⟩
        raiseIf ('\x00' ∈ name) ⟨"generated session name contains NUL"⟩
        match (← ask (.mkdirat name) : Except Errno Unit) with
        | .ok () => openSession strerror nonce name
        | .error error =>
            if error = eexist ∧ attempts ≠ 0 then createSessionIn attempts
            else throw (.io strerror (if error = eexist then "session-name collision retry bound exhausted"
              else "cannot create direct session cgroup") error)

/-- `create_session` -/
def createSession : Fallible SupervisorError Session := createSessionIn strerror sessionCollisionAttempts

/-- `require_parent_entry_identity` -/
def requireParentEntryIdentity (session : Session) : Fallible SupervisorError Unit := do
  raiseIf (isValidSessionName session.name = false) ⟨"retained session name is invalid"⟩
  raiseIf ('\x00' ∈ session.name) ⟨"retained session name contains NUL"⟩
  let reopened ← openDirectoryAt strerror session.name
  requireCgroup2 strerror reopened "reopened direct session child"
  let identity ← stableIdentity strerror reopened "reopened direct session child"
  let identity ← identity.requireDirectory "reopened direct session child"
  raiseIf (identity ≠ session.identity)
    ⟨"session name no longer identifies the retained direct child"⟩

/-! ### The handoff -/

structure HandoffSendError where
  error : SupervisorError
  transferPossible : Bool

/-- `HandoffSendError::from` -/
def HandoffSendError.ofError (error : SupervisorError) : HandoffSendError := ⟨error, false⟩

def host (operation : HandoffOperation) : Fallible SupervisorError Unit := do
  let reply ← ask (.host operation)
  require id reply

/-- `validate_handoff_send_count` -/
def validateHandoffSendCount (sent : ℤ) (expected : ℕ) : Except HandoffSendError Unit :=
  if 0 ≤ sent ∧ sent.toNat = expected then .ok ()
  else .error {
    error := ⟨"session handoff returned an ambiguous short count of " ++ toString sent ++ " for " ++
      toString expected ++ " packet bytes"⟩
    transferPossible := 0 ≤ sent }

/-- `send_one_rights_packet` -/
def sendOneRightsPacket (packet : Bytes) (passedFd : ℕ) : Fallible HandoffSendError Unit :=
  ExceptT.mk (repeats (fun () => do
    let reply ← (perform (HandoffCall.sendmsg packet passedFd) : Handoff (Except Errno ℤ))
    match reply with
    | .error error =>
        if error = eintr then pure (.inl ())
        else pure (.inr (.error (.ofError (.io strerror "cannot send cgroup session handoff" error))))
    | .ok sent => pure (.inr (validateHandoffSendCount sent packet.length))) ())

/-- `u32::try_from` on a process id -/
def tryFromPid (pid : Int32) : Except SupervisorError UInt32 :=
  if pid.toInt < 0 then .error ⟨"actual sender PID is not a positive u32"⟩
  else .ok (UInt32.ofNat pid.toInt.toNat)

/-- What `send_handoff` checks before it reads the credentials. -/
def beforeHandoff (session : Session) : Fallible SupervisorError Unit := do
  requireParentEntryIdentity strerror session
  requireSameIdentity strerror session.descriptor session.identity "session cgroup before handoff"
  host (.requireDomainUnpopulated "session before handoff")
  host (.requireEmptyProcesses "session before handoff")

/-- `send_handoff` -/
def sendHandoff (session : Session) : Fallible HandoffSendError Unit := do
  (beforeHandoff strerror session).adapt HandoffSendError.ofError
  let pid ← ask .getpid
  let pid ← require HandoffSendError.ofError (tryFromPid pid)
  let uid ← ask .getuid
  let gid ← ask .getgid
  let packet : HandoffPacket := {
    senderPid := pid
    senderUid := uid
    senderGid := gid
    rootDevice := session.identity.device
    rootInode := session.identity.inode
    sessionNonce := session.nonce }
  sendOneRightsPacket strerror packet.encode session.descriptor

/-- `run` from the creation of the session to the handoff; nothing is sent where a step fails. -/
def runToHandoff : Fallible HandoffSendError Unit := do
  let session ← (createSession strerror).adapt HandoffSendError.ofError
  (host .configureSession).adapt HandoffSendError.ofError
  (host .waitForReady).adapt HandoffSendError.ofError
  sendHandoff strerror session

/-! ### What is sent -/

abbrev HandoffEvent := Σ c : HandoffCall, HandoffReply c
abbrev HandoffHistory := CallHistory HandoffCall HandoffReply

/-- Every answer may be given; only a process id is positive. -/
def HandoffAnswers : (c : HandoffCall) → HandoffReply c → Prop
  | .getpid, pid => 0 < Int32.toInt pid
  | _, _ => True

/-- The fields are what calls on record answered. -/
structure HandoffPacket.Origin (p : HandoffPacket) (w : HandoffHistory) : Prop where
  pid : ∃ pid : Int32, (⟨.getpid, pid⟩ : HandoffEvent) ∈ w ∧ (p.senderPid.toNat : ℤ) = pid.toInt
  uid : (⟨.getuid, p.senderUid⟩ : HandoffEvent) ∈ w
  gid : (⟨.getgid, p.senderGid⟩ : HandoffEvent) ∈ w
  root : ∃ fd mode, (⟨.fstat fd, .ok ⟨p.rootDevice, p.rootInode, mode⟩⟩ : HandoffEvent) ∈ w
  nonce : (⟨.getrandom, .ok p.sessionNonce⟩ : HandoffEvent) ∈ w

/-- Every packet on record may be sent, and is the encoding of such fields. -/
def SentFaithfully (w : HandoffHistory) : Prop :=
  ∀ payload fd reply, (⟨.sendmsg payload fd, reply⟩ : HandoffEvent) ∈ w →
    ∃ p : HandoffPacket, p.Origin w ∧ p.Sendable ∧ payload = p.encode

variable {ε α : Type} {w : HandoffHistory} {es : List HandoffEvent}

theorem HandoffPacket.Origin.append {p : HandoffPacket} (h : p.Origin w) (e : HandoffEvent) :
    p.Origin (w ++ [e]) := by
  have hkeep {e' : HandoffEvent} (he : e' ∈ w) : e' ∈ w ++ [e] := List.mem_append_left _ he
  obtain ⟨pid, hpid, hvalue⟩ := h.pid
  obtain ⟨fd, mode, hroot⟩ := h.root
  exact ⟨⟨pid, hkeep hpid, hvalue⟩, hkeep h.uid, hkeep h.gid, ⟨fd, mode, hkeep hroot⟩, hkeep h.nonce⟩

/-- A call that is no send leaves what was sent. -/
theorem SentFaithfully.append (h : SentFaithfully w) {c : HandoffCall} (r : HandoffReply c)
    (hc : ∀ payload fd, c = .sendmsg payload fd →
      ∃ p : HandoffPacket, p.Origin w ∧ p.Sendable ∧ payload = p.encode) :
    SentFaithfully (w ++ [⟨c, r⟩]) := by
  intro payload fd reply hmem
  have hpacket : ∃ p : HandoffPacket, p.Origin w ∧ p.Sendable ∧ payload = p.encode := by
    rcases List.mem_append.mp hmem with hmem | hmem
    · exact h payload fd reply hmem
    · exact hc payload fd (congrArg Sigma.fst (List.mem_singleton.mp hmem)).symm
  obtain ⟨p, horigin, hsendable, hpayload⟩ := hpacket
  exact ⟨p, horigin.append _, hsendable, hpayload⟩

abbrev HandoffYields (P : HandoffHistory → Prop) (p : Fallible ε α)
    (Q : α → HandoffHistory → Prop) : Prop :=
  Yields HandoffAnswers SentFaithfully P p Q

theorem yields_ask {c : HandoffCall} (hc : ∀ payload fd, c ≠ .sendmsg payload fd) :
    HandoffYields (Known es) (ask c : Fallible ε (HandoffReply c))
      fun r w => HandoffAnswers c r ∧ Known (⟨c, r⟩ :: es) w := by
  refine Yields.ask ?_ ?_
  · intro w r hw _ _
    exact hw.append r fun payload fd hsend => absurd hsend (hc payload fd)
  · intro w r hknown hallowed
    exact ⟨hallowed, hknown.append _⟩

/-- Whatever was known before, the answer is on record. -/
theorem yields_answer {c : HandoffCall} (hc : ∀ payload fd, c ≠ .sendmsg payload fd)
    {P : HandoffHistory → Prop} :
    HandoffYields P (ask c : Fallible ε (HandoffReply c)) fun r => Known [⟨c, r⟩] :=
  (yields_ask hc).mono (fun w _ => known_nil w) fun _ _ h => h.2

theorem yields_raiseIf {c : Prop} [Decidable c] {e : ε} {P : HandoffHistory → Prop} :
    HandoffYields P (raiseIf c e) fun _ w => ¬ c ∧ P w := by
  rw [raiseIf]
  split
  · exact Yields.throw
  · rename_i hc
    exact Yields.pure fun w hw => ⟨hc, hw⟩

theorem yields_require {ε' : Type} {toError : ε' → ε} {result : Except ε' α} {P : HandoffHistory → Prop} :
    HandoffYields P (require toError result) fun a w => result = .ok a ∧ P w := by
  cases result with
  | error e => exact Yields.throw
  | ok a => exact Yields.pure fun w hw => ⟨rfl, hw⟩

/-- What is known before is known after. -/
def Preserves (p : Fallible ε α) : Prop := ∀ es, HandoffYields (Known es) p fun _ => Known es

namespace Preserves

variable {β : Type} {p : Fallible ε α} {f : α → Fallible ε β}

theorem bind (hp : Preserves p) (hf : ∀ a, Preserves (f a)) : Preserves (p >>= f) := fun es =>
  Yields.bind (hp es) fun a => hf a es

theorem ask {c : HandoffCall} (hc : ∀ payload fd, c ≠ .sendmsg payload fd) :
    Preserves (Supervisor.ask c : Fallible ε (HandoffReply c)) := fun _ =>
  (yields_ask hc).mono (fun _ h => h) fun _ _ h => h.2.tail

theorem raiseIf {c : Prop} [Decidable c] {e : ε} : Preserves (Supervisor.raiseIf c e) := fun _ =>
  yields_raiseIf.mono (fun _ h => h) fun _ _ h => h.2

theorem require {ε' : Type} {toError : ε' → ε} {result : Except ε' α} :
    Preserves (Supervisor.require toError result) := fun _ =>
  yields_require.mono (fun _ h => h) fun _ _ h => h.2

end Preserves

theorem yields_stableIdentity (fd : ℕ) (context : String) :
    HandoffYields (Known es) (stableIdentity strerror fd context)
      fun identity => Known (⟨.fstat fd, .ok identity⟩ :: es) := by
  have hdescriptor : ∀ es, HandoffYields (Known es) (descriptorIdentity strerror fd context)
      fun identity => Known (⟨.fstat fd, .ok identity⟩ :: es) := by
    intro es
    refine Yields.bind (yields_ask fun _ _ h => nomatch h) fun reply => ?_
    refine yields_require.mono (fun _ h => h) ?_
    rintro identity w ⟨rfl, -, hknown⟩
    exact hknown
  refine Yields.bind (hdescriptor es) fun before => ?_
  refine Yields.bind (hdescriptor _) fun after => ?_
  refine Yields.bind yields_raiseIf fun _ => ?_
  exact Yields.pure fun w hw => hw.2.tail

theorem yields_requireDirectory (identity : Identity) (context : String) {P : HandoffHistory → Prop} :
    HandoffYields P (identity.requireDirectory context)
      fun i w => (i = identity ∧ identity.device ≠ 0 ∧ identity.inode ≠ 0) ∧ P w := by
  refine Yields.bind yields_raiseIf fun _ => ?_
  refine Yields.bind yields_raiseIf fun _ => ?_
  refine Yields.pure fun w hw => ?_
  obtain ⟨-, hidentity, hP⟩ := hw
  exact ⟨⟨rfl, not_or.mp hidentity⟩, hP⟩

theorem preserves_requireCgroup2 (fd : ℕ) (context : String) : Preserves (requireCgroup2 strerror fd context) :=
  Preserves.bind (Preserves.ask fun _ _ h => nomatch h) fun _ =>
    Preserves.bind Preserves.require fun _ => Preserves.raiseIf

theorem preserves_openDirectoryAt (name : Utf8.Text) : Preserves (openDirectoryAt strerror name) :=
  Preserves.bind (Preserves.ask fun _ _ h => nomatch h) fun _ => Preserves.require

theorem preserves_stableIdentity (fd : ℕ) (context : String) : Preserves (stableIdentity strerror fd context) :=
  fun _ => (yields_stableIdentity strerror fd context).mono (fun _ h => h) fun _ _ h => h.tail

theorem preserves_host (operation : HandoffOperation) : Preserves (host operation) :=
  Preserves.bind (Preserves.ask fun _ _ h => nomatch h) fun _ => Preserves.require

theorem preserves_beforeHandoff (session : Session) : Preserves (beforeHandoff strerror session) := by
  have hdirectory : ∀ identity : Identity,
      Preserves (identity.requireDirectory "reopened direct session child") := fun identity _ =>
    (yields_requireDirectory identity _).mono (fun _ h => h) fun _ _ h => h.2
  have hentry : Preserves (requireParentEntryIdentity strerror session) :=
    Preserves.raiseIf.bind fun _ => Preserves.raiseIf.bind fun _ =>
      (preserves_openDirectoryAt strerror session.name).bind fun reopened =>
        (preserves_requireCgroup2 strerror reopened _).bind fun _ =>
          (preserves_stableIdentity strerror reopened _).bind fun identity =>
            (hdirectory identity).bind fun _ => Preserves.raiseIf
  refine hentry.bind fun _ => ?_
  refine ((preserves_stableIdentity strerror session.descriptor _).bind fun _ => Preserves.raiseIf).bind
    fun _ => ?_
  exact (preserves_host _).bind fun _ => preserves_host _

/-! ### The session -/

/-- What is ensured of a session: a nonzero identity and a nonce, both answered by calls. -/
def Session.Sound (session : Session) (w : HandoffHistory) : Prop :=
  (session.identity.device ≠ 0 ∧ session.identity.inode ≠ 0 ∧
      isValidSessionNonce session.nonce = true) ∧
    Known [⟨.fstat session.descriptor, .ok session.identity⟩, ⟨.getrandom, .ok session.nonce⟩] w

theorem yields_removeSession {name : Utf8.Text} {context : String} {primary : SupervisorError}
    {P : HandoffHistory → Prop} {Q : α → HandoffHistory → Prop} :
    HandoffYields P (removeSession strerror name context primary) Q := by
  have hunlinkat : ∀ payload fd, HandoffCall.unlinkat name ≠ .sendmsg payload fd :=
    fun _ _ h => nomatch h
  refine Yields.bind (yields_answer hunlinkat) fun result => ?_
  cases result with
  | error error => exact Yields.throw
  | ok _ => exact Yields.throw

theorem yields_openSession {nonce : Nonce} (hnonce : isValidSessionNonce nonce = true)
    (name : Utf8.Text) :
    HandoffYields (Known [⟨.getrandom, .ok nonce⟩]) (openSession strerror nonce name) Session.Sound := by
  refine Yields.bind (preserves_openDirectoryAt strerror name _).run fun opened => ?_
  cases opened with
  | error primary => exact yields_removeSession strerror
  | ok descriptor =>
      have hidentity : HandoffYields (Known [⟨.getrandom, .ok nonce⟩])
          (newSessionIdentity strerror descriptor)
          fun i w => (i.device ≠ 0 ∧ i.inode ≠ 0) ∧
            Known [⟨.fstat descriptor, .ok i⟩, ⟨.getrandom, .ok nonce⟩] w := by
        refine Yields.bind (yields_stableIdentity strerror descriptor _) fun identity => ?_
        refine Yields.bind (yields_requireDirectory identity _) fun i => ?_
        refine Yields.of_fact ?_
        rintro ⟨rfl, hdevice, hinode⟩
        refine Yields.bind (preserves_requireCgroup2 strerror descriptor _ _) fun _ => ?_
        exact Yields.pure fun w hw => ⟨⟨hdevice, hinode⟩, hw⟩
      refine Yields.bind (hidentity.run.mono (fun w hw => hw descriptor rfl) fun _ _ h => h)
        fun inspected => ?_
      cases inspected with
      | error primary => exact yields_removeSession strerror
      | ok identity =>
          refine Yields.pure fun w hw => ?_
          obtain ⟨⟨hdevice, hinode⟩, hknown⟩ := hw identity rfl
          exact ⟨⟨hdevice, hinode, hnonce⟩, hknown⟩

theorem yields_createSessionIn (attempts : ℕ) :
    HandoffYields (fun _ => True) (createSessionIn strerror attempts) Session.Sound := by
  induction attempts with
  | zero => exact Yields.throw
  | succ attempts ih =>
      have hgetrandom : ∀ payload fd, HandoffCall.getrandom ≠ .sendmsg payload fd :=
        fun _ _ h => nomatch h
      refine Yields.bind (yields_answer hgetrandom) fun drawn => ?_
      refine Yields.bind yields_require fun nonce => ?_
      refine Yields.of_fact ?_
      rintro rfl
      split
      · exact Yields.bind yields_raiseIf fun _ => ih.mono (fun _ _ => trivial) fun _ _ h => h
      · rename_i hnonce
        refine Yields.bind yields_raiseIf fun _ => Yields.of_fact fun _ => ?_
        refine Yields.bind yields_raiseIf fun _ => Yields.of_fact fun _ => ?_
        have hmkdirat : ∀ payload fd, HandoffCall.mkdirat (sessionName nonce) ≠ .sendmsg payload fd :=
          fun _ _ h => nomatch h
        refine Yields.bind (Preserves.ask hmkdirat _) fun made => ?_
        cases made with
        | ok _ => exact yields_openSession strerror (by simpa using hnonce) _
        | error error =>
            dsimp only
            split
            · exact ih.mono (fun _ _ => trivial) fun _ _ h => h
            · exact Yields.throw

/-! ### The packet -/

/-- A packet is sent again only after an interruption. -/
theorem yields_sendOneRightsPacket {p : HandoffPacket} (hsendable : p.Sendable) (passedFd : ℕ) :
    HandoffYields p.Origin (sendOneRightsPacket strerror p.encode passedFd) fun _ _ => True := by
  have hloop : (recorded HandoffAnswers).Leads SentFaithfully (fun w => SentFaithfully w ∧ p.Origin w)
      (sendOneRightsPacket strerror p.encode passedFd).run fun _ => SentFaithfully := by
    refine leads_repeats (I := fun _ w => SentFaithfully w ∧ p.Origin w) (fun _ => recorded_stable _)
      (fun _ _ hw => hw.1) fun _ => ?_
    refine leads_call (R := fun _ w => SentFaithfully w ∧ p.Origin w) (recorded_stable _)
      (fun _ hw => hw.1) ?_ fun reply => ?_
    · rintro w r _ ⟨hw, horigin⟩ ⟨-, rfl⟩
      refine ⟨hw.append r ?_, horigin.append _⟩
      rintro payload fd ⟨⟩
      exact ⟨p, horigin, hsendable, rfl⟩
    · cases reply with
      | error error =>
          show (recorded HandoffAnswers).Leads _ _ (if error = eintr then _ else _) _
          split
          · exact leads_done (recorded_stable _) (fun _ hw => hw.1) fun _ hw => hw
          · exact leads_done (recorded_stable _) (fun _ hw => hw.1) fun _ hw => hw.1
      | ok sent => exact leads_done (recorded_stable _) (fun _ hw => hw.1) fun _ hw => hw.1
  exact hloop.mono (fun _ h => h) fun _ _ h => ⟨h, fun _ _ => trivial⟩

theorem tryFromPid_spec {pid : Int32} {senderPid : UInt32} (hpos : 0 < pid.toInt)
    (h : tryFromPid pid = .ok senderPid) :
    (senderPid.toNat : ℤ) = pid.toInt ∧ senderPid.toNat ≠ 0 := by
  rw [tryFromPid, if_neg (by omega)] at h
  obtain rfl := Except.ok.inj h
  have hlt : pid.toInt.toNat < 2 ^ 32 := by
    have hbound := pid.toInt_lt
    omega
  have hvalue : (UInt32.ofNat pid.toInt.toNat).toNat = pid.toInt.toNat := UInt32.toNat_ofNat_of_lt hlt
  rw [hvalue]
  omega

theorem yields_sendHandoff (session : Session) :
    HandoffYields session.Sound (sendHandoff strerror session) fun _ _ => True := by
  refine Yields.of_fact ?_
  rintro ⟨hdevice, hinode, hnonce⟩
  refine Yields.bind ((preserves_beforeHandoff strerror session _).adapt _) fun _ => ?_
  refine Yields.bind (yields_ask fun _ _ h => nomatch h) fun pid => ?_
  refine Yields.of_fact fun hpos => ?_
  refine Yields.bind yields_require fun senderPid => ?_
  refine Yields.of_fact fun hpid => ?_
  obtain ⟨hvalue, hpidne⟩ := tryFromPid_spec hpos hpid
  refine Yields.bind (yields_ask fun _ _ h => nomatch h) fun uid => ?_
  refine Yields.of_fact fun _ => ?_
  refine Yields.bind (yields_ask fun _ _ h => nomatch h) fun gid => ?_
  refine Yields.of_fact fun _ => ?_
  refine (yields_sendOneRightsPacket strerror ⟨hpidne, ?_, ?_, hnonce⟩ session.descriptor).mono ?_
    fun _ _ h => h
  · exact fun hzero => hdevice (UInt64.toNat.inj hzero)
  · exact fun hzero => hinode (UInt64.toNat.inj hzero)
  · intro w hknown
    exact ⟨⟨pid, hknown _ (by simp), hvalue⟩, hknown _ (by simp), hknown _ (by simp),
      ⟨session.descriptor, session.identity.mode, hknown _ (by simp)⟩, hknown _ (by simp)⟩

theorem yields_runToHandoff : HandoffYields (fun _ => True) (runToHandoff strerror) fun _ _ => True := by
  refine Yields.bind ((yields_createSessionIn strerror _).adapt _) fun session => ?_
  refine Yields.of_fact fun hsound => ?_
  refine Yields.bind ((preserves_host _ _).adapt _) fun _ => ?_
  refine Yields.bind ((preserves_host _ _).adapt _) fun _ => ?_
  exact (yields_sendHandoff strerror session).mono (fun w hw => ⟨hsound, hw⟩) fun _ _ h => h

/-- Whatever its calls are answered, the supervisor sends only what the coordinator accepts with the
fields it was sent for; and the coordinator accepts only what encodes the fields it returns. -/
theorem handoff_codec :
    (∀ p' w, (recorded HandoffAnswers).Reaches ((runToHandoff strerror).run, []) (p', w) →
        ∀ payload fd reply, (⟨.sendmsg payload fd, reply⟩ : HandoffEvent) ∈ w →
          ∃ p : HandoffPacket, p.Origin w ∧ payload = p.encode ∧
            ∃ packet, parseSupervisorPacket payload = .ok packet ∧ p.Matches packet) ∧
      (∀ payload packet, parseSupervisorPacket payload = .ok packet →
        ∃ p : HandoffPacket, p.Matches packet ∧ payload = p.encode ∧
          ∀ q : HandoffPacket, q.Matches packet → q = p) ∧
      ∀ payload payload' packet, parseSupervisorPacket payload = .ok packet →
        parseSupervisorPacket payload' = .ok packet → payload = payload' := by
  refine ⟨?_, ?_, ?_⟩
  · intro p' w hreach payload fd reply hmem
    have hstart : SentFaithfully [] := fun _ _ _ hmem => nomatch hmem
    obtain ⟨hsent, -⟩ := yields_runToHandoff strerror [] ⟨hstart, trivial⟩ p' w hreach
    obtain ⟨p, horigin, hsendable, rfl⟩ := hsent payload fd reply hmem
    exact ⟨p, horigin, rfl, HandoffPacket.parse_encode hsendable⟩
  · intro payload packet h
    obtain ⟨p, hmatches, hpayload⟩ := HandoffPacket.encode_of_parse h
    exact ⟨p, hmatches, hpayload, fun q hq => hq.unique hmatches⟩
  · intro payload payload' packet h h'
    obtain ⟨p, hmatches, rfl⟩ := HandoffPacket.encode_of_parse h
    obtain ⟨p', hmatches', rfl⟩ := HandoffPacket.encode_of_parse h'
    rw [hmatches.unique hmatches']

end MosaicArchive.Supervisor
