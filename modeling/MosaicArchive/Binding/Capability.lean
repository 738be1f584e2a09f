import MosaicArchive.Binding.World

/-!
The delegated-root capability: closing and revoking it, the fork hooks, and the
checks of `_locked_capability_access`. Each function runs with the capability's
lock held; what the locks exclude is the subject of another module.
-/

namespace MosaicArchive.Binding

variable {Time : Type} (env : Environment Time)

/-! ### Closing -/

/-- `close` of a pinned backend: the descriptor is forgotten before it is closed. -/
def closePinnedBackend (b : ObjectId) : Run Unit := do
  let w ← Routine.get
  if (w.backend b).closed then
    pure ()
  else do
    Routine.update fun w => w.setBackend b { w.backend b with descriptor := none, closed := true }
    match (w.backend b).descriptor with
    | none => Routine.raise ⟨.other "AssertionError" true, "", []⟩
    | some _ => do
        record (.descriptorClosed b)
        Routine.lift (env.closeDescriptor w.history b)

/-- `close` of a socket object, which closes its descriptor once. -/
def closeControlSocket (s : ObjectId) : Run Unit := do
  let w ← Routine.get
  if w.socketOpen s then do
    Routine.update fun w => w.closeSocket s
    record (.socketClosed s)
    Routine.lift (env.closeSocket w.history s)
  else
    pure ()

/-- `try: p except BaseException as error: cleanup_errors.append(error)` -/
def collectError (p : Run Unit) : Run (List Raised) :=
  Routine.onError (do p; pure []) fun e => pure [e]

/-- Production authority owns its backend. -/
def closeAuthorityBackend (capability : ExclusiveDelegatedCgroupRoot) : Run (List Raised) :=
  if capability.productionInherited then collectError (closePinnedBackend env capability.backend)
  else pure []

def closeAuthorityControl (capability : ExclusiveDelegatedCgroupRoot) : Run (List Raised) :=
  match capability.controlSocket with
  | none => pure []
  | some control => collectError (closeControlSocket env control)

/-- `_close_capability_locked` -/
def closeCapabilityLocked (c : ObjectId) : Run (List Raised) := do
  Routine.update fun w => w.setCapability c { w.capability c with closed := true }
  record (.capabilityClosed c)
  let w ← Routine.get
  let backendErrors ← closeAuthorityBackend env (w.capability c)
  Routine.update fun w => w.setCapability c { w.capability c with controlSocket := none }
  let controlErrors ← closeAuthorityControl env (w.capability c)
  pure (backendErrors ++ controlErrors)

/-- `ExclusiveDelegatedCgroupRoot.close` -/
def closeCapability (c : ObjectId) : Run Unit := do
  let w ← Routine.get
  if (w.capability c).closed then
    pure ()
  else do
    let cleanupErrors ← closeCapabilityLocked env c
    Routine.raiseIf (cleanupErrors ≠ [])
      (errorGroup "delegated-root capability cleanup failed" cleanupErrors)

/-- `ExclusiveDelegatedCgroupRoot.__exit__` -/
def exitCapability (c : ObjectId) (exception : Option Raised) : Run Unit :=
  Routine.onError (closeCapability env c) fun cleanupError =>
    match exception with
    | none => Routine.raise cleanupError
    | some bodyError =>
        Routine.raise (errorGroup "delegated-root capability body and cleanup both failed"
          [bodyError, cleanupError])

/-- `ExclusiveDelegatedCgroupRoot.__del__` -/
def deleteCapability (c : ObjectId) : Run Unit :=
  Routine.onError (closeCapability env c) fun _ => pure ()

/-- `_revoke_capability_locked` -/
def revokeCapabilityLocked {α : Type} (c : ObjectId) (reason : String) : Run α := do
  let cleanupErrors ← closeCapabilityLocked env c
  Routine.raise { capabilityError reason with
    notes := cleanupErrors.map fun e =>
      "authority revocation cleanup also failed: " ++ e.kind.name ++ ": " ++ e.text }

/-- A fork, followed into the child, with `_revoke_capabilities_after_fork_in_child`. -/
def forkChild (pid : ℕ) : Run Unit := do
  let w ← Routine.get
  record (.forkedChild pid)
  Routine.update fun w => { w with pid := pid }
  let lockedCapabilities := (w.issued.map Prod.fst).insertionSort (· ≤ ·)
  Routine.forEach (fun _ c => do let _ ← closeCapabilityLocked env c; pure ()) lockedCapabilities ()
  Routine.update fun w => { w with issued := [] }

/-! ### Access -/

/-- `_control_channel_has_event` -/
def controlChannelHasEvent (control : ObjectId) : Run Bool := do
  let w ← Routine.get
  if w.socketOpen control then
    Routine.lift (env.channelEvent w.history control)
  else
    pure true

/-- The capability's fields are those recorded when it was issued, under the policy in force. -/
def IssuanceRecord.Matches (record : IssuanceRecord) (exact : ExclusiveDelegatedCgroupRoot)
    (policySha256 : String) : Prop :=
  exact.backend = record.backend ∧
    exact.rootHandle = record.rootHandle ∧
    exact.sessionId = record.sessionId ∧
    exact.rootIdentity = record.rootIdentity ∧
    exact.policyDigest = record.policyDigest ∧
    exact.productionInherited = record.productionInherited ∧
    exact.controlSocket = record.controlSocket ∧
    exact.policyDigest = policySha256

instance (record : IssuanceRecord) (exact : ExclusiveDelegatedCgroupRoot) (policySha256 : String) :
    Decidable (record.Matches exact policySha256) :=
  inferInstanceAs (Decidable (_ ∧ _))

def IssuanceRecord.access (record : IssuanceRecord) : CapabilityAccess where
  backend := record.backend
  rootHandle := record.rootHandle
  sessionId := record.sessionId
  rootIdentity := record.rootIdentity
  policyDigest := record.policyDigest
  productionInherited := record.productionInherited

/-- A capability without a control socket counts as one whose channel has an event. -/
def IssuanceRecord.channelHasEvent (issuance : IssuanceRecord) : Run Bool :=
  match issuance.controlSocket with
  | none => pure true
  | some control => controlChannelHasEvent env control

/-- The supervisor's channel must be silent and the pinned root still in place. -/
def validateChannelAndRoot (holder : Holder) (c : ObjectId) (issuance : IssuanceRecord) :
    Run Unit := do
  let event ← issuance.channelHasEvent env
  if event then do
    record (.channelEvent c)
    revokeCapabilityLocked env c
      "native supervisor control channel is stale or contains unexpected data"
  else
    validateRoot env holder issuance.backend issuance.rootHandle

def validateProduction (holder : Holder) (c : ObjectId) (issuance : IssuanceRecord) : Run Unit :=
  if issuance.productionInherited then validateChannelAndRoot env holder c issuance else pure ()

/-- The checks of `_locked_capability_access` before it yields. -/
def lockedCapabilityAccess (holder : Holder) (c : ObjectId) : Run CapabilityAccess := do
  let w ← Routine.get
  match w.issued.lookup c with
  | none => Routine.raise (capabilityError "delegated-root capability was not issued here")
  | some issuance => do
      let exact := w.capability c
      Routine.raiseIf (exact.closed = true) (capabilityError "delegated-root capability is closed")
      Routine.raiseIf (exact.issuingPid ≠ w.pid ∨ issuance.issuingPid ≠ w.pid)
        (capabilityError "delegated-root capability belongs to another process")
      Routine.raiseIf (¬ issuance.Matches exact env.fixedPolicySha256)
        (capabilityError "delegated-root capability state is mismatched")
      validateProduction env holder c issuance
      record (.accessGranted c)
      pure issuance.access

end MosaicArchive.Binding
