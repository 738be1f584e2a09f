import MosaicArchive.Binding.Lease

/-!
What an operation on a lease does as seen from the lease: the calls it makes on
its backend and its own two fields. `Ensures` holds of a computation whatever
the rest of the world is, and has one rule for each way of building one.
-/

namespace MosaicArchive.Binding

open Utf8 (Text)

def backendCallOf (l : ObjectId) : Event → Option BackendCall
  | .backend (.lease l') call => if l' = l then some call else none
  | _ => none

/-- The backend calls the lease has made so far. -/
def callLog (l : ObjectId) (w : World) : List BackendCall := w.history.filterMap (backendCallOf l)

/-- From a world where the lease has made `calls` and has `fields`, the
computation ends in `Q` or raises in `E`. -/
def Ensures {α : Type} (l : ObjectId) (p : Run α) (Q : α → List BackendCall → LeaseFields → Prop)
    (E : List BackendCall → LeaseFields → Prop) (calls : List BackendCall) (fields : LeaseFields) :
    Prop :=
  ∀ w, callLog l w = calls → w.lease l = fields →
    p.Ends (fun a w' => Q a (callLog l w') (w'.lease l)) (fun _ w' => E (callLog l w') (w'.lease l)) w

namespace Ensures

variable {α β : Type} {l : ObjectId} {Q Q' : α → List BackendCall → LeaseFields → Prop}
  {E E' : List BackendCall → LeaseFields → Prop} {calls : List BackendCall} {fields : LeaseFields}

theorem mono {p : Run α} (h : Ensures l p Q E calls fields)
    (hQ : ∀ a calls' fields', Q a calls' fields' → Q' a calls' fields')
    (hE : ∀ calls' fields', E calls' fields' → E' calls' fields') : Ensures l p Q' E' calls fields :=
  fun w hcalls hfields => (h w hcalls hfields).mono (fun a _ => hQ a _ _) fun _ _ => hE _ _

theorem pure {a : α} (h : Q a calls fields) : Ensures l (Pure.pure a) Q E calls fields := by
  rintro w rfl rfl
  exact h

theorem raise {e : Raised} (h : E calls fields) : Ensures l (Routine.raise e) Q E calls fields := by
  rintro w rfl rfl
  exact h

theorem bind {p : Run β} {f : β → Run α}
    (h : Ensures l p (fun b => Ensures l (f b) Q E) E calls fields) :
    Ensures l (p >>= f) Q E calls fields := by
  intro w hcalls hfields
  rw [Routine.ends_bind]
  exact (h w hcalls hfields).mono (fun b w' h' => h' w' rfl rfl) fun _ _ h' => h'

theorem raiseIf {c : Prop} [Decidable c] {e : Raised} {Q : Unit → List BackendCall → LeaseFields → Prop}
    (hE : c → E calls fields) (hQ : ¬ c → Q () calls fields) :
    Ensures l (Routine.raiseIf c e) Q E calls fields := by
  rintro w rfl rfl
  rw [Routine.ends_raiseIf]
  exact ⟨hE, hQ⟩

theorem lift {x : Except Raised α} (hQ : ∀ a, x = .ok a → Q a calls fields)
    (hE : ∀ e, x = .error e → E calls fields) : Ensures l (Routine.lift x) Q E calls fields := by
  rintro w rfl rfl
  rw [Routine.ends_lift]
  exact ⟨hQ, hE⟩

/-- Looking at the world tells nothing but the lease's own fields. -/
theorem get {f : World → Run α}
    (h : ∀ w, callLog l w = calls → w.lease l = fields → Ensures l (f w) Q E calls fields) :
    Ensures l (Routine.get >>= f) Q E calls fields := by
  intro w hcalls hfields
  rw [Routine.ends_bind, Routine.ends_get]
  exact h w hcalls hfields w hcalls hfields

theorem onError {p : Run α} {handler : Raised → Run α}
    (h : Ensures l p Q E calls fields)
    (hhandler : ∀ e calls' fields', E calls' fields' → Ensures l (handler e) Q E calls' fields') :
    Ensures l (Routine.onError p handler) Q E calls fields := by
  intro w hcalls hfields
  rw [Routine.ends_onError]
  exact (h w hcalls hfields).mono (fun _ _ h' => h') fun e w' h' => hhandler e _ _ h' w' rfl rfl

theorem backendCall {p : Run α} {context : String} (h : Ensures l p Q E calls fields) :
    Ensures l (Binding.backendCall context p) Q E calls fields := by
  refine onError h fun e calls' fields' hE => ?_
  split
  · exact raise hE
  · split
    · exact raise hE
    · exact raise hE

theorem record {e : Event} {Q : Unit → List BackendCall → LeaseFields → Prop}
    (h : Q () (calls ++ (backendCallOf l e).toList) fields) :
    Ensures l (Binding.record e) Q E calls fields := by
  rintro w rfl rfl
  unfold Binding.record
  rw [Routine.ends_update]
  have hlog : callLog l (w.record e) = callLog l w ++ (backendCallOf l e).toList := by
    unfold callLog
    rcases he : backendCallOf l e with _ | call <;> simp [he]
  rw [hlog]
  exact h

/-! ### The lease's fields -/

theorem requireOpen {Q : Unit → List BackendCall → LeaseFields → Prop}
    (hE : fields.closed = true → E calls fields) (hQ : fields.closed = false → Q () calls fields) :
    Ensures l (BindingCgroupLease.requireOpen l) Q E calls fields := by
  refine get fun w hcalls hfields => raiseIf ?_ ?_
  · rw [hfields]
    exact hE
  · rw [hfields, Bool.not_eq_true]
    exact hQ

theorem requireIssuingProcess {lease : BindingCgroupLease}
    {Q : Unit → List BackendCall → LeaseFields → Prop} (hE : E calls fields) (hQ : Q () calls fields) :
    Ensures l (BindingCgroupLease.requireIssuingProcess lease) Q E calls fields :=
  get fun _ _ _ => raiseIf (fun _ => hE) fun _ => hQ

theorem requireState {expected : LeaseState} {operation : String}
    {Q : Unit → List BackendCall → LeaseFields → Prop} (hE : fields.state ≠ expected → E calls fields)
    (hQ : fields.state = expected → Q () calls fields) :
    Ensures l (BindingCgroupLease.requireState l expected operation) Q E calls fields := by
  refine get fun w hcalls hfields => raiseIf ?_ ?_
  · rw [hfields]
    exact hE
  · rw [hfields, not_not]
    exact hQ

theorem setState {state : LeaseState} {Q : Unit → List BackendCall → LeaseFields → Prop}
    (h : Q () calls { fields with state := state }) :
    Ensures l (BindingCgroupLease.setState l state) Q E calls fields := by
  rintro w rfl rfl
  unfold BindingCgroupLease.setState
  rw [Routine.ends_update, World.setLease_self]
  exact h

theorem setClosed {Q : Unit → List BackendCall → LeaseFields → Prop}
    (h : Q () calls { fields with closed := true }) :
    Ensures l (BindingCgroupLease.setClosed l) Q E calls fields := by
  rintro w rfl rfl
  unfold BindingCgroupLease.setClosed
  rw [Routine.ends_update, World.setLease_self]
  exact h

/-! ### Backend calls -/

theorem requireRoot {b : ObjectId} {Q : Unit → List BackendCall → LeaseFields → Prop}
    (hE : E calls fields) (hQ : Q () calls fields) : Ensures l (Binding.requireRoot b) Q E calls fields :=
  get fun _ _ _ => raiseIf (fun _ => hE) fun _ => hQ

/-- Recording a call of the lease and passing its reply on. -/
theorem recordReply {call : BackendCall} {reply : Except Raised α} (hE : ∀ e, reply = .error e →
      E (calls ++ [call]) fields) (hQ : ∀ a, reply = .ok a → Q a (calls ++ [call]) fields) :
    Ensures l (do Binding.record (.backend (.lease l) call); Routine.lift reply) Q E calls fields := by
  refine bind (record ?_)
  simp only [backendCallOf, if_true, Option.toList_some]
  exact lift hQ hE

/-- Changing what is not the lease's. -/
theorem update {f : World → World} {Q : Unit → List BackendCall → LeaseFields → Prop}
    (hlog : ∀ w, callLog l (f w) = callLog l w) (hlease : ∀ w, (f w).lease l = w.lease l)
    (h : Q () calls fields) : Ensures l (Routine.update f) Q E calls fields := by
  rintro w rfl rfl
  rw [Routine.ends_update, hlog, hlease]
  exact h

end Ensures

/-! ### Quiet calls -/

/-- The calls that only look at the leaf or wait. -/
def BackendCall.Quiet : BackendCall → Prop
  | .readLeaf _ _ _ | .validateRoot _ | .monotonic | .sleep _ => True
  | .writeLeaf _ _ _ _ | .removeLeaf _ _ => False

/-- The condition holds after any quiet calls. -/
def QuietlyStable (E : List BackendCall → LeaseFields → Prop) (calls : List BackendCall)
    (fields : LeaseFields) : Prop :=
  ∀ more : List BackendCall, (∀ call ∈ more, call.Quiet) → E (calls ++ more) fields

theorem QuietlyStable.now {E : List BackendCall → LeaseFields → Prop} {calls : List BackendCall}
    {fields : LeaseFields} (h : QuietlyStable E calls fields) : E calls fields := by
  simpa using h [] (by simp)

theorem QuietlyStable.append {E : List BackendCall → LeaseFields → Prop} {calls : List BackendCall}
    {fields : LeaseFields} (h : QuietlyStable E calls fields) {more : List BackendCall}
    (hmore : ∀ call ∈ more, call.Quiet) : QuietlyStable E (calls ++ more) fields := by
  intro rest hrest
  rw [List.append_assoc]
  refine h (more ++ rest) fun call hcall => ?_
  rcases List.mem_append.mp hcall with hcall | hcall
  · exact hmore call hcall
  · exact hrest call hcall

theorem QuietlyStable.concat {E : List BackendCall → LeaseFields → Prop} {calls : List BackendCall}
    {fields : LeaseFields} (h : QuietlyStable E calls fields) (call : BackendCall) (hcall : call.Quiet) :
    QuietlyStable E (calls ++ [call]) fields :=
  h.append (by simpa using hcall)

/-! ### Capability operations -/

section Capability

variable {Time : Type} {env : Environment Time} {l : ObjectId}
  {E : List BackendCall → LeaseFields → Prop} {calls : List BackendCall} {fields : LeaseFields}

theorem ensures_closePinnedBackend {b : ObjectId} {Q : Unit → List BackendCall → LeaseFields → Prop}
    (hE : E calls fields) (hQ : Q () calls fields) :
    Ensures l (closePinnedBackend env b) Q E calls fields := by
  refine Ensures.get fun w _ _ => ?_
  split
  · exact Ensures.pure hQ
  · refine Ensures.bind (Ensures.update (fun _ => rfl) (fun _ => rfl) ?_)
    split
    · exact Ensures.raise hE
    · refine Ensures.bind (Ensures.record ?_)
      simp only [backendCallOf, Option.toList_none, List.append_nil]
      exact Ensures.lift (fun _ _ => hQ) fun _ _ => hE

theorem ensures_closeControlSocket {s : ObjectId} {Q : Unit → List BackendCall → LeaseFields → Prop}
    (hE : E calls fields) (hQ : Q () calls fields) :
    Ensures l (closeControlSocket env s) Q E calls fields := by
  refine Ensures.get fun w _ _ => ?_
  split
  · refine Ensures.bind (Ensures.update (fun _ => rfl) (fun _ => rfl) ?_)
    refine Ensures.bind (Ensures.record ?_)
    simp only [backendCallOf, Option.toList_none, List.append_nil]
    exact Ensures.lift (fun _ _ => hQ) fun _ _ => hE
  · exact Ensures.pure hQ

theorem ensures_collectError {p : Run Unit} {Q : List Raised → List BackendCall → LeaseFields → Prop}
    (hp : Ensures l p (fun _ => Q []) (fun calls' fields' => ∀ e, Q [e] calls' fields') calls fields) :
    Ensures l (collectError p) Q E calls fields := by
  intro w hcalls hfields
  unfold collectError
  simp only [Routine.ends_onError, Routine.ends_bind, Routine.ends_pure]
  exact (hp w hcalls hfields).mono (fun _ _ h => h) fun e _ h => h e

theorem ensures_closeAuthorityBackend {capability : ExclusiveDelegatedCgroupRoot}
    {Q : List Raised → List BackendCall → LeaseFields → Prop} (hQ : ∀ errors, Q errors calls fields) :
    Ensures l (closeAuthorityBackend env capability) Q E calls fields := by
  unfold closeAuthorityBackend
  split
  · exact ensures_collectError (ensures_closePinnedBackend (fun e => hQ [e]) (hQ []))
  · exact Ensures.pure (hQ [])

theorem ensures_closeAuthorityControl {capability : ExclusiveDelegatedCgroupRoot}
    {Q : List Raised → List BackendCall → LeaseFields → Prop} (hQ : ∀ errors, Q errors calls fields) :
    Ensures l (closeAuthorityControl env capability) Q E calls fields := by
  unfold closeAuthorityControl
  split
  · exact Ensures.pure (hQ [])
  · exact ensures_collectError (ensures_closeControlSocket (fun e => hQ [e]) (hQ []))

/-- Closing a capability does not touch a lease. -/
theorem ensures_closeCapabilityLocked {c : ObjectId}
    {Q : List Raised → List BackendCall → LeaseFields → Prop} (hQ : ∀ errors, Q errors calls fields) :
    Ensures l (closeCapabilityLocked env c) Q E calls fields := by
  refine Ensures.bind (Ensures.update (fun _ => rfl) (fun _ => rfl) ?_)
  refine Ensures.bind (Ensures.record ?_)
  simp only [backendCallOf, Option.toList_none, List.append_nil]
  refine Ensures.get fun w _ _ => Ensures.bind (ensures_closeAuthorityBackend fun backendErrors => ?_)
  refine Ensures.bind (Ensures.update (fun _ => rfl) (fun _ => rfl) ?_)
  exact Ensures.bind (ensures_closeAuthorityControl fun _ => Ensures.pure (hQ _))

theorem ensures_revokeCapabilityLocked {α : Type} {c : ObjectId} {reason : String}
    {Q : α → List BackendCall → LeaseFields → Prop} (hE : E calls fields) :
    Ensures l (revokeCapabilityLocked env c reason) Q E calls fields :=
  Ensures.bind (ensures_closeCapabilityLocked fun _ => Ensures.raise hE)

theorem ensures_validateRoot {b root : ObjectId} {Q : Unit → List BackendCall → LeaseFields → Prop}
    (hE : QuietlyStable E calls fields)
    (hQ : ∀ entered : List BackendCall, (∀ call ∈ entered, call.Quiet) → Q () (calls ++ entered) fields) :
    Ensures l (validateRoot env (.lease l) b root) Q E calls fields := by
  refine Ensures.get fun w _ _ => Ensures.bind (Ensures.raiseIf (fun _ => hE.now) fun _ => ?_)
  refine Ensures.bind (Ensures.requireRoot hE.now ?_)
  refine Ensures.get fun w _ _ => Ensures.recordReply (fun _ _ => ?_) fun _ _ => ?_
  · exact (hE.concat _ (by simp [BackendCall.Quiet])).now
  · exact hQ _ (by simp [BackendCall.Quiet])

theorem ensures_channelHasEvent {issuance : IssuanceRecord}
    {Q : Bool → List BackendCall → LeaseFields → Prop} (hE : E calls fields)
    (hQ : ∀ event, Q event calls fields) :
    Ensures l (issuance.channelHasEvent env) Q E calls fields := by
  unfold IssuanceRecord.channelHasEvent
  split
  · exact Ensures.pure (hQ true)
  · refine Ensures.get fun w _ _ => ?_
    split
    · exact Ensures.lift (fun event _ => hQ event) fun _ _ => hE
    · exact Ensures.pure (hQ true)

theorem ensures_validateProduction {c : ObjectId} {issuance : IssuanceRecord}
    {Q : Unit → List BackendCall → LeaseFields → Prop} (hE : QuietlyStable E calls fields)
    (hQ : ∀ entered : List BackendCall, (∀ call ∈ entered, call.Quiet) → Q () (calls ++ entered) fields) :
    Ensures l (validateProduction env (.lease l) c issuance) Q E calls fields := by
  unfold validateProduction
  split
  · refine Ensures.bind (ensures_channelHasEvent hE.now fun event => ?_)
    split
    · refine Ensures.bind (Ensures.record ?_)
      simp only [backendCallOf, Option.toList_none, List.append_nil]
      exact ensures_revokeCapabilityLocked hE.now
    · exact ensures_validateRoot hE hQ
  · apply Ensures.pure
    simpa using hQ [] (by simp)

/-- From the lease, an access is some quiet calls. -/
theorem ensures_lockedCapabilityAccess {c : ObjectId}
    {Q : CapabilityAccess → List BackendCall → LeaseFields → Prop} (hE : QuietlyStable E calls fields)
    (hQ : ∀ access (entered : List BackendCall), (∀ call ∈ entered, call.Quiet) →
      Q access (calls ++ entered) fields) :
    Ensures l (lockedCapabilityAccess env (.lease l) c) Q E calls fields := by
  refine Ensures.get fun w _ _ => ?_
  split
  · exact Ensures.raise hE.now
  · rename_i issuance _
    refine Ensures.bind (Ensures.raiseIf (fun _ => hE.now) fun _ => ?_)
    refine Ensures.bind (Ensures.raiseIf (fun _ => hE.now) fun _ => ?_)
    refine Ensures.bind (Ensures.raiseIf (fun _ => hE.now) fun _ => ?_)
    refine Ensures.bind (ensures_validateProduction hE fun entered hentered => ?_)
    refine Ensures.bind (Ensures.record ?_)
    simp only [backendCallOf, Option.toList_none, List.append_nil]
    exact Ensures.pure (hQ _ entered hentered)

end Capability

end MosaicArchive.Binding
