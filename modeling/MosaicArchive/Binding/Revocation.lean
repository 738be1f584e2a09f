import MosaicArchive.Binding.Lease
import MosaicArchive.Effects.Trace

/-!
Revocation over whole histories of a process: capability accesses, lease
operations, closes, collections, forks followed into the child, and code that
assigns the fields of a capability. Once a capability is closed, or an access
has seen an event on its channel, or the process is a forked child, nothing is
done through it any more.
-/

namespace MosaicArchive.Binding

open Utf8 (Text)

variable {Time : Type} (env : Environment Time) (leases : ObjectId → BindingCgroupLease)

/-! ### Histories -/

inductive LeafCall where
  | read (leaf : ObjectId) (filename : String)
  | write (leaf : ObjectId) (filename : String) (value : Text)
  | remove (leaf : ObjectId)

def performLeafCall (holder : Holder) (b : ObjectId) : LeafCall → Run Unit
  | .read leaf filename => do let _ ← readLeaf env holder b leaf filename; pure ()
  | .write leaf filename value => do let _ ← writeLeaf env holder b leaf filename value; pure ()
  | .remove leaf => removeLeaf env holder b leaf

/-- `with _locked_capability_access(capability) as access:` and a body that uses the backend. -/
def accessAndUse (c : ObjectId) (body : List LeafCall) : Run Unit := do
  let access ← lockedCapabilityAccess env (.capability c) c
  Routine.forEach (fun _ call => performLeafCall env (.capability c) access.backend call) body ()

/-- Assigning the fields of the capability object, save `_closed`. -/
def reassign (c : ObjectId) (value : ExclusiveDelegatedCgroupRoot) : Run Unit :=
  Routine.update fun w => w.setCapability c { value with closed := (w.capability c).closed }

inductive Command where
  | access (c : ObjectId) (body : List LeafCall)
  | close (c : ObjectId)
  | exit (c : ObjectId) (exception : Option Raised)
  | delete (c : ObjectId)
  | lease (l : ObjectId) (op : Operation)
  | fork (child : Option ℕ)
  | reassign (c : ObjectId) (value : ExclusiveDelegatedCgroupRoot)

def command : Command → Run Unit
  | .access c body => accessAndUse env c body
  | .close c => closeCapability env c
  | .exit c exception => exitCapability env c exception
  | .delete c => deleteCapability env c
  | .lease l op => do let _ ← (leases l).perform env l op; pure ()
  | .fork none => pure ()
  | .fork (some pid) => forkChild env pid
  | .reassign c value => Binding.reassign c value

/-- The world after the commands, whether each of them returned or raised. -/
def execute (commands : List Command) (w : World) : World :=
  commands.foldl (fun w c => (command env leases c w).2) w

/-! ### The law -/

/-- The holder acts under the capability. -/
def Holder.Bound (c : ObjectId) : Holder → Prop
  | .capability c' => c' = c
  | .lease l => (leases l).productionCapability = some c

def Event.Uses (c : ObjectId) : Event → Prop
  | .accessGranted c' => c' = c
  | .backend holder _ => holder.Bound leases c
  | _ => False

def Event.Revokes (c : ObjectId) : Event → Prop
  | .capabilityClosed c' | .channelEvent c' => c' = c
  | .forkedChild _ => True
  | _ => False

/-- Nothing is done through a capability after an event that revokes it. -/
def RevocationLaw (before : List Event) (e : Event) : Prop :=
  ∀ c, e.Uses leases c → ∀ e' ∈ before, ¬ e'.Revokes c

def Event.isDescriptorClosed (b : ObjectId) : Event → Bool
  | .descriptorClosed b' => b' = b
  | _ => false

def Event.isSocketClosed (s : ObjectId) : Event → Bool
  | .socketClosed s' => s' = s
  | _ => false

/-! ### The invariant -/

/-- The part of the invariant that holds at every moment. -/
structure Settled (start w : World) : Prop where
  law : Trace.Lawful (RevocationLaw leases) w.history
  descriptors : ∀ b, w.history.countP (Event.isDescriptorClosed b) ≤
    if (w.backend b).closed then 1 else 0
  sockets : ∀ s, w.history.countP (Event.isSocketClosed s) ≤ if w.socketOpen s then 0 else 1
  issued : ∀ c issuance, w.issued.lookup c = some issuance → start.issued.lookup c = some issuance

/-- An access may still be granted. -/
def World.Live (w : World) (c : ObjectId) : Prop :=
  (w.capability c).closed = false ∧ w.issued.lookup c ≠ none

/-- A live capability was not revoked. -/
def World.Sealed (w : World) (c : ObjectId) : Prop := w.Live c → ∀ e ∈ w.history, ¬ e.Revokes c

structure Guarded (start w : World) : Prop extends Settled leases start w where
  isSealed : ∀ c, w.Sealed c

/-- Every capability the holder acts under is live. -/
def World.Granted (w : World) (holder : Holder) : Prop := ∀ c, holder.Bound leases c → w.Live c

variable {env leases} {start w : World}

/-- Recording an event that is allowed and closes nothing. -/
theorem Settled.record {e : Event} (h : Settled leases start w)
    (hlaw : RevocationLaw leases w.history e) (hdescriptor : ∀ b, e.isDescriptorClosed b = false)
    (hsocket : ∀ s, e.isSocketClosed s = false) : Settled leases start (w.record e) where
  law := Trace.lawful_concat.mpr ⟨h.law, hlaw⟩
  descriptors := fun b => by
    rw [World.record_history, List.countP_append, List.countP_singleton, hdescriptor b]
    exact h.descriptors b
  sockets := fun s => by
    rw [World.record_history, List.countP_append, List.countP_singleton, hsocket s]
    exact h.sockets s
  issued := h.issued

theorem revocationLaw_of_not_uses {before : List Event} {e : Event} (h : ∀ c, ¬ e.Uses leases c) :
    RevocationLaw leases before e :=
  fun c huses => absurd huses (h c)

/-- A call on behalf of a holder whose capabilities are live. -/
theorem Guarded.record_use {holder : Holder} {call : BackendCall} (h : Guarded leases start w)
    (hgranted : w.Granted leases holder) : Guarded leases start (w.record (.backend holder call)) where
  toSettled := by
    refine h.toSettled.record (fun c huses => ?_) (fun _ => rfl) fun _ => rfl
    exact h.isSealed c (hgranted c huses)
  isSealed := by
    intro c hlive e he
    rcases List.mem_append.mp he with he | he
    · exact h.isSealed c hlive e he
    · rw [List.mem_singleton.mp he]
      exact id

theorem Guarded.record_granted {c : ObjectId} (h : Guarded leases start w) (hlive : w.Live c) :
    Guarded leases start (w.record (.accessGranted c)) where
  toSettled := by
    refine h.toSettled.record (fun c' huses => ?_) (fun _ => rfl) fun _ => rfl
    obtain rfl : c = c' := huses
    exact h.isSealed c hlive
  isSealed := by
    intro c' hlive' e he
    rcases List.mem_append.mp he with he | he
    · exact h.isSealed c' hlive' e he
    · rw [List.mem_singleton.mp he]
      exact id

/-! ### Closing -/

/-- Capabilities, records and revocations are as before. -/
structure Frame (w w' : World) : Prop where
  capability : w'.capability = w.capability
  issued : w'.issued = w.issued
  revocations : ∀ c, ∀ e ∈ w'.history, e.Revokes c → e ∈ w.history

theorem Frame.refl : Frame w w := ⟨rfl, rfl, fun _ _ he _ => he⟩

theorem Frame.trans {w' w'' : World} (h : Frame w w') (h' : Frame w' w'') : Frame w w'' where
  capability := h'.capability.trans h.capability
  issued := h'.issued.trans h.issued
  revocations := fun c e he hrevokes =>
    h.revocations c e (h'.revocations c e he hrevokes) hrevokes

/-- One more closing of a descriptor or a socket that was open until now. -/
theorem Settled.closing {e : Event} (h : Settled leases start w) {w' : World}
    (hhistory : w'.history = w.history ++ [e]) (hissued : w'.issued = w.issued)
    (huses : ∀ c, ¬ e.Uses leases c)
    (hdescriptors : ∀ b, w'.history.countP (Event.isDescriptorClosed b) ≤
      if (w'.backend b).closed then 1 else 0)
    (hsockets : ∀ s, w'.history.countP (Event.isSocketClosed s) ≤ if w'.socketOpen s then 0 else 1) :
    Settled leases start w' where
  law := by
    rw [hhistory]
    exact Trace.lawful_concat.mpr ⟨h.law, revocationLaw_of_not_uses huses⟩
  descriptors := hdescriptors
  sockets := hsockets
  issued := by
    rw [hissued]
    exact h.issued

/-- The computation closes descriptors and sockets only, each once. -/
def Closes (leases : ObjectId → BindingCgroupLease) (start : World) {α : Type} (p : Run α) : Prop :=
  ∀ w, Routine.Leads (fun w' => w' = w ∧ Settled leases start w') p
    (fun w' => Settled leases start w' ∧ Frame w w') (fun w' => Settled leases start w' ∧ Frame w w')

/-- The same for a computation that keeps its exceptions to itself. -/
def ClosesSilently (leases : ObjectId → BindingCgroupLease) (start : World) {α : Type} (p : Run α) :
    Prop :=
  ∀ w, Routine.Leads (fun w' => w' = w ∧ Settled leases start w') p
    (fun w' => Settled leases start w' ∧ Frame w w') (fun _ => False)

theorem closePinnedBackend_closes (b : ObjectId) : Closes leases start (closePinnedBackend env b) := by
  refine fun w => Routine.Leads.get fun w₀ hw₀ => ?_
  obtain ⟨rfl, h⟩ := hw₀
  split
  · refine Routine.Leads.pure ?_
    rintro _ ⟨rfl, -⟩
    exact ⟨h, Frame.refl⟩
  · rename_i hopen
    have hnone : w₀.history.countP (Event.isDescriptorClosed b) = 0 := by
      simpa [hopen] using h.descriptors b
    have hclosed : ∀ b', ((w₀.setBackend b
        { w₀.backend b with descriptor := none, closed := true }).backend b').closed =
        if b' = b then true else (w₀.backend b').closed := by
      intro b'
      simp only [World.setBackend, Function.update_apply]
      split <;> rfl
    have hset : Settled leases start
        (w₀.setBackend b { w₀.backend b with descriptor := none, closed := true }) := by
      refine ⟨h.law, fun b' => ?_, h.sockets, h.issued⟩
      rw [hclosed]
      split
      · rename_i heq
        subst heq
        show w₀.history.countP _ ≤ _
        rw [hnone]
        exact Nat.zero_le _
      · exact h.descriptors b'
    apply Routine.Leads.bind (R := fun w' =>
      w' = w₀.setBackend b { w₀.backend b with descriptor := none, closed := true })
    · apply Routine.Leads.update
      rintro _ ⟨rfl, -⟩
      rfl
    · intro _
      split
      · refine Routine.Leads.raise ?_
        rintro _ rfl
        exact ⟨hset, rfl, rfl, fun _ _ he _ => he⟩
      · rintro _ rfl
        have hrecorded : Settled leases start ((w₀.setBackend b
            { w₀.backend b with descriptor := none, closed := true }).record (.descriptorClosed b)) := by
          refine hset.closing rfl rfl (fun _ => id) (fun b' => ?_) fun s => ?_
          · rw [World.record_history, List.countP_append, List.countP_singleton, World.record_backend,
              hclosed]
            show w₀.history.countP _ + _ ≤ _
            by_cases heq : b' = b
            · subst heq
              rw [hnone]
              simp [Event.isDescriptorClosed]
            · have h' := h.descriptors b'
              simpa [Event.isDescriptorClosed, heq, Ne.symm heq] using h'
          · rw [World.record_history, List.countP_append, List.countP_singleton]
            exact h.sockets s
        have hframe : Frame w₀ ((w₀.setBackend b
            { w₀.backend b with descriptor := none, closed := true }).record (.descriptorClosed b)) := by
          refine ⟨rfl, rfl, fun c e he hrevokes => ?_⟩
          rcases List.mem_append.mp he with he | he
          · exact he
          · rw [List.mem_singleton.mp he] at hrevokes
            exact hrevokes.elim
        simp only [record, Routine.ends_bind, Routine.ends_update, Routine.ends_lift]
        exact ⟨fun _ _ => ⟨hrecorded, hframe⟩, fun _ _ => ⟨hrecorded, hframe⟩⟩

theorem closeControlSocket_closes (s : ObjectId) : Closes leases start (closeControlSocket env s) := by
  refine fun w => Routine.Leads.get fun w₀ hw₀ => ?_
  obtain ⟨rfl, h⟩ := hw₀
  split
  · rename_i hopen
    have hnone : w₀.history.countP (Event.isSocketClosed s) = 0 := by
      simpa [hopen] using h.sockets s
    have hrecorded : Settled leases start ((w₀.closeSocket s).record (.socketClosed s)) := by
      refine h.closing rfl rfl (fun _ => id) (fun b => ?_) fun s' => ?_
      · rw [World.record_history, List.countP_append, List.countP_singleton]
        exact h.descriptors b
      · rw [World.record_history, List.countP_append, List.countP_singleton, World.record_socketOpen]
        show w₀.history.countP _ + _ ≤ _
        by_cases heq : s' = s
        · subst heq
          rw [hnone]
          simp [Event.isSocketClosed, World.closeSocket]
        · have h' := h.sockets s'
          simpa [Event.isSocketClosed, World.closeSocket, heq, Ne.symm heq] using h'
    have hframe : Frame w₀ ((w₀.closeSocket s).record (.socketClosed s)) := by
      refine ⟨rfl, rfl, fun c e he hrevokes => ?_⟩
      rcases List.mem_append.mp he with he | he
      · exact he
      · rw [List.mem_singleton.mp he] at hrevokes
        exact hrevokes.elim
    rintro _ ⟨rfl, -⟩
    simp only [record, Routine.ends_bind, Routine.ends_update, Routine.ends_lift]
    exact ⟨fun _ _ => ⟨hrecorded, hframe⟩, fun _ _ => ⟨hrecorded, hframe⟩⟩
  · refine Routine.Leads.pure ?_
    rintro _ ⟨rfl, -⟩
    exact ⟨h, Frame.refl⟩

theorem pure_closes {α : Type} (a : α) : ClosesSilently leases start (pure a : Run α) := by
  refine fun w => Routine.Leads.pure ?_
  rintro _ ⟨rfl, h⟩
  exact ⟨h, Frame.refl⟩

theorem Closes.collectError {p : Run Unit} (h : Closes leases start p) :
    ClosesSilently leases start (collectError p) := by
  intro w
  refine Routine.Leads.onError (Routine.Leads.bind (h w) fun _ => Routine.Leads.pure fun _ hw' => hw') ?_
  exact fun e => Routine.Leads.pure fun _ hw' => hw'

theorem closeAuthorityBackend_closes (capability : ExclusiveDelegatedCgroupRoot) :
    ClosesSilently leases start (closeAuthorityBackend env capability) := by
  unfold closeAuthorityBackend
  split
  · exact (closePinnedBackend_closes _).collectError
  · exact pure_closes []

theorem closeAuthorityControl_closes (capability : ExclusiveDelegatedCgroupRoot) :
    ClosesSilently leases start (closeAuthorityControl env capability) := by
  unfold closeAuthorityControl
  split
  · exact pure_closes []
  · exact (closeControlSocket_closes _).collectError

/-- The capability is closed, and nothing else about capabilities has changed. -/
structure ClosedFrom (c : ObjectId) (w w' : World) : Prop where
  closed : (w'.capability c).closed = true
  others : ∀ c', c' ≠ c → w'.capability c' = w.capability c'
  issued : w'.issued = w.issued
  revocations : ∀ c', c' ≠ c → ∀ e ∈ w'.history, e.Revokes c' → e ∈ w.history

theorem ClosedFrom.frame {c : ObjectId} {w' w'' : World} (h : ClosedFrom c w w') (h' : Frame w' w'') :
    ClosedFrom c w w'' where
  closed := by
    rw [h'.capability]
    exact h.closed
  others := by
    intro c' hc'
    rw [h'.capability]
    exact h.others c' hc'
  issued := h'.issued.trans h.issued
  revocations := fun c' hc' e he hrevokes =>
    h.revocations c' hc' e (h'.revocations c' e he hrevokes) hrevokes

/-- Assigning to the capability object leaves what is settled. -/
theorem Settled.setCapability (h : Settled leases start w) (c : ObjectId)
    (value : ExclusiveDelegatedCgroupRoot) : Settled leases start (w.setCapability c value) :=
  ⟨h.law, h.descriptors, h.sockets, h.issued⟩

theorem ClosesSilently.closedFrom {α : Type} {p : Run α} (h : ClosesSilently leases start p)
    (c : ObjectId) :
    Routine.Leads (fun w' => Settled leases start w' ∧ ClosedFrom c w w') p
      (fun w' => Settled leases start w' ∧ ClosedFrom c w w') (fun _ => False) := by
  intro w' hw'
  exact (h w' w' ⟨rfl, hw'.1⟩).mono (fun _ _ h'' => ⟨h''.1, hw'.2.frame h''.2⟩) fun _ _ h'' => h''

theorem closeCapabilityLocked_leads (c : ObjectId) :
    Routine.Leads (fun w' => w' = w ∧ Settled leases start w') (closeCapabilityLocked env c)
      (fun w' => Settled leases start w' ∧ ClosedFrom c w w') (fun _ => False) := by
  have hmark : Routine.Leads (fun w' => w' = w ∧ Settled leases start w')
      (do
        Routine.update fun w => w.setCapability c { w.capability c with closed := true }
        record (.capabilityClosed c))
      (fun w' => Settled leases start w' ∧ ClosedFrom c w w') (fun _ => False) := by
    rintro _ ⟨rfl, h⟩
    simp only [record, Routine.ends_bind, Routine.ends_update]
    refine ⟨(h.setCapability c _).record (revocationLaw_of_not_uses fun _ => id) (fun _ => rfl)
      fun _ => rfl, ?_, ?_, rfl, ?_⟩
    · simp
    · intro c' hc'
      simp [World.setCapability_apply, hc']
    · intro c' hc' e he hrevokes
      rcases List.mem_append.mp he with he | he
      · exact he
      · rw [List.mem_singleton.mp he] at hrevokes
        exact absurd hrevokes.symm hc'
  have hforget : Routine.Leads (fun w' => Settled leases start w' ∧ ClosedFrom c w w')
      (Routine.update fun w => w.setCapability c { w.capability c with controlSocket := none } : Run Unit)
      (fun w' => Settled leases start w' ∧ ClosedFrom c w w') (fun _ => False) := by
    refine Routine.Leads.update fun w' hw' => ⟨hw'.1.setCapability c _, ?_, ?_, hw'.2.issued,
      hw'.2.revocations⟩
    · simp [hw'.2.closed]
    · intro c' hc'
      rw [World.setCapability_apply, if_neg hc']
      exact hw'.2.others c' hc'
  have hrest : Routine.Leads (fun w' => Settled leases start w' ∧ ClosedFrom c w w')
      (do
        let w ← Routine.get
        let backendErrors ← closeAuthorityBackend env (w.capability c)
        Routine.update fun w => w.setCapability c { w.capability c with controlSocket := none }
        let controlErrors ← closeAuthorityControl env (w.capability c)
        pure (backendErrors ++ controlErrors))
      (fun w' => Settled leases start w' ∧ ClosedFrom c w w') (fun _ => False) := by
    refine Routine.Leads.get fun w₁ _ => Routine.Leads.bind ?_ fun _ => Routine.Leads.bind hforget
      fun _ => Routine.Leads.bind ((closeAuthorityControl_closes _).closedFrom c)
        fun _ => Routine.Leads.pure fun _ h => h
    exact ((closeAuthorityBackend_closes _).closedFrom c).mono fun _ h => h.2
  intro w' hw'
  have h := Routine.Leads.bind hmark (fun _ => hrest) w' hw'
  simpa only [closeCapabilityLocked, Routine.ends_bind] using h

/-- Closing a capability restores what an event on its channel had unsealed. -/
theorem ClosedFrom.guarded {c : ObjectId} {w' : World} (h : ClosedFrom c w w')
    (hsettled : Settled leases start w') (hsealed : ∀ c', c' ≠ c → w.Sealed c') :
    Guarded leases start w' where
  toSettled := hsettled
  isSealed := by
    intro c' hlive e he hrevokes
    by_cases heq : c' = c
    · subst heq
      rw [World.Live, h.closed] at hlive
      exact absurd hlive.1 (by simp)
    · have hlive' : w.Live c' := by
        rw [World.Live, h.others c' heq, h.issued] at hlive
        exact hlive
      exact hsealed c' heq hlive' e (h.revocations c' heq e he hrevokes) hrevokes

theorem closeCapabilityLocked_guarded (c : ObjectId) :
    Routine.Leads (Guarded leases start) (closeCapabilityLocked env c) (Guarded leases start)
      (Guarded leases start) := by
  intro w hw
  exact (closeCapabilityLocked_leads c w ⟨rfl, hw.toSettled⟩).mono
    (fun _ _ h => h.2.guarded h.1 fun c' _ => hw.isSealed c') fun _ _ h => h.elim

theorem closeCapability_guarded (c : ObjectId) :
    Routine.Leads (Guarded leases start) (closeCapability env c) (Guarded leases start)
      (Guarded leases start) := by
  refine Routine.Leads.get fun w₀ hw₀ => ?_
  split
  · exact Routine.Leads.pure fun _ h => h.2
  · refine Routine.Leads.bind ((closeCapabilityLocked_guarded c).mono fun _ h => h.2) fun errors => ?_
    exact Routine.Leads.raiseIf fun _ h => h

theorem exitCapability_guarded (c : ObjectId) (exception : Option Raised) :
    Routine.Leads (Guarded leases start) (exitCapability env c exception) (Guarded leases start)
      (Guarded leases start) := by
  refine Routine.Leads.onError (closeCapability_guarded c) fun e => ?_
  split
  · exact Routine.Leads.raise fun _ h => h
  · exact Routine.Leads.raise fun _ h => h

theorem deleteCapability_guarded (c : ObjectId) :
    Routine.Leads (Guarded leases start) (deleteCapability env c) (Guarded leases start)
      (Guarded leases start) :=
  Routine.Leads.onError (closeCapability_guarded c) fun _ => Routine.Leads.pure fun _ h => h

/-- A forked child holds no issued capability. -/
theorem forkChild_guarded (pid : ℕ) :
    Routine.Leads (Guarded leases start) (forkChild env pid) (Guarded leases start)
      (fun _ => False) := by
  refine Routine.Leads.get fun w₀ hw₀ => ?_
  apply Routine.Leads.bind (R := Settled leases start)
  · refine Routine.Leads.update ?_
    rintro _ ⟨rfl, h⟩
    exact h.toSettled.record (revocationLaw_of_not_uses fun _ => id) (fun _ => rfl) fun _ => rfl
  · intro _
    apply Routine.Leads.bind (R := Settled leases start)
    · exact Routine.Leads.update fun w h => ⟨h.law, h.descriptors, h.sockets, h.issued⟩
    · intro _
      refine Routine.Leads.bind (Routine.Leads.forEach fun _ c _ => ?_) fun _ => ?_
      · intro w hw
        simp only [Routine.ends_bind, Routine.ends_pure]
        exact (closeCapabilityLocked_leads c w ⟨rfl, hw⟩).mono (fun _ _ h => h.1) fun _ _ h => h
      · refine Routine.Leads.update fun w h => ⟨⟨h.law, h.descriptors, h.sockets, ?_⟩, ?_⟩
        · intro c issuance hissuance
          simp at hissuance
        · intro c hlive
          exact absurd rfl hlive.2

/-! ### Acting under a capability -/

/-- The computation acts for a holder whose capabilities are live, and they stay so. -/
def Acts (leases : ObjectId → BindingCgroupLease) (start : World) (holder : Holder) {α : Type}
    (p : Run α) : Prop :=
  Routine.Leads (fun w => Guarded leases start w ∧ w.Granted leases holder) p
    (fun w => Guarded leases start w ∧ w.Granted leases holder) (Guarded leases start)

variable {holder : Holder}

theorem Acts.bind {α β : Type} {p : Run β} {f : β → Run α} (hp : Acts leases start holder p)
    (hf : ∀ b, Acts leases start holder (f b)) : Acts leases start holder (p >>= f) :=
  Routine.Leads.bind hp hf

theorem Acts.pure {α : Type} {a : α} : Acts leases start holder (Pure.pure a) :=
  Routine.Leads.pure fun _ h => h

theorem Acts.raise {α : Type} {e : Raised} : Acts leases start holder (Routine.raise e : Run α) :=
  Routine.Leads.raise fun _ h => h.1

theorem Acts.raiseIf {c : Prop} [Decidable c] {e : Raised} :
    Acts leases start holder (Routine.raiseIf c e) :=
  Routine.Leads.raiseIf fun _ h => h.1

theorem Acts.lift {α : Type} {x : Except Raised α} : Acts leases start holder (Routine.lift x) :=
  Routine.Leads.lift fun _ h => h.1

theorem Acts.get {α : Type} {f : World → Run α} (h : ∀ w, Acts leases start holder (f w)) :
    Acts leases start holder (Routine.get >>= f) :=
  Routine.Leads.get fun w _ => (h w).mono fun _ h' => h'.2

theorem Acts.backendCall {α : Type} {p : Run α} {context : String} (h : Acts leases start holder p) :
    Acts leases start holder (backendCall context p) := by
  refine Routine.Leads.onError h fun e => ?_
  split
  · exact Routine.Leads.raise fun _ h' => h'
  · split
    · exact Routine.Leads.raise fun _ h' => h'
    · exact Routine.Leads.raise fun _ h' => h'

theorem Acts.record {call : BackendCall} : Acts leases start holder (record (.backend holder call)) :=
  Routine.Leads.update fun _ h => ⟨h.1.record_use h.2, h.2⟩

theorem Acts.requireRoot {b : ObjectId} : Acts leases start holder (requireRoot b) :=
  Acts.get fun _ => Acts.raiseIf

theorem Acts.readLeaf {b leaf : ObjectId} {filename : String} :
    Acts leases start holder (readLeaf env holder b leaf filename) :=
  Acts.bind Acts.requireRoot fun _ => Acts.get fun _ => Acts.bind Acts.record fun _ => Acts.lift

theorem Acts.writeLeaf {b leaf : ObjectId} {filename : String} {value : Text} :
    Acts leases start holder (writeLeaf env holder b leaf filename value) :=
  Acts.bind Acts.requireRoot fun _ => Acts.get fun _ => Acts.bind Acts.record fun _ => Acts.lift

theorem Acts.removeLeaf {b leaf : ObjectId} :
    Acts leases start holder (removeLeaf env holder b leaf) :=
  Acts.bind Acts.requireRoot fun _ => Acts.get fun _ => Acts.bind Acts.record fun _ => Acts.lift

theorem Acts.validateRoot {b root : ObjectId} :
    Acts leases start holder (validateRoot env holder b root) :=
  Acts.get fun _ => Acts.bind Acts.raiseIf fun _ => Acts.bind Acts.requireRoot fun _ =>
    Acts.get fun _ => Acts.bind Acts.record fun _ => Acts.lift

theorem Acts.monotonic {b : ObjectId} : Acts leases start holder (monotonic env holder b) :=
  Acts.get fun _ => Acts.bind Acts.record fun _ => Acts.lift

theorem Acts.sleep {b : ObjectId} {milliseconds : ℕ} :
    Acts leases start holder (sleep env holder b milliseconds) :=
  Acts.get fun _ => Acts.bind Acts.record fun _ => Acts.lift

/-! ### Access -/

/-- An event on the channel is seen, and the capability is closed at once. -/
theorem revoke_guarded {α : Type} (c : ObjectId) (reason : String) :
    Routine.Leads (Guarded leases start)
      (do record (.channelEvent c); revokeCapabilityLocked env c reason : Run α)
      (fun _ => False) (Guarded leases start) := by
  intro w hw
  have hsettled : Settled leases start (w.record (.channelEvent c)) :=
    hw.toSettled.record (revocationLaw_of_not_uses fun _ => id) (fun _ => rfl) fun _ => rfl
  have hsealed : ∀ c', c' ≠ c → (w.record (.channelEvent c)).Sealed c' := by
    intro c' hc' hlive e he hrevokes
    rcases List.mem_append.mp he with he | he
    · exact hw.isSealed c' hlive e he hrevokes
    · rw [List.mem_singleton.mp he] at hrevokes
      exact hc' hrevokes.symm
  have hclose : Routine.Ends (closeCapabilityLocked env c) _ _ (w.record (.channelEvent c)) :=
    closeCapabilityLocked_leads c _ ⟨rfl, hsettled⟩
  simp only [record, revokeCapabilityLocked, Routine.ends_bind, Routine.ends_update, Routine.ends_raise]
  exact hclose.mono (fun _ _ h => h.2.guarded h.1 hsealed) fun _ _ h => h.elim

theorem validateProduction_acts {c : ObjectId} {issuance : IssuanceRecord} :
    Acts leases start holder (validateProduction env holder c issuance) := by
  have hevent : Acts leases start holder (issuance.channelHasEvent env) := by
    unfold IssuanceRecord.channelHasEvent
    split
    · exact Acts.pure
    · refine Acts.get fun w => ?_
      split
      · exact Acts.lift
      · exact Acts.pure
  unfold validateProduction
  split
  · refine Acts.bind hevent fun event => ?_
    split
    · exact ((revoke_guarded c _).mono fun _ h => h.1).weaken fun _ h => h.elim
    · exact Acts.validateRoot
  · exact Acts.pure

/-- An access that is granted finds the capability of its holder live. -/
theorem lockedCapabilityAccess_guarded {c : ObjectId} (hholder : ∀ c', holder.Bound leases c' ↔ c' = c) :
    Routine.Leads (Guarded leases start) (lockedCapabilityAccess env holder c)
      (fun w => Guarded leases start w ∧ w.Granted leases holder) (Guarded leases start) := by
  refine Routine.Leads.get fun w₀ hw₀ => ?_
  split
  · exact Routine.Leads.raise fun _ h => h.2
  · rename_i issuance hissuance
    refine Routine.Leads.guard (fun _ h => h.2) fun hopen => ?_
    refine Routine.Leads.guard (fun _ h => h.2) fun _ => ?_
    refine Routine.Leads.guard (fun _ h => h.2) fun _ => ?_
    have hlive : w₀.Live c := ⟨by simpa using hopen, by simp [hissuance]⟩
    have hacts : Acts leases start holder (do
        validateProduction env holder c issuance
        record (.accessGranted c)
        pure issuance.access) := by
      refine Acts.bind validateProduction_acts fun _ => Acts.bind ?_ fun _ => Acts.pure
      refine Routine.Leads.update fun w h => ⟨h.1.record_granted (h.2 c ((hholder c).mpr rfl)), h.2⟩
    refine hacts.mono ?_
    rintro _ ⟨rfl, h⟩
    exact ⟨h, fun c' hbound => (hholder c').mp hbound ▸ hlive⟩

theorem accessAndUse_guarded (c : ObjectId) (body : List LeafCall) :
    Routine.Leads (Guarded leases start) (accessAndUse env c body) (Guarded leases start)
      (Guarded leases start) := by
  refine Routine.Leads.bind (lockedCapabilityAccess_guarded fun c' => eq_comm) fun access => ?_
  have hbody : Acts leases start (.capability c)
      (Routine.forEach (fun _ call => performLeafCall env (.capability c) access.backend call) body ()) := by
    refine Routine.Leads.forEach fun _ call _ => ?_
    cases call with
    | read leaf filename => exact Acts.bind Acts.readLeaf fun _ => Acts.pure
    | write leaf filename value => exact Acts.bind Acts.writeLeaf fun _ => Acts.pure
    | remove leaf => exact Acts.removeLeaf
  exact hbody.weaken fun _ h => h.1

/-! ### Leases -/

/-- The computation needs no live capability to begin with, and one to end well. -/
def Enters (leases : ObjectId → BindingCgroupLease) (start : World) (holder : Holder) {α : Type}
    (p : Run α) : Prop :=
  Routine.Leads (Guarded leases start) p
    (fun w => Guarded leases start w ∧ w.Granted leases holder) (Guarded leases start)

theorem Enters.acts {α : Type} {p : Run α} (h : Enters leases start holder p) :
    Acts leases start holder p :=
  h.mono fun _ h' => h'.1

namespace BindingCgroupLease

variable {l : ObjectId}

theorem lockedBackendAuthority_enters {α : Type} {body : Run α}
    (h : Acts leases start (.lease l) body) :
    Enters leases start (.lease l) (lockedBackendAuthority env l (leases l) body) := by
  refine Routine.Leads.get fun w₀ _ => Routine.Leads.guard (fun _ h' => h'.2) fun _ => ?_
  split
  · rename_i hnone
    refine h.mono fun w hw => ⟨hw.2, fun c hbound => ?_⟩
    rw [Holder.Bound, hnone] at hbound
    cases hbound
  · rename_i c hsome
    have hholder : ∀ c', (Holder.lease l).Bound leases c' ↔ c' = c := by
      intro c'
      rw [Holder.Bound, hsome, Option.some.injEq]
      exact eq_comm
    refine Routine.Leads.onError (R := Guarded leases start) ?_ fun e => ?_
    · refine Routine.Leads.bind ((lockedCapabilityAccess_guarded hholder).mono fun _ h' => h'.2) ?_
      exact fun access => Acts.bind Acts.raiseIf fun _ => h
    · unfold convertCapabilityError
      split
      · exact Routine.Leads.raise fun _ h' => h'
      · exact Routine.Leads.raise fun _ h' => h'

theorem withAuthority_enters {α : Type} {body : Run α} (h : Acts leases start (.lease l) body) :
    Enters leases start (.lease l) (withAuthority env l (leases l) body) := by
  refine Routine.Leads.get fun w₀ _ => Routine.Leads.guard (fun _ h' => h'.2) fun _ => ?_
  refine Routine.Leads.get fun w₁ _ => Routine.Leads.guard (fun _ h' => h'.2.2) fun _ => ?_
  exact (lockedBackendAuthority_enters h).mono fun _ h' => h'.2.2

theorem Acts.update {f : World → World}
    (h : ∀ w, ∃ fields, f w = w.setLease l fields) :
    Acts leases start holder (Routine.update f : Run Unit) := by
  refine Routine.Leads.update fun w hw => ?_
  obtain ⟨fields, hf⟩ := h w
  rw [hf]
  exact ⟨⟨⟨hw.1.law, hw.1.descriptors, hw.1.sockets, hw.1.issued⟩, hw.1.isSealed⟩, hw.2⟩

theorem setState_acts {state : LeaseState} : Acts leases start holder (setState l state) :=
  Acts.update fun _ => ⟨_, rfl⟩

theorem setClosed_acts : Acts leases start holder (setClosed l) :=
  Acts.update fun _ => ⟨_, rfl⟩

theorem readFile_acts {filename : String} :
    Acts leases start (.lease l) (readFile env l (leases l) filename) :=
  Acts.backendCall Acts.readLeaf

theorem isPopulated_acts : Acts leases start (.lease l) (isPopulated env l (leases l)) :=
  Acts.bind readFile_acts fun _ => Acts.lift

theorem writeExact_acts {filename : String} {value : Text} :
    Acts leases start (.lease l) (writeExact env l (leases l) filename value) :=
  Acts.bind (Acts.backendCall Acts.writeLeaf) fun _ => Acts.raiseIf

theorem verifyEffectiveIdSet_acts {filename : String} {expected : List ℕ} {context : String} :
    Acts leases start (.lease l)
      (verifyEffectiveIdSet env l (leases l) filename expected context) :=
  Acts.bind readFile_acts fun _ => Acts.lift

theorem readClock_acts : Acts leases start (.lease l) (readClock env l (leases l)) :=
  Acts.backendCall Acts.monotonic

theorem verifyEffectiveCpuset_enters :
    Enters leases start (.lease l) (verifyEffectiveCpuset env l (leases l)) :=
  withAuthority_enters (Acts.bind verifyEffectiveIdSet_acts fun _ => verifyEffectiveIdSet_acts)

theorem pollUnpopulated_acts {deadline : Time} (polls : ℕ) :
    Acts leases start (.lease l) (pollUnpopulated env l (leases l) deadline polls) := by
  induction polls with
  | zero => exact Acts.raise
  | succ polls ih =>
      refine Acts.bind isPopulated_acts fun populated => ?_
      split
      · refine Acts.bind readClock_acts fun now => Acts.bind Acts.lift fun late => ?_
        exact Acts.bind Acts.raiseIf fun _ => Acts.bind (Acts.backendCall Acts.sleep) fun _ => ih
      · exact Acts.pure

theorem awaitUnpopulated_enters :
    Enters leases start (.lease l) (awaitUnpopulated env l (leases l)) := by
  refine withAuthority_enters (Acts.bind readClock_acts fun now => Acts.bind Acts.lift fun deadline => ?_)
  exact Acts.get fun w => pollUnpopulated_acts _

theorem attachProcess_enters {pid : Option ℤ} :
    Enters leases start (.lease l) (attachProcess env l (leases l) pid) := by
  refine Routine.Leads.get fun w₀ _ => Routine.Leads.guard (fun _ h => h.2) fun _ => ?_
  refine Routine.Leads.get fun w₁ _ => Routine.Leads.guard (fun _ h => h.2.2) fun _ => ?_
  refine Routine.Leads.guard (fun _ h => h.2.2) fun _ => ?_
  refine (lockedBackendAuthority_enters ?_).mono fun _ h => h.2.2
  split
  · refine Acts.bind (Acts.get fun _ => Acts.raiseIf) fun _ => ?_
    refine Acts.bind verifyEffectiveCpuset_enters.acts fun _ => Acts.bind setState_acts fun _ => ?_
    refine Acts.bind Acts.lift fun value => Acts.bind writeExact_acts fun _ => ?_
    refine Acts.bind readFile_acts fun observed => Acts.bind Acts.lift fun members => ?_
    exact Acts.bind Acts.raiseIf fun _ => setState_acts
  · exact Acts.raise

theorem readMemoryPeakBytes_enters :
    Enters leases start (.lease l) (readMemoryPeakBytes env l (leases l)) := by
  refine withAuthority_enters (Acts.bind (Acts.get fun _ => Acts.raiseIf) fun _ => ?_)
  refine Acts.bind setState_acts fun _ => Acts.bind awaitUnpopulated_enters.acts fun _ => ?_
  refine Acts.bind verifyEffectiveCpuset_enters.acts fun _ => Acts.bind isPopulated_acts fun _ => ?_
  refine Acts.bind Acts.raiseIf fun _ => Acts.bind readFile_acts fun reply => Acts.bind Acts.lift ?_
  refine fun value => Acts.bind isPopulated_acts fun _ => Acts.bind Acts.raiseIf fun _ => ?_
  refine Acts.bind verifyEffectiveCpuset_enters.acts fun _ => Acts.bind Acts.lift fun result => ?_
  exact Acts.bind setState_acts fun _ => Acts.pure

theorem kill_enters : Enters leases start (.lease l) (kill env l (leases l)) :=
  withAuthority_enters (Acts.bind setState_acts fun _ => writeExact_acts)

theorem cleanup_guarded :
    Routine.Leads (Guarded leases start) (cleanup env l (leases l)) (Guarded leases start)
      (Guarded leases start) := by
  refine Routine.Leads.get fun w₀ _ => Routine.Leads.guard (fun _ h => h.2) fun _ => ?_
  refine Routine.Leads.get fun w₁ _ => ?_
  split
  · exact Routine.Leads.pure fun _ h => h.2.2
  · have hbody : Acts leases start (.lease l) (do
        let populated ← isPopulated env l (leases l)
        killIf env l (leases l) populated
        awaitUnpopulated env l (leases l)
        backendCall "failed to remove cgroup leaf"
          (removeLeaf env (.lease l) (leases l).backend (leases l).leafHandle)
        setClosed l) := by
      refine Acts.bind isPopulated_acts fun populated => Acts.bind ?_ fun _ => ?_
      · unfold killIf
        split
        · exact kill_enters.acts
        · exact Acts.pure
      · refine Acts.bind awaitUnpopulated_enters.acts fun _ => ?_
        exact Acts.bind (Acts.backendCall Acts.removeLeaf) fun _ => setClosed_acts
    exact ((lockedBackendAuthority_enters hbody).mono fun _ h => h.2.2).weaken fun _ h => h.1

theorem perform_guarded (op : Operation) :
    Routine.Leads (Guarded leases start) (perform env l (leases l) op) (Guarded leases start)
      (Guarded leases start) := by
  have hreturn : ∀ {α : Type} {p : Run α} {f : α → Option ℕ}, Enters leases start (.lease l) p →
      Routine.Leads (Guarded leases start) (do let a ← p; pure (f a)) (Guarded leases start)
        (Guarded leases start) :=
    fun h => Routine.Leads.bind h fun _ => Routine.Leads.pure fun _ h' => h'.1
  cases op with
  | attachProcess pid => exact hreturn attachProcess_enters
  | verifyEffectiveCpuset => exact hreturn verifyEffectiveCpuset_enters
  | readMemoryPeakBytes => exact hreturn readMemoryPeakBytes_enters
  | awaitUnpopulated => exact hreturn awaitUnpopulated_enters
  | kill => exact hreturn kill_enters
  | cleanup => exact Routine.Leads.bind cleanup_guarded fun _ => Routine.Leads.pure fun _ h => h
  | enter =>
      refine Routine.Leads.bind (R := Guarded leases start) ?_ fun _ => Routine.Leads.pure fun _ h => h
      refine Routine.Leads.get fun w₀ _ => Routine.Leads.guard (fun _ h => h.2) fun _ => ?_
      refine Routine.Leads.get fun w₁ _ => ?_
      exact (Routine.Leads.raiseIf fun _ h => h.2.2).weaken fun _ h => h.2.2
  | exit exception =>
      refine Routine.Leads.bind (Routine.Leads.onError cleanup_guarded fun e => ?_) fun _ =>
        Routine.Leads.pure fun _ h => h
      split
      · exact Routine.Leads.raise fun _ h => h
      · exact Routine.Leads.raise fun _ h => h

end BindingCgroupLease

/-! ### Whole runs -/

theorem command_guarded (c : Command) :
    Routine.Leads (Guarded leases start) (command env leases c) (Guarded leases start)
      (Guarded leases start) := by
  cases c with
  | access c body => exact accessAndUse_guarded c body
  | close c => exact closeCapability_guarded c
  | exit c exception => exact exitCapability_guarded c exception
  | delete c => exact deleteCapability_guarded c
  | lease l op =>
      refine Routine.Leads.bind (BindingCgroupLease.perform_guarded op) fun _ => ?_
      exact Routine.Leads.pure fun _ h => h
  | fork child =>
      cases child with
      | none => exact Routine.Leads.pure fun _ h => h
      | some pid => exact fun w hw => (forkChild_guarded pid w hw).mono (fun _ _ h => h) fun _ _ h => h.elim
  | reassign c value =>
      refine Routine.Leads.update fun w h => ⟨h.toSettled.setCapability c _, fun c' hlive e he => ?_⟩
      refine h.isSealed c' ⟨?_, hlive.2⟩ e he
      have hclosed := hlive.1
      rw [World.setCapability_apply] at hclosed
      split at hclosed
      · rename_i heq
        rw [heq]
        exact hclosed
      · exact hclosed

theorem execute_guarded (commands : List Command) (h : Guarded leases start w) :
    Guarded leases start (execute env leases commands w) := by
  induction commands generalizing w with
  | nil => exact h
  | cons c commands ih => exact ih ((command_guarded c).state h)

theorem guarded_start (hstart : start.history = []) : Guarded leases start start where
  law := by
    rw [hstart]
    exact Trace.lawful_nil
  descriptors := by simp [hstart]
  sockets := by simp [hstart]
  issued := fun _ _ h => h
  isSealed := by simp [World.Sealed, hstart]

/-- What a granted access has checked. -/
theorem lockedCapabilityAccess_eq_ok {c : ObjectId} {access : CapabilityAccess}
    (h : (lockedCapabilityAccess env holder c w).1 = .ok access) :
    w.Live c ∧ ∃ issuance, w.issued.lookup c = some issuance ∧
      issuance.Matches (w.capability c) env.fixedPolicySha256 ∧ access = issuance.access := by
  have hends : (lockedCapabilityAccess env holder c).Ends
      (fun access _ => w.Live c ∧ ∃ issuance, w.issued.lookup c = some issuance ∧
        issuance.Matches (w.capability c) env.fixedPolicySha256 ∧ access = issuance.access)
      (fun _ _ => True) w := by
    unfold lockedCapabilityAccess
    rw [Routine.ends_bind, Routine.ends_get]
    split
    · exact trivial
    · rename_i issuance hissuance
      simp only [Routine.ends_bind, Routine.ends_raiseIf, Routine.ends_pure]
      refine ⟨fun _ => trivial, fun hopen => ⟨fun _ => trivial, fun _ => ⟨fun _ => trivial, ?_⟩⟩⟩
      rw [not_not]
      intro hmatches
      have hlive : w.Live c := ⟨by simpa using hopen, by simp [hissuance]⟩
      rw [Routine.ends_iff]
      refine ⟨fun _ w' _ => ?_, fun _ _ _ => trivial⟩
      rw [record, Routine.ends_update]
      exact ⟨hlive, issuance, hissuance, hmatches, rfl⟩
  rcases hp : lockedCapabilityAccess env holder c w with ⟨e | access', w'⟩
  · rw [hp] at h
    cases h
  · rw [hp] at h
    obtain rfl : access' = access := Except.ok.inj h
    exact hends.of_ok hp

/-- A supervisor that sends something once the capability has been used. -/
def talkingEnvironment : Environment ℕ where
  readLeaf := fun _ _ _ _ => .ok .other
  writeLeaf := fun _ _ _ _ value => .ok (.int value.length)
  removeLeaf := fun _ _ _ => .ok ()
  validateRoot := fun _ _ => .ok ()
  monotonic := fun history _ => .ok history.length
  sleep := fun _ _ => .ok ()
  closeDescriptor := fun _ _ => .error (osError "close failed")
  closeSocket := fun _ _ => .ok ()
  channelEvent := fun history _ => .ok (decide (0 < history.length))
  deadline := fun now seconds => .ok (now + seconds)
  reached := fun now deadline => .ok (decide (deadline ≤ now))
  polls := fun _ => 8
  fixedPolicySha256 := "policy"

/-- A process with one production capability and a lease bound to it. -/
def issuedWorld : World where
  pid := 5
  issued := [(10, ⟨5, 1, 2, "session", ⟨1, 1⟩, "policy", true, some 4⟩)]
  capability := fun _ => ⟨1, false, some 4, 5, "policy", true, 2, ⟨1, 1⟩, "session"⟩
  backend := fun _ => ⟨true, 2, some 9, false⟩
  socketOpen := fun _ => true
  lease := fun _ => ⟨.ready, false⟩
  history := []

def boundLease : BindingCgroupLease where
  qualification := ⟨⟨30, 10⟩, [0], [0], some "session", some ⟨1, 1⟩, some "policy", 1, 2, some 10⟩
  backend := 1
  rootHandle := 2
  leafHandle := 3
  attachmentAuthority := .nativePreexecRequired
  productionCapability := some 10
  issuingPid := 5
  exactQualified := ⟨rfl, rfl⟩
  exactAuthority := ⟨rfl, rfl⟩

end MosaicArchive.Binding
