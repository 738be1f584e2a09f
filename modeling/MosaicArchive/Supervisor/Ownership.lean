import Mathlib.Tactic
import MosaicArchive.Effects.Deeds
import MosaicArchive.Effects.Resources
import MosaicArchive.Supervisor.Inheritance

/-!
Who owns which descriptor while the delegated root is taken over. Every call may fail and the
record may be any: what is installed, the duplicate of the backend and the control socket are
each closed once if the function raises, and it returns with the socket and the duplicate open.
-/

namespace MosaicArchive.Inheritance

open FixedWidth CallHistory Resources
open Publication (StatResult)
open Routine (raise raiseIf lift attempt mapError onError)
open Supervisor (DelegatedRootIdentity SupervisorPacket parseSupervisorPacket)

/-! ### Descriptors -/

/-- The descriptors that the kernel installs with a record: one for each complete `int` of
its rights. -/
def installed (order : ByteOrder) (record : ReceivedRecord) : List ℤ :=
  (record.ancillary.filter AncillaryMessage.isRights).flatMap fun m =>
    (List.range (m.data.length / 4)).map fun i => order.int (slice m.data (4 * i) (4 * i + 4))

inductive Deed where
  | installs (descriptor : ℤ)
  | duplicates (descriptor : ℤ)
  /-- A failed close counts too. -/
  | closes (descriptor : ℤ)
  | issues (capability : DelegatedRoot)

def Deed.effect : Deed → Effect ℤ
  | installs descriptor => .acquires descriptor
  | duplicates descriptor => .acquires descriptor
  | closes descriptor => .releases descriptor
  | issues _ => .neutral

def receives (order : ByteOrder) : Except Fault ReceivedRecord → List Deed
  | .ok record => (installed order record).map .installs
  | .error _ => []

def duplicated : Except Fault ℤ → List Deed
  | .ok descriptor => [.duplicates descriptor]
  | .error _ => []

/-- What a call does to the descriptors and the capabilities. -/
def deeds (order : ByteOrder) (e : Σ c : InheritCall, InheritReply c) : List Deed :=
  match e with
  | ⟨.recvmsg, reply⟩ => receives order reply
  | ⟨.dup _, reply⟩ => duplicated reply
  | ⟨.close descriptor, _⟩ => [.closes descriptor]
  | ⟨.closeControl, _⟩ => [.closes delegatedRootControlFd]
  | ⟨.issue capability, _⟩ => [.issues capability]
  | _ => []

theorem intArray_eq (order : ByteOrder) (b : Bytes) :
    intArray order b =
      (List.range (b.length / 4)).map fun i => order.int (slice b (4 * i) (4 * i + 4)) := by
  induction b using intArray.induct with
  | case1 b0 b1 b2 b3 rest ih =>
      have hlength : (b0 :: b1 :: b2 :: b3 :: rest).length / 4 = rest.length / 4 + 1 := by
        simp only [List.length_cons]
        omega
      rw [intArray, ih, hlength, List.range_succ_eq_map, List.map_cons, List.map_map]
      congr 1
      apply List.map_congr_left
      intro i _
      simp [slice, Nat.mul_succ]
  | case2 b hshort =>
      have hlength : b.length < 4 := by
        rcases b with _ | ⟨b0, _ | ⟨b1, _ | ⟨b2, _ | ⟨b3, rest⟩⟩⟩⟩
        iterate 4 simp
        exact absurd rfl (hshort b0 b1 b2 b3 rest)
      rw [Nat.div_eq_of_lt hlength, intArray]
      · rfl
      · exact hshort

/-- The loop after `recvmsg` records every descriptor that was installed. -/
theorem receivedDescriptors_eq (order : ByteOrder) (record : ReceivedRecord) :
    receivedDescriptors order record.ancillary = installed order record := by
  rw [receivedDescriptors, installed]
  induction record.ancillary with
  | nil => rfl
  | cons m ms ih =>
      rw [List.flatMap_cons, ih]
      by_cases hrights : m.isRights = true
      · rw [if_pos hrights, List.filter_cons_of_pos hrights, List.flatMap_cons, intArray_eq]
      · rw [if_neg hrights, List.filter_cons_of_neg hrights, List.nil_append]

variable {env : InheritEnvironment} {order : ByteOrder}

/-! ### Calls without descriptors -/

theorem quietly_call {c : InheritCall} (h : ∀ reply, deeds order ⟨c, reply⟩ = []) :
    Quietly (deeds order) (call env c) fun _ => True :=
  Quietly.bind (Quietly.ask h) fun _ _ => Quietly.lift fun _ _ => trivial

theorem quietly_call_bind {α : Type} {c : InheritCall} {f : InheritValue c → InheritRun α}
    {Q : α → Prop} (h : ∀ reply, deeds order ⟨c, reply⟩ = [])
    (hf : ∀ a, Quietly (deeds order) (f a) Q) : Quietly (deeds order) (call env c >>= f) Q :=
  Quietly.bind (quietly_call h) fun a _ => hf a

theorem quietly_raiseIf_bind {α : Type} {c : Prop} {_ : Decidable c} {e : InheritError}
    {f : Unit → InheritRun α} {Q : α → Prop} (hf : ¬ c → Quietly (deeds order) (f ()) Q) :
    Quietly (deeds order) (raiseIf c e >>= f) Q :=
  Quietly.bind (Quietly.raiseIf id) fun _ hc => hf hc

theorem quietly_check {c : Prop} {_ : Decidable c} {e : InheritError} :
    Quietly (deeds order) (raiseIf c e) fun _ => True :=
  Quietly.raiseIf fun _ => trivial

theorem quietly_controlChannelHasEvent :
    Quietly (deeds order) (controlChannelHasEvent env) fun _ => True := by
  rw [controlChannelHasEvent, if_neg (by decide)]
  refine Quietly.onError ?_ ?_
  · refine quietly_call_bind (fun _ => rfl) fun error => ?_
    dsimp only
    split
    · exact Quietly.pure trivial
    · exact quietly_call_bind (fun _ => rfl) fun _ => Quietly.pure trivial
  · intro e
    split
    · exact Quietly.raise
    · exact Quietly.pure trivial
    · exact Quietly.raise

theorem quietly_validateRootDescriptor {descriptor : ℤ} {identity : DelegatedRootIdentity} :
    Quietly (deeds order) (validateRootDescriptor env descriptor identity) fun _ => True := by
  refine quietly_call_bind (fun _ => rfl) fun inheritable => quietly_raiseIf_bind fun _ => ?_
  refine quietly_call_bind (fun _ => rfl) fun status => ?_
  refine quietly_raiseIf_bind fun _ => quietly_raiseIf_bind fun _ => ?_
  exact quietly_call_bind (fun _ => rfl) fun magic => quietly_raiseIf_bind fun _ => quietly_check

theorem quietly_inspectDuplicate {duplicate : ℤ} {expectedDevice expectedInode : ℕ} :
    Quietly (deeds order) (inspectDuplicate env duplicate expectedDevice expectedInode)
      fun _ => True := by
  refine quietly_call_bind (fun _ => rfl) fun _ => quietly_call_bind (fun _ => rfl) fun status => ?_
  refine quietly_raiseIf_bind fun _ => quietly_raiseIf_bind fun _ => ?_
  exact quietly_call_bind (fun _ => rfl) fun magic => quietly_raiseIf_bind fun _ => quietly_check

theorem quietly_checkCredentials {packet : SupervisorPacket} {credentials : ℤ × ℕ × ℕ} :
    Quietly (deeds order) (checkCredentials env packet credentials) fun _ => True := by
  refine quietly_call_bind (fun _ => rfl) fun uid => quietly_call_bind (fun _ => rfl) fun gid => ?_
  exact quietly_raiseIf_bind fun _ => quietly_raiseIf_bind fun _ => quietly_check

theorem receivedDescriptorsAndCredentials_length {ancillary : List AncillaryMessage}
    {parsed : List ℤ × (ℤ × ℕ × ℕ)}
    (h : receivedDescriptorsAndCredentials order ancillary = .ok parsed) : parsed.1.length = 1 := by
  simp only [receivedDescriptorsAndCredentials, Except.bind_eq_ok_iff, Except.raiseIf_eq_ok,
    exists_const, not_not, ne_eq] at h
  obtain ⟨-, hlength, hcredentials⟩ := h
  split at hcredentials
  · obtain rfl := Except.ok.inj hcredentials
    exact hlength
  · cases hcredentials

/-- A record that is accepted installed one descriptor. -/
theorem quietly_acceptRecord {record : ReceivedRecord} :
    Quietly (deeds order) (acceptRecord env order record) fun accepted =>
      receivedDescriptors order record.ancillary = [accepted.2] := by
  refine quietly_call_bind (fun _ => rfl) fun _ => quietly_raiseIf_bind fun _ => ?_
  refine Quietly.bind (Q := fun _ => True) (Quietly.lift fun _ _ => trivial) fun packet _ => ?_
  refine Quietly.bind (Quietly.lift fun _ h => receivedDescriptorsAndCredentials_length h)
    fun parsed hlength => ?_
  obtain ⟨parsedDescriptors, credentials⟩ := parsed
  refine quietly_raiseIf_bind fun hsame => ?_
  refine Quietly.bind quietly_checkCredentials fun _ _ => ?_
  refine Quietly.bind quietly_controlChannelHasEvent fun event _ => quietly_raiseIf_bind fun _ => ?_
  obtain ⟨rootFd, hroot⟩ := List.length_eq_one_iff.mp hlength
  have hreceived : receivedDescriptors order record.ancillary = [rootFd] :=
    (not_not.mp hsame).symm.trans hroot
  simp only [hreceived]
  exact Quietly.bind quietly_validateRootDescriptor fun _ _ => Quietly.pure rfl

/-! ### Closing -/

variable (order) in
/-- The operation closes these descriptors, whether it returns or raises. -/
def Closes (p : InheritRun Unit) (descriptors : List ℤ) : Prop :=
  Traces (deeds order) p (fun _ t => t = descriptors.map .closes)
    fun _ t => t = descriptors.map .closes

theorem closes_call {c : InheritCall} {descriptor : ℤ}
    (h : ∀ reply, deeds order ⟨c, reply⟩ = [.closes descriptor]) :
    Traces (deeds order) (call env c) (fun _ t => t = [.closes descriptor])
      fun _ t => t = [.closes descriptor] := by
  refine Traces.bind (Traces.ask (Q := fun _ t => t = [.closes descriptor]) h) ?_ fun _ _ h => h
  rintro reply t rfl
  exact Traces.lift (fun _ _ => List.append_nil _) fun _ _ => List.append_nil _

theorem closes_closeDescriptor {descriptor : ℤ} :
    Closes order (closeDescriptor env descriptor) [descriptor] :=
  closes_call fun _ => rfl

theorem closes_closeControl : Closes order (closeControl env) [delegatedRootControlFd] :=
  closes_call fun _ => rfl

theorem closes_closeBackend {backend : PinnedBackend} :
    Closes order (closeBackend env backend) backend.descriptor.toList := by
  rw [closeBackend]
  split
  · rename_i hnone
    rw [hnone]
    exact Traces.pure rfl
  · rename_i descriptor hsome
    rw [hsome]
    exact closes_closeDescriptor

/-- An exception does not keep the later operations from being attempted. -/
theorem traces_cleanupErrors_cons {operation : InheritRun Unit} {operations : List (InheritRun Unit)}
    (descriptors others : List ℤ) (hfirst : Closes order operation descriptors)
    (hrest : Traces (deeds order) (cleanupErrors operations) (fun _ t => t = others.map .closes)
      fun _ _ => False) :
    Traces (deeds order) (cleanupErrors (operation :: operations))
      (fun _ t => t = (descriptors ++ others).map .closes) fun _ _ => False := by
  have hattempt : Traces (deeds order) (attempt operation : InheritRun (Except InheritError Unit))
      (fun _ t => t = descriptors.map .closes) fun _ _ => False :=
    Traces.attempt hfirst (fun _ _ h => h) fun _ _ h => h
  refine Traces.bind hattempt ?_ fun _ _ h => h
  rintro outcome t rfl
  refine Traces.bind hrest ?_ fun _ _ h => h
  rintro errors t rfl
  exact Traces.pure (by rw [List.append_nil, List.map_append])

/-- What the locals own, in the order of the cleanup. -/
def Locals.owned (l : Locals) : List ℤ :=
  l.received.reverse ++ (l.backend.toList.flatMap fun backend => backend.descriptor.toList) ++
    if l.control then [delegatedRootControlFd] else []

theorem traces_cleanup (l : Locals) :
    Traces (deeds order) (cleanupErrors (cleanup env l)) (fun _ t => t = l.owned.map .closes)
      fun _ _ => False := by
  rw [cleanup, Locals.owned, List.append_assoc, List.append_assoc]
  induction l.received.reverse with
  | cons descriptor descriptors ih => exact traces_cleanupErrors_cons [descriptor] _ closes_closeDescriptor ih
  | nil =>
      have hcontrol : Traces (deeds order)
          (cleanupErrors (if l.control then [closeControl env] else []))
          (fun _ t => t = (if l.control then [delegatedRootControlFd] else []).map .closes)
          fun _ _ => False := by
        split
        · exact traces_cleanupErrors_cons [delegatedRootControlFd] [] closes_closeControl (Traces.pure rfl)
        · exact Traces.pure rfl
      cases l.backend with
      | none => exact hcontrol
      | some backend =>
          simp only [List.map_nil, List.nil_append, Option.toList_some, List.map_cons,
            List.flatMap_cons, List.flatMap_nil, List.append_nil]
          exact traces_cleanupErrors_cons _ _ closes_closeBackend hcontrol

/-- The cleanup is done, and the function raises. -/
theorem traces_raiseWithCleanup {α : Type} {primaryError : InheritError}
    {operations : List (InheritRun Unit)} {context : String} {descriptors : List ℤ}
    (h : Traces (deeds order) (cleanupErrors operations) (fun _ t => t = descriptors.map .closes)
      fun _ _ => False) :
    Traces (deeds order) (raiseWithCleanup primaryError operations context : InheritRun α)
      (fun _ _ => False) fun _ t => t = descriptors.map .closes := by
  refine Traces.bind h ?_ fun _ _ h => h.elim
  rintro errors t rfl
  split
  · exact Traces.raise (List.append_nil _)
  · exact Traces.raise (List.append_nil _)

/-! ### The parts of the body -/

/-- The control descriptor is closed if it does not become a socket. -/
theorem traces_wrapControlDescriptor :
    Traces (deeds order) (wrapControlDescriptor env) (fun _ t => t = [])
      fun _ t => t = [.closes delegatedRootControlFd] := by
  have hwrap : Traces (deeds order) (call env .wrapControl) (fun _ t => t = []) fun _ t => t = [] :=
    Traces.mono (quietly_call fun _ => rfl) (fun _ _ h => h.1) fun _ _ h => h
  refine Traces.onError hwrap ?_
  rintro wrapError t rfl
  refine Traces.mono (traces_raiseWithCleanup (traces_cleanupErrors_cons
    [delegatedRootControlFd] [] closes_closeDescriptor (Traces.pure rfl))) ?_ ?_
  · exact fun _ _ h => h.elim
  · exact fun _ _ h => h

theorem traces_recvmsg :
    Traces (deeds order) (call env .recvmsg)
      (fun record t => t = (receivedDescriptors order record.ancillary).map .installs)
      fun _ t => t = [] := by
  refine Traces.bind (Traces.ask (Q := fun reply t => t = receives order reply) fun _ => rfl) ?_
    fun _ _ h => h
  rintro (fault | record) t rfl
  · exact Traces.raise rfl
  · refine Traces.pure ?_
    have hsame := congrArg (List.map Deed.installs) (receivedDescriptors_eq order record)
    exact (List.append_nil _).trans hsame.symm

theorem traces_receiveRecord {family : ℤ} :
    Traces (deeds order) (receiveRecord env family)
      (fun record t => t = (receivedDescriptors order record.ancillary).map .installs)
      fun _ t => t = [] := by
  have hcall {c : InheritCall} (h : ∀ reply, deeds order ⟨c, reply⟩ = []) :
      Quietly (deeds order) (call env c) fun _ => True := quietly_call h
  refine Quietly.before (hcall fun _ => rfl) (fun _ _ => ?_) fun _ => rfl
  refine Quietly.before quietly_check (fun _ _ => ?_) fun _ => rfl
  refine Quietly.before (hcall fun _ => rfl) (fun socketType _ => ?_) fun _ => rfl
  refine Quietly.before quietly_check (fun _ _ => ?_) fun _ => rfl
  refine Quietly.before (Quietly.mapError (hcall fun _ => rfl)) (fun _ _ => ?_) fun _ => rfl
  refine Quietly.before (hcall fun _ => rfl) (fun _ _ => ?_) fun _ => rfl
  refine Quietly.before (hcall fun _ => rfl) (fun _ _ => ?_) fun _ => rfl
  apply Traces.mapError
  refine Quietly.before (hcall fun _ => rfl) (fun readyBytes _ => ?_) fun _ => rfl
  exact Quietly.before quietly_check (fun _ _ => traces_recvmsg) fun _ => rfl

/-- A duplicate that does not become a backend is closed. -/
theorem traces_pinnedDescriptorCgroupBackend {receivedDescriptor : ℤ}
    {expectedDevice expectedInode : ℕ} :
    Traces (deeds order)
      (pinnedDescriptorCgroupBackend env receivedDescriptor expectedDevice expectedInode)
      (fun backend t => ∃ duplicate, backend.descriptor = some duplicate ∧
        t = [.duplicates duplicate])
      fun _ t => t = [] ∨ ∃ duplicate, t = [.duplicates duplicate, .closes duplicate] := by
  refine Quietly.before quietly_check (fun _ _ => ?_) fun _ => Or.inl rfl
  refine Quietly.before quietly_check (fun _ _ => ?_) fun _ => Or.inl rfl
  refine Quietly.before quietly_check (fun _ _ => ?_) fun _ => Or.inl rfl
  have hdup : Traces (deeds order) (call env (.dup receivedDescriptor))
      (fun duplicate t => t = [.duplicates duplicate]) fun _ t => t = [] := by
    refine Traces.bind (Traces.ask (Q := fun reply t => t = duplicated reply) fun _ => rfl) ?_
      fun _ _ h => h
    rintro (fault | duplicate) t rfl
    · exact Traces.raise rfl
    · exact Traces.pure rfl
  refine Traces.bind hdup ?_ fun _ _ h => Or.inl h
  rintro duplicate t rfl
  have hinspect : Traces (deeds order)
      (onError (inspectDuplicate env duplicate expectedDevice expectedInode) fun setupError =>
        closeAfterFailure env duplicate setupError
          "pinned cgroup root setup and descriptor cleanup both failed")
      (fun _ t => t = []) fun _ t => t = [.closes duplicate] := by
    refine Traces.onError (Traces.mono quietly_inspectDuplicate (fun _ _ h => h.1) fun _ _ h => h) ?_
    rintro setupError t rfl
    have hclose : Traces (deeds order)
        (onError (closeDescriptor env duplicate) fun cleanupError =>
          raise (.group "pinned cgroup root setup and descriptor cleanup both failed"
            [setupError, cleanupError]))
        (fun _ t => t = [.closes duplicate]) fun _ t => t = [.closes duplicate] := by
      refine Traces.onError closes_closeDescriptor ?_
      rintro cleanupError t rfl
      exact Traces.raise rfl
    refine Traces.bind hclose ?_ fun _ _ h => h
    rintro ⟨⟩ t rfl
    exact Traces.raise rfl
  refine Traces.bind hinspect ?_ ?_
  · rintro ⟨⟩ t rfl
    exact Traces.pure ⟨duplicate, rfl, rfl⟩
  · rintro e t rfl
    exact Or.inr ⟨duplicate, rfl⟩

theorem traces_issue {capability : DelegatedRoot} {E : InheritError → List Deed → Prop} :
    Traces (deeds order) (ask env (.issue capability)) (fun _ t => t = [.issues capability]) E :=
  Traces.ask fun _ => rfl

theorem traces_initializeCapability {packet : SupervisorPacket} {backend : PinnedBackend}
    {controlSocket : ℤ} {productionInherited : Bool} :
    Traces (deeds order)
      (initializeCapability env packet backend controlSocket productionInherited)
      (fun capability t => capability.backend = backend ∧ capability.controlSocket = controlSocket ∧
        t = [.issues capability])
      fun _ t => t = [] := by
  refine Quietly.before (quietly_call fun _ => rfl) (fun issuingPid _ => ?_) fun _ => rfl
  refine Traces.bind traces_issue ?_ fun _ _ h => h
  rintro _ t rfl
  exact Traces.pure ⟨rfl, rfl, rfl⟩

/-! ### The body -/

section

variable {held left : Multiset ℤ} {later : List Deed} {descriptor : ℤ}

theorem settles_installs : Settles Deed.effect held (.installs descriptor :: later) left ↔
    Settles Deed.effect (descriptor ::ₘ held) later left := settles_acquire rfl

theorem settles_duplicates : Settles Deed.effect held (.duplicates descriptor :: later) left ↔
    Settles Deed.effect (descriptor ::ₘ held) later left := settles_acquire rfl

theorem settles_closes : Settles Deed.effect held (.closes descriptor :: later) left ↔
    descriptor ∈ held ∧ Settles Deed.effect (held.erase descriptor) later left := settles_release rfl

theorem settles_issues {capability : DelegatedRoot} :
    Settles Deed.effect held (.issues capability :: later) left ↔
      Settles Deed.effect held later left := settles_neutral rfl

end

/-- The deeds lead from the control descriptor to what the locals own, and issue nothing. -/
structure Owns (l : Locals) (t : List Deed) : Prop where
  settles : Settles Deed.effect {delegatedRootControlFd} t (l.owned : Multiset ℤ)
  unissued : ∀ capability, .issues capability ∉ t

/-- The deeds of an inheritance that succeeds. -/
def Inherits (capability : DelegatedRoot) (t : List Deed) : Prop :=
  ∃ root duplicate, capability.controlSocket = delegatedRootControlFd ∧
    capability.backend.descriptor = some duplicate ∧
    t = [.installs root, .duplicates duplicate, .closes root, .issues capability]

theorem traces_within {α : Type} {l : Locals} {p : InheritRun α} {Q : α → List Deed → Prop}
    {E : InheritError → List Deed → Prop} (hp : Traces (deeds order) p Q E) :
    Traces (deeds order) (within l p) Q fun e t => e.2 = l ∧ E e.1 t :=
  Traces.mapError (Traces.mono hp (fun _ _ h => h) fun _ _ h => ⟨rfl, h⟩)

theorem owns_unwrapped : Owns ⟨false, [], none⟩ [.closes delegatedRootControlFd] := by
  refine ⟨?_, by simp⟩
  rw [settles_closes]
  exact ⟨Multiset.mem_singleton_self _, Multiset.erase_singleton _⟩

/-- After the record arrived and `later` changed nothing. -/
theorem owns_received (received : List ℤ) {later : List Deed}
    (hlater : ∀ held, Settles Deed.effect held later held)
    (hunissued : ∀ capability, .issues capability ∉ later) :
    Owns ⟨true, received, none⟩ (received.map .installs ++ later) := by
  have hinstalls := @settles_acquire_all ℤ Deed _ Deed.effect .installs (fun _ => rfl) received
  refine ⟨(hinstalls _).append ?_, fun capability => ?_⟩
  · have hsame : ((received : Multiset ℤ) + {delegatedRootControlFd}) =
        ((Locals.owned ⟨true, received, none⟩ : List ℤ) : Multiset ℤ) := by
      simp only [Locals.owned, Option.toList_none, List.flatMap_nil, List.append_nil, if_true,
        ← Multiset.coe_add, Multiset.coe_reverse, Multiset.coe_singleton]
    rw [← hsame]
    exact hlater _
  · rw [List.mem_append]
    rintro (hmem | hmem)
    · simp at hmem
    · exact hunissued capability hmem

/-- After the descriptor of the root was closed. -/
theorem owns_rotated {root duplicate : ℤ} {backend : PinnedBackend}
    (h : backend.descriptor = some duplicate) :
    Owns ⟨true, [], some backend⟩ [.installs root, .duplicates duplicate, .closes root] := by
  refine ⟨?_, by simp⟩
  have howned : Locals.owned ⟨true, [], some backend⟩ = [duplicate, delegatedRootControlFd] := by
    simp [Locals.owned, h]
  rw [howned, settles_installs, settles_duplicates, settles_closes, Multiset.cons_swap, settles_nil,
    Multiset.erase_cons_head]
  exact ⟨Multiset.mem_cons_self _ _, rfl⟩

theorem traces_inheritBody :
    Traces (deeds order) (inheritBody env order) Inherits fun e t => Owns e.2 t := by
  refine Traces.bind (traces_within traces_wrapControlDescriptor) ?_ ?_
  swap
  · rintro ⟨e, l⟩ t ⟨rfl, rfl⟩
    exact owns_unwrapped
  rintro family t rfl
  simp only [List.nil_append]
  refine Traces.bind (traces_within traces_receiveRecord) ?_ ?_
  swap
  · rintro ⟨e, l⟩ t ⟨rfl, rfl⟩
    exact owns_received [] (fun held => rfl) (by simp)
  rintro record t rfl
  refine Traces.bind (traces_within quietly_acceptRecord) ?_ ?_
  swap
  · rintro ⟨e, l⟩ t ⟨rfl, rfl⟩
    exact owns_received _ (fun held => rfl) (by simp)
  rintro ⟨packet, root⟩ t ⟨rfl, hreceived⟩
  rw [hreceived]
  simp only [List.nil_append]
  refine Traces.bind (traces_within traces_pinnedDescriptorCgroupBackend) ?_ ?_
  swap
  · rintro ⟨e, l⟩ t ⟨rfl, rfl | ⟨duplicate, rfl⟩⟩
    · exact owns_received _ (fun held => rfl) (by simp)
    · refine owns_received _ (fun held => ?_) (by simp)
      rw [settles_duplicates, settles_closes]
      exact ⟨Multiset.mem_cons_self _ _, Multiset.erase_cons_head _ _⟩
  rintro backend t ⟨duplicate, hduplicate, rfl⟩
  refine Traces.bind (traces_within closes_closeDescriptor) ?_ ?_
  swap
  · rintro ⟨e, l⟩ t ⟨rfl, rfl⟩
    exact owns_rotated hduplicate
  rintro ⟨⟩ t rfl
  refine Traces.mono (traces_within traces_initializeCapability) ?_ ?_
  · rintro capability t ⟨rfl, hcontrol, rfl⟩
    exact ⟨root, duplicate, hcontrol, hduplicate, rfl⟩
  · rintro ⟨e, l⟩ t ⟨rfl, rfl⟩
    exact owns_rotated hduplicate

/-! ### Both ends -/

/-- The control socket, what was installed and the duplicate of the backend are each closed
once, and nothing is issued. -/
structure Abandoned (t : List Deed) : Prop where
  settles : Settles Deed.effect {delegatedRootControlFd} t 0
  closed : (t.filterMap (released Deed.effect) : Multiset ℤ) =
    {delegatedRootControlFd} + (t.filterMap (acquired Deed.effect) : Multiset ℤ)
  unissued : ∀ capability, .issues capability ∉ t

/-- The one descriptor that was installed is closed once; the control socket of the capability
and the duplicate of its backend are open. -/
structure Inherited (capability : DelegatedRoot) (t : List Deed) : Prop where
  inherits : Inherits capability t
  settles : Settles Deed.effect {delegatedRootControlFd} t
    (capability.controlSocket ::ₘ (capability.backend.descriptor.toList : Multiset ℤ))

/-- The handler closes what the locals own. -/
theorem abandoned_of_owns {l : Locals} {t : List Deed} (h : Owns l t) :
    Abandoned (t ++ l.owned.map .closes) := by
  have hcloses : Settles Deed.effect (l.owned : Multiset ℤ) (l.owned.map .closes) 0 := by
    have hall := @settles_release_all ℤ Deed _ Deed.effect .closes (fun _ => rfl) l.owned 0
    rwa [add_zero] at hall
  have hsettles := h.settles.append hcloses
  refine ⟨hsettles, ?_, fun capability => ?_⟩
  · have hbalance := hsettles.balance
    rw [Multiset.zero_add] at hbalance
    exact hbalance.symm
  · rw [List.mem_append]
    rintro (hmem | hmem)
    · exact h.unissued capability hmem
    · simp at hmem

theorem inherited_of_inherits {capability : DelegatedRoot} {t : List Deed}
    (h : Inherits capability t) : Inherited capability t := by
  refine ⟨h, ?_⟩
  obtain ⟨root, duplicate, hcontrol, hduplicate, rfl⟩ := h
  rw [hcontrol, hduplicate, settles_installs, settles_duplicates, settles_closes, settles_issues,
    Multiset.cons_swap, settles_nil, Multiset.erase_cons_head, Multiset.cons_swap]
  exact ⟨by simp, Multiset.cons_swap duplicate delegatedRootControlFd 0⟩

/-- How the body ends. -/
def Ended : Except (InheritError × Locals) DelegatedRoot → List Deed → Prop
  | .ok capability => Inherits capability
  | .error e => Owns e.2

theorem traces_inheritExclusiveDelegatedRootLocked :
    Traces (deeds order) (inheritExclusiveDelegatedRootLocked env order) Inherited
      fun _ t => Abandoned t := by
  have hattempt : Traces (deeds order)
      (attempt (inheritBody env order) : InheritRun (Except (InheritError × Locals) DelegatedRoot))
      Ended fun _ _ => False :=
    Traces.attempt traces_inheritBody (fun _ _ h => h) fun _ _ h => h
  refine Traces.bind hattempt ?_ fun _ _ h => h.elim
  rintro (⟨primaryError, l⟩ | capability) t h
  · refine Traces.mono (traces_raiseWithCleanup (traces_cleanup l)) (fun _ _ h => h.elim) ?_
    rintro e later rfl
    exact abandoned_of_owns h
  · refine Traces.pure ?_
    rw [List.append_nil]
    exact inherited_of_inherits h

/-- Whatever every call answers and whatever record arrives: if the inheritance raises, the control
socket, every installed descriptor and the duplicate of the backend were closed exactly once and
no capability was issued; if it returns, the control socket of the capability and the duplicate
of its backend are the only open descriptors, and the one installed was closed exactly once. -/
theorem inheritance_owns_descriptors (env : InheritEnvironment) (order : ByteOrder)
    (before : InheritHistory) :
    ∃ made, (inheritExclusiveDelegatedRootLocked env order before).2 = before ++ made ∧
      (∀ capability, (inheritExclusiveDelegatedRootLocked env order before).1 = .ok capability →
        Inherited capability (trace (deeds order) made)) ∧
      ∀ e, (inheritExclusiveDelegatedRootLocked env order before).1 = .error e →
        Abandoned (trace (deeds order) made) :=
  Does.outcome traces_inheritExclusiveDelegatedRootLocked before

end MosaicArchive.Inheritance
