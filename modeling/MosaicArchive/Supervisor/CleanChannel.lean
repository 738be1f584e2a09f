import MosaicArchive.Supervisor.Control

/-!
What the verdict of the barrier says about the channel. The kernel queues the
records of the peer; a closed peer still leaves its records queued, and both a
record without bytes and the end of the channel are received as nothing. The
peer may act between any two system calls of the barrier.
-/

namespace MosaicArchive.Supervisor

open Process CallSystem

/-! ### The channel -/

/-- A record of the coordinator. -/
structure Record where
  bytes : List ℕ
  /-- It carries ancillary rights. -/
  rights : Bool
  deriving DecidableEq, Repr

inductive PeerEnd where
  | connected
  | writeShut
  | closed
  deriving DecidableEq, Repr

structure Channel where
  /-- What the peer sent after the handoff. -/
  sent : List Record
  /-- What the barrier took from the queue. -/
  received : List Record
  queue : List Record
  peer : PeerEnd
  /-- The peer closed with something unread: the next receive reports it. -/
  reset : Bool
  /-- The last poll reported `POLLHUP`. -/
  hangup : Bool
  /-- The revocation was sent. -/
  revoked : Bool
  deriving DecidableEq, Repr

inductive PeerStep : Channel → Channel → Prop where
  | send {ch : Channel} (record : Record) (h : ch.peer = .connected) :
      PeerStep ch { ch with sent := ch.sent ++ [record], queue := ch.queue ++ [record] }
  | shutdownWrite {ch : Channel} (h : ch.peer = .connected) :
      PeerStep ch { ch with peer := .writeShut }
  | close {ch : Channel} (unread : Bool) (h : ch.peer ≠ .closed) :
      PeerStep ch { ch with peer := .closed, reset := unread }

def Channel.revents (ch : Channel) (peerWriteHalfClosed invalid : Bool) : Revents where
  pollIn := !peerWriteHalfClosed && (ch.queue ≠ [] || ch.peer ≠ .connected)
  pollErr := ch.reset
  pollHup := ch.peer = .closed
  pollRdhup := !peerWriteHalfClosed && ch.peer ≠ .connected
  pollNval := invalid

/-- What `recvmsg` reports of a record. -/
def Record.message (record : Record) : Message where
  received := min record.bytes.length 2
  truncated := 2 < record.bytes.length ∨ record.rights
  firstByte := record.bytes.headD 0

def endOfChannel : Message := ⟨0, false, 0⟩

inductive Receives (ch : Channel) : Except Errno Message → Channel → Prop where
  | interrupted : Receives ch (.error eintr) ch
  | reset (h : ch.reset = true) : Receives ch (.error econnreset) { ch with reset := false }
  | record {record : Record} {rest : List Record} (h : ch.reset = false)
      (hqueue : ch.queue = record :: rest) :
      Receives ch (.ok record.message)
        { ch with queue := rest, received := ch.received ++ [record] }
  | endOfChannel (h : ch.reset = false) (hqueue : ch.queue = []) (hpeer : ch.peer ≠ .connected) :
      Receives ch (.ok endOfChannel) ch
  | empty (h : ch.reset = false) (hqueue : ch.queue = []) (hpeer : ch.peer = .connected) :
      Receives ch (.error eagain) ch
  | failed (error : Errno) (h : error ∉ [eintr, eagain, econnreset]) : Receives ch (.error error) ch

/-- The answers of the kernel. Sending, the signals and failing polls are up to it. -/
def answers : (c : Call) → Channel → Reply c → Channel → Prop
  | .poll half _, ch, .ok polled, ch' =>
      (∃ invalid, polled.control = ch.revents half invalid) ∧
        ch' = { ch with hangup := ch.peer = .closed }
  | .receiveMessage, ch, reply, ch' => Receives ch reply ch'
  | .sendRevoke, ch, .ok 1, ch' => ch' = { ch with revoked := true }
  | _, ch, _, ch' => ch' = ch

/-- The barrier and a peer that sends records, shuts its write side and closes. -/
def channelSystem : CallSystem Call Reply Channel := ⟨answers, PeerStep⟩

/-- A receive by which a queued record is lost: it takes a record without bytes
and rights after `POLLHUP` was reported, or it fails where the barrier takes the
failure for the end of the channel. -/
def Loses (ch : Channel) : Except Errno Message → Prop
  | .ok _ => ch.hangup = true ∧ ∃ record rest, ch.queue = record :: rest ∧ record.bytes = [] ∧
      record.rights = false
  | .error error => ch.queue ≠ [] ∧ error ∉ [eintr, eagain] ∧
      (ch.hangup = true ∨ error = econnreset ∧ ch.revoked = true)

/-- Until a record was received, no receive loses one. -/
def Keeps : (c : Call) → Channel → Reply c → Prop
  | .receiveMessage, ch, reply => ch.received = [] → ¬ Loses ch reply
  | _, _, _ => True

/-- The runs without such a receive. -/
def keepingSystem : CallSystem Call Reply Channel :=
  ⟨fun c ch reply ch' => answers c ch reply ch' ∧ Keeps c ch reply, PeerStep⟩

/-! ### The invariant -/

variable (queued : List Record) (b : Barrier) (revents : Revents)

structure Base (ch : Channel) : Prop where
  /-- No record is lost or made up. -/
  flow : queued ++ ch.sent = ch.received ++ ch.queue
  reset : ch.reset = true → ch.peer = .closed
  revoked : b.revocation = .sent → ch.revoked = true

/-- Every record that was received is on record. -/
structure Inv (ch : Channel) : Prop extends Base queued b ch where
  recorded : b.primary = none → ch.received = []

/-- The channel is at its end, and nothing came out of it. -/
structure Drained (ch : Channel) : Prop where
  received : ch.received = []
  queue : ch.queue = []
  peer : ch.peer = .closed

/-- What the last poll reported of the peer. -/
structure Sampled (ch : Channel) : Prop where
  hangup : ch.hangup = revents.pollHup
  closed : revents.pollHup = true → ch.peer = .closed

/-- The barrier takes the read for the end of the channel. -/
def Concludes : Except Errno ControlRead → Prop
  | .ok .emptyRecord | .ok .wouldBlock => revents.pollHup = true
  | .ok _ => False
  | .error error => revents.pollHup = true ∨ error = econnreset ∧ b.revocation = .sent

def TookNothing : Except Errno ControlRead → Prop
  | .ok .wouldBlock | .error _ => True
  | .ok _ => False

structure AfterRead (read : Except Errno ControlRead) (ch : Channel) : Prop
    extends Base queued b ch where
  recorded : b.primary = none → TookNothing read → ch.received = []
  drained : b.primary = none → Concludes b revents read → Drained ch

/-- A clean verdict is given of a channel from which nothing came. -/
def Verdict (outcome : BarrierOutcome) (ch : Channel) : Prop :=
  outcome = .eofVerified (.ok ()) → Drained ch ∧ ch.sent = []

variable {queued b revents} {ch ch' : Channel}

theorem Base.peer (h : Base queued b ch) (hstep : PeerStep ch ch') : Base queued b ch' := by
  cases hstep with
  | send record _ =>
      refine ⟨?_, h.reset, h.revoked⟩
      rw [← List.append_assoc, h.flow, List.append_assoc]
  | shutdownWrite hpeer => exact ⟨h.flow, fun hr => by simp [h.reset hr] at hpeer, h.revoked⟩
  | close unread _ => exact ⟨h.flow, fun _ => rfl, h.revoked⟩

theorem PeerStep.received_eq (hstep : PeerStep ch ch') : ch'.received = ch.received := by
  cases hstep <;> rfl

theorem PeerStep.hangup_eq (hstep : PeerStep ch ch') : ch'.hangup = ch.hangup := by
  cases hstep <;> rfl

/-- A closed peer does nothing more. -/
theorem PeerStep.not_closed (hstep : PeerStep ch ch') : ch.peer ≠ .closed := by
  cases hstep with
  | send _ h => simp [h]
  | shutdownWrite h => simp [h]
  | close _ h => exact h

theorem inv_stable : keepingSystem.Stable (Inv queued b) := fun _ _ h hstep =>
  ⟨h.toBase.peer hstep, fun hb => hstep.received_eq.trans (h.recorded hb)⟩

theorem sampled_stable : keepingSystem.Stable (Sampled revents) := fun _ _ h hstep =>
  ⟨hstep.hangup_eq.trans h.hangup, fun hup => absurd (h.closed hup) hstep.not_closed⟩

theorem afterRead_stable {read : Except Errno ControlRead} :
    keepingSystem.Stable (AfterRead queued b revents read) := fun _ _ h hstep =>
  ⟨h.toBase.peer hstep, fun hb hread => hstep.received_eq.trans (h.recorded hb hread),
    fun hb hread => absurd (h.drained hb hread).peer hstep.not_closed⟩

theorem verdict_stable {outcome : BarrierOutcome} : keepingSystem.Stable (Verdict outcome) :=
  fun _ _ h hstep hclean => absurd (h hclean).1.peer hstep.not_closed

theorem Base.sent_of_drained (h : Base queued b ch) (hdrained : Drained ch) : ch.sent = [] := by
  have hflow := h.flow
  rw [hdrained.received, hdrained.queue, List.append_nil] at hflow
  exact (List.append_eq_nil_iff.mp hflow).2

/-! ### Receiving -/

theorem classify_eq_emptyRecord {record : Record} (h : classify record.message = .emptyRecord) :
    record.bytes = [] ∧ record.rights = false := by
  unfold classify Record.message at h
  split_ifs at h with htruncated hreceived hlength
  simp only [decide_eq_true_eq, not_or] at htruncated
  refine ⟨List.length_eq_zero_iff.mp ?_, by simpa using htruncated.2⟩
  simp only at hreceived
  omega

theorem classify_ne_wouldBlock {message : Message} : classify message ≠ .wouldBlock := by
  unfold classify
  split_ifs <;> simp

/-- What is known when the message is in. -/
def Answered (queued : List Record) (b : Barrier) (revents : Revents) :
    Except Errno Message → Channel → Prop
  | .ok message, ch => AfterRead queued b revents (.ok (classify message)) ch
  | .error error, ch =>
      if error = eintr then Inv queued b ch ∧ Sampled revents ch
      else AfterRead queued b revents (if error = eagain then .ok .wouldBlock else .error error) ch

theorem answered_eintr : Answered queued b revents (.error eintr) ch ↔
    Inv queued b ch ∧ Sampled revents ch := Iff.rfl

theorem answered_eagain : Answered queued b revents (.error eagain) ch ↔
    AfterRead queued b revents (.ok .wouldBlock) ch := Iff.rfl

theorem answered_error {error : Errno} (h : error ≠ eintr) (h' : error ≠ eagain) :
    Answered queued b revents (.error error) ch ↔ AfterRead queued b revents (.error error) ch := by
  simp only [Answered, if_neg h, if_neg h']

theorem Receives.answered {reply : Except Errno Message} (h : Inv queued b ch)
    (hs : Sampled revents ch) (hr : Receives ch reply ch')
    (hkeeps : ch.received = [] → ¬ Loses ch reply) : Answered queued b revents reply ch' := by
  cases hr with
  | interrupted => exact ⟨h, hs⟩
  | reset hreset =>
      show AfterRead queued b revents (.error econnreset) _
      refine ⟨⟨h.flow, fun hr => (by cases hr), h.revoked⟩, fun hb _ => h.recorded hb, ?_⟩
      intro hb hread
      refine ⟨h.recorded hb, ?_, h.reset hreset⟩
      by_contra hqueue
      refine hkeeps (h.recorded hb) ⟨hqueue, by decide, ?_⟩
      rcases hread with hup | ⟨-, hsent⟩
      · exact .inl (hs.hangup.trans hup)
      · exact .inr ⟨rfl, h.revoked hsent⟩
  | record hreset hqueue =>
      rename_i record rest
      have hflow : queued ++ ch.sent = (ch.received ++ [record]) ++ rest := by
        rw [h.flow, hqueue, List.append_assoc]
        rfl
      refine ⟨⟨hflow, h.reset, h.revoked⟩, fun _ hread => ?_, fun hb hread => ?_⟩
      · rcases hc : classify record.message with _ | _ | _ | _ | _ <;> rw [hc] at hread
        · exact hread.elim
        · exact hread.elim
        · exact hread.elim
        · exact hread.elim
        · exact absurd hc classify_ne_wouldBlock
      · -- A record that ends the barrier is the one whose loss is excluded.
        exfalso
        rcases hc : classify record.message with _ | _ | _ | _ | _ <;> rw [hc] at hread
        · exact hread
        · exact hkeeps (h.recorded hb)
            ⟨hs.hangup.trans hread, record, rest, hqueue, classify_eq_emptyRecord hc⟩
        · exact hread
        · exact hread
        · exact classify_ne_wouldBlock hc
  | endOfChannel hreset hqueue hpeer =>
      refine ⟨h.toBase, fun _ hread => hread.elim, fun hb hread => ?_⟩
      exact ⟨h.recorded hb, hqueue, hs.closed hread⟩
  | empty hreset hqueue hpeer =>
      refine ⟨h.toBase, fun hb _ => h.recorded hb, fun hb hread => ?_⟩
      exact absurd (hs.closed hread) (by simp [hpeer])
  | failed error herror =>
      simp only [List.mem_cons, List.not_mem_nil, or_false, not_or] at herror
      obtain ⟨heintr, heagain, hreset⟩ := herror
      rw [answered_error heintr heagain]
      refine ⟨h.toBase, fun hb _ => h.recorded hb, fun hb hread => ?_⟩
      have hup : revents.pollHup = true := hread.resolve_right fun hr => hreset hr.1
      refine ⟨h.recorded hb, ?_, hs.closed hup⟩
      by_contra hqueue
      exact hkeeps (h.recorded hb)
        ⟨hqueue, by simp [heintr, heagain], .inl (hs.hangup.trans hup)⟩

/-! ### The barrier -/

/-- The judgment for the runs in which no record is lost. -/
abbrev Keeping {α : Type} (P : Channel → Prop) (p : Native α) (Q : α → Channel → Prop) : Prop :=
  keepingSystem.Leads (fun _ => True) P p Q

section

variable {α : Type} {P : Channel → Prop}

theorem keeping_pure {a : α} {Q : α → Channel → Prop} (hstable : keepingSystem.Stable P)
    (h : ∀ ch, P ch → Q a ch) : Keeping P (pure a) Q :=
  leads_done hstable (fun _ _ => trivial) h

/-- A call keeps what holds before it, unless it is a receive. -/
theorem keeping_perform {c : Call} {R : Reply c → Channel → Prop} (hP : keepingSystem.Stable P)
    (hR : ∀ reply, keepingSystem.Stable (R reply))
    (h : ∀ ch reply ch', P ch → answers c ch reply ch' → Keeps c ch reply → R reply ch') :
    Keeping P (perform c) R :=
  leads_perform hP (fun _ _ => trivial) (fun ch reply ch' hP h' => h ch reply ch' hP h'.1 h'.2) hR
    fun _ _ _ => trivial

theorem keeping_repeats {body : Unit → Native (Unit ⊕ α)} {Q : α → Channel → Prop}
    (hstable : keepingSystem.Stable P) (h : Keeping P (body ()) (Round (fun _ => P) Q)) :
    Keeping P (repeats body ()) Q :=
  leads_repeats (fun _ => hstable) (fun _ _ _ => trivial) fun _ => h

end

variable {strerror : Errno → String}

theorem receiveControlPacket_keeping :
    Keeping (fun ch => Inv queued b ch ∧ Sampled revents ch) receiveControlPacket
      (AfterRead queued b revents) := by
  have hstable : keepingSystem.Stable fun ch => Inv queued b ch ∧ Sampled revents ch :=
    fun _ _ h hstep => ⟨inv_stable _ _ h.1 hstep, sampled_stable _ _ h.2 hstep⟩
  have hanswered : ∀ reply, keepingSystem.Stable (Answered queued b revents reply) := by
    rintro (error | message) ch ch' h hstep
    · by_cases heintr : error = eintr
      · subst heintr
        exact hstable _ _ h hstep
      by_cases heagain : error = eagain
      · subst heagain
        exact afterRead_stable _ _ h hstep
      rw [answered_error heintr heagain] at h ⊢
      exact afterRead_stable _ _ h hstep
    · exact afterRead_stable _ _ h hstep
  apply keeping_repeats hstable
  refine leads_bind (keeping_perform hstable hanswered fun ch reply ch' h hr hkeeps =>
    hr.answered h.1 h.2 hkeeps) ?_
  rintro (error | message)
  · show Keeping (Answered queued b revents (.error error)) (if error = eintr then _ else _) _
    split_ifs with heintr heagain
    · subst heintr
      exact keeping_pure (hanswered _) fun ch h => h
    · subst heagain
      exact keeping_pure (hanswered _) fun ch h => h
    · exact keeping_pure (hanswered _) fun ch h => (answered_error heintr heagain).mp h
  · exact keeping_pure (hanswered _) fun ch h => h

/-- What a call other than a receive and a poll keeps. -/
theorem answers_inv {c : Call} {reply : Reply c} (hc : c ≠ .receiveMessage)
    (h : answers c ch reply ch') (hinv : Inv queued b ch) : Inv queued b ch' := by
  unfold answers at h
  split at h
  · obtain ⟨-, rfl⟩ := h
    exact ⟨⟨hinv.flow, hinv.reset, hinv.revoked⟩, hinv.recorded⟩
  · exact absurd rfl hc
  · subst h
    exact ⟨⟨hinv.flow, hinv.reset, fun _ => rfl⟩, hinv.recorded⟩
  · subst h
    exact hinv

theorem keeping_inv_perform {c : Call} (hc : c ≠ .receiveMessage) :
    Keeping (Inv queued b) (perform c) fun _ => Inv queued b :=
  keeping_perform inv_stable (fun _ => inv_stable) fun _ _ _ h hr _ => answers_inv hc hr h

theorem readTerminationSignal_keeping :
    Keeping (Inv queued b) (readTerminationSignal strerror) fun _ => Inv queued b := by
  apply keeping_repeats inv_stable
  refine leads_bind (keeping_inv_perform (by decide)) ?_
  rintro (error | info)
  · show Keeping (Inv queued b) (if error = eintr then _ else _) _
    split_ifs <;> exact keeping_pure inv_stable fun _ h => h
  · show Keeping (Inv queued b) (if info.count ≠ signalInfoBytes then _ else _) _
    split_ifs <;> exact keeping_pure inv_stable fun _ h => h

/-- What is known when the kernel has answered the revocation. -/
structure Answer (queued : List Record) (b : Barrier) (reply : Except Errno ℕ) (ch : Channel) :
    Prop extends Inv queued b ch where
  sent : reply = .ok 1 → ch.revoked = true

theorem answer_stable {reply : Except Errno ℕ} :
    keepingSystem.Stable (Answer queued b reply) := by
  rintro ch ch' ⟨h, hr⟩ hstep
  refine ⟨inv_stable _ _ h hstep, fun hreply => ?_⟩
  cases hstep <;> exact hr hreply

/-- A revocation that was sent is known to have been sent. -/
theorem sendRevoke_keeping :
    Keeping (Inv queued b) (sendRevoke strerror) fun outcome => Inv queued (b.revoked outcome) := by
  have hunavailable : ∀ ch, Inv queued b ch →
      Inv queued (b.revoked (.ok .peerUnavailable)) ch :=
    fun ch h => ⟨⟨h.flow, h.reset, fun hs => by cases hs⟩, h.recorded⟩
  have hfailed : ∀ error, ∀ ch, Inv queued b ch → Inv queued (b.revoked (.error error)) ch := by
    intro error ch h
    refine ⟨⟨h.flow, h.reset, fun hs => by cases hs⟩, fun hb => ?_⟩
    rcases hp : b.primary with _ | p <;> simp [Barrier.revoked, appendFailure, hp] at hb
  apply keeping_repeats inv_stable
  refine leads_bind (R := Answer queued b)
    (keeping_perform inv_stable (fun _ => answer_stable) ?_) ?_
  · rintro ch reply ch' h hr -
    refine ⟨answers_inv (by decide) hr h, fun hreply => ?_⟩
    subst hreply
    obtain rfl : ch' = { ch with revoked := true } := hr
    rfl
  rintro (error | sent)
  · show Keeping (Answer queued b (.error error)) (if error = eintr then _ else _) _
    split_ifs
    · exact keeping_pure answer_stable fun _ h => h.toInv
    · exact keeping_pure answer_stable fun ch h =>
        hunavailable ch h.toInv
    · exact keeping_pure answer_stable fun ch h => hfailed _ ch h.toInv
  · show Keeping (Answer queued b (.ok sent)) (if sent ≠ 1 then _ else _) _
    split_ifs with hone
    · exact keeping_pure answer_stable fun ch h => hfailed _ ch h.toInv
    · refine keeping_pure answer_stable fun ch h => ?_
      obtain rfl : sent = 1 := not_not.mp hone
      exact ⟨⟨h.flow, h.reset, fun _ => h.sent rfl⟩, h.recorded⟩

theorem requestRevocation_keeping :
    Keeping (Inv queued b) (requestRevocation strerror b) (Inv queued) := by
  unfold requestRevocation
  split_ifs
  · exact keeping_pure inv_stable fun _ h => h
  · exact leads_bind sendRevoke_keeping fun _ => keeping_pure inv_stable fun _ h => h

/-- After a failure is recorded, nothing has to be known of what was received. -/
theorem inv_recordPrimary {message : String} (h : Base queued b ch) :
    Inv queued (b.recordPrimary message) ch := by
  refine ⟨⟨h.flow, h.reset, h.revoked⟩, fun hb => ?_⟩
  rcases hp : b.primary with _ | p <;> simp [Barrier.recordPrimary, recordPrimary, hp] at hb

theorem base_stable : keepingSystem.Stable (Base queued b) := fun _ _ h hstep => h.peer hstep

theorem protocolFailure_keeping {message : String} :
    Keeping (Base queued b) (protocolFailure strerror b message) (Inv queued) := by
  refine leads_bind (requestRevocation_keeping.mono (fun _ => inv_recordPrimary) fun _ _ h => h) ?_
  exact fun b' => keeping_pure inv_stable fun _ h => ⟨⟨h.flow, h.reset, h.revoked⟩, h.recorded⟩

theorem halfClosed_keeping : Keeping (Base queued b) (halfClosed strerror b) (Inv queued) := by
  refine leads_bind protocolFailure_keeping fun b' => keeping_pure inv_stable fun _ h => ?_
  exact ⟨⟨h.flow, h.reset, h.revoked⟩, h.recorded⟩

theorem continueWith_keeping {P : Channel → Prop} {p : Native Barrier}
    (h : Keeping P p (Inv queued)) :
    Keeping P (continueWith p) (Round (Inv queued) Verdict) :=
  leads_bind h fun _ => keeping_pure inv_stable fun _ h => h

theorem giveUp_keeping {error : String} :
    Keeping (Inv queued b) (giveUp strerror b error) (Round (Inv queued) Verdict) := by
  refine leads_bind requestRevocation_keeping fun b' => keeping_pure inv_stable fun _ _ hclean => ?_
  cases hclean

/-- The barrier takes the read for the end of the channel: if nothing is on
record, nothing was sent. -/
theorem verified_keeping {read : Except Errno ControlRead} (hread : Concludes b revents read) :
    Keeping (AfterRead queued b revents read) (pure (.inr (eofVerified b.primary)))
      (Round (Inv queued) Verdict) := by
  refine keeping_pure afterRead_stable fun ch h hclean => ?_
  rcases hp : b.primary with _ | p
  · have hdrained := h.drained hp hread
    exact ⟨hdrained, h.toBase.sent_of_drained hdrained⟩
  · rw [hp] at hclean
    cases hclean

theorem afterReceive_keeping (read : Except Errno ControlRead) :
    Keeping (AfterRead queued b revents read) (afterReceive strerror b revents read)
      (Round (Inv queued) Verdict) := by
  have hfailure : ∀ {p : Native Barrier}, Keeping (Base queued b) p (Inv queued) →
      Keeping (AfterRead queued b revents read) (continueWith p) (Round (Inv queued) Verdict) :=
    fun h => continueWith_keeping (h.mono (fun _ h => h.toBase) fun _ _ h => h)
  have hinv : TookNothing read → ∀ ch, AfterRead queued b revents read ch → Inv queued b ch :=
    fun hread ch h => ⟨h.toBase, fun hb => h.recorded hb hread⟩
  rcases read with error | (_ | _ | _ | _ | _)
  · simp only [afterReceive]
    split_ifs with hend
    · have hconcludes : Concludes b revents (.error error) := hend
      exact verified_keeping hconcludes
    · exact giveUp_keeping.mono (hinv trivial) fun _ _ h => h
  · exact hfailure protocolFailure_keeping
  · simp only [afterReceive]
    split_ifs with hup hhalf
    · have hconcludes : Concludes b revents (.ok .emptyRecord) := hup
      exact verified_keeping hconcludes
    · exact hfailure halfClosed_keeping
    · exact hfailure protocolFailure_keeping
  · exact hfailure protocolFailure_keeping
  · exact hfailure protocolFailure_keeping
  · simp only [afterReceive]
    split_ifs with hup hhalf herr
    · have hconcludes : Concludes b revents (.ok .wouldBlock) := hup
      exact verified_keeping hconcludes
    · exact hfailure halfClosed_keeping
    · exact giveUp_keeping.mono (hinv trivial) fun _ _ h => h
    · exact keeping_pure afterRead_stable fun ch h => hinv trivial ch h

theorem controlEvent_keeping :
    Keeping (fun ch => Inv queued b ch ∧ Sampled revents ch) (controlEvent strerror b revents)
      (Round (Inv queued) Verdict) := by
  unfold controlEvent
  split_ifs
  · exact leads_bind receiveControlPacket_keeping afterReceive_keeping
  · refine keeping_pure (fun _ _ h hstep => ?_) fun _ h => h.1
    exact ⟨inv_stable _ _ h.1 hstep, sampled_stable _ _ h.2 hstep⟩

theorem signalEvent_keeping : Keeping (Inv queued b) (signalEvent strerror b revents) (Inv queued) := by
  have hfailure : ∀ {b message}, Keeping (Inv queued b) (protocolFailure strerror b message) (Inv queued) :=
    protocolFailure_keeping.mono (fun _ h => h.toBase) fun _ _ h => h
  have hinvalid : Keeping (Inv queued b) (signalInvalid strerror b revents) (Inv queued) := by
    unfold signalInvalid
    split_ifs
    · exact hfailure
    · exact keeping_pure inv_stable fun _ h => h
  have hsignal : ∀ b signal, Keeping (Inv queued b) (afterSignal strerror b signal) (Inv queued) := by
    rintro b (error | _ | _)
    · exact hfailure
    · exact keeping_pure inv_stable fun _ h => h
    · refine leads_bind requestRevocation_keeping fun b' => keeping_pure inv_stable fun _ h => ?_
      exact ⟨⟨h.flow, h.reset, h.revoked⟩, h.recorded⟩
  have hreadable : ∀ b, Keeping (Inv queued b) (signalReadable strerror b revents) (Inv queued) := by
    intro b
    unfold signalReadable
    split_ifs
    · exact leads_bind readTerminationSignal_keeping (hsignal b)
    · exact keeping_pure inv_stable fun _ h => h
  have hfailed : ∀ b, Keeping (Inv queued b) (signalFailed strerror b revents) (Inv queued) := by
    intro b
    unfold signalFailed
    split_ifs
    · exact hfailure
    · exact keeping_pure inv_stable fun _ h => h
  exact leads_bind hinvalid fun b₁ => leads_bind (hreadable b₁) hfailed

theorem afterPoll_keeping {polled : Polled} :
    Keeping (fun ch => Inv queued b ch ∧ Sampled polled.control ch) (afterPoll strerror b polled)
      (Round (Inv queued) Verdict) := by
  refine leads_bind controlEvent_keeping ?_
  rintro (b' | outcome)
  · exact continueWith_keeping signalEvent_keeping
  · exact keeping_pure verdict_stable fun _ h => h

/-- What is known when the poll has answered. -/
def AfterPoll (queued : List Record) (b : Barrier) (reply : Except Errno Polled) (ch : Channel) :
    Prop :=
  Inv queued b ch ∧ ∀ polled, reply = .ok polled → Sampled polled.control ch

theorem barrierRound_keeping (b : Barrier) :
    Keeping (Inv queued b) (barrierRound strerror b) (Round (Inv queued) Verdict) := by
  have hstable : ∀ reply, keepingSystem.Stable (AfterPoll queued b reply) := fun reply ch ch' h hstep =>
    ⟨inv_stable _ _ h.1 hstep, fun polled hp => sampled_stable _ _ (h.2 polled hp) hstep⟩
  refine leads_bind (keeping_perform inv_stable hstable ?_) ?_
  · rintro ch reply ch' h hr -
    refine ⟨answers_inv (by simp) hr h, fun polled hp => ?_⟩
    subst hp
    obtain ⟨⟨invalid, hcontrol⟩, rfl⟩ := hr
    rw [hcontrol]
    exact ⟨rfl, fun hup => of_decide_eq_true hup⟩
  · rintro (error | polled)
    · show Keeping _ (if error = eintr then _ else _) _
      split_ifs
      · exact keeping_pure (hstable _) fun _ h => h.1
      · exact giveUp_keeping.mono (fun _ h => h.1) fun _ _ h => h
    · show Keeping _ (if polled.control.pollNval = true then _ else _) _
      split_ifs
      · exact giveUp_keeping.mono (fun _ h => h.1) fun _ _ h => h
      · exact afterPoll_keeping.mono (fun _ h => ⟨h.1, h.2 polled rfl⟩) fun _ _ h => h

/-! ### The verdict -/

/-- The channel after the handoff: nothing was received yet, and the records
still queued are older than the handoff. -/
structure Handed (ch : Channel) : Prop where
  sent : ch.sent = []
  received : ch.received = []
  reset : ch.reset = true → ch.peer = .closed

/-- In every run in which no receive loses a queued record, a clean verdict is
given only where the peer sent nothing after the handoff. -/
theorem clean_verdict_means_clean_channel (strerror : Errno → String) {start ch : Channel}
    (hstart : Handed start)
    (hreach : keepingSystem.Reaches (waitForPostHandoffEof strerror none, start)
      (Process.done (.eofVerified (.ok ())), ch)) : ch.sent = [] := by
  let fresh : Barrier := ⟨none, .notRequested, true, false⟩
  have hinv : Inv start.queue fresh start := by
    refine ⟨⟨?_, hstart.reset, fun hs => by cases hs⟩, fun _ => hstart.received⟩
    rw [hstart.sent, hstart.received, List.append_nil, List.nil_append]
  have hbarrier : Keeping (Inv start.queue fresh) (waitForPostHandoffEof strerror none) Verdict :=
    leads_repeats (fun _ => inv_stable) (fun _ _ _ => trivial) barrierRound_keeping
  exact ((hbarrier start hinv _ _ hreach).2 _ rfl rfl).2

/-- A peer with nothing sent and nothing queued. -/
def idleChannel : Channel where
  sent := []
  received := []
  queue := []
  peer := .connected
  reset := false
  hangup := false
  revoked := false

theorem idleChannel_handed : Handed idleChannel := ⟨rfl, rfl, fun h => by cases h⟩

/-- The poll of a closed peer. -/
def hangupPolled : Polled where
  control := ⟨true, false, true, true, false⟩
  signals := ⟨false, false, false, false, false⟩

/-- The peer closes and does nothing else. -/
theorem clean_verdict_means_clean_channel_close :
    ({ idleChannel with peer := .closed, hangup := true } : Channel).sent = [] := by
  apply clean_verdict_means_clean_channel (fun _ => "") idleChannel_handed
  have hpoll : keepingSystem.kernel (.poll false true) { idleChannel with peer := .closed }
      (.ok hangupPolled) { idleChannel with peer := .closed, hangup := true } :=
    ⟨⟨⟨false, rfl⟩, rfl⟩, trivial⟩
  have hreceive : keepingSystem.kernel .receiveMessage
      { idleChannel with peer := .closed, hangup := true } (.ok endOfChannel)
      { idleChannel with peer := .closed, hangup := true } := by
    refine ⟨.endOfChannel rfl rfl (by decide), ?_⟩
    rintro - ⟨-, record, rest, hqueue, -⟩
    cases hqueue
  exact .head (.other (.close false (by decide))) (.head .loop
    (.head (.call hpoll) (.head .loop (.head (.call hreceive) .refl))))

/-- The peer sends a record without bytes and closes: the barrier takes the
record for the end of the channel. -/
theorem zero_length_record_lost :
    ¬ ∀ (strerror : Errno → String) (start ch : Channel), Handed start →
      channelSystem.Reaches (waitForPostHandoffEof strerror none, start)
        (Process.done (.eofVerified (.ok ())), ch) → ch.sent = [] := by
  intro h
  let record : Record := ⟨[], false⟩
  let queued : Channel := { idleChannel with sent := [record], queue := [record] }
  have hpoll : channelSystem.kernel (.poll false true) { queued with peer := .closed }
      (.ok hangupPolled) { queued with peer := .closed, hangup := true } :=
    ⟨⟨false, rfl⟩, rfl⟩
  have hreceive : channelSystem.kernel .receiveMessage
      { queued with peer := .closed, hangup := true } (.ok record.message)
      { queued with peer := .closed, hangup := true, queue := [], received := [record] } :=
    .record rfl rfl
  have hreach : channelSystem.Reaches (waitForPostHandoffEof (fun _ => "") none, idleChannel)
      (Process.done (.eofVerified (.ok ())),
        { queued with peer := .closed, hangup := true, queue := [], received := [record] }) :=
    .head (.other (.send record rfl)) (.head (.other (.close false (by decide)))
      (.head .loop (.head (.call hpoll) (.head .loop (.head (.call hreceive) .refl)))))
  have hsent := h _ _ _ idleChannel_handed hreach
  cases hsent

end MosaicArchive.Supervisor
