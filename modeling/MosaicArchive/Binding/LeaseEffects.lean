import MosaicArchive.Binding.LeaseView

/-!
What each operation on a lease can do, said once: `Effect` lists the cases, with
the calls made and the change of the lease's fields, and `perform_effect` shows
that there are no others.
-/

namespace MosaicArchive.Binding

open Utf8 (Text)

namespace BindingCgroupLease

variable {Time : Type} {env : Environment Time} {l : ObjectId} {lease : BindingCgroupLease}
  {E : List BackendCall → LeaseFields → Prop} {calls : List BackendCall} {fields : LeaseFields}

/-! ### Calls with a meaning -/

/-- The calls made on entering the backend authority; a lease without production
authority makes none. -/
def Entry (lease : BindingCgroupLease) (entered : List BackendCall) : Prop :=
  (∀ call ∈ entered, call.Quiet) ∧ (lease.productionCapability = none → entered = [])

/-- A read of `cgroup.events` that reports populated 0. -/
def Idle (lease : BindingCgroupLease) (call : BackendCall) : Prop :=
  ∃ reply, call = .readLeaf lease.leafHandle "cgroup.events" (.ok reply) ∧
    populatedOf reply = .ok false

/-- Reads of the effective CPU and memory sets that match the qualification. -/
def Matched (lease : BindingCgroupLease) (calls : List BackendCall) : Prop :=
  ∃ cpus mems, calls = [.readLeaf lease.leafHandle "cpuset.cpus.effective" (.ok cpus),
      .readLeaf lease.leafHandle "cpuset.mems.effective" (.ok mems)] ∧
    parseIdSet cpus "child CPU" = .ok lease.qualification.selectedCpus ∧
    parseIdSet mems "child memory-node" = .ok lease.qualification.selectedMems

/-- The calls of a finalisation that returns the peak: the sets match and the
leaf is idle, `memory.peak` is read, and again the leaf is idle and the sets match. -/
def Finalised (lease : BindingCgroupLease) (calls : List BackendCall) (peak : ℕ) : Prop :=
  ∃ polls before idleBefore reply idleAfter after value,
    calls = polls ++ before ++
      [idleBefore, .readLeaf lease.leafHandle "memory.peak" (.ok reply), idleAfter] ++ after ∧
    lease.Matched before ∧ lease.Idle idleBefore ∧
    controlScalar reply "memory.peak" = .ok value ∧ peakOf value = .ok peak ∧
    lease.Idle idleAfter ∧ lease.Matched after ∧ ∀ call ∈ calls, call.Quiet

def IsProcsWrite (lease : BindingCgroupLease) (call : BackendCall) : Prop :=
  ∃ value reply, call = .writeLeaf lease.leafHandle "cgroup.procs" value reply

def IsKillWrite (lease : BindingCgroupLease) (call : BackendCall) : Prop :=
  ∃ value reply, call = .writeLeaf lease.leafHandle "cgroup.kill" value reply

theorem Idle.quiet {call : BackendCall} (h : lease.Idle call) : call.Quiet := by
  obtain ⟨reply, rfl, -⟩ := h
  simp [BackendCall.Quiet]

theorem Matched.quiet {calls : List BackendCall} (h : lease.Matched calls) :
    ∀ call ∈ calls, call.Quiet := by
  obtain ⟨cpus, mems, rfl, -⟩ := h
  simp [BackendCall.Quiet]

/-! ### Parts of operations -/

/-- What holds after any quiet calls holds after those of entering the authority. -/
theorem entry_of_stable (h : QuietlyStable E calls fields) :
    ∀ entered, lease.Entry entered → E (calls ++ entered) fields :=
  fun entered hentered => h entered hentered.1

theorem ensures_lockedBackendAuthority {α : Type} {body : Run α}
    {Q : α → List BackendCall → LeaseFields → Prop}
    (hE : ∀ entered, lease.Entry entered → E (calls ++ entered) fields)
    (h : ∀ entered, lease.Entry entered → Ensures l body Q E (calls ++ entered) fields) :
    Ensures l (lockedBackendAuthority env l lease body) Q E calls fields := by
  have hnow : E calls fields := by simpa using hE [] ⟨by simp, fun _ => rfl⟩
  refine Ensures.bind (Ensures.requireIssuingProcess hnow ?_)
  split
  · rename_i hnone
    simpa using h [] ⟨by simp, fun _ => rfl⟩
  · rename_i c hsome
    have hstable : QuietlyStable E calls fields :=
      fun entered hentered => hE entered ⟨hentered, by simp [hsome]⟩
    refine Ensures.onError (Ensures.bind (ensures_lockedCapabilityAccess hstable ?_)) ?_
    · intro access entered hentered
      refine Ensures.bind (Ensures.raiseIf (fun _ => hstable entered hentered) fun _ => ?_)
      exact h entered ⟨hentered, by simp [hsome]⟩
    · intro e calls' fields' hE'
      unfold convertCapabilityError
      split
      · exact Ensures.raise hE'
      · exact Ensures.raise hE'

/-- An operation that is refused when the lease is closed. -/
theorem ensures_withAuthority {α : Type} {body : Run α}
    {Q : α → List BackendCall → LeaseFields → Prop} (hE : E calls fields)
    (hentry : fields.closed = false → ∀ entered, lease.Entry entered → E (calls ++ entered) fields)
    (h : fields.closed = false → ∀ entered, lease.Entry entered →
      Ensures l body Q E (calls ++ entered) fields) :
    Ensures l (withAuthority env l lease body) Q E calls fields := by
  refine Ensures.bind (Ensures.requireIssuingProcess hE ?_)
  refine Ensures.bind (Ensures.requireOpen (fun _ => hE) fun hopen => ?_)
  exact ensures_lockedBackendAuthority (hentry hopen) (h hopen)

theorem ensures_readFile {filename : String} {Q : ReadReply → List BackendCall → LeaseFields → Prop}
    (hE : QuietlyStable E calls fields)
    (hQ : ∀ reply, Q reply (calls ++ [.readLeaf lease.leafHandle filename (.ok reply)]) fields) :
    Ensures l (readFile env l lease filename) Q E calls fields := by
  refine Ensures.backendCall (Ensures.bind (Ensures.requireRoot hE.now ?_))
  refine Ensures.get fun w _ _ => Ensures.recordReply (fun e _ => ?_) fun reply hreply => ?_
  · exact (hE.concat _ (by simp [BackendCall.Quiet])).now
  · rw [hreply]
    exact hQ reply

theorem ensures_isPopulated {Q : Bool → List BackendCall → LeaseFields → Prop}
    (hE : QuietlyStable E calls fields)
    (hQ : ∀ reply populated, populatedOf reply = .ok populated →
      Q populated (calls ++ [.readLeaf lease.leafHandle "cgroup.events" (.ok reply)]) fields) :
    Ensures l (isPopulated env l lease) Q E calls fields := by
  refine Ensures.bind (ensures_readFile hE fun reply => ?_)
  exact Ensures.lift (hQ reply) fun _ _ => (hE.concat _ (by simp [BackendCall.Quiet])).now

theorem ensures_writeExact {filename : String} {value : Text}
    {Q : Unit → List BackendCall → LeaseFields → Prop} (hE : E calls fields)
    (hwrite : ∀ reply, E (calls ++ [.writeLeaf lease.leafHandle filename value reply]) fields)
    (hQ : ∀ reply, Q () (calls ++ [.writeLeaf lease.leafHandle filename value reply]) fields) :
    Ensures l (writeExact env l lease filename value) Q E calls fields := by
  refine Ensures.bind (Ensures.backendCall (Ensures.bind (Ensures.requireRoot hE ?_)))
  refine Ensures.get fun w _ _ => Ensures.recordReply (fun e _ => hwrite _) fun written _ => ?_
  exact Ensures.raiseIf (fun _ => hwrite _) fun _ => hQ _

theorem checkEffectiveIdSet_eq_ok {reply : ReadReply} {expected : List ℕ} {context : String}
    (h : checkEffectiveIdSet reply expected context = .ok ()) :
    parseIdSet reply context = .ok expected := by
  obtain ⟨actual, hactual, h⟩ := Except.bind_eq_ok_iff.mp h
  rw [Except.raiseIf_eq_ok, not_not] at h
  rw [hactual, h]

theorem ensures_verifyEffectiveIdSet {filename : String} {expected : List ℕ} {context : String}
    {Q : Unit → List BackendCall → LeaseFields → Prop} (hE : QuietlyStable E calls fields)
    (hQ : ∀ reply, parseIdSet reply context = .ok expected →
      Q () (calls ++ [.readLeaf lease.leafHandle filename (.ok reply)]) fields) :
    Ensures l (verifyEffectiveIdSet env l lease filename expected context) Q E calls fields := by
  refine Ensures.bind (ensures_readFile hE fun reply => Ensures.lift (fun _ h => ?_) fun _ _ => ?_)
  · exact hQ reply (checkEffectiveIdSet_eq_ok h)
  · exact (hE.concat _ (by simp [BackendCall.Quiet])).now

theorem ensures_verifyEffectiveCpuset {Q : Unit → List BackendCall → LeaseFields → Prop}
    (hE : E calls fields) (hstable : fields.closed = false → QuietlyStable E calls fields)
    (hQ : fields.closed = false → ∀ entered sets, lease.Entry entered → lease.Matched sets →
      Q () (calls ++ entered ++ sets) fields) :
    Ensures l (verifyEffectiveCpuset env l lease) Q E calls fields := by
  refine ensures_withAuthority hE (fun hopen => entry_of_stable (hstable hopen))
    fun hopen entered hentered => ?_
  have hstable' := (hstable hopen).append hentered.1
  refine Ensures.bind (ensures_verifyEffectiveIdSet hstable' fun cpus hcpus => ?_)
  apply ensures_verifyEffectiveIdSet (hstable'.concat _ (by simp [BackendCall.Quiet]))
  intro mems hmems
  have h := hQ hopen entered _ hentered ⟨cpus, mems, rfl, hcpus, hmems⟩
  rwa [List.append_assoc _ [_] [_]]

theorem ensures_readClock {Q : Time → List BackendCall → LeaseFields → Prop}
    (hE : QuietlyStable E calls fields) (hQ : ∀ now, Q now (calls ++ [.monotonic]) fields) :
    Ensures l (readClock env l lease) Q E calls fields := by
  refine Ensures.backendCall (Ensures.get fun w _ _ => Ensures.recordReply (fun _ _ => ?_) ?_)
  · exact (hE.concat _ (by simp [BackendCall.Quiet])).now
  · exact fun now _ => hQ now

theorem ensures_sleep {milliseconds : ℕ} {Q : Unit → List BackendCall → LeaseFields → Prop}
    (hE : QuietlyStable E calls fields) (hQ : Q () (calls ++ [.sleep milliseconds]) fields) :
    Ensures l (backendCall "cgroup cleanup polling failed"
      (sleep env (.lease l) lease.backend milliseconds)) Q E calls fields := by
  refine Ensures.backendCall (Ensures.get fun w _ _ => Ensures.recordReply (fun _ _ => ?_) ?_)
  · exact (hE.concat _ (by simp [BackendCall.Quiet])).now
  · exact fun _ _ => hQ

/-- The loop polls until it sees the leaf idle. -/
theorem ensures_pollUnpopulated {deadline : Time} {Q : Unit → List BackendCall → LeaseFields → Prop}
    (polls : ℕ) (hE : QuietlyStable E calls fields)
    (hQ : ∀ (seen : List BackendCall) idle, (∀ call ∈ seen, call.Quiet) → lease.Idle idle →
      Q () (calls ++ seen ++ [idle]) fields) :
    Ensures l (pollUnpopulated env l lease deadline polls) Q E calls fields := by
  induction polls generalizing calls with
  | zero => exact Ensures.raise hE.now
  | succ polls ih =>
      unfold pollUnpopulated
      refine Ensures.bind (ensures_isPopulated hE fun reply populated hreply => ?_)
      have hread := hE.concat (.readLeaf lease.leafHandle "cgroup.events" (.ok reply))
        (by simp [BackendCall.Quiet])
      cases populated with
      | false =>
          apply Ensures.pure
          simpa using hQ [] _ (by simp) ⟨reply, rfl, hreply⟩
      | true =>
          refine Ensures.bind (ensures_readClock hread fun now => ?_)
          have hclock := hread.concat (.monotonic) (by simp [BackendCall.Quiet])
          refine Ensures.bind (Ensures.lift (fun late _ => ?_) fun _ _ => hclock.now)
          refine Ensures.bind (Ensures.raiseIf (fun _ => hclock.now) fun _ => ?_)
          refine Ensures.bind (ensures_sleep hclock (ih ?_ ?_))
          · exact hclock.concat _ (by simp [BackendCall.Quiet])
          · intro seen idle hseen hidle
            rw [List.append_assoc calls, List.append_assoc calls, List.append_assoc calls]
            refine hQ _ idle (fun call hcall => ?_) hidle
            simp only [List.mem_append, List.mem_singleton, or_assoc] at hcall
            rcases hcall with rfl | rfl | rfl | hcall
            · simp [BackendCall.Quiet]
            · simp [BackendCall.Quiet]
            · simp [BackendCall.Quiet]
            · exact hseen call hcall

theorem ensures_awaitUnpopulated {Q : Unit → List BackendCall → LeaseFields → Prop}
    (hE : E calls fields) (hstable : fields.closed = false → QuietlyStable E calls fields)
    (hQ : fields.closed = false → ∀ (seen : List BackendCall) idle, (∀ call ∈ seen, call.Quiet) →
      lease.Idle idle → Q () (calls ++ seen ++ [idle]) fields) :
    Ensures l (awaitUnpopulated env l lease) Q E calls fields := by
  refine ensures_withAuthority hE (fun hopen => entry_of_stable (hstable hopen))
    fun hopen entered hentered => ?_
  have hstable' := (hstable hopen).append hentered.1
  refine Ensures.bind (ensures_readClock hstable' fun now => ?_)
  have hclock := hstable'.concat (.monotonic) (by simp [BackendCall.Quiet])
  refine Ensures.bind (Ensures.lift (fun deadline _ => ?_) fun _ _ => hclock.now)
  refine Ensures.get fun w _ _ => ensures_pollUnpopulated _ hclock fun seen idle hseen hidle => ?_
  rw [List.append_assoc calls, List.append_assoc calls]
  refine hQ hopen _ idle (fun call hcall => ?_) hidle
  simp only [List.mem_append, List.mem_singleton, or_assoc] at hcall
  rcases hcall with hcall | rfl | hcall
  · exact hentered.1 call hcall
  · simp [BackendCall.Quiet]
  · exact hseen call hcall

/-! ### Operations -/

inductive Outcome where
  | raised
  | returned (value : Option ℕ)
  deriving DecidableEq, Repr

/-- The part of `cleanup` before the removal: the leaf may be killed. -/
def Stopped (lease : BindingCgroupLease) (fields : LeaseFields) (calls : List BackendCall)
    (fields' : LeaseFields) : Prop :=
  fields' = fields ∧ (∀ call ∈ calls, call.Quiet) ∨
    fields' = { fields with state := .terminationRequested } ∧
      ∀ call ∈ calls, call.Quiet ∨ lease.IsKillWrite call

/-- The operations that neither attach a process nor finalise. -/
def Plain (op : Operation) : Prop :=
  (∀ pid, op ≠ .attachProcess pid) ∧ op ≠ .readMemoryPeakBytes

/-- The cases of what an operation can do from given fields of the lease. -/
inductive Effect (lease : BindingCgroupLease) :
    Operation → LeaseFields → List BackendCall → Outcome → LeaseFields → Prop where
  | refused {op : Operation} {fields : LeaseFields} {calls : List BackendCall}
      (quiet : ∀ call ∈ calls, call.Quiet) (closed : fields.closed = true → calls = [])
      (entry : op = .readMemoryPeakBytes → lease.Entry calls) :
      Effect lease op fields calls .raised fields
  | observed {op : Operation} {fields : LeaseFields} {calls : List BackendCall}
      (plain : Plain op) (quiet : ∀ call ∈ calls, call.Quiet)
      (closed : fields.closed = true → calls = []) :
      Effect lease op fields calls (.returned none) fields
  | notPlaced {pid : Option ℤ} {fields : LeaseFields} {calls : List BackendCall}
      (direct : lease.attachmentAuthority = .testOnlyDirectAttach) (isOpen : fields.closed = false)
      (ready : fields.state = .ready) (quiet : ∀ call ∈ calls, call.Quiet) :
      Effect lease (.attachProcess pid) fields calls .raised
        { fields with state := .attachmentUncertain }
  | placed {pid : Option ℤ} {fields : LeaseFields} {before after : List BackendCall}
      {write : BackendCall} {outcome : Outcome} {state : LeaseState}
      (direct : lease.attachmentAuthority = .testOnlyDirectAttach) (isOpen : fields.closed = false)
      (ready : fields.state = .ready) (quietBefore : ∀ call ∈ before, call.Quiet)
      (isWrite : lease.IsProcsWrite write) (quietAfter : ∀ call ∈ after, call.Quiet)
      (result : outcome = .raised ∧ state = .attachmentUncertain ∨
        outcome = .returned none ∧ state = .attached) :
      Effect lease (.attachProcess pid) fields (before ++ write :: after) outcome
        { fields with state := state }
  | finalisationFailed {fields : LeaseFields} {calls : List BackendCall}
      (isOpen : fields.closed = false) (attached : fields.state = .attached)
      (quiet : ∀ call ∈ calls, call.Quiet) :
      Effect lease .readMemoryPeakBytes fields calls .raised { fields with state := .finalizing }
  | measured {fields : LeaseFields} {calls : List BackendCall} {peak : ℕ}
      (isOpen : fields.closed = false) (attached : fields.state = .attached)
      (finalised : lease.Finalised calls peak) :
      Effect lease .readMemoryPeakBytes fields calls (.returned (some peak))
        { fields with state := .measured }
  | killed {op : Operation} {fields : LeaseFields} {calls : List BackendCall} {outcome : Outcome}
      (plain : Plain op) (isOpen : fields.closed = false)
      (calm : ∀ call ∈ calls, call.Quiet ∨ lease.IsKillWrite call)
      (result : outcome = .raised ∨ outcome = .returned none) :
      Effect lease op fields calls outcome { fields with state := .terminationRequested }
  | removal {op : Operation} {fields stopped : LeaseFields} {before : List BackendCall}
      {idle : BackendCall} {reply : Except Raised Unit} {outcome : Outcome}
      (plain : Plain op) (isOpen : fields.closed = false)
      (stops : lease.Stopped fields before stopped) (isIdle : lease.Idle idle)
      (result : outcome = .raised ∧ (∃ e, reply = .error e) ∨
        outcome = .returned none ∧ reply = .ok ()) :
      Effect lease op fields (before ++ [idle, .removeLeaf lease.leafHandle reply]) outcome
        { stopped with closed := decide (reply = .ok ()) }

/-- The operation leads from `calls` and `fields` to what one of its effects gives. -/
def Reaches (lease : BindingCgroupLease) (op : Operation) (calls : List BackendCall)
    (fields : LeaseFields) (outcome : Outcome) (calls' : List BackendCall) (fields' : LeaseFields) :
    Prop :=
  ∃ events, calls' = calls ++ events ∧ lease.Effect op fields events outcome fields'

theorem reaches_refused {op : Operation} : lease.Reaches op calls fields .raised calls fields :=
  ⟨[], by simp, .refused (by simp) (fun _ => rfl) fun _ => ⟨by simp, fun _ => rfl⟩⟩

theorem reaches_refused_entry {op : Operation} (hopen : fields.closed = false) :
    ∀ entered, lease.Entry entered → lease.Reaches op calls fields .raised (calls ++ entered) fields :=
  fun entered hentered => ⟨entered, rfl, .refused hentered.1 (by simp [hopen]) fun _ => hentered⟩

theorem reaches_refused_quietly {op : Operation} (hop : op ≠ .readMemoryPeakBytes)
    (hopen : fields.closed = false) :
    QuietlyStable (lease.Reaches op calls fields .raised) calls fields := by
  intro more hmore
  exact ⟨more, rfl, .refused hmore (by simp [hopen]) fun h => absurd h hop⟩

theorem ensures_attachChecked {pid : Option ℤ} {n : ℕ} {entered : List BackendCall}
    (hdirect : lease.attachmentAuthority = .testOnlyDirectAttach) (hopen : fields.closed = false)
    (hentered : lease.Entry entered) :
    Ensures l (attachChecked env l lease n)
      (fun _ => lease.Reaches (.attachProcess pid) calls fields (.returned none))
      (lease.Reaches (.attachProcess pid) calls fields .raised) (calls ++ entered) fields := by
  have hrefused : QuietlyStable (lease.Reaches (.attachProcess pid) calls fields .raised)
      (calls ++ entered) fields :=
    (reaches_refused_quietly (by simp) hopen).append hentered.1
  refine Ensures.bind (Ensures.requireState (fun _ => hrefused.now) fun hready => ?_)
  refine Ensures.bind (ensures_verifyEffectiveCpuset hrefused.now (fun _ => hrefused) ?_)
  intro _ entered' sets hentered' hsets
  have hbefore : ∀ call ∈ entered ++ entered' ++ sets, call.Quiet := by
    intro call hcall
    simp only [List.mem_append, or_assoc] at hcall
    rcases hcall with hcall | hcall | hcall
    · exact hentered.1 call hcall
    · exact hentered'.1 call hcall
    · exact hsets.quiet call hcall
  rw [List.append_assoc calls, List.append_assoc calls]
  refine Ensures.bind (Ensures.setState (Ensures.bind (Ensures.lift (fun value _ => ?_) fun _ _ => ?_)))
  · -- From here on the state says that the process may have been placed.
    have hplaced : ∀ reply, QuietlyStable (lease.Reaches (.attachProcess pid) calls fields .raised)
        (calls ++ (entered ++ entered' ++ sets) ++
          [.writeLeaf lease.leafHandle "cgroup.procs" value reply])
        { fields with state := .attachmentUncertain } := by
      intro reply after hafter
      refine ⟨(entered ++ entered' ++ sets) ++
        .writeLeaf lease.leafHandle "cgroup.procs" value reply :: after, by simp, ?_⟩
      exact .placed hdirect hopen hready hbefore ⟨value, reply, rfl⟩ hafter (.inl ⟨rfl, rfl⟩)
    refine Ensures.bind (ensures_writeExact ?_ (fun reply => (hplaced reply).now) fun reply => ?_)
    · exact ⟨_, rfl, .notPlaced hdirect hopen hready hbefore⟩
    refine Ensures.bind (ensures_readFile (hplaced reply) fun observed => ?_)
    have hread := (hplaced reply).concat (.readLeaf lease.leafHandle "cgroup.procs"
      (.ok observed)) (by simp [BackendCall.Quiet])
    refine Ensures.bind (Ensures.lift (fun members _ => ?_) fun _ _ => hread.now)
    refine Ensures.bind (Ensures.raiseIf (fun _ => hread.now) fun _ => Ensures.setState ?_)
    refine ⟨(entered ++ entered' ++ sets) ++
      .writeLeaf lease.leafHandle "cgroup.procs" value reply ::
        [.readLeaf lease.leafHandle "cgroup.procs" (.ok observed)], by simp, ?_⟩
    exact .placed hdirect hopen hready hbefore ⟨value, reply, rfl⟩ (by simp [BackendCall.Quiet])
      (.inr ⟨rfl, rfl⟩)
  · exact ⟨_, rfl, .notPlaced hdirect hopen hready hbefore⟩

theorem ensures_attachProcess {pid : Option ℤ} :
    Ensures l (attachProcess env l lease pid)
      (fun _ => lease.Reaches (.attachProcess pid) calls fields (.returned none))
      (lease.Reaches (.attachProcess pid) calls fields .raised) calls fields := by
  refine Ensures.bind (Ensures.requireIssuingProcess reaches_refused ?_)
  refine Ensures.bind (Ensures.requireOpen (fun _ => reaches_refused) fun hopen => ?_)
  refine Ensures.bind (Ensures.raiseIf (fun _ => reaches_refused) fun hauthority => ?_)
  have hdirect : lease.attachmentAuthority = .testOnlyDirectAttach := by
    cases h : lease.attachmentAuthority
    · exact absurd h hauthority
    · rfl
  apply ensures_lockedBackendAuthority (reaches_refused_entry hopen)
  intro entered hentered
  split
  · exact ensures_attachChecked hdirect hopen hentered
  · exact Ensures.raise (reaches_refused_entry hopen entered hentered)

theorem ensures_readMemoryPeakBytes
    (hauthority : fields.state = .attached → lease.productionCapability = none) :
    Ensures l (readMemoryPeakBytes env l lease)
      (fun peak => lease.Reaches .readMemoryPeakBytes calls fields (.returned (some peak)))
      (lease.Reaches .readMemoryPeakBytes calls fields .raised) calls fields := by
  refine ensures_withAuthority reaches_refused reaches_refused_entry fun hopen entered hentered => ?_
  refine Ensures.bind (Ensures.requireState (fun _ => ?_) fun hattached => ?_)
  · exact reaches_refused_entry hopen entered hentered
  have hnone := hauthority hattached
  obtain rfl := hentered.2 hnone
  -- The state now says that a finalisation began; until the end only quiet calls are made.
  have hfailed : QuietlyStable (lease.Reaches .readMemoryPeakBytes calls fields .raised) calls
      { fields with state := .finalizing } := by
    intro more hmore
    exact ⟨more, rfl, .finalisationFailed hopen hattached hmore⟩
  rw [List.append_nil]
  refine Ensures.bind (Ensures.setState (Ensures.bind ?_))
  refine ensures_awaitUnpopulated hfailed.now (fun _ => hfailed) fun _ seen last hseen hlast => ?_
  have hseen' := (hfailed.append hseen).concat _ hlast.quiet
  refine Ensures.bind (ensures_verifyEffectiveCpuset hseen'.now (fun _ => hseen') ?_)
  intro _ entered before hentered' hbefore
  obtain rfl := hentered'.2 hnone
  rw [List.append_nil]
  have hbefore' := hseen'.append hbefore.quiet
  refine Ensures.bind (ensures_isPopulated hbefore' fun replyBefore populatedBefore hpopBefore => ?_)
  have hread := hbefore'.concat (.readLeaf lease.leafHandle "cgroup.events" (.ok replyBefore))
    (by simp [BackendCall.Quiet])
  refine Ensures.bind (Ensures.raiseIf (fun _ => hread.now) fun hidleBefore => ?_)
  refine Ensures.bind (ensures_readFile hread fun reply => ?_)
  have hpeak := hread.concat (.readLeaf lease.leafHandle "memory.peak" (.ok reply))
    (by simp [BackendCall.Quiet])
  refine Ensures.bind (Ensures.lift (fun value hvalue => ?_) fun _ _ => hpeak.now)
  refine Ensures.bind (ensures_isPopulated hpeak fun replyAfter populatedAfter hpopAfter => ?_)
  have hread' := hpeak.concat (.readLeaf lease.leafHandle "cgroup.events" (.ok replyAfter))
    (by simp [BackendCall.Quiet])
  refine Ensures.bind (Ensures.raiseIf (fun _ => hread'.now) fun hidleAfter => ?_)
  refine Ensures.bind (ensures_verifyEffectiveCpuset hread'.now (fun _ => hread') ?_)
  intro _ entered after hentered'' hafter
  obtain rfl := hentered''.2 hnone
  rw [List.append_nil]
  have hafter' := hread'.append hafter.quiet
  refine Ensures.bind (Ensures.lift (fun result hresult => ?_) fun _ _ => hafter'.now)
  refine Ensures.bind (Ensures.setState (Ensures.pure ?_))
  rw [Bool.not_eq_true] at hidleBefore hidleAfter
  subst hidleBefore hidleAfter
  refine ⟨(seen ++ [last]) ++ before ++
    [.readLeaf lease.leafHandle "cgroup.events" (.ok replyBefore),
      .readLeaf lease.leafHandle "memory.peak" (.ok reply),
      .readLeaf lease.leafHandle "cgroup.events" (.ok replyAfter)] ++ after, by simp, ?_⟩
  refine .measured hopen hattached ⟨seen ++ [last], before, _, reply, _, after, value, rfl, hbefore,
    ⟨replyBefore, rfl, hpopBefore⟩, hvalue, hresult, ⟨replyAfter, rfl, hpopAfter⟩, hafter, ?_⟩
  intro call hcall
  simp only [List.mem_append, List.mem_cons, List.not_mem_nil, or_false, or_assoc] at hcall
  rcases hcall with hcall | rfl | hcall | rfl | rfl | rfl | hcall
  · exact hseen call hcall
  · exact hlast.quiet
  · exact hbefore.quiet call hcall
  · simp [BackendCall.Quiet]
  · simp [BackendCall.Quiet]
  · simp [BackendCall.Quiet]
  · exact hafter.quiet call hcall

/-- A kill makes quiet calls, and possibly the write, under the new state. -/
theorem ensures_kill {Q : Unit → List BackendCall → LeaseFields → Prop} (hE : E calls fields)
    (hstable : fields.closed = false → QuietlyStable E calls fields)
    (hkilled : fields.closed = false → ∀ more : List BackendCall,
      (∀ call ∈ more, call.Quiet ∨ lease.IsKillWrite call) →
        E (calls ++ more) { fields with state := .terminationRequested } ∧
          Q () (calls ++ more) { fields with state := .terminationRequested }) :
    Ensures l (kill env l lease) Q E calls fields := by
  refine ensures_withAuthority hE (fun hopen => entry_of_stable (hstable hopen))
    fun hopen entered hentered => ?_
  have hquiet : ∀ call ∈ entered, call.Quiet ∨ lease.IsKillWrite call :=
    fun call hcall => .inl (hentered.1 call hcall)
  have hwrite : ∀ reply, ∀ call ∈ entered ++ [.writeLeaf lease.leafHandle "cgroup.kill" ['1'] reply],
      call.Quiet ∨ lease.IsKillWrite call := by
    intro reply call hcall
    rcases List.mem_append.mp hcall with hcall | hcall
    · exact hquiet call hcall
    · rw [List.mem_singleton] at hcall
      exact .inr ⟨_, reply, hcall⟩
  refine Ensures.bind (Ensures.setState (ensures_writeExact (hkilled hopen entered hquiet).1 ?_ ?_))
  · intro reply
    rw [List.append_assoc]
    exact (hkilled hopen _ (hwrite reply)).1
  · intro reply
    rw [List.append_assoc]
    exact (hkilled hopen _ (hwrite reply)).2

theorem Stopped.append {fields' : LeaseFields} {more : List BackendCall}
    (h : lease.Stopped fields calls fields') (hmore : ∀ call ∈ more, call.Quiet) :
    lease.Stopped fields (calls ++ more) fields' := by
  rcases h with ⟨rfl, hquiet⟩ | ⟨rfl, hcalm⟩
  · refine .inl ⟨rfl, fun call hcall => ?_⟩
    rcases List.mem_append.mp hcall with hcall | hcall
    · exact hquiet call hcall
    · exact hmore call hcall
  · refine .inr ⟨rfl, fun call hcall => ?_⟩
    rcases List.mem_append.mp hcall with hcall | hcall
    · exact hcalm call hcall
    · exact .inl (hmore call hcall)

theorem Stopped.closed {fields' : LeaseFields} (h : lease.Stopped fields calls fields') :
    fields'.closed = fields.closed := by
  rcases h with ⟨rfl, -⟩ | ⟨rfl, -⟩
  · rfl
  · rfl

theorem Stopped.reaches {op : Operation} {fields' : LeaseFields} {more : List BackendCall}
    (hop : Plain op) (hopen : fields.closed = false)
    (h : lease.Stopped fields more fields') :
    lease.Reaches op calls fields .raised (calls ++ more) fields' := by
  rcases h with ⟨rfl, hquiet⟩ | ⟨rfl, hcalm⟩
  · exact reaches_refused_quietly hop.2 hopen more hquiet
  · exact ⟨more, rfl, .killed hop hopen hcalm (.inl rfl)⟩

theorem ensures_removeLeaf {Q : Unit → List BackendCall → LeaseFields → Prop} (hE : E calls fields)
    (hfailed : ∀ e, E (calls ++ [.removeLeaf lease.leafHandle (.error e)]) fields)
    (hQ : Q () (calls ++ [.removeLeaf lease.leafHandle (.ok ())]) fields) :
    Ensures l (backendCall "failed to remove cgroup leaf"
      (removeLeaf env (.lease l) lease.backend lease.leafHandle)) Q E calls fields := by
  refine Ensures.backendCall (Ensures.bind (Ensures.requireRoot hE ?_))
  refine Ensures.get fun w _ _ => Ensures.recordReply (fun e he => ?_) fun _ hok => ?_
  · rw [he]
    exact hfailed e
  · rw [hok]
    exact hQ

/-- What `cleanup` does after it found out whether the leaf is populated. -/
theorem ensures_awaitAndRemove {op : Operation} {fields' : LeaseFields} {more : List BackendCall}
    (hop : Plain op) (hopen : fields.closed = false)
    (h : lease.Stopped fields more fields') :
    Ensures l (do
        awaitUnpopulated env l lease
        backendCall "failed to remove cgroup leaf"
          (removeLeaf env (.lease l) lease.backend lease.leafHandle)
        setClosed l)
      (fun _ => lease.Reaches op calls fields (.returned none))
      (lease.Reaches op calls fields .raised) (calls ++ more) fields' := by
  have hstable : QuietlyStable (lease.Reaches op calls fields .raised) (calls ++ more) fields' := by
    intro rest hrest
    rw [List.append_assoc]
    exact (h.append hrest).reaches hop hopen
  refine Ensures.bind (ensures_awaitUnpopulated hstable.now (fun _ => hstable) ?_)
  intro _ seen idle hseen hidle
  have hstopped := h.append hseen
  refine Ensures.bind (ensures_removeLeaf ?_ (fun e => ?_) (Ensures.setClosed ?_))
  · exact ((hstable.append hseen).concat _ hidle.quiet).now
  · refine ⟨more ++ seen ++ [idle, .removeLeaf lease.leafHandle (.error e)], by simp, ?_⟩
    have hfields : fields' =
        { fields' with closed := decide ((.error e : Except Raised Unit) = .ok ()) } := by
      simp [← hopen, ← h.closed]
    rw [hfields]
    exact .removal hop hopen (hfields ▸ hstopped) hidle (.inl ⟨rfl, e, rfl⟩)
  · refine ⟨more ++ seen ++ [idle, .removeLeaf lease.leafHandle (.ok ())], by simp, ?_⟩
    exact .removal hop hopen hstopped hidle (.inr ⟨rfl, rfl⟩)

theorem ensures_cleanup {op : Operation} (hop : Plain op) :
    Ensures l (cleanup env l lease)
      (fun _ => lease.Reaches op calls fields (.returned none))
      (lease.Reaches op calls fields .raised) calls fields := by
  refine Ensures.bind (Ensures.requireIssuingProcess reaches_refused ?_)
  refine Ensures.get fun w _ hfields => ?_
  split
  · exact Ensures.pure ⟨[], by simp, .observed hop (by simp) fun _ => rfl⟩
  · rename_i hclosed
    have hopen : fields.closed = false := by rwa [hfields, Bool.not_eq_true] at hclosed
    apply ensures_lockedBackendAuthority (reaches_refused_entry hopen)
    intro entered hentered
    have hstable : QuietlyStable (lease.Reaches op calls fields .raised) (calls ++ entered) fields :=
      (reaches_refused_quietly hop.2 hopen).append hentered.1
    refine Ensures.bind (ensures_isPopulated hstable fun reply populated _ => ?_)
    have hread := hstable.concat (.readLeaf lease.leafHandle "cgroup.events" (.ok reply))
      (by simp [BackendCall.Quiet])
    have hunkilled : lease.Stopped fields
        (entered ++ [.readLeaf lease.leafHandle "cgroup.events" (.ok reply)]) fields :=
      .append (.inl ⟨rfl, hentered.1⟩) (by simp [BackendCall.Quiet])
    rw [List.append_assoc]
    rw [List.append_assoc] at hread
    unfold killIf
    split
    · refine Ensures.bind (ensures_kill hread.now (fun _ => hread) fun _ killing hkilling => ?_)
      have hkilled : lease.Stopped fields
          ((entered ++ [.readLeaf lease.leafHandle "cgroup.events" (.ok reply)]) ++ killing)
          { fields with state := .terminationRequested } := by
        refine .inr ⟨rfl, fun call hcall => ?_⟩
        rcases List.mem_append.mp hcall with hcall | hcall
        · rcases hunkilled with ⟨-, hquiet⟩ | ⟨-, hcalm⟩
          · exact .inl (hquiet call hcall)
          · exact hcalm call hcall
        · exact hkilling call hcall
      rw [List.append_assoc calls]
      exact ⟨hkilled.reaches hop hopen, ensures_awaitAndRemove hop hopen hkilled⟩
    · exact Ensures.bind (Ensures.pure (ensures_awaitAndRemove hop hopen hunkilled))

/-! ### All operations -/

def outcomeOf : Except Raised (Option ℕ) → Outcome
  | .ok value => .returned value
  | .error _ => .raised

theorem ensures_returnNone {op : Operation} {p : Run Unit}
    (h : Ensures l p (fun _ => lease.Reaches op calls fields (.returned none))
      (lease.Reaches op calls fields .raised) calls fields) :
    Ensures l (do p; pure none) (fun value => lease.Reaches op calls fields (.returned value))
      (lease.Reaches op calls fields .raised) calls fields :=
  Ensures.bind (h.mono (fun _ _ _ h' => Ensures.pure h') fun _ _ h' => h')

theorem ensures_perform (op : Operation)
    (hauthority : fields.state = .attached → lease.productionCapability = none) :
    Ensures l (perform env l lease op) (fun value => lease.Reaches op calls fields (.returned value))
      (lease.Reaches op calls fields .raised) calls fields := by
  have hobserved : ∀ {op : Operation} {more : List BackendCall}, Plain op →
      fields.closed = false → (∀ call ∈ more, call.Quiet) →
      lease.Reaches op calls fields (.returned none) (calls ++ more) fields :=
    fun hop hopen hmore => ⟨_, rfl, .observed hop hmore (by simp [hopen])⟩
  cases op with
  | attachProcess pid => exact ensures_returnNone ensures_attachProcess
  | verifyEffectiveCpuset =>
      apply ensures_returnNone
      apply ensures_verifyEffectiveCpuset reaches_refused (reaches_refused_quietly (by simp))
      intro hopen entered sets hentered hsets
      rw [List.append_assoc]
      refine hobserved (by simp [Plain]) hopen fun call hcall => ?_
      rcases List.mem_append.mp hcall with hcall | hcall
      · exact hentered.1 call hcall
      · exact hsets.quiet call hcall
  | readMemoryPeakBytes =>
      refine Ensures.bind ((ensures_readMemoryPeakBytes hauthority).mono ?_ fun _ _ h => h)
      exact fun peak _ _ h => Ensures.pure h
  | awaitUnpopulated =>
      apply ensures_returnNone
      apply ensures_awaitUnpopulated reaches_refused (reaches_refused_quietly (by simp))
      intro hopen seen idle hseen hidle
      rw [List.append_assoc]
      refine hobserved (by simp [Plain]) hopen fun call hcall => ?_
      rcases List.mem_append.mp hcall with hcall | hcall
      · exact hseen call hcall
      · rw [List.mem_singleton.mp hcall]
        exact hidle.quiet
  | kill =>
      apply ensures_returnNone
      apply ensures_kill reaches_refused (reaches_refused_quietly (by simp))
      intro hopen more hmore
      exact ⟨⟨more, rfl, .killed (by simp [Plain]) hopen hmore (.inl rfl)⟩,
        ⟨more, rfl, .killed (by simp [Plain]) hopen hmore (.inr rfl)⟩⟩
  | cleanup => exact ensures_returnNone (ensures_cleanup (by simp [Plain]))
  | enter =>
      refine ensures_returnNone (Ensures.bind (Ensures.requireIssuingProcess reaches_refused ?_))
      refine Ensures.requireOpen (fun _ => reaches_refused) fun hopen => ?_
      simpa using @hobserved .enter [] (by simp [Plain]) hopen (by simp)
  | exit exception =>
      apply ensures_returnNone
      refine Ensures.onError (ensures_cleanup (by simp [Plain])) fun e calls' fields' h => ?_
      split
      · exact Ensures.raise h
      · exact Ensures.raise h

/-- Whatever the environment answers, an operation has one of its effects. -/
theorem perform_effect {op : Operation} {w w' : World} {result : Except Raised (Option ℕ)}
    (hauthority : (w.lease l).state = .attached → lease.productionCapability = none)
    (h : perform env l lease op w = (result, w')) :
    ∃ events, callLog l w' = callLog l w ++ events ∧
      lease.Effect op (w.lease l) events (outcomeOf result) (w'.lease l) := by
  have hends := @ensures_perform _ env l lease (callLog l w) _ op hauthority w rfl rfl
  rcases result with e | value
  · exact hends.of_error h
  · exact hends.of_ok h

end BindingCgroupLease

end MosaicArchive.Binding
