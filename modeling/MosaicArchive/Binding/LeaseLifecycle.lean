import MosaicArchive.Binding.LeaseEffects
import MosaicArchive.Effects.Trace

/-!
The life of a lease over whole histories. A run is any sequence of operations
on a fresh lease, with anything else the process does in between. The invariant
relates the lease's state to the calls made so far, and the laws say which call
may follow which.
-/

namespace MosaicArchive.Binding

namespace BindingCgroupLease

/-! ### Runs -/

/-- One finished operation: in which process it was called, what it asked of the
backend and how it ended. -/
structure CallRecord where
  pid : ℕ
  operation : Operation
  calls : List BackendCall
  outcome : Outcome

variable {Time : Type} (env : Environment Time) (l : ObjectId) (lease : BindingCgroupLease)

inductive LeaseRun (start : World) : List CallRecord → World → Prop where
  | nil : LeaseRun start [] start
  | call {records : List CallRecord} {w w' : World} {operation : Operation}
      {result : Except Raised (Option ℕ)} {calls : List BackendCall} (run : LeaseRun start records w)
      (step : perform env l lease operation w = (result, w'))
      (made : callLog l w' = callLog l w ++ calls) :
      LeaseRun start (records ++ [⟨w.pid, operation, calls, outcomeOf result⟩]) w'
  /-- Whatever happens outside this lease, forks and other leases included. -/
  | elsewhere {records : List CallRecord} {w w' : World} (run : LeaseRun start records w)
      (calls : callLog l w' = callLog l w) (fields : w'.lease l = w.lease l) :
      LeaseRun start records w'

variable {env l lease}

/-! ### Laws -/

def CallRecord.attaches (r : CallRecord) : Bool :=
  match r.operation, r.outcome with
  | .attachProcess _, .returned _ => true
  | _, _ => false

def CallRecord.ReturnsPeak (r : CallRecord) : Prop :=
  r.operation = .readMemoryPeakBytes ∧ ∃ value, r.outcome = .returned value

/-- A call of `kill` in the issuing process, or a write to `cgroup.kill`. -/
def CallRecord.RequestsKill (lease : BindingCgroupLease) (r : CallRecord) : Prop :=
  r.operation = .kill ∧ r.pid = lease.issuingPid ∨ ∃ call ∈ r.calls, lease.IsKillWrite call

def CallRecord.FailsAfterWrite (lease : BindingCgroupLease) (r : CallRecord) : Prop :=
  (∃ pid, r.operation = .attachProcess pid) ∧ r.outcome = .raised ∧
    ∃ call ∈ r.calls, lease.IsProcsWrite call

/-- A finalisation that began, so that the backend was called, and raised. -/
def CallRecord.FailsFinalisation (r : CallRecord) : Prop :=
  r.operation = .readMemoryPeakBytes ∧ r.outcome = .raised ∧ r.calls ≠ []

/-- What a returned peak says about the calls before it and about its own. -/
structure PeakLaw (lease : BindingCgroupLease) (before : List CallRecord) (r : CallRecord) : Prop where
  first : ∀ r' ∈ before, ¬ r'.ReturnsPeak
  attachedOnce : before.countP CallRecord.attaches = 1
  unkilled : ∀ r' ∈ before, ¬ r'.RequestsKill lease
  attachedCleanly : ∀ r' ∈ before, ¬ r'.FailsAfterWrite lease
  finalisedOnce : ∀ r' ∈ before, ¬ r'.FailsFinalisation
  finalised : ∃ peak, r.outcome = .returned (some peak) ∧ lease.Finalised r.calls peak

/-- What a backend call says about the calls before it. -/
structure BackendLaw (lease : BindingCgroupLease) (before : List BackendCall) (call : BackendCall) :
    Prop where
  procs : lease.IsProcsWrite call →
    lease.attachmentAuthority = .testOnlyDirectAttach ∧ ∀ c ∈ before, ¬ lease.IsProcsWrite c
  /-- The last read of `cgroup.events` before a removal reported unpopulated. -/
  removal : ∀ leaf reply, call = .removeLeaf leaf reply →
    ∃ earlier idle later, before = earlier ++ idle :: later ∧ lease.Idle idle ∧
      ∀ c ∈ later, ∀ leaf reply, c ≠ .readLeaf leaf "cgroup.events" reply
  unremoved : ∀ leaf, .removeLeaf leaf (.ok ()) ∉ before

def allCalls (records : List CallRecord) : List BackendCall := records.flatMap CallRecord.calls

@[simp] theorem allCalls_concat (records : List CallRecord) (r : CallRecord) :
    allCalls (records ++ [r]) = allCalls records ++ r.calls := by
  simp [allCalls]

/-! ### The invariant -/

/-- The lease has neither returned a peak nor failed in a way that rules one out. -/
structure Unspent (lease : BindingCgroupLease) (r : CallRecord) : Prop where
  noPeak : ¬ r.ReturnsPeak
  noFailedWrite : ¬ r.FailsAfterWrite lease
  noFailedFinalisation : ¬ r.FailsFinalisation

structure Inv (lease : BindingCgroupLease) (records : List CallRecord) (fields : LeaseFields) : Prop where
  peaks : Trace.Lawful (fun before r => r.ReturnsPeak → lease.PeakLaw before r) records
  backend : Trace.Lawful lease.BackendLaw (allCalls records)
  direct : fields.state = .attached → lease.attachmentAuthority = .testOnlyDirectAttach
  ready : fields.state = .ready →
    records.countP CallRecord.attaches = 0 ∧ ∀ call ∈ allCalls records, ¬ lease.IsProcsWrite call
  attachedOnce : fields.state = .attached → records.countP CallRecord.attaches = 1
  unspent : lease.productionCapability = none → fields.state = .ready ∨ fields.state = .attached →
    ∀ r ∈ records, lease.Unspent r
  unremoved : fields.closed = false → ∀ leaf, .removeLeaf leaf (.ok ()) ∉ allCalls records
  killed : lease.productionCapability = none → fields.closed = false →
    (∃ r ∈ records, r.RequestsKill lease) → fields.state = .terminationRequested

theorem capability_eq_none (h : lease.attachmentAuthority = .testOnlyDirectAttach) :
    lease.productionCapability = none := by
  have hauthority := lease.exactAuthority
  rw [h] at hauthority
  exact hauthority

theorem inv_nil : lease.Inv [] ⟨.ready, false⟩ := by
  constructor <;> simp [allCalls]

theorem BackendCall.Quiet.not_procs {call : BackendCall} (h : call.Quiet) : ¬ lease.IsProcsWrite call := by
  rintro ⟨value, reply, rfl⟩
  exact h

theorem BackendCall.Quiet.not_kill {call : BackendCall} (h : call.Quiet) : ¬ lease.IsKillWrite call := by
  rintro ⟨value, reply, rfl⟩
  exact h

/-- Quiet calls and kills may follow anything but a removal. -/
theorem lawful_of_calm {before more : List BackendCall}
    (hbefore : ∀ leaf, .removeLeaf leaf (.ok ()) ∉ before)
    (hmore : ∀ call ∈ more, call.Quiet ∨ lease.IsKillWrite call) :
    Trace.Lawful (fun b => lease.BackendLaw (before ++ b)) more := by
  intro b call after heq
  have hcall := hmore call (by simp [heq])
  refine ⟨?_, ?_, ?_⟩
  · intro hprocs
    rcases hcall with hquiet | ⟨value, reply, rfl⟩
    · exact absurd hprocs (BackendCall.Quiet.not_procs hquiet)
    · obtain ⟨_, _, h⟩ := hprocs
      simp at h
  · rintro leaf reply rfl
    rcases hcall with hquiet | ⟨_, _, h⟩
    · exact hquiet.elim
    · cases h
  · intro leaf hmem
    rcases List.mem_append.mp hmem with hmem | hmem
    · exact hbefore leaf hmem
    · have hmem' : .removeLeaf leaf (.ok ()) ∈ more := by
        rw [heq]
        exact List.mem_append_left _ hmem
      rcases hmore _ hmem' with hquiet | ⟨_, _, h⟩
      · exact hquiet
      · cases h

theorem not_removed_of_calm {more : List BackendCall}
    (hmore : ∀ call ∈ more, call.Quiet ∨ lease.IsKillWrite call) (leaf : ObjectId)
    (reply : Except Raised Unit) : .removeLeaf leaf reply ∉ more := by
  intro h
  rcases hmore _ h with h | ⟨_, _, h⟩
  · exact h
  · cases h

theorem not_procs_of_calm {more : List BackendCall}
    (hmore : ∀ call ∈ more, call.Quiet ∨ lease.IsKillWrite call) :
    ∀ call ∈ more, ¬ lease.IsProcsWrite call := by
  rintro call h ⟨value, reply, rfl⟩
  rcases hmore _ h with h | ⟨_, _, h⟩
  · exact h
  · simp at h

/-! ### One operation -/

/-- Adding a finished operation to a history: the laws for what it adds, and the
invariant for the fields it leaves. -/
theorem Inv.concat {records : List CallRecord} {fields fields' : LeaseFields} {r : CallRecord}
    (hinv : lease.Inv records fields)
    (hpeak : r.ReturnsPeak → lease.PeakLaw records r)
    (hcalls : Trace.Lawful (fun before => lease.BackendLaw (allCalls records ++ before)) r.calls)
    (hdirect : fields'.state = .attached → lease.attachmentAuthority = .testOnlyDirectAttach)
    (hready : fields'.state = .ready → fields.state = .ready ∧ r.attaches = false ∧
      ∀ call ∈ r.calls, ¬ lease.IsProcsWrite call)
    (hattached : fields'.state = .attached → fields.state = .ready ∧ r.attaches = true ∨
      fields.state = .attached ∧ r.attaches = false)
    (hunspent : lease.productionCapability = none → fields'.state = .ready ∨ fields'.state = .attached →
      lease.Unspent r)
    (hopen : fields'.closed = false → fields.closed = false ∧
      ∀ leaf, .removeLeaf leaf (.ok ()) ∉ r.calls)
    (hkilled : lease.productionCapability = none → fields'.closed = false →
      r.RequestsKill lease ∨ fields.state = .terminationRequested →
      fields'.state = .terminationRequested) :
    lease.Inv (records ++ [r]) fields' where
  peaks := Trace.lawful_concat.mpr ⟨hinv.peaks, hpeak⟩
  backend := by
    rw [allCalls_concat, Trace.lawful_append]
    exact ⟨hinv.backend, hcalls⟩
  direct := hdirect
  ready := by
    intro h
    obtain ⟨hstate, hattaches, hwrites⟩ := hready h
    obtain ⟨hcount, hnone⟩ := hinv.ready hstate
    refine ⟨by simp [hcount, hattaches], fun call hcall => ?_⟩
    rw [allCalls_concat] at hcall
    rcases List.mem_append.mp hcall with hcall | hcall
    · exact hnone call hcall
    · exact hwrites call hcall
  attachedOnce := by
    intro h
    rcases hattached h with ⟨hstate, hattaches⟩ | ⟨hstate, hattaches⟩
    · simp [(hinv.ready hstate).1, hattaches]
    · simp [hinv.attachedOnce hstate, hattaches]
  unspent := by
    intro hnone h r' hr'
    rcases List.mem_append.mp hr' with hr' | hr'
    · refine hinv.unspent hnone ?_ r' hr'
      rcases h with h | h
      · exact .inl (hready h).1
      · rcases hattached h with ⟨hstate, -⟩ | ⟨hstate, -⟩
        · exact .inl hstate
        · exact .inr hstate
    · rw [List.mem_singleton] at hr'
      subst hr'
      exact hunspent hnone h
  unremoved := by
    intro h leaf hmem
    rw [allCalls_concat] at hmem
    rcases List.mem_append.mp hmem with hmem | hmem
    · exact hinv.unremoved (hopen h).1 leaf hmem
    · exact (hopen h).2 leaf hmem
  killed := by
    rintro hnone h ⟨r', hr', hkill⟩
    apply hkilled hnone h
    rcases List.mem_append.mp hr' with hr' | hr'
    · exact .inr (hinv.killed hnone (hopen h).1 ⟨r', hr', hkill⟩)
    · rw [List.mem_singleton] at hr'
      subst hr'
      exact .inl hkill

theorem not_killed_of_quiet {more : List BackendCall} (hmore : ∀ call ∈ more, call.Quiet) :
    ¬ ∃ call ∈ more, lease.IsKillWrite call := by
  rintro ⟨call, hcall, hkill⟩
  exact BackendCall.Quiet.not_kill (hmore call hcall) hkill

theorem attaches_of_raised {pid : ℕ} {op : Operation} {calls : List BackendCall} :
    CallRecord.attaches ⟨pid, op, calls, .raised⟩ = false := by
  cases op <;> rfl

theorem attaches_of_plain {pid : ℕ} {op : Operation} {calls : List BackendCall} {outcome : Outcome}
    (h : Plain op) : CallRecord.attaches ⟨pid, op, calls, outcome⟩ = false := by
  cases op with
  | attachProcess p => exact absurd rfl (h.1 p)
  | _ => rfl

theorem not_returnsPeak_of_raised {pid : ℕ} {op : Operation} {calls : List BackendCall} :
    ¬ CallRecord.ReturnsPeak ⟨pid, op, calls, .raised⟩ := by
  rintro ⟨-, value, h⟩
  cases h

theorem not_returnsPeak_of_plain {pid : ℕ} {op : Operation} {calls : List BackendCall}
    {outcome : Outcome} (h : Plain op) : ¬ CallRecord.ReturnsPeak ⟨pid, op, calls, outcome⟩ :=
  fun hpeak => h.2 hpeak.1

theorem unspent_of_plain {pid : ℕ} {op : Operation} {calls : List BackendCall} {outcome : Outcome}
    (h : Plain op) : lease.Unspent ⟨pid, op, calls, outcome⟩ where
  noPeak := not_returnsPeak_of_plain h
  noFailedWrite := fun hfail => hfail.1.elim h.1
  noFailedFinalisation := fun hfail => h.2 hfail.1

/-- Calls that may be made while the lease is open, and none when it is closed. -/
theorem Inv.lawful_calm {records : List CallRecord} {fields : LeaseFields} {more : List BackendCall}
    (hinv : lease.Inv records fields) (hclosed : fields.closed = true → more = [])
    (hmore : ∀ call ∈ more, call.Quiet ∨ lease.IsKillWrite call) :
    Trace.Lawful (fun before => lease.BackendLaw (allCalls records ++ before)) more := by
  cases h : fields.closed with
  | false => exact lawful_of_calm (hinv.unremoved h) hmore
  | true =>
      rw [hclosed h]
      exact Trace.lawful_nil

section Steps

variable {records : List CallRecord} {fields : LeaseFields} {calls : List BackendCall} {pid : ℕ}
  {op : Operation}

/-- An operation that only looked, or was refused, leaves the fields alone. -/
theorem Inv.unchanged {outcome : Outcome} (hinv : lease.Inv records fields)
    (hquiet : ∀ call ∈ calls, call.Quiet) (hclosed : fields.closed = true → calls = [])
    (hattaches : CallRecord.attaches ⟨pid, op, calls, outcome⟩ = false)
    (hunspent : lease.productionCapability = none → lease.Unspent ⟨pid, op, calls, outcome⟩)
    (hpeak : ¬ CallRecord.ReturnsPeak ⟨pid, op, calls, outcome⟩)
    (hkill : op = .kill → pid = lease.issuingPid → lease.productionCapability = none →
      fields.closed = false → fields.state = .terminationRequested) :
    lease.Inv (records ++ [⟨pid, op, calls, outcome⟩]) fields := by
  apply hinv.concat (absurd · hpeak)
  · exact hinv.lawful_calm hclosed fun call hcall => .inl (hquiet call hcall)
  · exact hinv.direct
  · exact fun h => ⟨h, hattaches, fun call hcall => BackendCall.Quiet.not_procs (hquiet call hcall)⟩
  · exact fun h => .inr ⟨h, hattaches⟩
  · exact fun hnone _ => hunspent hnone
  · exact fun h => ⟨h, fun leaf hmem => hquiet _ hmem⟩
  · rintro hnone hopen ((⟨hop, hpid⟩ | hwrite) | hstate)
    · exact hkill hop hpid hnone hopen
    · exact absurd hwrite (not_killed_of_quiet hquiet)
    · exact hstate

/-- What `attach_process` writes may follow what a ready lease has done. -/
theorem Inv.lawful_placed {before after : List BackendCall} {write : BackendCall}
    (hinv : lease.Inv records fields) (hdirect : lease.attachmentAuthority = .testOnlyDirectAttach)
    (hopen : fields.closed = false) (hready : fields.state = .ready)
    (hbefore : ∀ call ∈ before, call.Quiet) (hwrite : lease.IsProcsWrite write)
    (hafter : ∀ call ∈ after, call.Quiet) :
    Trace.Lawful (fun b => lease.BackendLaw (allCalls records ++ b)) (before ++ write :: after) := by
  have hunremoved : ∀ leaf, .removeLeaf leaf (.ok ()) ∉ allCalls records ++ before := by
    intro leaf hmem
    rcases List.mem_append.mp hmem with hmem | hmem
    · exact hinv.unremoved hopen leaf hmem
    · exact hbefore _ hmem
  obtain ⟨value, reply, rfl⟩ := hwrite
  rw [← List.singleton_append, ← List.append_assoc, Trace.lawful_append, Trace.lawful_append,
    Trace.lawful_singleton]
  refine ⟨⟨lawful_of_calm (hinv.unremoved hopen) fun call hcall => .inl (hbefore call hcall), ?_⟩, ?_⟩
  · rw [List.append_nil]
    refine ⟨fun _ => ⟨hdirect, fun c hc => ?_⟩, fun leaf reply h => ?_, hunremoved⟩
    · rcases List.mem_append.mp hc with hc | hc
      · exact (hinv.ready hready).2 c hc
      · exact BackendCall.Quiet.not_procs (hbefore c hc)
    · cases h
  · have hwritten : ∀ leaf, .removeLeaf leaf (.ok ()) ∉ allCalls records ++ (before ++
        [.writeLeaf lease.leafHandle "cgroup.procs" value reply]) := by
      intro leaf hmem
      rw [← List.append_assoc] at hmem
      rcases List.mem_append.mp hmem with hmem | hmem
      · exact hunremoved leaf hmem
      · simp at hmem
    have h : Trace.Lawful (fun b => lease.BackendLaw (allCalls records ++ (before ++
        [.writeLeaf lease.leafHandle "cgroup.procs" value reply]) ++ b)) after :=
      lawful_of_calm hwritten fun call hcall => .inl (hafter call hcall)
    simpa only [List.append_assoc] using h

/-- A removal follows a read that saw the leaf idle. -/
theorem Inv.lawful_removal {before : List BackendCall} {idle : BackendCall} {reply : Except Raised Unit}
    (hinv : lease.Inv records fields) (hopen : fields.closed = false)
    (hbefore : ∀ call ∈ before, call.Quiet ∨ lease.IsKillWrite call) (hidle : lease.Idle idle) :
    Trace.Lawful (fun b => lease.BackendLaw (allCalls records ++ b))
      (before ++ [idle, .removeLeaf lease.leafHandle reply]) := by
  have hcalm : ∀ call ∈ before ++ [idle], call.Quiet ∨ lease.IsKillWrite call := by
    intro call hcall
    rcases List.mem_append.mp hcall with hcall | hcall
    · exact hbefore call hcall
    · rw [List.mem_singleton.mp hcall]
      exact .inl hidle.quiet
  have hsplit : before ++ [idle, .removeLeaf lease.leafHandle reply] =
      (before ++ [idle]) ++ [.removeLeaf lease.leafHandle reply] := by
    rw [List.append_assoc]
    rfl
  rw [hsplit, Trace.lawful_append, Trace.lawful_singleton]
  refine ⟨lawful_of_calm (hinv.unremoved hopen) hcalm, fun hprocs => ?_, fun leaf reply' h => ?_, ?_⟩
  · obtain ⟨_, _, h⟩ := hprocs
    cases h
  · refine ⟨allCalls records ++ before, idle, [], by simp, hidle, by simp⟩
  · intro leaf hmem
    rw [List.append_nil] at hmem
    rcases List.mem_append.mp hmem with hmem | hmem
    · exact hinv.unremoved hopen leaf hmem
    · exact not_removed_of_calm hcalm leaf _ hmem

/-- Every effect of an operation keeps the invariant. -/
theorem Inv.effect {outcome : Outcome} {fields' : LeaseFields} (hinv : lease.Inv records fields)
    (heffect : lease.Effect op fields calls outcome fields')
    (hkill : op = .kill → pid = lease.issuingPid → lease.productionCapability = none →
      fields.closed = false → fields'.state = .terminationRequested) :
    lease.Inv (records ++ [⟨pid, op, calls, outcome⟩]) fields' := by
  cases heffect with
  | refused quiet closed entry =>
      refine hinv.unchanged quiet closed attaches_of_raised (fun hnone => ?_)
        not_returnsPeak_of_raised hkill
      refine ⟨not_returnsPeak_of_raised, ?_, ?_⟩
      · rintro ⟨-, -, call, hcall, hwrite⟩
        exact BackendCall.Quiet.not_procs (quiet call hcall) hwrite
      · rintro ⟨hop, -, hcalls⟩
        exact hcalls ((entry hop).2 hnone)
  | observed plain quiet closed =>
      exact hinv.unchanged quiet closed (attaches_of_plain plain) (fun _ => unspent_of_plain plain)
        (not_returnsPeak_of_plain plain) hkill
  | notPlaced direct isOpen ready quiet =>
      refine hinv.concat (absurd · not_returnsPeak_of_raised) ?_ (by simp) (by simp) (by simp)
        (by simp) (fun h => ⟨h, fun leaf hmem => quiet _ hmem⟩) ?_
      · exact hinv.lawful_calm (by simp [isOpen]) fun call hcall => .inl (quiet call hcall)
      · rintro - - ((⟨hop, -⟩ | hwrite) | hstate)
        · cases hop
        · exact absurd hwrite (not_killed_of_quiet quiet)
        · rw [ready] at hstate
          cases hstate
  | @placed p _ before after write _ state direct isOpen ready quietBefore isWrite quietAfter result =>
      have hnotPeak : ¬ CallRecord.ReturnsPeak
          ⟨pid, .attachProcess p, before ++ write :: after, outcome⟩ := by
        rintro ⟨hop, -⟩
        cases hop
      have hquiet : ∀ call ∈ before ++ write :: after, call.Quiet ∨ call = write := by
        intro call hcall
        rcases List.mem_append.mp hcall with hcall | hcall
        · exact .inl (quietBefore call hcall)
        · rcases List.mem_cons.mp hcall with rfl | hcall
          · exact .inr rfl
          · exact .inl (quietAfter call hcall)
      refine hinv.concat (absurd · hnotPeak) ?_ (fun _ => direct) ?_ ?_ ?_ (fun h => ⟨h, ?_⟩) ?_
      · exact hinv.lawful_placed direct isOpen ready quietBefore isWrite quietAfter
      · rcases result with ⟨-, rfl⟩ | ⟨-, rfl⟩ <;> simp
      · rcases result with ⟨-, rfl⟩ | ⟨rfl, rfl⟩
        · simp
        · exact fun _ => .inl ⟨ready, rfl⟩
      · rcases result with ⟨-, rfl⟩ | ⟨rfl, rfl⟩
        · simp
        · refine fun _ _ => ⟨hnotPeak, ?_, ?_⟩
          · rintro ⟨-, h, -⟩
            cases h
          · rintro ⟨hop, -⟩
            cases hop
      · intro leaf hmem
        obtain ⟨value, reply, rfl⟩ := isWrite
        rcases hquiet _ hmem with h | h
        · exact h
        · cases h
      · rintro - - ((⟨hop, -⟩ | ⟨call, hcall, hwrite⟩) | hstate)
        · cases hop
        · obtain ⟨value, reply, rfl⟩ := isWrite
          obtain ⟨value', reply', rfl⟩ := hwrite
          rcases hquiet _ hcall with h | h
          · exact h.elim
          · simp at h
        · rw [ready] at hstate
          cases hstate
  | finalisationFailed isOpen attached quiet =>
      refine hinv.concat (absurd · not_returnsPeak_of_raised) ?_ (by simp) (by simp) (by simp)
        (by simp) (fun h => ⟨h, fun leaf hmem => quiet _ hmem⟩) ?_
      · exact hinv.lawful_calm (by simp [isOpen]) fun call hcall => .inl (quiet call hcall)
      · rintro - - ((⟨hop, -⟩ | hwrite) | hstate)
        · cases hop
        · exact absurd hwrite (not_killed_of_quiet quiet)
        · rw [attached] at hstate
          cases hstate
  | @measured _ _ peak isOpen attached finalised =>
      have hquiet : ∀ call ∈ calls, call.Quiet := by
        obtain ⟨_, _, _, _, _, _, _, _, _, _, _, _, _, _, hquiet⟩ := finalised
        exact hquiet
      have hnone := capability_eq_none (hinv.direct attached)
      refine hinv.concat ?_ ?_ (by simp) (by simp) (by simp) (by simp)
        (fun h => ⟨h, fun leaf hmem => hquiet _ hmem⟩) ?_
      · intro _
        have hunspent := hinv.unspent hnone (.inr attached)
        refine ⟨fun r hr => (hunspent r hr).noPeak, hinv.attachedOnce attached, fun r hr h => ?_,
          fun r hr => (hunspent r hr).noFailedWrite, fun r hr => (hunspent r hr).noFailedFinalisation,
          peak, rfl, finalised⟩
        have hstate := hinv.killed hnone isOpen ⟨r, hr, h⟩
        rw [attached] at hstate
        cases hstate
      · exact hinv.lawful_calm (by simp [isOpen]) fun call hcall => .inl (hquiet call hcall)
      · rintro - - ((⟨hop, -⟩ | hwrite) | hstate)
        · cases hop
        · exact absurd hwrite (not_killed_of_quiet hquiet)
        · rw [attached] at hstate
          cases hstate
  | killed plain isOpen calm result =>
      refine hinv.concat (absurd · (not_returnsPeak_of_plain plain)) ?_ (by simp)
        (by simp) (by simp) (by simp) (fun h => ⟨h, fun leaf => not_removed_of_calm calm leaf _⟩)
        (fun _ _ _ => rfl)
      exact hinv.lawful_calm (by simp [isOpen]) calm
  | @removal _ _ stopped before idle reply _ plain isOpen stops isIdle result =>
      have hcalm : ∀ call ∈ before, call.Quiet ∨ lease.IsKillWrite call := by
        rcases stops with ⟨-, hquiet⟩ | ⟨-, hcalm⟩
        · exact fun call hcall => .inl (hquiet call hcall)
        · exact hcalm
      have hstates : stopped.state = .terminationRequested ∨ stopped.state = fields.state ∧
          ¬ ∃ call ∈ before, lease.IsKillWrite call := by
        rcases stops with ⟨rfl, hquiet⟩ | ⟨rfl, -⟩
        · exact .inr ⟨rfl, not_killed_of_quiet hquiet⟩
        · exact .inl rfl
      have hnotProcs : ∀ call ∈ before ++ [idle, .removeLeaf lease.leafHandle reply],
          ¬ lease.IsProcsWrite call := by
        intro call hcall
        rcases List.mem_append.mp hcall with hcall | hcall
        · exact not_procs_of_calm hcalm call hcall
        · simp only [List.mem_cons, List.not_mem_nil, or_false] at hcall
          rcases hcall with rfl | rfl
          · exact BackendCall.Quiet.not_procs isIdle.quiet
          · rintro ⟨_, _, h⟩
            cases h
      refine hinv.concat (absurd · (not_returnsPeak_of_plain plain))
        (hinv.lawful_removal isOpen hcalm isIdle) ?_ ?_ ?_ (fun _ _ => unspent_of_plain plain) ?_ ?_
      · intro h
        rcases hstates with hstate | ⟨hstate, -⟩
        · rw [hstate] at h
          cases h
        · exact hinv.direct (hstate.symm.trans h)
      · intro h
        rcases hstates with hstate | ⟨hstate, -⟩
        · rw [hstate] at h
          cases h
        · exact ⟨hstate.symm.trans h, attaches_of_plain plain, hnotProcs⟩
      · intro h
        rcases hstates with hstate | ⟨hstate, -⟩
        · rw [hstate] at h
          cases h
        · exact .inr ⟨hstate.symm.trans h, attaches_of_plain plain⟩
      · intro h
        refine ⟨isOpen, fun leaf hmem => ?_⟩
        rcases List.mem_append.mp hmem with hmem | hmem
        · exact not_removed_of_calm hcalm leaf _ hmem
        · simp only [List.mem_cons, List.not_mem_nil, or_false] at hmem
          rcases hmem with hmem | hmem
          · have := isIdle.quiet
            rw [← hmem] at this
            exact this
          · have hreply : reply = .ok () := (BackendCall.removeLeaf.inj hmem).2.symm
            simp [hreply] at h
      · intro hnone h hreason
        rcases hstates with hstate | ⟨hstate, hunkilled⟩
        · exact hstate
        · rcases hreason with (⟨hop, hpid⟩ | ⟨call, hcall, hwrite⟩) | hreason
          · exact hkill hop hpid hnone isOpen
          · rcases List.mem_append.mp hcall with hcall | hcall
            · exact absurd ⟨call, hcall, hwrite⟩ hunkilled
            · simp only [List.mem_cons, List.not_mem_nil, or_false] at hcall
              rcases hcall with rfl | rfl
              · exact absurd hwrite (BackendCall.Quiet.not_kill isIdle.quiet)
              · obtain ⟨_, _, h'⟩ := hwrite
                cases h'
          · exact hstate.trans hreason

end Steps

/-! ### Whole runs -/

/-- A kill in the issuing process of an open lease that needs no capability is
recorded in the state before anything can fail. -/
theorem perform_kill_state {w w' : World} {result : Except Raised (Option ℕ)}
    (h : perform env l lease .kill w = (result, w')) (hpid : w.pid = lease.issuingPid)
    (hnone : lease.productionCapability = none) (hopen : (w.lease l).closed = false) :
    (w'.lease l).state = .terminationRequested := by
  have hbody : Ensures l
      (do
        setState l .terminationRequested
        writeExact env l lease "cgroup.kill" ['1']
        pure (none : Option ℕ))
      (fun _ _ fields => fields.state = .terminationRequested)
      (fun _ fields => fields.state = .terminationRequested) (callLog l w) (w.lease l) := by
    refine Ensures.bind (Ensures.setState (Ensures.bind ?_))
    exact ensures_writeExact rfl (fun _ => rfl) fun _ => Ensures.pure rfl
  have hbody := hbody w rfl rfl
  have hends : (perform env l lease .kill).Ends
      (fun _ w' => (w'.lease l).state = .terminationRequested)
      (fun _ w' => (w'.lease l).state = .terminationRequested) w := by
    simp only [perform, kill, withAuthority, lockedBackendAuthority, requireIssuingProcess, requireOpen,
      hnone, Routine.ends_bind, Routine.ends_get, Routine.ends_raiseIf, hpid, hopen, ne_eq, not_true,
      not_false_eq_true, Bool.false_eq_true, false_implies, forall_const, true_and]
    simpa only [Routine.ends_bind] using hbody
  rcases result with e | value
  · exact hends.of_error h
  · exact hends.of_ok h

theorem LeaseRun.inv {start w : World} {records : List CallRecord}
    (hfresh : start.lease l = ⟨.ready, false⟩) (hrun : LeaseRun env l lease start records w) :
    lease.Inv records (w.lease l) := by
  induction hrun with
  | nil =>
      rw [hfresh]
      exact inv_nil
  | @call records w w' operation result calls run step made ih =>
      have hauthority : (w.lease l).state = .attached → lease.productionCapability = none :=
        fun h => capability_eq_none (ih.direct h)
      obtain ⟨events, hevents, heffect⟩ := perform_effect hauthority step
      obtain rfl : calls = events := List.append_cancel_left (made.symm.trans hevents)
      refine ih.effect heffect fun hop hpid hnone hopen => ?_
      subst hop
      exact perform_kill_state step hpid hnone hopen
  | elsewhere run calls fields ih =>
      rw [fields]
      exact ih

/-- In every run of a fresh lease, whatever the backend answers, each returned
peak and each backend call obeys its law. -/
theorem lease_lifecycle {start w : World} {records : List CallRecord}
    (hfresh : start.lease l = ⟨.ready, false⟩) (hrun : LeaseRun env l lease start records w) :
    Trace.Lawful (fun before r => r.ReturnsPeak → lease.PeakLaw before r) records ∧
      Trace.Lawful lease.BackendLaw (allCalls records) :=
  have hinv := hrun.inv hfresh
  ⟨hinv.peaks, hinv.backend⟩

/-- A backend whose leaf is empty once the process has left. -/
def calmEnvironment : Environment ℕ where
  readLeaf := fun _ _ _ filename => .ok (.text (match filename with
    | "cgroup.events" => "populated 0\n".toList
    | "cgroup.procs" => "7\n".toList
    | "memory.peak" => "4096\n".toList
    | _ => "0\n".toList))
  writeLeaf := fun _ _ _ _ value => .ok (.int value.length)
  removeLeaf := fun _ _ _ => .ok ()
  validateRoot := fun _ _ => .ok ()
  monotonic := fun history _ => .ok history.length
  sleep := fun _ _ => .ok ()
  closeDescriptor := fun _ _ => .ok ()
  closeSocket := fun _ _ => .ok ()
  channelEvent := fun _ _ => .ok false
  deadline := fun now seconds => .ok (now + seconds)
  reached := fun now deadline => .ok (decide (deadline ≤ now))
  polls := fun _ => 8
  fixedPolicySha256 := ""

def directLease : BindingCgroupLease where
  qualification := ⟨⟨30, 10⟩, [0], [0], none, none, none, 1, 2, none⟩
  backend := 1
  rootHandle := 2
  leafHandle := 3
  attachmentAuthority := .testOnlyDirectAttach
  productionCapability := none
  issuingPid := 5
  exactQualified := ⟨rfl, rfl⟩
  exactAuthority := rfl

/-- A process in which every lease is fresh and no capability was issued. -/
def freshWorld : World where
  pid := 5
  issued := []
  capability := fun _ => ⟨1, false, none, 5, "", false, 2, ⟨1, 1⟩, ""⟩
  backend := fun _ => ⟨false, 2, none, false⟩
  socketOpen := fun _ => false
  lease := fun _ => ⟨.ready, false⟩
  history := []

theorem lease_lifecycle_attach_and_measure :
    ∃ records w, LeaseRun calmEnvironment 0 directLease freshWorld records w ∧
      (∃ r ∈ records, r.ReturnsPeak ∧ r.outcome = .returned (some 4096)) ∧
      Trace.Lawful (fun before r => r.ReturnsPeak → directLease.PeakLaw before r) records ∧
      Trace.Lawful directLease.BackendLaw (allCalls records) := by
  let attach := perform calmEnvironment 0 directLease (.attachProcess (some 7)) freshWorld
  let measure := perform calmEnvironment 0 directLease .readMemoryPeakBytes attach.2
  have hpeak : measure.1 = .ok (some 4096) := by decide +kernel
  have hattach : perform calmEnvironment 0 directLease (.attachProcess (some 7)) freshWorld =
      (attach.1, attach.2) := rfl
  have hmeasure : perform calmEnvironment 0 directLease .readMemoryPeakBytes attach.2 =
      (measure.1, measure.2) := rfl
  obtain ⟨attachCalls, hattachCalls, -⟩ := perform_effect (fun _ => rfl) hattach
  obtain ⟨measureCalls, hmeasureCalls, -⟩ := perform_effect (fun _ => rfl) hmeasure
  have hrun := (LeaseRun.nil.call hattach hattachCalls).call hmeasure hmeasureCalls
  refine ⟨_, _, hrun, ⟨_, List.mem_append_right _ (List.mem_singleton.mpr rfl), ?_⟩,
    lease_lifecycle rfl hrun⟩
  rw [hpeak]
  exact ⟨⟨rfl, _, rfl⟩, rfl⟩

end BindingCgroupLease

end MosaicArchive.Binding
