import Mathlib.Tactic

/-!
Threads that take and give back reentrant locks. A thread starts an operation
with a sequence of lock actions, asks for a lock, is granted it when the lock is
free or its own, and gives it back. A set of threads is deadlocked when each of
them waits for a lock that another of them holds; a rank that falls along the
waiting rules this out.
-/

namespace Locks

variable {Thread Lock Kind : Type}

inductive LockAction (Lock : Type) where
  | acquire (lock : Lock)
  | release (lock : Lock)
  deriving DecidableEq, Repr

structure ThreadState (Kind Lock : Type) where
  /-- The operation the thread is in. -/
  kind : Kind
  /-- It has asked for the lock of its next action. -/
  waiting : Bool
  todo : List (LockAction Lock)

structure State (Thread Kind Lock : Type) where
  thread : Thread → ThreadState Kind Lock
  holder : Lock → Option (Thread × ℕ)

inductive Label (Thread Kind Lock : Type) where
  | start (t : Thread) (kind : Kind) (todo : List (LockAction Lock))
  | request (t : Thread)
  | grant (t : Thread)
  | release (t : Thread)

section

variable [DecidableEq Thread]

/-- How often the thread holds the lock. -/
def State.held (s : State Thread Kind Lock) (t : Thread) (x : Lock) : ℕ :=
  match s.holder x with
  | some (t', n) => if t' = t then n else 0
  | none => 0

def State.WaitsFor (s : State Thread Kind Lock) (t : Thread) (x : Lock) : Prop :=
  (s.thread t).waiting = true ∧ ∃ rest, (s.thread t).todo = .acquire x :: rest

/-- The first thread waits for a lock that the second holds. -/
def State.Blocks (s : State Thread Kind Lock) (t t' : Thread) : Prop :=
  ∃ x, s.WaitsFor t x ∧ t' ≠ t ∧ 0 < s.held t' x

def State.Deadlocked (s : State Thread Kind Lock) (threads : Set Thread) : Prop :=
  threads.Nonempty ∧ ∀ t ∈ threads, ∃ t' ∈ threads, s.Blocks t t'

/-- No set of threads is deadlocked when a rank falls from each blocked thread to
a blocked thread that blocks it. -/
theorem not_deadlocked_of_rank {s : State Thread Kind Lock} (rank : Thread → ℕ)
    (hrank : ∀ t t' t'', s.Blocks t t' → s.Blocks t' t'' → rank t' < rank t) (threads : Set Thread) :
    ¬ s.Deadlocked threads := by
  rintro ⟨hnonempty, hblocked⟩
  obtain ⟨t, ht, hmin⟩ := (measure rank).wf.has_min threads hnonempty
  obtain ⟨t', ht', hblocks⟩ := hblocked t ht
  obtain ⟨t'', -, hblocks'⟩ := hblocked t' ht'
  exact hmin t' ht' (hrank t t' t'' hblocks hblocks')

/-- A lock has one holder. -/
theorem held_unique {s : State Thread Kind Lock} {t t' : Thread} {x : Lock} (h : 0 < s.held t x)
    (h' : 0 < s.held t' x) : t = t' := by
  unfold State.held at h h'
  rcases hx : s.holder x with _ | ⟨owner, n⟩
  · rw [hx] at h
    exact absurd h (Nat.lt_irrefl 0)
  · rw [hx] at h h'
    by_cases ht : owner = t
    · by_cases ht' : owner = t'
      · exact ht.symm.trans ht'
      · simp [ht'] at h'
    · simp [ht] at h

/-! ### Steps -/

variable [DecidableEq Lock]

def State.setThread (s : State Thread Kind Lock) (t : Thread) (value : ThreadState Kind Lock) :
    State Thread Kind Lock :=
  { s with thread := Function.update s.thread t value }

def State.setHolder (s : State Thread Kind Lock) (x : Lock) (value : Option (Thread × ℕ)) :
    State Thread Kind Lock :=
  { s with holder := Function.update s.holder x value }

/-- The state after a step, where the step is enabled. -/
def State.apply (s : State Thread Kind Lock) : Label Thread Kind Lock → Option (State Thread Kind Lock)
  | .start t kind todo =>
      if (s.thread t).todo = [] then some (s.setThread t ⟨kind, false, todo⟩) else none
  | .request t =>
      match s.thread t with
      | ⟨kind, false, .acquire x :: rest⟩ => some (s.setThread t ⟨kind, true, .acquire x :: rest⟩)
      | _ => none
  | .grant t =>
      match s.thread t with
      | ⟨kind, true, .acquire x :: rest⟩ =>
          match s.holder x with
          | none => some ((s.setThread t ⟨kind, false, rest⟩).setHolder x (some (t, 1)))
          | some (t', n) =>
              if t' = t then some ((s.setThread t ⟨kind, false, rest⟩).setHolder x (some (t, n + 1)))
              else none
      | _ => none
  | .release t =>
      match s.thread t with
      | ⟨kind, _, .release x :: rest⟩ =>
          match s.holder x with
          | some (t', n + 1) =>
              if t' = t then
                some ((s.setThread t ⟨kind, false, rest⟩).setHolder x (if n = 0 then none else some (t, n)))
              else none
          | _ => none
      | _ => none

/-! ### Nesting -/

/-- Each action is permitted by what is held before it, and in the end nothing is held. -/
def Allowed (permitted : (Lock → ℕ) → Lock → Prop) : (Lock → ℕ) → List (LockAction Lock) → Prop
  | held, [] => ∀ x, held x = 0
  | held, .acquire x :: rest =>
      permitted held x ∧ Allowed permitted (Function.update held x (held x + 1)) rest
  | held, .release x :: rest =>
      0 < held x ∧ Allowed permitted (Function.update held x (held x - 1)) rest

/-- `with lock: body` -/
def withLock (x : Lock) (body : List (LockAction Lock)) : List (LockAction Lock) :=
  .acquire x :: body ++ [.release x]

/-- The actions may stand wherever the locks in `held` are held, and give back what they take. -/
def Nests (permitted : (Lock → ℕ) → Lock → Prop) (held : Lock → ℕ) (body : List (LockAction Lock)) :
    Prop :=
  ∀ rest, Allowed permitted held rest → Allowed permitted held (body ++ rest)

variable {permitted : (Lock → ℕ) → Lock → Prop} {held : Lock → ℕ}

theorem nests_nil : Nests permitted held [] := fun _ h => h

theorem Nests.append {first second : List (LockAction Lock)} (h : Nests permitted held first)
    (h' : Nests permitted held second) : Nests permitted held (first ++ second) := by
  intro rest hrest
  rw [List.append_assoc]
  exact h _ (h' rest hrest)

theorem nests_flatMap {α : Type} {as : List α} {f : α → List (LockAction Lock)}
    (h : ∀ a ∈ as, Nests permitted held (f a)) : Nests permitted held (as.flatMap f) := by
  induction as with
  | nil => exact nests_nil
  | cons a as ih =>
      rw [List.flatMap_cons]
      exact (h a List.mem_cons_self).append (ih fun b hb => h b (List.mem_cons_of_mem a hb))

theorem nests_withLock {x : Lock} {body : List (LockAction Lock)} (hx : permitted held x)
    (hbody : Nests permitted (Function.update held x (held x + 1)) body) :
    Nests permitted held (withLock x body) := by
  intro rest hrest
  refine ⟨hx, ?_⟩
  show Allowed permitted _ ((body ++ [.release x]) ++ rest)
  rw [List.append_assoc]
  apply hbody
  refine ⟨by simp, ?_⟩
  simpa using hrest

theorem Nests.allowed {body : List (LockAction Lock)} (h : Nests permitted (fun _ => 0) body) :
    Allowed permitted (fun _ => 0) body := by
  simpa using h [] fun _ => rfl

/-! ### What a step changes -/

variable {s s' : State Thread Kind Lock}

/-- What a step changes: the state of one thread, and at most one lock, which was
free or the thread's own. -/
inductive Change (s : State Thread Kind Lock) :
    Label Thread Kind Lock → State Thread Kind Lock → Prop where
  | start {t : Thread} {kind : Kind} {todo : List (LockAction Lock)} (idle : (s.thread t).todo = []) :
      Change s (.start t kind todo) (s.setThread t ⟨kind, false, todo⟩)
  | request {t : Thread} {kind : Kind} {x : Lock} {rest : List (LockAction Lock)}
      (thread : s.thread t = ⟨kind, false, .acquire x :: rest⟩) :
      Change s (.request t) (s.setThread t ⟨kind, true, .acquire x :: rest⟩)
  | grant {t : Thread} {kind : Kind} {x : Lock} {rest : List (LockAction Lock)}
      (thread : s.thread t = ⟨kind, true, .acquire x :: rest⟩)
      (free : ∀ t', t' ≠ t → s.held t' x = 0) :
      Change s (.grant t) ((s.setThread t ⟨kind, false, rest⟩).setHolder x (some (t, s.held t x + 1)))
  | release {t : Thread} {kind : Kind} {waiting : Bool} {x : Lock} {rest : List (LockAction Lock)}
      (thread : s.thread t = ⟨kind, waiting, .release x :: rest⟩) (own : 0 < s.held t x) :
      Change s (.release t) ((s.setThread t ⟨kind, false, rest⟩).setHolder x
        (if s.held t x = 1 then none else some (t, s.held t x - 1)))

theorem apply_change {label : Label Thread Kind Lock} (h : s.apply label = some s') :
    Change s label s' := by
  cases label with
  | start t kind todo =>
      simp only [State.apply] at h
      split at h
      · rename_i hidle
        rw [← Option.some.inj h]
        exact .start hidle
      · cases h
  | request t =>
      simp only [State.apply] at h
      split at h
      · rename_i hthread
        rw [← Option.some.inj h]
        exact .request hthread
      · cases h
  | grant t =>
      simp only [State.apply] at h
      split at h
      · rename_i kind x rest hthread
        rcases hholder : s.holder x with _ | ⟨t', n⟩
        · have hheld : ∀ t', s.held t' x = 0 := fun t' => by simp [State.held, hholder]
          rw [hholder] at h
          rw [← Option.some.inj h]
          have hchange := Change.grant hthread fun t' _ => hheld t'
          rwa [hheld t] at hchange
        · rw [hholder] at h
          by_cases ht : t' = t
          · subst ht
            have hheld : s.held t' x = n := by simp [State.held, hholder]
            have hfree : ∀ t'', t'' ≠ t' → s.held t'' x = 0 := fun t'' ht'' => by
              simp [State.held, hholder, Ne.symm ht'']
            simp only [if_true] at h
            rw [← Option.some.inj h, ← hheld]
            exact .grant hthread hfree
          · simp [ht] at h
      · cases h
  | release t =>
      simp only [State.apply] at h
      split at h
      · rename_i kind waiting x rest hthread
        rcases hholder : s.holder x with _ | ⟨t', n⟩
        · simp [hholder] at h
        · cases n with
          | zero => simp [hholder] at h
          | succ n =>
              by_cases ht : t' = t
              · subst ht
                have hheld : s.held t' x = n + 1 := by simp [State.held, hholder]
                simp only [hholder, if_true] at h
                rw [← Option.some.inj h]
                have hchange := Change.release hthread (hheld ▸ Nat.succ_pos n)
                simpa [hheld] using hchange
              · simp [hholder, ht] at h
      · cases h

theorem held_grant {t t' : Thread} {x y : Lock} (value : ThreadState Kind Lock)
    (free : ∀ t', t' ≠ t → s.held t' x = 0) :
    ((s.setThread t value).setHolder x (some (t, s.held t x + 1))).held t' y =
      if t' = t then Function.update (s.held t) x (s.held t x + 1) y else s.held t' y := by
  -- The lock changes only for `t`, who alone may hold it.
  by_cases hy : y = x
  · subst hy
    by_cases ht : t' = t
    · subst ht
      simp [State.held, State.setHolder]
    · rw [if_neg ht, free t' ht]
      simp [State.held, State.setHolder, Ne.symm ht]
  · have hother : ((s.setThread t value).setHolder x (some (t, s.held t x + 1))).held t' y =
        s.held t' y := by
      simp [State.held, State.setHolder, State.setThread, hy]
    rw [hother]
    split
    · rename_i ht
      rw [Function.update_of_ne hy, ht]
    · rfl

theorem held_release {t t' : Thread} {x y : Lock} (value : ThreadState Kind Lock)
    (own : 0 < s.held t x) :
    ((s.setThread t value).setHolder x
      (if s.held t x = 1 then none else some (t, s.held t x - 1))).held t' y =
      if t' = t then Function.update (s.held t) x (s.held t x - 1) y else s.held t' y := by
  by_cases hy : y = x
  · subst hy
    by_cases ht : t' = t
    · subst ht
      by_cases hone : s.held t' y = 1
      · simp [State.held, State.setHolder] at hone ⊢
        simp [hone]
      · simp only [hone, if_false]
        simp [State.held, State.setHolder]
    · have hzero : s.held t' y = 0 := by
        by_contra hne
        exact ht (held_unique (Nat.pos_of_ne_zero hne) own)
      rw [if_neg ht, hzero]
      split <;> simp [State.held, State.setHolder, Ne.symm ht]
  · have hother : ((s.setThread t value).setHolder x
        (if s.held t x = 1 then none else some (t, s.held t x - 1))).held t' y = s.held t' y := by
      simp [State.held, State.setHolder, State.setThread, hy]
    rw [hother]
    split
    · rename_i ht
      rw [Function.update_of_ne hy, ht]
    · rfl

/-! ### Runs -/

/-- The states reached by steps that start operations of the program and meet a condition. -/
inductive Run (program : Kind → List (LockAction Lock) → Prop)
    (condition : State Thread Kind Lock → Label Thread Kind Lock → Prop)
    (first : State Thread Kind Lock) : State Thread Kind Lock → Prop where
  | refl : Run program condition first first
  | step {s s' : State Thread Kind Lock} {label : Label Thread Kind Lock}
      (run : Run program condition first s) (enabled : s.apply label = some s')
      (starts : ∀ t kind todo, label = .start t kind todo → program kind todo)
      (meets : condition s label) : Run program condition first s'

/-- What each thread still does is permitted by what it holds. -/
def WellNested (permitted : Kind → (Lock → ℕ) → Lock → Prop) (s : State Thread Kind Lock) : Prop :=
  ∀ t, Allowed (permitted (s.thread t).kind) (s.held t) (s.thread t).todo

theorem Change.wellNested {permitted : Kind → (Lock → ℕ) → Lock → Prop}
    {program : Kind → List (LockAction Lock) → Prop}
    (hprogram : ∀ kind todo, program kind todo → Allowed (permitted kind) (fun _ => 0) todo)
    {label : Label Thread Kind Lock} (h : Change s label s')
    (starts : ∀ t kind todo, label = .start t kind todo → program kind todo)
    (hs : WellNested permitted s) : WellNested permitted s' := by
  intro t'
  cases h with
  | @start t kind todo idle =>
      by_cases ht : t' = t
      · subst ht
        have hzero : s.held t' = fun _ => 0 := by
          have h := hs t'
          rw [idle] at h
          exact funext h
        have hallowed := hprogram kind todo (starts _ _ _ rfl)
        show Allowed _ (s.held t') _
        rw [hzero]
        simpa [State.setThread] using hallowed
      · have h := hs t'
        show Allowed _ (s.held t') _
        simpa [State.setThread, ht] using h
  | @request t kind x rest thread =>
      have h := hs t'
      by_cases ht : t' = t
      · subst ht
        rw [thread] at h
        show Allowed _ (s.held t') _
        simpa [State.setThread] using h
      · show Allowed _ (s.held t') _
        simpa [State.setThread, ht] using h
  | @grant t kind x rest thread free =>
      have hheld := fun y => @held_grant _ _ _ _ _ s t t' x y ⟨kind, false, rest⟩ free
      have h := hs t'
      by_cases ht : t' = t
      · subst ht
        simp only [if_true] at hheld
        rw [thread] at h
        show Allowed _ (State.held _ t') _
        rw [funext hheld]
        simpa [State.setThread, State.setHolder] using h.2
      · simp only [ht, if_false] at hheld
        show Allowed _ (State.held _ t') _
        rw [funext hheld]
        simpa [State.setThread, State.setHolder, ht] using h
  | @release t kind waiting x rest thread own =>
      have hheld := fun y => @held_release _ _ _ _ _ s t t' x y ⟨kind, false, rest⟩ own
      have h := hs t'
      by_cases ht : t' = t
      · subst ht
        simp only [if_true] at hheld
        rw [thread] at h
        show Allowed _ (State.held _ t') _
        rw [funext hheld]
        simpa [State.setThread, State.setHolder] using h.2
      · simp only [ht, if_false] at hheld
        show Allowed _ (State.held _ t') _
        rw [funext hheld]
        simpa [State.setThread, State.setHolder, ht] using h

theorem Run.wellNested {permitted : Kind → (Lock → ℕ) → Lock → Prop}
    {program : Kind → List (LockAction Lock) → Prop}
    {condition : State Thread Kind Lock → Label Thread Kind Lock → Prop}
    (hprogram : ∀ kind todo, program kind todo → Allowed (permitted kind) (fun _ => 0) todo)
    (hs : WellNested permitted s) (hrun : Run program condition s s') : WellNested permitted s' := by
  induction hrun with
  | refl => exact hs
  | step run enabled starts meets ih => exact (apply_change enabled).wellNested hprogram starts ih

/-- Steps that are enabled one after another make a run. -/
theorem run_of_foldlM {program : Kind → List (LockAction Lock) → Prop}
    {condition : State Thread Kind Lock → Label Thread Kind Lock → Prop}
    {labels : List (Label Thread Kind Lock)} (h : labels.foldlM State.apply s = some s')
    (hstarts : ∀ t kind todo, .start t kind todo ∈ labels → program kind todo)
    (hcondition : ∀ label ∈ labels, ∀ s, condition s label) : Run program condition s s' := by
  induction labels using List.reverseRecOn generalizing s' with
  | nil =>
      obtain rfl : s = s' := Option.some.inj h
      exact .refl
  | append_singleton labels label ih =>
      rw [List.foldlM_append] at h
      obtain ⟨s₁, hs₁, hlast⟩ := Option.bind_eq_some_iff.mp h
      have hlast' : s₁.apply label = some s' := by simpa using hlast
      refine .step (ih hs₁ (fun t kind todo hmem => ?_) fun l hl => ?_) hlast' ?_ ?_
      · exact hstarts t kind todo (List.mem_append_left _ hmem)
      · exact hcondition l (List.mem_append_left _ hl)
      · rintro t kind todo rfl
        exact hstarts t kind todo (by simp)
      · exact hcondition label (by simp) s₁

end

end Locks
