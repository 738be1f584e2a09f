import MosaicArchive.Binding.AuthorityLocks

/-!
When the authority locks deadlock. An operation of a production lease that calls
another one asks for the issuance lock while it holds its capability's lock; a
fork whose hook holds the issuance lock and waits for that capability then never
ends. Runs in which the two do not meet have no deadlock.
-/

namespace MosaicArchive.Binding

open Locks

variable {Thread : Type} [DecidableEq Thread]

abbrev LockState (Thread : Type) := State Thread ThreadOperation AuthorityLock

abbrev LockLabel (Thread : Type) := Label Thread ThreadOperation AuthorityLock

namespace LockState

variable (s : LockState Thread)

/-- The thread is between taking the issuance lock before a fork and giving it back. -/
def InForkHook (t : Thread) : Prop := (s.thread t).kind = .fork ∧ 0 < s.held t .issuance

def HoldsCapability (t : Thread) : Prop := ∃ c, 0 < s.held t (.capability c)

/-- The next action of the thread takes the lock. -/
def NextIs (t : Thread) (x : AuthorityLock) : Prop := ∃ rest, (s.thread t).todo = .acquire x :: rest

/-- A thread that holds a capability's lock waits for the issuance lock while
another thread is in its fork hook. -/
def Clash : Prop := ∃ t t', t ≠ t' ∧ s.InForkHook t' ∧ s.WaitsFor t .issuance ∧ s.HoldsCapability t

end LockState

/-- A thread that holds a capability's lock does not ask for the issuance lock
while another thread is in its fork hook, and a fork hook does not take the
issuance lock while such a thread waits for it. -/
def ForkApart (s : LockState Thread) : LockLabel Thread → Prop
  | .start _ _ _ => True
  | .request t => s.NextIs t .issuance → s.HoldsCapability t → ∀ t', t ≠ t' → ¬ s.InForkHook t'
  | .grant t => s.NextIs t .issuance → (s.thread t).kind = .fork →
      ∀ t', t' ≠ t → s.WaitsFor t' .issuance → ¬ s.HoldsCapability t'
  | .release _ => True

/-- All threads idle and all locks free. -/
def idleState : LockState Thread where
  thread := fun _ => ⟨.idle, false, []⟩
  holder := fun _ => none

theorem wellNested_idle : WellNested Permitted (idleState : LockState Thread) :=
  fun _ _ => rfl

variable {s s' : LockState Thread}

theorem Change.no_clash {label : LockLabel Thread} (h : Change s label s')
    (hnested : WellNested Permitted s) (hapart : ForkApart s label) (hclash : ¬ s.Clash) :
    ¬ s'.Clash := by
  rintro ⟨t₁, t₂, hne, ⟨hkind, hissuance⟩, ⟨hwaiting, rest₁, hnext⟩, c, hc⟩
  cases h with
  | @start t kind todo idle =>
      have hzero : ∀ x, s.held t x = 0 := by
        have h := hnested t
        rw [idle] at h
        exact h
      have hheld : ∀ t' x, (s.setThread t ⟨kind, false, todo⟩).held t' x = s.held t' x :=
        fun _ _ => rfl
      rw [hheld] at hissuance hc
      have ht₁ : t₁ ≠ t := by
        rintro rfl
        simp [hzero] at hc
      have ht₂ : t₂ ≠ t := by
        rintro rfl
        simp [hzero] at hissuance
      simp only [State.setThread, Function.update_of_ne ht₁, Function.update_of_ne ht₂] at hkind hwaiting hnext
      exact hclash ⟨t₁, t₂, hne, ⟨hkind, hissuance⟩, ⟨hwaiting, rest₁, hnext⟩, c, hc⟩
  | @request t kind x rest thread =>
      have hheld : ∀ t' y, (s.setThread t ⟨kind, true, .acquire x :: rest⟩).held t' y = s.held t' y :=
        fun _ _ => rfl
      rw [hheld] at hissuance hc
      have hkind' : (s.thread t₂).kind = .fork := by
        by_cases ht₂ : t₂ = t
        · subst ht₂
          rw [thread]
          simpa [State.setThread] using hkind
        · simpa [State.setThread, ht₂] using hkind
      by_cases ht₁ : t₁ = t
      · subst ht₁
        have hnext' : s.NextIs t₁ .issuance := by
          refine ⟨rest₁, ?_⟩
          rw [thread]
          simpa [State.setThread] using hnext
        exact hapart hnext' ⟨c, hc⟩ t₂ hne ⟨hkind', hissuance⟩
      · simp only [State.setThread, Function.update_of_ne ht₁] at hwaiting hnext
        exact hclash ⟨t₁, t₂, hne, ⟨hkind', hissuance⟩, ⟨hwaiting, rest₁, hnext⟩, c, hc⟩
  | @grant t kind x rest thread free =>
      have ht₁ : t₁ ≠ t := by
        rintro rfl
        simp [State.setThread, State.setHolder] at hwaiting
      rw [held_grant _ free, if_neg ht₁] at hc
      rw [held_grant _ free] at hissuance
      simp only [State.setThread, State.setHolder, Function.update_of_ne ht₁] at hwaiting hnext
      by_cases ht₂ : t₂ = t
      · subst ht₂
        have hkind' : (s.thread t₂).kind = .fork := by
          rw [thread]
          simpa [State.setThread, State.setHolder] using hkind
        by_cases hx : x = .issuance
        · subst hx
          have hnext' : s.NextIs t₂ .issuance := ⟨rest, by rw [thread]⟩
          exact hapart hnext' hkind' t₁ hne ⟨hwaiting, rest₁, hnext⟩ ⟨c, hc⟩
        · rw [if_pos rfl, Function.update_of_ne (Ne.symm hx)] at hissuance
          exact hclash ⟨t₁, t₂, hne, ⟨hkind', hissuance⟩, ⟨hwaiting, rest₁, hnext⟩, c, hc⟩
      · rw [if_neg ht₂] at hissuance
        simp only [State.setThread, State.setHolder, Function.update_of_ne ht₂] at hkind
        exact hclash ⟨t₁, t₂, hne, ⟨hkind, hissuance⟩, ⟨hwaiting, rest₁, hnext⟩, c, hc⟩
  | @release t kind waiting x rest thread own =>
      have ht₁ : t₁ ≠ t := by
        rintro rfl
        simp [State.setThread, State.setHolder] at hwaiting
      rw [held_release _ own, if_neg ht₁] at hc
      rw [held_release _ own] at hissuance
      simp only [State.setThread, State.setHolder, Function.update_of_ne ht₁] at hwaiting hnext
      by_cases ht₂ : t₂ = t
      · subst ht₂
        have hkind' : (s.thread t₂).kind = .fork := by
          rw [thread]
          simpa [State.setThread, State.setHolder] using hkind
        have hissuance' : 0 < s.held t₂ .issuance := by
          rw [if_pos rfl, Function.update_apply] at hissuance
          split at hissuance
          · rename_i hx
            rw [hx]
            exact own
          · exact hissuance
        exact hclash ⟨t₁, t₂, hne, ⟨hkind', hissuance'⟩, ⟨hwaiting, rest₁, hnext⟩, c, hc⟩
      · rw [if_neg ht₂] at hissuance
        simp only [State.setThread, State.setHolder, Function.update_of_ne ht₂] at hkind
        exact hclash ⟨t₁, t₂, hne, ⟨hkind, hissuance⟩, ⟨hwaiting, rest₁, hnext⟩, c, hc⟩

/-! ### Without a clash -/

theorem permitted_of_waitsFor (hnested : WellNested Permitted s) {t : Thread} {x : AuthorityLock}
    (h : s.WaitsFor t x) : Permitted (s.thread t).kind (s.held t) x := by
  obtain ⟨-, rest, hnext⟩ := h
  have hallowed := hnested t
  rw [hnext] at hallowed
  exact hallowed.1

/-- A thread that another one holds up does not hold what it waits for. -/
theorem held_of_blocks {t t' : Thread} {x : AuthorityLock} (hne : t' ≠ t) (h : 0 < s.held t' x) :
    s.held t x = 0 := by
  by_contra h'
  exact hne (held_unique h (Nat.pos_of_ne_zero h'))

open Classical in
/-- The height of a thread in the order in which threads can hold each other up. -/
noncomputable def waitRank (s : LockState Thread) (t : Thread) : ℕ :=
  match (s.thread t).todo with
  | .acquire (.lease _) :: _ => 4
  | .acquire .issuance :: _ => if s.HoldsCapability t then 0 else 3
  | .acquire (.capability _) :: _ => if (s.thread t).kind = .fork then 1 else 2
  | _ => 0

theorem waitRank_lease {t : Thread} {l : ObjectId} (h : s.WaitsFor t (.lease l)) : waitRank s t = 4 := by
  obtain ⟨-, rest, hnext⟩ := h
  simp [waitRank, hnext]

theorem waitRank_issuance {t : Thread} (h : s.WaitsFor t .issuance) :
    waitRank s t = 0 ∧ s.HoldsCapability t ∨ waitRank s t = 3 ∧ ¬ s.HoldsCapability t := by
  obtain ⟨-, rest, hnext⟩ := h
  by_cases hc : s.HoldsCapability t
  · exact .inl ⟨by simp [waitRank, hnext, hc], hc⟩
  · exact .inr ⟨by simp [waitRank, hnext, hc], hc⟩

theorem waitRank_capability {t : Thread} {c : ObjectId} (h : s.WaitsFor t (.capability c)) :
    waitRank s t = 1 ∧ (s.thread t).kind = .fork ∨ waitRank s t = 2 ∧ (s.thread t).kind ≠ .fork := by
  obtain ⟨-, rest, hnext⟩ := h
  by_cases hk : (s.thread t).kind = .fork
  · exact .inl ⟨by simp [waitRank, hnext, hk], hk⟩
  · exact .inr ⟨by simp [waitRank, hnext, hk], hk⟩

/-- Unless a nested request meets a fork, the waiting goes down: from a lease to
the issuance lock or a capability, and from there to a thread that moves. -/
theorem waitRank_lt (hnested : WellNested Permitted s) (hclash : ¬ s.Clash) {t t' t'' : Thread}
    (h : s.Blocks t t') (h' : s.Blocks t' t'') : waitRank s t' < waitRank s t := by
  obtain ⟨x, hwaits, hne, hheld⟩ := h
  obtain ⟨x', hwaits', hne', hheld'⟩ := h'
  have hpermitted := permitted_of_waitsFor hnested hwaits'
  have hlacks : s.held t' x' = 0 := held_of_blocks hne' hheld'
  cases x with
  | lease l =>
      rw [waitRank_lease hwaits]
      have hkind : (s.thread t').kind ≠ .fork := by
        intro hkind
        have := (hpermitted.forkLease hkind l).1
        omega
      cases x' with
      | lease l' =>
          have := hpermitted.lease l l' hheld rfl
          omega
      | issuance => rcases waitRank_issuance hwaits' with ⟨hr, -⟩ | ⟨hr, -⟩ <;> omega
      | capability c => rcases waitRank_capability hwaits' with ⟨hr, -⟩ | ⟨hr, -⟩ <;> omega
  | issuance =>
      have hkind := hpermitted.issuance hheld
      rcases waitRank_issuance hwaits with ⟨-, hholds⟩ | ⟨hr, -⟩
      · exact absurd ⟨t, t', Ne.symm hne, ⟨hkind, hheld⟩, hwaits, hholds⟩ hclash
      · cases x' with
        | lease l' => exact absurd rfl (hpermitted.forkLease hkind l').2
        | issuance => omega
        | capability c => rcases waitRank_capability hwaits' with ⟨hr', -⟩ | ⟨hr', -⟩ <;> omega
  | capability c =>
      by_cases hkind : (s.thread t').kind = .fork
      · cases x' with
        | lease l' => exact absurd rfl (hpermitted.forkLease hkind l').2
        | issuance =>
            have := hpermitted.forkIssuance hkind rfl c
            omega
        | capability c' =>
            have hissuance := hpermitted.forkCapability hkind c' rfl
            rcases waitRank_capability hwaits' with ⟨hr', -⟩ | ⟨-, hk⟩
            · rcases waitRank_capability hwaits with ⟨-, hk⟩ | ⟨hr, -⟩
              · have hissuance' := (permitted_of_waitsFor hnested hwaits).forkCapability hk c rfl
                exact absurd (held_unique hissuance hissuance') hne
              · omega
            · exact absurd hkind hk
      · rcases hpermitted.capability hkind c hheld with rfl | hx'
        · rcases waitRank_issuance hwaits' with ⟨hr', -⟩ | ⟨-, hnone⟩
          · rcases waitRank_capability hwaits with ⟨hr, -⟩ | ⟨hr, -⟩ <;> omega
          · exact absurd ⟨c, hheld⟩ hnone
        · omega

/-- In every run in which nested requests and forks keep apart, no set of threads
is deadlocked, and no thread that waits for the issuance lock holds a capability's
lock that a fork hook waits for. -/
theorem deadlock_free {capability : ObjectId → Option ObjectId}
    (hrun : Locks.Run (OperationLocks capability) ForkApart idleState s) :
    (∀ threads, ¬ s.Deadlocked threads) ∧
      ∀ t t' c, s.WaitsFor t .issuance → 0 < s.held t (.capability c) → t ≠ t' →
        (s.thread t').kind = .fork → ¬ s.WaitsFor t' (.capability c) := by
  have hnested : WellNested Permitted s :=
    hrun.wellNested (fun _ _ h => OperationLocks.allowed h) wellNested_idle
  have hclash : ¬ s.Clash := by
    clear hnested
    induction hrun with
    | refl =>
        rintro ⟨t, t', -, ⟨hkind, -⟩, -⟩
        cases hkind
    | step run enabled starts meets ih =>
        have hnested := run.wellNested (fun _ _ h => OperationLocks.allowed h) wellNested_idle
        exact Change.no_clash (apply_change enabled) hnested meets ih
  refine ⟨not_deadlocked_of_rank (waitRank s) fun t t' t'' => waitRank_lt hnested hclash, ?_⟩
  intro t t' c hwaits hheld hne hkind hwaits'
  have hissuance := (permitted_of_waitsFor hnested hwaits').forkCapability hkind c rfl
  exact hclash ⟨t, t', hne, ⟨hkind, hissuance⟩, hwaits, c, hheld⟩

/-! ### A clash -/

/-- Thread `true` cleans up a production lease and comes to await it, thread
`false` forks. -/
def clashLabels : List (LockLabel Bool) :=
  [.start true (.lease 0 .cleanup) (operationLocks (some 0) 0 .cleanup .admitted [.admitted]),
    .request true, .grant true, .request true, .grant true, .release true,
    .request true, .grant true, .request true, .grant true,
    .start false .fork (forkLocks [0]), .request false, .grant false, .request false, .request true]

theorem clashLabels_isSome :
    (clashLabels.foldlM State.apply (idleState : LockState Bool)).isSome = true := by
  decide

theorem cleanup_fork_deadlock : ∃ s : LockState Bool,
    Locks.Run (OperationLocks fun _ => some 0) (fun _ _ => True) idleState s ∧
      s.Deadlocked {true, false} := by
  refine ⟨_, run_of_foldlM (Option.some_get clashLabels_isSome).symm ?_ fun _ _ _ => trivial,
    ⟨true, by simp⟩, ?_⟩
  · intro t kind todo h
    simp only [clashLabels, List.mem_cons, List.not_mem_nil, or_false, Label.start.injEq, reduceCtorEq,
      false_or] at h
    rcases h with ⟨-, rfl, rfl⟩ | ⟨-, rfl, rfl⟩
    · exact .lease 0 .cleanup .admitted [.admitted] (by simp)
    · exact .fork [0] (by simp)
  · rintro t (rfl | rfl)
    · exact ⟨false, by simp, .issuance, ⟨by decide, _, rfl⟩, by simp, by decide⟩
    · exact ⟨true, by simp, .capability 0, ⟨by decide, _, rfl⟩, by simp, by decide⟩

theorem deadlock_free_access : ∃ s : LockState Bool, s.WaitsFor true .issuance ∧
    ∀ threads, ¬ s.Deadlocked threads := by
  have hstarted : (idleState : LockState Bool).apply
      (.start true (.access 0) (accessLocks 0 [] .admitted)) = some _ := rfl
  have hrun : Locks.Run (OperationLocks fun _ => some 0) ForkApart (idleState : LockState Bool) _ :=
    .step .refl hstarted (by rintro t kind todo ⟨⟩; exact .access 0 .admitted) trivial
  have hrun' := hrun.step (rfl : State.apply _ (.request true) = some _) (by simp) (by
    rintro - ⟨c, hc⟩
    exact absurd hc (Nat.lt_irrefl 0))
  exact ⟨_, ⟨rfl, _, rfl⟩, (deadlock_free hrun').1⟩

end MosaicArchive.Binding
