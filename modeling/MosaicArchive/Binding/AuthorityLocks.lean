import MosaicArchive.Binding.Lease
import MosaicArchive.Effects.Locks

/-!
The locks behind delegated authority: one for each lease, one for each
capability, and the issuance lock. An operation is given by the lock actions it
makes, which depend on how far it gets; the fork hooks take the issuance lock
and then every issued capability's lock in order.
-/

namespace MosaicArchive.Binding

open Locks

inductive AuthorityLock where
  | lease (l : ObjectId)
  | capability (c : ObjectId)
  | issuance
  deriving DecidableEq, Repr

abbrev AuthorityAction := LockAction AuthorityLock

/-! ### What an operation does with the locks -/

/-- How far a call gets: it raises before it looks for authority, it finds no
record of the issue, or it takes the capability's lock. -/
inductive Progress where
  | refused
  | unissued
  | admitted
  deriving DecidableEq, Repr

/-- `with _locked_capability_access(c): body` -/
def accessLocks (c : ObjectId) (body : List AuthorityAction) : Progress → List AuthorityAction
  | .refused => []
  | .unissued => withLock .issuance []
  | .admitted => withLock .issuance [] ++ withLock (.capability c) body

/-- `with self._locked_backend_authority(): body` -/
def backendAuthorityLocks (capability : Option ObjectId) (body : List AuthorityAction)
    (progress : Progress) : List AuthorityAction :=
  match capability with
  | none => if progress = .admitted then body else []
  | some c => accessLocks c body progress

/-- An operation of a lease around its body. -/
def leaseLocks (capability : Option ObjectId) (l : ObjectId) (body : List AuthorityAction)
    (progress : Progress) : List AuthorityAction :=
  withLock (.lease l) (backendAuthorityLocks capability body progress)

/-- How many operations of the same lease an operation may call: `attach_process`
verifies the sets, `read_memory_peak_bytes` awaits and verifies twice, and
`cleanup` may kill before it awaits. -/
def nestedCalls : Operation → ℕ
  | .attachProcess _ => 1
  | .readMemoryPeakBytes => 3
  | .cleanup | .exit _ => 2
  | .verifyEffectiveCpuset | .awaitUnpopulated | .kill | .enter => 0

def operationLocks (capability : Option ObjectId) (l : ObjectId) (op : Operation) (progress : Progress)
    (nested : List Progress) : List AuthorityAction :=
  leaseLocks capability l ((nested.take (nestedCalls op)).flatMap (leaseLocks capability l [])) progress

/-- `_lock_capabilities_before_fork`, and giving the locks back in the parent. -/
def forkLocks (issued : List ObjectId) : List AuthorityAction :=
  withLock .issuance (issued.foldr (fun c body => withLock (.capability c) body) [])

inductive ThreadOperation where
  | idle
  | lease (l : ObjectId) (op : Operation)
  | access (c : ObjectId)
  | close (c : ObjectId)
  | fork
  deriving DecidableEq

/-- The lock actions an operation can make. -/
inductive OperationLocks (capability : ObjectId → Option ObjectId) :
    ThreadOperation → List AuthorityAction → Prop where
  | lease (l : ObjectId) (op : Operation) (progress : Progress) (nested : List Progress)
      (hop : op ≠ .enter) :
      OperationLocks capability (.lease l op) (operationLocks (capability l) l op progress nested)
  | enter (l : ObjectId) : OperationLocks capability (.lease l .enter) (withLock (.lease l) [])
  | access (c : ObjectId) (progress : Progress) :
      OperationLocks capability (.access c) (accessLocks c [] progress)
  | close (c : ObjectId) : OperationLocks capability (.close c) (withLock (.capability c) [])
  | fork (issued : List ObjectId) (sorted : issued.Pairwise (· < ·)) :
      OperationLocks capability .fork (forkLocks issued)

/-! ### The order of locks -/

/-- What may be held when a lock is asked for. -/
structure Permitted (kind : ThreadOperation) (held : AuthorityLock → ℕ) (x : AuthorityLock) : Prop where
  issuance : 0 < held .issuance → kind = .fork
  capability : kind ≠ .fork → ∀ c, 0 < held (.capability c) → x = .issuance ∨ 0 < held x
  lease : ∀ l l', 0 < held (.lease l) → x = .lease l' → 0 < held x
  forkLease : kind = .fork → ∀ l, held (.lease l) = 0 ∧ x ≠ .lease l
  forkCapability : kind = .fork → ∀ c, x = .capability c → 0 < held .issuance
  forkIssuance : kind = .fork → x = .issuance → ∀ c, held (.capability c) = 0

/-- The locks an operation of the lease holds around its body or a nested call. -/
structure OwnLocks (capability : Option ObjectId) (l : ObjectId) (held : AuthorityLock → ℕ) : Prop where
  issuance : held .issuance = 0
  capability : ∀ c, 0 < held (.capability c) → capability = some c ∧ 0 < held (.lease l)
  lease : ∀ l', 0 < held (.lease l') → l' = l

variable {capability : Option ObjectId} {l : ObjectId} {op : Operation}
  {held : AuthorityLock → ℕ} {body : List AuthorityAction}

theorem nests_issuance {kind : ThreadOperation} (hkind : kind ≠ .fork) (hissuance : held .issuance = 0) :
    Nests (Permitted kind) held (withLock .issuance []) := by
  refine nests_withLock ⟨?_, ?_, ?_, ?_, ?_, ?_⟩ nests_nil
  · simp [hissuance]
  · exact fun _ _ _ => .inl rfl
  · rintro _ _ _ ⟨⟩
  · exact fun h => absurd h hkind
  · exact fun h => absurd h hkind
  · exact fun h => absurd h hkind

theorem OwnLocks.takeLease (hheld : OwnLocks capability l held) :
    OwnLocks capability l (Function.update held (.lease l) (held (.lease l) + 1)) where
  issuance := by simpa using hheld.issuance
  capability := by
    intro c hc
    have hc' : 0 < held (.capability c) := by simpa using hc
    exact ⟨(hheld.capability c hc').1, by simp⟩
  lease := by
    intro l' hl'
    by_cases h : l' = l
    · exact h
    · exact hheld.lease l' (by simpa [h] using hl')

theorem OwnLocks.takeCapability {c : ObjectId} (hheld : OwnLocks (some c) l held)
    (hlease : 0 < held (.lease l)) :
    OwnLocks (some c) l (Function.update held (.capability c) (held (.capability c) + 1)) where
  issuance := by simpa using hheld.issuance
  capability := by
    intro c' hc'
    refine ⟨?_, by simpa using hlease⟩
    by_cases h : c' = c
    · rw [h]
    · exact (hheld.capability c' (by simpa [h] using hc')).1
  lease := fun l' hl' => hheld.lease l' (by simpa using hl')

/-- Taking a lock of its own, an operation of a lease is in order. -/
theorem OwnLocks.permitted {x : AuthorityLock} (hheld : OwnLocks capability l held)
    (hx : ∀ c, 0 < held (.capability c) → 0 < held x)
    (hlease : ∀ l', x = .lease l' → l' = l) : Permitted (.lease l op) held x where
  issuance := by simp [hheld.issuance]
  capability := fun _ c hc => .inr (hx c hc)
  lease := by
    intro l₁ l₂ hl₁ hl₂
    obtain rfl := hlease l₂ hl₂
    obtain rfl := hheld.lease l₁ hl₁
    rw [hl₂]
    exact hl₁
  forkLease := by simp
  forkCapability := by simp
  forkIssuance := by simp

/-- An operation of a lease is in order wherever another operation of the lease calls it. -/
theorem OwnLocks.nests_leaseLocks (progress : Progress) (hheld : OwnLocks capability l held)
    (hbody : ∀ held, OwnLocks capability l held → Nests (Permitted (.lease l op)) held body) :
    Nests (Permitted (.lease l op)) held (leaseLocks capability l body progress) := by
  have hlease := hheld.takeLease
  have hpositive : 0 < Function.update held (.lease l) (held (.lease l) + 1) (.lease l) := by simp
  refine nests_withLock (hheld.permitted (fun c hc => (hheld.capability c hc).2) ?_) ?_
  · rintro l' ⟨⟩
    rfl
  · cases capability with
    | none =>
        show Nests _ _ (if progress = .admitted then body else [])
        split
        · exact hbody _ hlease
        · exact nests_nil
    | some c =>
        show Nests _ _ (accessLocks c body progress)
        cases progress with
        | refused => exact nests_nil
        | unissued => exact nests_issuance (by simp) hlease.issuance
        | admitted =>
            refine (nests_issuance (by simp) hlease.issuance).append (nests_withLock ?_ ?_)
            · refine hlease.permitted (fun c' hc' => ?_) (by simp)
              obtain rfl : c = c' := Option.some.inj (hlease.capability c' hc').1
              exact hc'
            · exact hbody _ (hlease.takeCapability hpositive)

theorem allowed_operationLocks (progress : Progress) (nested : List Progress) :
    Allowed (Permitted (.lease l op)) (fun _ => 0) (operationLocks capability l op progress nested) := by
  have hfree : OwnLocks capability l (fun _ => 0) := ⟨rfl, by simp, by simp⟩
  apply Nests.allowed
  refine hfree.nests_leaseLocks progress fun held hheld => nests_flatMap fun q _ => ?_
  exact hheld.nests_leaseLocks q fun _ _ => nests_nil

/-- The locks of the fork hooks around the capabilities they have not taken yet. -/
theorem nests_forkCapabilities (issued : List ObjectId) (hissuance : 0 < held .issuance)
    (hlease : ∀ l, held (.lease l) = 0) :
    Nests (Permitted .fork) held (issued.foldr (fun c body => withLock (.capability c) body) []) := by
  induction issued generalizing held with
  | nil => exact nests_nil
  | cons c issued ih =>
      refine nests_withLock ⟨fun _ => rfl, ?_, ?_, ?_, ?_, ?_⟩ (ih ?_ ?_)
      · exact fun h => absurd rfl h
      · rintro _ _ _ ⟨⟩
      · exact fun _ l => ⟨hlease l, by simp⟩
      · exact fun _ _ _ => hissuance
      · rintro _ ⟨⟩
      · simpa using hissuance
      · simpa using hlease

theorem allowed_forkLocks (issued : List ObjectId) :
    Allowed (Permitted .fork) (fun _ => 0) (forkLocks issued) := by
  apply Nests.allowed
  refine nests_withLock ⟨?_, ?_, ?_, ?_, ?_, ?_⟩ (nests_forkCapabilities issued ?_ ?_)
  · simp
  · exact fun h => absurd rfl h
  · rintro _ _ h
    simp at h
  · exact fun _ _ => ⟨rfl, by simp⟩
  · rintro _ _ ⟨⟩
  · exact fun _ _ _ => rfl
  · simp
  · simp

/-- Nothing held, a single capability lock may be taken. -/
theorem nests_capability {kind : ThreadOperation} (hkind : kind ≠ .fork) (c : ObjectId) :
    Nests (Permitted kind) (fun _ => 0) (withLock (.capability c) []) := by
  refine nests_withLock ⟨?_, ?_, ?_, ?_, ?_, ?_⟩ nests_nil
  · simp
  · simp
  · simp
  · exact fun h => absurd h hkind
  · exact fun h => absurd h hkind
  · exact fun h => absurd h hkind

theorem OperationLocks.allowed {capability : ObjectId → Option ObjectId} {kind : ThreadOperation}
    {todo : List AuthorityAction} (h : OperationLocks capability kind todo) :
    Allowed (Permitted kind) (fun _ => 0) todo := by
  cases h with
  | lease l op progress nested hop => exact allowed_operationLocks progress nested
  | enter l => exact @allowed_operationLocks none l .enter .refused []
  | access c progress =>
      apply Nests.allowed
      cases progress with
      | refused => exact nests_nil
      | unissued => exact nests_issuance (by simp) rfl
      | admitted => exact (nests_issuance (by simp) rfl).append (nests_capability (by simp) c)
  | close c => exact (nests_capability (by simp) c).allowed
  | fork issued sorted => exact allowed_forkLocks issued

end MosaicArchive.Binding
