import Mathlib.Data.Multiset.AddSub

/-!
Resources that are acquired and released along a history of events. `Settles`
follows what is held: a release is of something held, so from nothing to nothing
every resource acquired is released exactly once.
-/

namespace Resources

/-- What an event does to the resources. -/
inductive Effect (ρ : Type) where
  | acquires (r : ρ)
  | releases (r : ρ)
  | neutral
  deriving DecidableEq, Repr

variable {ρ ε : Type} [DecidableEq ρ] (effect : ε → Effect ρ)

/-- From `held` the events lead to `left`. -/
def Settles (held : Multiset ρ) : List ε → Multiset ρ → Prop
  | [], left => held = left
  | e :: es, left =>
      match effect e with
      | .acquires r => Settles (r ::ₘ held) es left
      | .releases r => r ∈ held ∧ Settles (held.erase r) es left
      | .neutral => Settles held es left

variable {effect} {held middle left : Multiset ρ} {events later : List ε} {e : ε}

@[simp] theorem settles_nil : Settles effect held [] left ↔ held = left := Iff.rfl

theorem settles_acquire {r : ρ} (h : effect e = .acquires r) :
    Settles effect held (e :: events) left ↔ Settles effect (r ::ₘ held) events left := by
  rw [Settles, h]

theorem settles_release {r : ρ} (h : effect e = .releases r) :
    Settles effect held (e :: events) left ↔
      r ∈ held ∧ Settles effect (held.erase r) events left := by
  rw [Settles, h]

theorem settles_neutral (h : effect e = .neutral) :
    Settles effect held (e :: events) left ↔ Settles effect held events left := by
  rw [Settles, h]

theorem Settles.append (h : Settles effect held events middle)
    (h' : Settles effect middle later left) : Settles effect held (events ++ later) left := by
  induction events generalizing held with
  | nil =>
      rw [settles_nil] at h
      subst h
      exact h'
  | cons e events ih =>
      rw [List.cons_append]
      cases heffect : effect e with
      | acquires r =>
          rw [settles_acquire heffect] at h ⊢
          exact ih h
      | releases r =>
          rw [settles_release heffect] at h ⊢
          exact ⟨h.1, ih h.2⟩
      | neutral =>
          rw [settles_neutral heffect] at h ⊢
          exact ih h

/-- What else is held stays held. -/
theorem Settles.frame (h : Settles effect held events left) (others : Multiset ρ) :
    Settles effect (held + others) events (left + others) := by
  induction events generalizing held with
  | nil =>
      rw [settles_nil] at h ⊢
      rw [h]
  | cons e events ih =>
      cases heffect : effect e with
      | acquires r =>
          rw [settles_acquire heffect] at h ⊢
          simpa using ih h
      | releases r =>
          rw [settles_release heffect] at h ⊢
          refine ⟨Multiset.mem_add.mpr (Or.inl h.1), ?_⟩
          rw [Multiset.erase_add_left_pos _ h.1]
          exact ih h.2
      | neutral =>
          rw [settles_neutral heffect] at h ⊢
          exact ih h

theorem Settles.unique {left' : Multiset ρ} (h : Settles effect held events left)
    (h' : Settles effect held events left') : left = left' := by
  induction events generalizing held with
  | nil =>
      rw [settles_nil] at h h'
      exact h.symm.trans h'
  | cons e events ih =>
      cases heffect : effect e with
      | acquires r =>
          rw [settles_acquire heffect] at h h'
          exact ih h h'
      | releases r =>
          rw [settles_release heffect] at h h'
          exact ih h.2 h'.2
      | neutral =>
          rw [settles_neutral heffect] at h h'
          exact ih h h'

theorem settles_append : Settles effect held (events ++ later) left ↔
    ∃ middle, Settles effect held events middle ∧ Settles effect middle later left := by
  constructor
  · intro h
    induction events generalizing held with
    | nil => exact ⟨held, rfl, h⟩
    | cons e events ih =>
        rw [List.cons_append] at h
        cases heffect : effect e with
        | acquires r =>
            rw [settles_acquire heffect] at h
            obtain ⟨middle, hfirst, hlater⟩ := ih h
            exact ⟨middle, (settles_acquire heffect).mpr hfirst, hlater⟩
        | releases r =>
            rw [settles_release heffect] at h
            obtain ⟨middle, hfirst, hlater⟩ := ih h.2
            exact ⟨middle, (settles_release heffect).mpr ⟨h.1, hfirst⟩, hlater⟩
        | neutral =>
            rw [settles_neutral heffect] at h
            obtain ⟨middle, hfirst, hlater⟩ := ih h
            exact ⟨middle, (settles_neutral heffect).mpr hfirst, hlater⟩
  · rintro ⟨middle, hfirst, hlater⟩
    exact hfirst.append hlater

/-- A resource that is released without being held. -/
theorem Settles.not_release {r : ρ} (h : Settles effect held events left) (he : effect e = .releases r)
    (hr : r ∉ left) (left' : Multiset ρ) : ¬ Settles effect held (events ++ e :: later) left' := by
  intro h'
  obtain ⟨middle, hmiddle, hlater⟩ := settles_append.mp h'
  obtain rfl := h.unique hmiddle
  exact hr ((settles_release he).mp hlater).1

/-! ### What is held after a history -/

variable (effect) in
/-- What is held after an event; releasing what is not held changes nothing. -/
def after (held : Multiset ρ) (e : ε) : Multiset ρ :=
  match effect e with
  | .acquires r => r ::ₘ held
  | .releases r => held.erase r
  | .neutral => held

theorem Settles.foldl_after (h : Settles effect held events left) :
    events.foldl (after effect) held = left := by
  induction events generalizing held with
  | nil => exact h
  | cons e events ih =>
      rw [List.foldl_cons]
      cases heffect : effect e with
      | acquires r =>
          rw [settles_acquire heffect] at h
          rw [after, heffect]
          exact ih h
      | releases r =>
          rw [settles_release heffect] at h
          rw [after, heffect]
          exact ih h.2
      | neutral =>
          rw [settles_neutral heffect] at h
          rw [after, heffect]
          exact ih h

theorem settles_of_neutral (h : ∀ e ∈ events, effect e = .neutral) :
    Settles effect held events held := by
  induction events with
  | nil => rfl
  | cons e events ih =>
      rw [List.forall_mem_cons] at h
      rw [settles_neutral h.1]
      exact ih h.2

/-! ### Sums -/

variable (effect) in
def acquired (e : ε) : Option ρ :=
  match effect e with
  | .acquires r => some r
  | _ => none

variable (effect) in
def released (e : ε) : Option ρ :=
  match effect e with
  | .releases r => some r
  | _ => none

/-- What was held and acquired is what is left and was released. -/
theorem Settles.balance (h : Settles effect held events left) :
    held + (events.filterMap (acquired effect) : List ρ) =
      left + (events.filterMap (released effect) : List ρ) := by
  induction events generalizing held with
  | nil => simpa using h
  | cons e events ih =>
      cases heffect : effect e with
      | acquires r =>
          rw [settles_acquire heffect] at h
          have hacquired : acquired effect e = some r := by rw [acquired, heffect]
          have hreleased : released effect e = none := by rw [released, heffect]
          rw [List.filterMap_cons_some hacquired, List.filterMap_cons_none hreleased, ← ih h,
            ← Multiset.cons_coe, Multiset.add_cons, Multiset.cons_add]
      | releases r =>
          rw [settles_release heffect] at h
          have hacquired : acquired effect e = none := by rw [acquired, heffect]
          have hreleased : released effect e = some r := by rw [released, heffect]
          rw [List.filterMap_cons_none hacquired, List.filterMap_cons_some hreleased,
            ← Multiset.cons_coe, Multiset.add_cons, ← ih h.2, ← Multiset.cons_add,
            Multiset.cons_erase h.1]
      | neutral =>
          rw [settles_neutral heffect] at h
          have hacquired : acquired effect e = none := by rw [acquired, heffect]
          have hreleased : released effect e = none := by rw [released, heffect]
          rw [List.filterMap_cons_none hacquired, List.filterMap_cons_none hreleased]
          exact ih h

/-- A list of resources is acquired. -/
theorem settles_acquire_all {f : ρ → ε} (hf : ∀ r, effect (f r) = .acquires r) (rs : List ρ)
    (held : Multiset ρ) : Settles effect held (rs.map f) ((rs : Multiset ρ) + held) := by
  induction rs generalizing held with
  | nil => exact (Multiset.zero_add held).symm
  | cons r rs ih =>
      rw [List.map_cons, settles_acquire (hf r), ← Multiset.cons_coe, Multiset.cons_add,
        ← Multiset.add_cons]
      exact ih (r ::ₘ held)

/-- A list of resources is released. -/
theorem settles_release_all {f : ρ → ε} (hf : ∀ r, effect (f r) = .releases r) (rs : List ρ)
    (left : Multiset ρ) : Settles effect ((rs : Multiset ρ) + left) (rs.map f) left := by
  induction rs with
  | nil => exact Multiset.zero_add left
  | cons r rs ih =>
      rw [List.map_cons, settles_release (hf r), ← Multiset.cons_coe, Multiset.cons_add]
      refine ⟨Multiset.mem_cons_self r _, ?_⟩
      rw [Multiset.erase_cons_head]
      exact ih

end Resources
