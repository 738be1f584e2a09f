import Mathlib.Data.List.Basic

/-!
The calls of one process in a world that other processes change too: between two
calls any number of changes by others. A run over joined calls is two runs, and
what every change keeps holds at the end; what only the others keep was broken by
one of the calls.
-/

/-- From one world to another by the events in turn, with changes by others between them. -/
inductive Interleaved {ω ε : Type} (acts : ω → ε → ω → Prop) (others : ω → ω → Prop) :
    ω → List ε → ω → Prop
  | done (w : ω) : Interleaved acts others w [] w
  | others {w w' w'' : ω} {events : List ε} (h : others w w')
      (rest : Interleaved acts others w' events w'') : Interleaved acts others w events w''
  | call {w w' w'' : ω} {e : ε} {events : List ε} (h : acts w e w')
      (rest : Interleaved acts others w' events w'') : Interleaved acts others w (e :: events) w''

namespace Interleaved

variable {ω ε : Type} {acts : ω → ε → ω → Prop} {others : ω → ω → Prop} {w w' : ω}
  {e : ε} {events later : List ε}

/-- The first call, after changes by others. -/
theorem first (h : Interleaved acts others w (e :: events) w') :
    ∃ u v, Interleaved acts others w [] u ∧ acts u e v ∧ Interleaved acts others v events w' := by
  generalize hall : e :: events = all at h
  induction h with
  | done => cases hall
  | others hother rest ih =>
      obtain ⟨u, v, hbefore, hcall, hrest⟩ := ih hall
      exact ⟨u, v, .others hother hbefore, hcall, hrest⟩
  | call hcall rest ih =>
      cases hall
      exact ⟨_, _, .done _, hcall, rest⟩

theorem append {u : ω} (h : Interleaved acts others w events u)
    (h' : Interleaved acts others u later w') : Interleaved acts others w (events ++ later) w' := by
  induction h with
  | done => exact h'
  | others hother rest ih => exact .others hother (ih h')
  | call hcall rest ih => exact .call hcall (ih h')

theorem split (h : Interleaved acts others w (events ++ later) w') :
    ∃ u, Interleaved acts others w events u ∧ Interleaved acts others u later w' := by
  induction events generalizing w with
  | nil => exact ⟨w, .done w, h⟩
  | cons e events ih =>
      obtain ⟨u, v, hbefore, hcall, hrest⟩ := h.first
      obtain ⟨t, hevents, hlater⟩ := ih hrest
      exact ⟨t, hbefore.append (.call hcall hevents), hlater⟩

/-- A call in the middle, with the worlds around it. -/
theorem split_at {before after : List ε} (h : Interleaved acts others w (before ++ e :: after) w') :
    ∃ u v, Interleaved acts others w before u ∧ acts u e v ∧ Interleaved acts others v after w' := by
  obtain ⟨t, hbefore, hrest⟩ := h.split
  obtain ⟨u, v, hnone, hcall, hafter⟩ := hrest.first
  have hjoined := hbefore.append hnone
  rw [List.append_nil] at hjoined
  exact ⟨u, v, hjoined, hcall, hafter⟩

theorem preserves {P : ω → Prop} (h : Interleaved acts others w events w')
    (hothers : ∀ u v, others u v → P u → P v)
    (hcalls : ∀ e ∈ events, ∀ u v, acts u e v → P u → P v) (hw : P w) : P w' := by
  induction h with
  | done => exact hw
  | others hother rest ih => exact ih hcalls (hothers _ _ hother hw)
  | call hcall rest ih =>
      rw [List.forall_mem_cons] at hcalls
      exact ih hcalls.2 (hcalls.1 _ _ hcall hw)

/-- What the others keep, and no longer holds, was broken by a call. -/
theorem broken_by_call {P : ω → Prop} (h : Interleaved acts others w events w')
    (hothers : ∀ u v, others u v → P u → P v) (hw : P w) (hw' : ¬ P w') :
    ∃ before e after u v, events = before ++ e :: after ∧ Interleaved acts others w before u ∧
      acts u e v ∧ Interleaved acts others v after w' ∧ P u ∧ ¬ P v := by
  induction h with
  | done => exact absurd hw hw'
  | others hother rest ih =>
      obtain ⟨before, e, after, u, v, hevents, hbefore, hrest⟩ := ih (hothers _ _ hother hw) hw'
      exact ⟨before, e, after, u, v, hevents, .others hother hbefore, hrest⟩
  | call hcall rest ih =>
      rename_i u v _ e events
      by_cases hv : P v
      · obtain ⟨before, e', after, u', v', rfl, hbefore, hrest⟩ := ih hv hw'
        exact ⟨e :: before, e', after, u', v', rfl, .call hcall hbefore, hrest⟩
      · exact ⟨[], e, events, u, v, rfl, .done u, hcall, rest, hw, hv⟩

end Interleaved
