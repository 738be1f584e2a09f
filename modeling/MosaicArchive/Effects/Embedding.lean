import MosaicArchive.Effects.CallHistory
import MosaicArchive.Effects.Resources

/-!
Programs that use a part of the calls of a system, run among programs that use all of them.
What such a program does under every environment of its own calls it does there as well.
-/

namespace CallHistory

variable {Call Extra : Type} {Reply : Call → Type} {ExtraReply : Extra → Type} {ε α : Type}

/-- A history of the part, in the whole system. -/
def lifted (made : CallHistory Call Reply) : CallHistory (Call ⊕ Extra) (Sum.elim Reply ExtraReply) :=
  made.map fun e => ⟨.inl e.1, e.2⟩

theorem lifted_append (made later : CallHistory Call Reply) :
    (lifted (made ++ later) : CallHistory (Call ⊕ Extra) (Sum.elim Reply ExtraReply)) =
      lifted made ++ lifted later := List.map_append

/-- The environment that the part sees after these calls. -/
def inner (env : Environment (Call ⊕ Extra) (Sum.elim Reply ExtraReply))
    (before : CallHistory (Call ⊕ Extra) (Sum.elim Reply ExtraReply)) : Environment Call Reply :=
  fun h c => env (before ++ lifted h) (.inl c)

/-- The program, run in the whole system. -/
def embed (env : Environment (Call ⊕ Extra) (Sum.elim Reply ExtraReply))
    (p : Environment Call Reply → Routine (CallHistory Call Reply) ε α) :
    Routine (CallHistory (Call ⊕ Extra) (Sum.elim Reply ExtraReply)) ε α := fun before =>
  match p (inner env before) [] with
  | (outcome, made) => (outcome, before ++ lifted made)

theorem Does.embed {env : Environment (Call ⊕ Extra) (Sum.elim Reply ExtraReply)}
    {p : Environment Call Reply → Routine (CallHistory Call Reply) ε α}
    {Q : α → CallHistory Call Reply → Prop} {E : ε → CallHistory Call Reply → Prop}
    (hp : ∀ env, Does (p env) Q E) :
    Does (embed env p) (fun a made => ∃ inside, made = lifted inside ∧ Q a inside)
      fun e made => ∃ inside, made = lifted inside ∧ E e inside := by
  intro before
  have hinner := hp (inner env before) []
  unfold Routine.Ends at hinner ⊢
  simp only [CallHistory.embed]
  rcases hrun : p (inner env before) [] with ⟨e | a, made⟩
  · rw [hrun] at hinner
    obtain ⟨inside, hinside, he⟩ := hinner
    rw [List.nil_append] at hinside
    exact ⟨lifted made, rfl, made, rfl, hinside ▸ he⟩
  · rw [hrun] at hinner
    obtain ⟨inside, hinside, ha⟩ := hinner
    rw [List.nil_append] at hinside
    exact ⟨lifted made, rfl, made, rfl, hinside ▸ ha⟩

/-- An embedded program makes calls of the part only, whatever it is. -/
theorem Does.embed_lifted (env : Environment (Call ⊕ Extra) (Sum.elim Reply ExtraReply))
    (p : Environment Call Reply → Routine (CallHistory Call Reply) ε α) :
    Does (CallHistory.embed env p)
      (fun a made => (∃ inside, made = lifted inside) ∧ ∃ before, (p (inner env before) []).1 = .ok a)
      fun _ made => ∃ inside, made = lifted inside := by
  intro before
  unfold Routine.Ends
  simp only [CallHistory.embed]
  rcases hrun : p (inner env before) [] with ⟨e | a, made⟩
  · exact ⟨lifted made, rfl, made, rfl⟩
  · refine ⟨lifted made, rfl, ⟨made, rfl⟩, before, ?_⟩
    rw [hrun]

/-- Resources are followed through the embedding. -/
theorem settles_lifted {ρ : Type} [DecidableEq ρ]
    {effect : (Σ c : Call, Reply c) → Resources.Effect ρ}
    {effect' : (Σ c : Call ⊕ Extra, Sum.elim Reply ExtraReply c) → Resources.Effect ρ}
    (heffect : ∀ e, effect' ⟨.inl e.1, e.2⟩ = effect e) {held left : Multiset ρ}
    {made : CallHistory Call Reply} (h : Resources.Settles effect held made left) :
    Resources.Settles effect' held (lifted made) left := by
  induction made generalizing held with
  | nil => exact h
  | cons e made ih =>
      show Resources.Settles effect' held (⟨.inl e.1, e.2⟩ :: lifted made) left
      cases hcase : effect e with
      | acquires r =>
          rw [Resources.settles_acquire hcase] at h
          exact (Resources.settles_acquire ((heffect e).trans hcase)).mpr (ih h)
      | releases r =>
          rw [Resources.settles_release hcase] at h
          exact (Resources.settles_release ((heffect e).trans hcase)).mpr ⟨h.1, ih h.2⟩
      | neutral =>
          rw [Resources.settles_neutral hcase] at h
          exact (Resources.settles_neutral ((heffect e).trans hcase)).mpr (ih h)

/-- Marks of calls are followed through the embedding. -/
theorem filterMap_lifted {β : Type} {mark : (Σ c : Call, Reply c) → Option β}
    {mark' : (Σ c : Call ⊕ Extra, Sum.elim Reply ExtraReply c) → Option β}
    (hmark : ∀ e, mark' ⟨.inl e.1, e.2⟩ = mark e) (made : CallHistory Call Reply) :
    (lifted made).filterMap mark' = made.filterMap mark := by
  rw [lifted, List.filterMap_map]
  exact List.filterMap_congr fun e _ => hmark e

end CallHistory
