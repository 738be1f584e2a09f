import MosaicArchive.Effects.CallHistory
import MosaicArchive.Effects.Process

/-!
Runs whose calls are put on record. The system may give every answer that is
allowed, so a statement about every configuration reached is one about every
behaviour around the program. `Yields` is the judgment for a program that may fail:
the record stays in `G` all along, and where the program does not fail its result is
in `Q`. What is once known of a record stays known.
-/

namespace CallSystem

open Process

variable {Call : Type} {Reply : Call → Type} {ε ε' α β : Type}

/-- Every call is recorded with its answer. -/
def recorded (allowed : (c : Call) → Reply c → Prop) :
    CallSystem Call Reply (CallHistory Call Reply) where
  kernel c w r w' := allowed c r ∧ w' = w ++ [⟨c, r⟩]
  rely _ _ := False

theorem recorded_stable {allowed : (c : Call) → Reply c → Prop} (P : CallHistory Call Reply → Prop) :
    (recorded allowed).Stable P := fun _ _ _ h => h.elim

/-- These calls with their answers are on record. -/
def Known (events : List (Σ c : Call, Reply c)) (w : CallHistory Call Reply) : Prop :=
  ∀ e ∈ events, e ∈ w

@[simp] theorem known_nil (w : CallHistory Call Reply) : Known [] w := fun _ h => nomatch h

theorem Known.append {events : List (Σ c : Call, Reply c)} {w : CallHistory Call Reply}
    (h : Known events w) (e : Σ c : Call, Reply c) : Known (e :: events) (w ++ [e]) := by
  intro e' he'
  rw [List.mem_append, List.mem_singleton]
  rcases List.mem_cons.mp he' with rfl | he'
  · exact Or.inr rfl
  · exact Or.inl (h e' he')

theorem Known.mono {events events' : List (Σ c : Call, Reply c)} {w : CallHistory Call Reply}
    (h : Known events w) (hsub : ∀ e ∈ events', e ∈ events) : Known events' w :=
  fun e he => h e (hsub e he)

theorem Known.tail {e : Σ c : Call, Reply c} {events : List (Σ c : Call, Reply c)}
    {w : CallHistory Call Reply} (h : Known (e :: events) w) : Known events w :=
  h.mono fun _ he => List.mem_cons_of_mem e he

/-- The record stays in `G`; a result that is no failure is in `Q`. -/
def Yields (allowed : (c : Call) → Reply c → Prop) (G P : CallHistory Call Reply → Prop)
    (p : ExceptT ε (Process Call Reply) α) (Q : α → CallHistory Call Reply → Prop) : Prop :=
  (recorded allowed).Leads G (fun w => G w ∧ P w) p.run
    fun result w => G w ∧ ∀ a, result = .ok a → Q a w

namespace Yields

variable {allowed : (c : Call) → Reply c → Prop} {G P P' : CallHistory Call Reply → Prop}
  {p : ExceptT ε (Process Call Reply) α} {f : α → ExceptT ε (Process Call Reply) β}
  {Q Q' : α → CallHistory Call Reply → Prop} {R : β → CallHistory Call Reply → Prop}

theorem mono (h : Yields allowed G P p Q) (hP : ∀ w, P' w → P w) (hQ : ∀ a w, Q a w → Q' a w) :
    Yields allowed G P' p Q' :=
  Leads.mono h (fun w hw => ⟨hw.1, hP w hw.2⟩) fun _ w hw => ⟨hw.1, fun a ha => hQ a w (hw.2 a ha)⟩

/-- What does not depend on the record is assumed outright. -/
theorem of_fact {fact : Prop} (h : fact → Yields allowed G P p Q) :
    Yields allowed G (fun w => fact ∧ P w) p Q := by
  rintro w ⟨hG, hfact, hP⟩
  exact h hfact w ⟨hG, hP⟩

theorem ofExcept {result : Except ε α} (h : ∀ a w, result = .ok a → P w → Q a w) :
    Yields allowed G P (ExceptT.mk (Process.done result)) Q :=
  leads_done (recorded_stable _) (fun _ hw => hw.1) fun w hw => ⟨hw.1, fun a ha => h a w ha hw.2⟩

theorem pure {a : α} (h : ∀ w, P w → Q a w) :
    Yields allowed G P (Pure.pure a : ExceptT ε (Process Call Reply) α) Q := by
  have hresult : ∀ b w, (.ok a : Except ε α) = .ok b → P w → Q b w := by
    rintro _ w ⟨⟩ hP
    exact h w hP
  exact ofExcept hresult

theorem throw {e : ε} : Yields allowed G P (throw e : ExceptT ε (Process Call Reply) α) Q :=
  have hresult : ∀ a w, (.error e : Except ε α) = .ok a → P w → Q a w := fun _ _ h => nomatch h
  ofExcept hresult

theorem bind (hp : Yields allowed G P p Q) (hf : ∀ a, Yields allowed G (Q a) (f a) R) :
    Yields allowed G P (p >>= f) R := by
  refine leads_bind hp ?_
  rintro (e | a)
  · refine leads_done (recorded_stable _) (fun _ hw => hw.1) fun w hw => ⟨hw.1, ?_⟩
    intro b hb
    cases hb
  · exact Leads.mono (hf a) (fun w hw => ⟨hw.1, hw.2 a rfl⟩) fun _ _ h => h

/-- A failure is a result like any other. -/
theorem run (hp : Yields allowed G P p Q) :
    Yields allowed G P (ExceptT.lift p.run : ExceptT ε' (Process Call Reply) (Except ε α))
      fun result w => ∀ a, result = .ok a → Q a w := by
  refine leads_bind hp fun result => ?_
  refine leads_done (recorded_stable _) (fun _ hw => hw.1) fun w hw => ⟨hw.1, ?_⟩
  rintro _ ⟨⟩
  exact hw.2

theorem adapt (hp : Yields allowed G P p Q) (g : ε → ε') :
    Yields allowed G P (ExceptT.adapt g p) Q := by
  refine leads_bind hp fun result => ?_
  refine leads_done (recorded_stable _) (fun _ hw => hw.1) fun w hw => ⟨hw.1, ?_⟩
  intro a ha
  cases result with
  | error e => cases ha
  | ok b =>
      cases ha
      exact hw.2 a rfl

theorem ask {c : Call} {Q : Reply c → CallHistory Call Reply → Prop}
    (hG : ∀ w r, G w → P w → allowed c r → G (w ++ [⟨c, r⟩]))
    (hQ : ∀ w r, P w → allowed c r → Q r (w ++ [⟨c, r⟩])) :
    Yields allowed G P (ExceptT.lift (perform c) : ExceptT ε (Process Call Reply) (Reply c)) Q := by
  refine leads_call (R := fun r w => G w ∧ Q r w) (recorded_stable _) (fun _ hw => hw.1) ?_ ?_
  · rintro w r _ ⟨hw, hP⟩ ⟨hallowed, rfl⟩
    exact ⟨hG w r hw hP hallowed, hQ w r hP hallowed⟩
  · intro r
    refine leads_done (recorded_stable _) (fun _ hw => hw.1) fun w hw => ⟨hw.1, ?_⟩
    rintro _ ⟨⟩
    exact hw.2

end Yields

end CallSystem
