import MosaicArchive.Effects.CallHistory

/-!
What the calls of a program amount to, as a list of deeds. `Traces` is `Does` with the
deeds in place of the calls, and `Quietly` is for programs without deeds.
-/

namespace CallHistory

variable {Call : Type} {Reply : Call → Type} {ε ε' α β δ : Type}

/-- The deeds of the calls, the oldest first. -/
def trace (deeds : (Σ c : Call, Reply c) → List δ) (made : CallHistory Call Reply) : List δ :=
  made.flatMap deeds

variable (deeds : (Σ c : Call, Reply c) → List δ)

@[simp] theorem trace_nil : trace deeds [] = [] := rfl

@[simp] theorem trace_append (made later : CallHistory Call Reply) :
    trace deeds (made ++ later) = trace deeds made ++ trace deeds later := List.flatMap_append

@[simp] theorem trace_singleton (e : Σ c : Call, Reply c) : trace deeds [e] = deeds e :=
  List.flatMap_singleton deeds e

/-- Whatever happened before, the program returns in `Q` or raises in `E`, with its deeds. -/
def Traces (p : Routine (CallHistory Call Reply) ε α) (Q : α → List δ → Prop)
    (E : ε → List δ → Prop) : Prop :=
  Does p (fun a made => Q a (trace deeds made)) fun e made => E e (trace deeds made)

variable {deeds}

namespace Traces

variable {p : Routine (CallHistory Call Reply) ε α} {f : α → Routine (CallHistory Call Reply) ε β}
  {Q Q' : α → List δ → Prop} {R : β → List δ → Prop} {E E' : ε → List δ → Prop}

theorem mono (hp : Traces deeds p Q E) (hQ : ∀ a t, Q a t → Q' a t) (hE : ∀ e t, E e t → E' e t) :
    Traces deeds p Q' E' :=
  Does.mono hp (fun a _ h => hQ a _ h) fun e _ h => hE e _ h

/-- What is known besides of the results. -/
theorem returning {P : α → Prop} (hp : Traces deeds p Q E) (hr : Returns p fun a _ => P a) :
    Traces deeds p (fun a t => Q a t ∧ P a) E := by
  intro h
  refine ((hp h).and (hr h)).mono ?_ fun _ _ he => he.1
  rintro a h' ⟨⟨made, rfl, ha⟩, _, -, hpa⟩
  exact ⟨made, rfl, ha, hpa⟩

theorem pure {a : α} (h : Q a []) :
    Traces deeds (Pure.pure a : Routine (CallHistory Call Reply) ε α) Q E :=
  Does.pure h

theorem raise {e : ε} (h : E e []) :
    Traces deeds (Routine.raise e : Routine (CallHistory Call Reply) ε α) Q E :=
  Does.raise h

theorem lift {x : Except ε α} (hQ : ∀ a, x = .ok a → Q a []) (hE : ∀ e, x = .error e → E e []) :
    Traces deeds (Routine.lift x : Routine (CallHistory Call Reply) ε α) Q E :=
  Does.lift hQ hE

theorem ask {env : Environment Call Reply} {c : Call} {Q : Reply c → List δ → Prop}
    (h : ∀ r, Q r (deeds ⟨c, r⟩)) :
    Traces deeds (CallHistory.ask env c : Routine (CallHistory Call Reply) ε (Reply c)) Q E := by
  refine Does.ask fun r => ?_
  rw [trace_singleton]
  exact h r

/-- A call, when something is known of how the system answers it. -/
theorem ask_env {env : Environment Call Reply} {c : Call} {Q : Reply c → List δ → Prop}
    (h : ∀ before, Q (env before c) (deeds ⟨c, env before c⟩)) :
    Traces deeds (CallHistory.ask env c : Routine (CallHistory Call Reply) ε (Reply c)) Q E := by
  intro before
  refine ⟨_, rfl, ?_⟩
  show Q (env before c) (trace deeds [⟨c, env before c⟩])
  rw [trace_singleton]
  exact h before

theorem bind (hp : Traces deeds p Q E)
    (hf : ∀ a t, Q a t →
      Traces deeds (f a) (fun b later => R b (t ++ later)) fun e later => E' e (t ++ later))
    (hE : ∀ e t, E e t → E' e t) : Traces deeds (p >>= f) R E' := by
  refine Does.bind hp ?_ fun e made he => hE e _ he
  intro a made ha
  refine Does.mono (hf a _ ha) ?_ ?_
  · intro b later hb
    rwa [trace_append]
  · intro e later he
    rwa [trace_append]

theorem attempt (hp : Traces deeds p Q E) {R : Except ε α → List δ → Prop} {E' : ε' → List δ → Prop}
    (hok : ∀ a t, Q a t → R (.ok a) t) (herror : ∀ e t, E e t → R (.error e) t) :
    Traces deeds (Routine.attempt p : Routine (CallHistory Call Reply) ε' (Except ε α)) R E' := by
  have hattempt : Does (Routine.attempt p : Routine (CallHistory Call Reply) ε' (Except ε α))
      (Either (fun a made => Q a (trace deeds made)) fun e made => E e (trace deeds made))
      fun _ _ => False := Does.attempt hp
  refine Does.mono hattempt ?_ fun _ _ h => h.elim
  rintro (e | a) made h
  · exact herror e _ h
  · exact hok a _ h

theorem onError {handler : ε → Routine (CallHistory Call Reply) ε α} (hp : Traces deeds p Q E)
    (hhandler : ∀ e t, E e t →
      Traces deeds (handler e) (fun a later => Q a (t ++ later)) fun e' later => E' e' (t ++ later)) :
    Traces deeds (Routine.onError p handler) Q E' := by
  intro h
  rw [Routine.ends_onError]
  refine (hp h).mono (fun _ _ h => h) ?_
  rintro e h' ⟨made, rfl, he⟩
  refine (hhandler e _ he (h ++ made)).mono ?_ ?_
  · rintro a h' ⟨later, rfl, ha⟩
    refine ⟨made ++ later, List.append_assoc _ _ _, ?_⟩
    show Q a (trace deeds (made ++ later))
    rwa [trace_append]
  · rintro e' h' ⟨later, rfl, he'⟩
    refine ⟨made ++ later, List.append_assoc _ _ _, ?_⟩
    show E' e' (trace deeds (made ++ later))
    rwa [trace_append]

theorem mapError {g : ε → ε'} {E' : ε' → List δ → Prop} (hp : Traces deeds p Q fun e => E' (g e)) :
    Traces deeds (Routine.mapError g p) Q E' :=
  Does.mapError hp

/-- What is done in the end may raise in place of the program. -/
theorem finally_then {clean : Routine (CallHistory Call Reply) ε Unit} {C D : List δ → Prop}
    {Q' : α → List δ → Prop} {E' : ε → List δ → Prop} (hp : Traces deeds p Q E)
    (hclean : Traces deeds clean (fun _ t => C t) fun _ t => D t)
    (hQ : ∀ a t t', Q a t → C t' → Q' a (t ++ t')) (hlast : ∀ a e t t', Q a t → D t' → E' e (t ++ t'))
    (hE : ∀ e t t', E e t → C t' → E' e (t ++ t')) (hboth : ∀ e e' t t', E e t → D t' → E' e' (t ++ t')) :
    Traces deeds (Routine.finally' p clean) Q' E' := by
  intro h
  rw [Routine.ends_finally]
  refine (hp h).mono ?_ ?_
  · rintro a h' ⟨made, rfl, ha⟩
    refine (hclean (h ++ made)).mono ?_ ?_
    · rintro ⟨⟩ h' ⟨later, rfl, hlater⟩
      refine ⟨made ++ later, List.append_assoc _ _ _, ?_⟩
      show Q' a (trace deeds (made ++ later))
      rw [trace_append]
      exact hQ a _ _ ha hlater
    · rintro e h' ⟨later, rfl, hlater⟩
      refine ⟨made ++ later, List.append_assoc _ _ _, ?_⟩
      show E' e (trace deeds (made ++ later))
      rw [trace_append]
      exact hlast a e _ _ ha hlater
  · rintro e h' ⟨made, rfl, he⟩
    refine (hclean (h ++ made)).mono ?_ ?_
    · rintro ⟨⟩ h' ⟨later, rfl, hlater⟩
      refine ⟨made ++ later, List.append_assoc _ _ _, ?_⟩
      show E' e (trace deeds (made ++ later))
      rw [trace_append]
      exact hE e _ _ he hlater
    · rintro e' h' ⟨later, rfl, hlater⟩
      refine ⟨made ++ later, List.append_assoc _ _ _, ?_⟩
      show E' e' (trace deeds (made ++ later))
      rw [trace_append]
      exact hboth e e' _ _ he hlater

/-- What is done in the end has no deeds. -/
theorem finally' {clean : Routine (CallHistory Call Reply) ε Unit} (hp : Traces deeds p Q E)
    (hclean : Traces deeds clean (fun _ t => t = []) fun _ t => t = [])
    (hQ : ∀ a e t, Q a t → E e t) (hE : ∀ e e' t, E e t → E e' t) :
    Traces deeds (Routine.finally' p clean) Q E := by
  refine finally_then hp hclean ?_ ?_ ?_ ?_
  · rintro a t _ ha rfl
    rwa [List.append_nil]
  · rintro a e t _ ha rfl
    rw [List.append_nil]
    exact hQ a e t ha
  · rintro e t _ he rfl
    rwa [List.append_nil]
  · rintro e e' t _ he rfl
    rw [List.append_nil]
    exact hE e e' t he

end Traces

/-! ### Programs without deeds -/

variable (deeds) in
/-- The program does nothing of interest, and its result is in `Q`. -/
def Quietly (p : Routine (CallHistory Call Reply) ε α) (Q : α → Prop) : Prop :=
  Traces deeds p (fun a t => t = [] ∧ Q a) fun _ t => t = []

namespace Quietly

variable {p : Routine (CallHistory Call Reply) ε α} {f : α → Routine (CallHistory Call Reply) ε β}
  {Q Q' : α → Prop} {R : β → Prop}

theorem mono (hp : Quietly deeds p Q) (hQ : ∀ a, Q a → Q' a) : Quietly deeds p Q' :=
  Traces.mono hp (fun a _ h => ⟨h.1, hQ a h.2⟩) fun _ _ h => h

theorem pure {a : α} (h : Q a) :
    Quietly deeds (Pure.pure a : Routine (CallHistory Call Reply) ε α) Q :=
  Traces.pure ⟨rfl, h⟩

theorem raise {e : ε} : Quietly deeds (Routine.raise e : Routine (CallHistory Call Reply) ε α) Q :=
  Traces.raise rfl

theorem lift {x : Except ε α} (h : ∀ a, x = .ok a → Q a) :
    Quietly deeds (Routine.lift x : Routine (CallHistory Call Reply) ε α) Q :=
  Traces.lift (fun a ha => ⟨rfl, h a ha⟩) fun _ _ => rfl

theorem raiseIf {c : Prop} [Decidable c] {e : ε} {Q : Unit → Prop} (h : ¬ c → Q ()) :
    Quietly deeds (Routine.raiseIf c e : Routine (CallHistory Call Reply) ε Unit) Q :=
  Does.raiseIf (fun _ => rfl) fun hc => ⟨rfl, h hc⟩

theorem ask {env : Environment Call Reply} {c : Call} (h : ∀ r, deeds ⟨c, r⟩ = []) :
    Quietly deeds (CallHistory.ask env c : Routine (CallHistory Call Reply) ε (Reply c))
      fun _ => True :=
  Traces.ask fun r => ⟨h r, trivial⟩

theorem bind (hp : Quietly deeds p Q) (hf : ∀ a, Q a → Quietly deeds (f a) R) :
    Quietly deeds (p >>= f) R := by
  refine Traces.bind hp ?_ fun _ _ h => h
  rintro a t ⟨rfl, ha⟩
  exact hf a ha

/-- What comes after it has all the deeds. -/
theorem before {R : β → List δ → Prop} {E : ε → List δ → Prop} (hp : Quietly deeds p Q)
    (hf : ∀ a, Q a → Traces deeds (f a) R E) (hE : ∀ e, E e []) : Traces deeds (p >>= f) R E := by
  refine Traces.bind hp ?_ ?_
  · rintro a t ⟨rfl, ha⟩
    exact hf a ha
  · rintro e t rfl
    exact hE e

theorem onError {handler : ε → Routine (CallHistory Call Reply) ε α} (hp : Quietly deeds p Q)
    (hhandler : ∀ e, Quietly deeds (handler e) Q) : Quietly deeds (Routine.onError p handler) Q := by
  refine Traces.onError hp ?_
  rintro e t rfl
  exact hhandler e

theorem mapError {g : ε → ε'} (hp : Quietly deeds p Q) : Quietly deeds (Routine.mapError g p) Q :=
  Traces.mapError hp

end Quietly

end CallHistory
