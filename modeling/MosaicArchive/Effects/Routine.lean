import Mathlib.Tactic

/-!
Computations on a state that return or raise, with the state they leave in both
cases, and the conditions under which they end in given postconditions. Each
way of building a computation has one rewrite rule for `Ends`, so that the
condition of a whole computation is found by `simp`; loops and handlers have
rules with an invariant.
-/

/-- A computation that returns a value or raises an exception, on a state. -/
def Routine (σ ε α : Type) := σ → Except ε α × σ

namespace Routine

variable {σ ε α β : Type}

instance : Monad (Routine σ ε) where
  pure a := fun s => (.ok a, s)
  bind p f := fun s =>
    match p s with
    | (.ok a, s') => f a s'
    | (.error e, s') => (.error e, s')

def raise (e : ε) : Routine σ ε α := fun s => (.error e, s)

/-- `if c: raise e` -/
def raiseIf (c : Prop) [Decidable c] (e : ε) : Routine σ ε Unit := if c then raise e else pure ()

/-- A computation that does not use the state. -/
def lift (x : Except ε α) : Routine σ ε α := fun s => (x, s)

def get : Routine σ ε σ := fun s => (.ok s, s)

def update (f : σ → σ) : Routine σ ε Unit := fun s => (.ok (), f s)

/-- `try: p except e: handler(e)` -/
def onError (p : Routine σ ε α) (handler : ε → Routine σ ε α) : Routine σ ε α := fun s =>
  match p s with
  | (.ok a, s') => (.ok a, s')
  | (.error e, s') => handler e s'

/-- `try: p finally: f`; an exception of `f` replaces the outcome of `p`. -/
def finally' (p : Routine σ ε α) (f : Routine σ ε Unit) : Routine σ ε α := fun s =>
  match p s with
  | (r, s') =>
      match f s' with
      | (.ok _, s'') => (r, s'')
      | (.error e, s'') => (.error e, s'')

/-- `p` with its outcome as a value, a returned one or a raised one. -/
def attempt {ε' : Type} (p : Routine σ ε α) : Routine σ ε' (Except ε α) := fun s =>
  match p s with
  | (r, s') => (.ok r, s')

/-- `p` with another exception in place of the one it raises. -/
def mapError {ε' : Type} (f : ε → ε') (p : Routine σ ε α) : Routine σ ε' α := fun s =>
  match p s with
  | (r, s') => (r.mapError f, s')

/-- The computation ends in `Q` if it returns and in `E` if it raises. -/
def Ends (p : Routine σ ε α) (Q : α → σ → Prop) (E : ε → σ → Prop) (s : σ) : Prop :=
  match p s with
  | (.ok a, s') => Q a s'
  | (.error e, s') => E e s'

variable {Q Q' : α → σ → Prop} {E E' : ε → σ → Prop} {s : σ}

theorem Ends.of_ok {p : Routine σ ε α} (h : p.Ends Q E s) {a : α} {s' : σ} (hp : p s = (.ok a, s')) :
    Q a s' := by
  unfold Ends at h
  rw [hp] at h
  exact h

theorem Ends.of_error {p : Routine σ ε α} (h : p.Ends Q E s) {e : ε} {s' : σ}
    (hp : p s = (.error e, s')) : E e s' := by
  unfold Ends at h
  rw [hp] at h
  exact h

theorem ends_iff {p : Routine σ ε α} : p.Ends Q E s ↔
    (∀ a s', p s = (.ok a, s') → Q a s') ∧ ∀ e s', p s = (.error e, s') → E e s' := by
  unfold Ends
  rcases p s with ⟨e | a, s'⟩ <;> simp

/-- The run itself. -/
theorem ends_self (p : Routine σ ε α) (s : σ) :
    p.Ends (fun a s' => p s = (.ok a, s')) (fun e s' => p s = (.error e, s')) s :=
  ends_iff.mpr ⟨fun _ _ h => h, fun _ _ h => h⟩

theorem Ends.mono {p : Routine σ ε α} (h : p.Ends Q E s) (hQ : ∀ a s', Q a s' → Q' a s')
    (hE : ∀ e s', E e s' → E' e s') : p.Ends Q' E' s := by
  rw [ends_iff] at h ⊢
  exact ⟨fun a s' hp => hQ a s' (h.1 a s' hp), fun e s' hp => hE e s' (h.2 e s' hp)⟩

theorem Ends.and {p : Routine σ ε α} (h : p.Ends Q E s) (h' : p.Ends Q' E' s) :
    p.Ends (fun a s' => Q a s' ∧ Q' a s') (fun e s' => E e s' ∧ E' e s') s := by
  rw [ends_iff] at h h' ⊢
  exact ⟨fun a s' hp => ⟨h.1 a s' hp, h'.1 a s' hp⟩, fun e s' hp => ⟨h.2 e s' hp, h'.2 e s' hp⟩⟩

@[simp] theorem ends_pure {a : α} : (pure a : Routine σ ε α).Ends Q E s ↔ Q a s := Iff.rfl

theorem bind_ok {p : Routine σ ε β} {f : β → Routine σ ε α} {b : β} {s' : σ}
    (h : p s = (.ok b, s')) : (p >>= f) s = f b s' := by
  simp only [bind, h]

theorem bind_error {p : Routine σ ε β} {f : β → Routine σ ε α} {e : ε} {s' : σ}
    (h : p s = (.error e, s')) : (p >>= f) s = (.error e, s') := by
  simp only [bind, h]

theorem bind_assoc {γ : Type} (p : Routine σ ε α) (f : α → Routine σ ε β) (g : β → Routine σ ε γ) :
    p >>= f >>= g = p >>= fun a => f a >>= g := by
  funext s
  rcases hp : p s with ⟨e | a, s'⟩
  · rw [bind_error hp, bind_error (bind_error hp)]
  · rw [bind_ok hp]
    show (p >>= f >>= g) s = (f a >>= g) s'
    simp only [bind, hp]

@[simp] theorem ends_bind {p : Routine σ ε β} {f : β → Routine σ ε α} :
    (p >>= f).Ends Q E s ↔ p.Ends (fun b s' => (f b).Ends Q E s') E s := by
  unfold Ends
  rcases hp : p s with ⟨e | b, s'⟩
  · rw [bind_error hp]
  · rw [bind_ok hp]

@[simp] theorem ends_raise {e : ε} : (raise e : Routine σ ε α).Ends Q E s ↔ E e s := Iff.rfl

@[simp] theorem ends_raiseIf {c : Prop} [Decidable c] {e : ε} {Q : Unit → σ → Prop} :
    (raiseIf c e).Ends Q E s ↔ (c → E e s) ∧ (¬ c → Q () s) := by
  unfold raiseIf
  split <;> simp [*]

@[simp] theorem ends_lift {x : Except ε α} :
    (lift x : Routine σ ε α).Ends Q E s ↔ (∀ a, x = .ok a → Q a s) ∧ ∀ e, x = .error e → E e s := by
  unfold Ends lift
  rcases x with e | a <;> simp

@[simp] theorem ends_get {Q : σ → σ → Prop} : (get : Routine σ ε σ).Ends Q E s ↔ Q s s := Iff.rfl

@[simp] theorem ends_update {f : σ → σ} {Q : Unit → σ → Prop} :
    (update f : Routine σ ε Unit).Ends Q E s ↔ Q () (f s) := Iff.rfl

@[simp] theorem ends_onError {p : Routine σ ε α} {handler : ε → Routine σ ε α} :
    (onError p handler).Ends Q E s ↔ p.Ends Q (fun e s' => (handler e).Ends Q E s') s := by
  unfold Ends onError
  rcases p s with ⟨e | a, s'⟩ <;> rfl

@[simp] theorem ends_finally {p : Routine σ ε α} {f : Routine σ ε Unit} :
    (finally' p f).Ends Q E s ↔
      p.Ends (fun a s' => f.Ends (fun _ => Q a) E s') (fun e s' => f.Ends (fun _ => E e) E s') s := by
  unfold Ends finally'
  rcases p s with ⟨e | a, s'⟩
  · rcases hf : f s' with ⟨e' | u, s''⟩ <;> simp [hf]
  · rcases hf : f s' with ⟨e' | u, s''⟩ <;> simp [hf]

@[simp] theorem ends_attempt {ε' : Type} {p : Routine σ ε α} {Q : Except ε α → σ → Prop}
    {E : ε' → σ → Prop} :
    (attempt p : Routine σ ε' (Except ε α)).Ends Q E s ↔
      p.Ends (fun a => Q (.ok a)) (fun e => Q (.error e)) s := by
  unfold Ends attempt
  rcases p s with ⟨e | a, s'⟩ <;> rfl

@[simp] theorem ends_mapError {ε' : Type} {p : Routine σ ε α} {f : ε → ε'} {E : ε' → σ → Prop} :
    (mapError f p).Ends Q E s ↔ p.Ends Q (fun e => E (f e)) s := by
  unfold Ends mapError
  rcases p s with ⟨e | a, s'⟩ <;> rfl

/-! ### Loops -/

/-- `for x in xs` with the variables the body updates. -/
def forEach {τ : Type} (body : τ → α → Routine σ ε τ) : List α → τ → Routine σ ε τ
  | [], t => pure t
  | a :: as, t => do
      let t' ← body t a
      forEach body as t'

/-- An invariant over what is left of the list. -/
theorem ends_forEach {τ : Type} {body : τ → α → Routine σ ε τ} (I : List α → τ → σ → Prop)
    {E : ε → σ → Prop}
    (hbody : ∀ a as t s, I (a :: as) t s → (body t a).Ends (I as) E s) {as : List α} {t : τ} {s : σ}
    (h : I as t s) : (forEach body as t).Ends (I []) E s := by
  induction as generalizing t s with
  | nil => exact h
  | cons a as ih =>
      simp only [forEach, ends_bind]
      exact (hbody a as t s h).mono (fun t' s' h' => ih h') fun _ _ h' => h'

/-! ### Conditions on the state -/

/-- From a state in `P` the computation returns in `Q` or raises in `E`. -/
def Leads (P : σ → Prop) (p : Routine σ ε α) (Q E : σ → Prop) : Prop :=
  ∀ s, P s → p.Ends (fun _ => Q) (fun _ => E) s

namespace Leads

variable {P P' R E Q : σ → Prop}

theorem pure {a : α} (h : ∀ s, P s → Q s) : Leads P (Pure.pure a : Routine σ ε α) Q E := h

theorem raise {e : ε} (h : ∀ s, P s → E s) : Leads P (Routine.raise e : Routine σ ε α) Q E := h

theorem bind {p : Routine σ ε β} {f : β → Routine σ ε α} (hp : Leads P p R E)
    (hf : ∀ b, Leads R (f b) Q E) : Leads P (p >>= f) Q E := by
  intro s hs
  rw [ends_bind]
  exact (hp s hs).mono (fun b s' hs' => hf b s' hs') fun _ _ h => h

theorem mono {p : Routine σ ε α} (h : Leads P p Q E) (hP : ∀ s, P' s → P s) : Leads P' p Q E :=
  fun s hs => h s (hP s hs)

theorem weaken {p : Routine σ ε α} (h : Leads P p Q E) (hQ : ∀ s, Q s → R s) : Leads P p R E :=
  fun s hs => (h s hs).mono (fun _ s' hs' => hQ s' hs') fun _ _ h => h

theorem raiseIf {c : Prop} [Decidable c] {e : ε} (hE : ∀ s, P s → E s) :
    Leads P (Routine.raiseIf c e : Routine σ ε Unit) P E := by
  intro s hs
  rw [ends_raiseIf]
  exact ⟨fun _ => hE s hs, fun _ => hs⟩

/-- What follows a check knows that it passed. -/
theorem guard {c : Prop} [Decidable c] {e : ε} {f : Unit → Routine σ ε α} (hE : ∀ s, P s → E s)
    (h : ¬ c → Leads P (f ()) Q E) : Leads P (Routine.raiseIf c e >>= f) Q E := by
  intro s hs
  rw [ends_bind, ends_raiseIf]
  exact ⟨fun _ => hE s hs, fun hc => h hc s hs⟩

theorem lift {x : Except ε α} (hE : ∀ s, P s → E s) : Leads P (Routine.lift x : Routine σ ε α) P E := by
  intro s hs
  rw [ends_lift]
  exact ⟨fun _ _ => hs, fun _ _ => hE s hs⟩

/-- Looking at the state fixes it for what follows. -/
theorem get {f : σ → Routine σ ε α} (h : ∀ s, P s → Leads (fun s' => s' = s ∧ P s') (f s) Q E) :
    Leads P (Routine.get >>= f) Q E := by
  intro s hs
  rw [ends_bind, ends_get]
  exact h s hs s ⟨rfl, hs⟩

theorem update {f : σ → σ} (h : ∀ s, P s → Q (f s)) : Leads P (Routine.update f : Routine σ ε Unit) Q E :=
  h

theorem onError {p : Routine σ ε α} {handler : ε → Routine σ ε α} (hp : Leads P p Q R)
    (hhandler : ∀ e, Leads R (handler e) Q E) : Leads P (Routine.onError p handler) Q E := by
  intro s hs
  rw [ends_onError]
  exact (hp s hs).mono (fun _ _ h => h) fun e s' hs' => hhandler e s' hs'

/-- With the same condition for both ends, the condition holds of the state left. -/
theorem state {p : Routine σ ε α} (h : Leads P p Q Q) {s : σ} (hs : P s) : Q (p s).2 := by
  have hends := h s hs
  unfold Ends at hends
  rcases hp : p s with ⟨e | a, s'⟩ <;> rw [hp] at hends <;> exact hends

theorem forEach {τ : Type} {body : τ → α → Routine σ ε τ} {as : List α} {t : τ}
    (h : ∀ t, ∀ a ∈ as, Leads P (body t a) P E) : Leads P (Routine.forEach body as t) P E := by
  induction as generalizing t with
  | nil => exact pure fun _ hs => hs
  | cons a as ih =>
      refine bind (h t a List.mem_cons_self) fun t' => ih fun t a' ha' => ?_
      exact h t a' (List.mem_cons_of_mem _ ha')

end Leads

/-! ### What a computation leaves alone -/

/-- Whatever the outcome, the state is related to the one before. -/
def Keeps (R : σ → σ → Prop) (p : Routine σ ε α) : Prop := ∀ s, R s (p s).2

theorem Keeps.ends {R : σ → σ → Prop} {p : Routine σ ε α} (h : p.Keeps R) (s : σ) :
    p.Ends (fun _ s' => R s s') (fun _ s' => R s s') s := by
  unfold Ends
  have hs := h s
  rcases hp : p s with ⟨e | a, s'⟩ <;> rw [hp] at hs <;> exact hs

theorem keeps_iff {R : σ → σ → Prop} {p : Routine σ ε α} :
    p.Keeps R ↔ ∀ s, p.Ends (fun _ s' => R s s') (fun _ s' => R s s') s := by
  refine ⟨Keeps.ends, fun h s => ?_⟩
  have hs := h s
  unfold Ends at hs
  rcases hp : p s with ⟨e | a, s'⟩ <;> rw [hp] at hs <;> exact hs

end Routine
