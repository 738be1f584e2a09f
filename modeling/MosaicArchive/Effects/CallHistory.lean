import MosaicArchive.Effects.Routine

/-!
Programs that call the system while anything may happen around them. A call is
answered by an environment that sees every call made so far and what it
answered, so a statement about every environment is one about every behaviour of
the system and of the other parties. `Returns` is what a program ensures when it
returns, of its result and of the calls it made itself; `Does` is the same for
both of its ends.
-/

/-- The calls made so far with their replies, the oldest first. -/
abbrev CallHistory (Call : Type) (Reply : Call → Type) := List (Σ c : Call, Reply c)

namespace CallHistory

variable {Call : Type} {Reply : Call → Type} {ε α β : Type}

abbrev Environment (Call : Type) (Reply : Call → Type) :=
  CallHistory Call Reply → (c : Call) → Reply c

/-- One call, with its reply. -/
def ask (env : Environment Call Reply) (c : Call) :
    Routine (CallHistory Call Reply) ε (Reply c) :=
  fun h => (.ok (env h c), h ++ [⟨c, env h c⟩])

/-- Whatever happened before, if the program returns, its result and the calls it made are in `Q`. -/
def Returns (p : Routine (CallHistory Call Reply) ε α) (Q : α → CallHistory Call Reply → Prop) : Prop :=
  ∀ h, p.Ends (fun a h' => ∃ made, h' = h ++ made ∧ Q a made) (fun _ _ => True) h

namespace Returns

variable {p : Routine (CallHistory Call Reply) ε α} {f : α → Routine (CallHistory Call Reply) ε β}
  {Q Q' : α → CallHistory Call Reply → Prop} {R : β → CallHistory Call Reply → Prop}

theorem elim (hp : Returns p Q) {h h' : CallHistory Call Reply} {a : α} (hrun : p h = (.ok a, h')) :
    ∃ made, h' = h ++ made ∧ Q a made :=
  (hp h).of_ok hrun

/-- What holds of every result, whatever was called. -/
theorem result {P : α → Prop} (hp : Returns p fun a _ => P a) {h : CallHistory Call Reply} {a : α}
    (ha : (p h).1 = .ok a) : P a := by
  rcases hrun : p h with ⟨x, h'⟩
  obtain rfl : x = .ok a := by rw [← ha, hrun]
  obtain ⟨made, -, hresult⟩ := hp.elim hrun
  exact hresult

theorem mono (hp : Returns p Q) (hQ : ∀ a made, Q a made → Q' a made) : Returns p Q' := by
  intro h
  refine (hp h).mono ?_ fun _ _ h => h
  rintro a h' ⟨made, hmade, ha⟩
  exact ⟨made, hmade, hQ a made ha⟩

theorem and (hp : Returns p Q) (hp' : Returns p Q') : Returns p fun a made => Q a made ∧ Q' a made := by
  intro h
  refine ((hp h).and (hp' h)).mono ?_ fun _ _ _ => trivial
  rintro a h' ⟨⟨made, rfl, ha⟩, made', hmade', ha'⟩
  obtain rfl := List.append_cancel_left hmade'
  exact ⟨made, rfl, ha, ha'⟩

theorem pure {a : α} (h : Q a []) :
    Returns (Pure.pure a : Routine (CallHistory Call Reply) ε α) Q :=
  fun _ => ⟨[], (List.append_nil _).symm, h⟩

theorem raise {e : ε} : Returns (Routine.raise e : Routine (CallHistory Call Reply) ε α) Q :=
  fun _ => trivial

theorem ask {env : Environment Call Reply} {c : Call} {Q : Reply c → CallHistory Call Reply → Prop}
    (h : ∀ r, Q r [⟨c, r⟩]) :
    Returns (ask env c : Routine (CallHistory Call Reply) ε (Reply c)) Q :=
  fun _ => ⟨_, rfl, h _⟩

/-- The calls of the second part come after those of the first. -/
theorem bind (hp : Returns p Q)
    (hf : ∀ a made, Q a made → Returns (f a) fun b later => R b (made ++ later)) :
    Returns (p >>= f) R := by
  intro h
  rw [Routine.ends_bind]
  refine (hp h).mono ?_ fun _ _ h => h
  rintro a h' ⟨made, rfl, ha⟩
  refine (hf a made ha (h ++ made)).mono ?_ fun _ _ h => h
  rintro b h' ⟨later, rfl, hb⟩
  exact ⟨made ++ later, List.append_assoc _ _ _, hb⟩

theorem lift {x : Except ε α} (h : ∀ a, x = .ok a → Q a []) :
    Returns (Routine.lift x : Routine (CallHistory Call Reply) ε α) Q := by
  intro s
  rw [Routine.ends_lift]
  exact ⟨fun a ha => ⟨[], (List.append_nil _).symm, h a ha⟩, fun _ _ => trivial⟩

theorem raiseIf {c : Prop} [Decidable c] {e : ε} {Q : Unit → CallHistory Call Reply → Prop}
    (h : ¬ c → Q () []) :
    Returns (Routine.raiseIf c e : Routine (CallHistory Call Reply) ε Unit) Q := by
  intro s
  rw [Routine.ends_raiseIf]
  exact ⟨fun _ => trivial, fun hc => ⟨[], (List.append_nil _).symm, h hc⟩⟩

theorem bind_ask {env : Environment Call Reply} {c : Call}
    {f : Reply c → Routine (CallHistory Call Reply) ε β}
    (h : ∀ r, Returns (f r) fun b later => R b (⟨c, r⟩ :: later)) :
    Returns (CallHistory.ask env c >>= f) R := by
  refine bind (ask (Q := fun r made => made = [⟨c, r⟩]) fun _ => rfl) fun r made hmade => ?_
  subst hmade
  exact h r

theorem bind_pure {a : α} (h : Returns (f a) R) : Returns (Pure.pure a >>= f) R := h

theorem bind_raise {e : ε} :
    Returns ((Routine.raise e : Routine (CallHistory Call Reply) ε α) >>= f) R :=
  fun _ => trivial

/-- A computation that makes no calls, before another. -/
theorem bind_lift {x : Except ε α} (h : ∀ a, x = .ok a → Returns (f a) R) :
    Returns (Routine.lift x >>= f) R :=
  bind (lift fun _ ha => ⟨ha, rfl⟩) (Q := fun a made => x = .ok a ∧ made = [])
    fun a made ha => by
      obtain ⟨ha, rfl⟩ := ha
      exact h a ha

theorem bind_raiseIf {c : Prop} [Decidable c] {e : ε} {f : Unit → Routine (CallHistory Call Reply) ε β}
    (h : ¬ c → Returns (f ()) R) : Returns (Routine.raiseIf c e >>= f) R :=
  bind (raiseIf fun hc => ⟨hc, rfl⟩) (Q := fun _ made => ¬ c ∧ made = [])
    fun _ made hmade => by
      obtain ⟨hc, rfl⟩ := hmade
      exact h hc

theorem forEach {τ : Type} {body : τ → α → Routine (CallHistory Call Reply) ε τ} {I : τ → Prop}
    (hbody : ∀ t a, I t → Returns (body t a) fun t' _ => I t') {as : List α} {t : τ} (ht : I t) :
    Returns (Routine.forEach body as t) fun t' _ => I t' := by
  induction as generalizing t with
  | nil => exact pure ht
  | cons a as ih => exact bind (hbody t a ht) fun t' _ ht' => ih ht'

/-- A handler that never returns leaves the ways to return as they are. -/
theorem onError {handler : ε → Routine (CallHistory Call Reply) ε α} (hp : Returns p Q)
    (hhandler : ∀ e, Returns (handler e) fun _ _ => False) : Returns (Routine.onError p handler) Q := by
  intro h
  rw [Routine.ends_onError]
  refine (hp h).mono (fun _ _ h => h) fun e h' _ => (hhandler e h').mono ?_ fun _ _ h => h
  rintro a h'' ⟨made, -, hfalse⟩
  exact hfalse.elim

theorem finally' {clean : Routine (CallHistory Call Reply) ε Unit}
    {R : Unit → CallHistory Call Reply → Prop} (hp : Returns p Q) (hclean : Returns clean R) :
    Returns (Routine.finally' p clean)
      fun a made => ∃ body final, made = body ++ final ∧ Q a body ∧ R () final := by
  intro h
  rw [Routine.ends_finally]
  refine (hp h).mono ?_ fun e h' _ => (hclean h').mono (fun _ _ _ => trivial) fun _ _ h => h
  rintro a h' ⟨body, rfl, ha⟩
  refine (hclean (h ++ body)).mono ?_ fun _ _ h => h
  rintro ⟨⟩ h'' ⟨final, rfl, hfinal⟩
  exact ⟨body ++ final, List.append_assoc _ _ _, body, final, rfl, ha, hfinal⟩

end Returns

/-! ### Both ends -/

/-- Whatever happened before, the program returns in `Q` or raises in `E`, with the calls it made. -/
def Does (p : Routine (CallHistory Call Reply) ε α) (Q : α → CallHistory Call Reply → Prop)
    (E : ε → CallHistory Call Reply → Prop) : Prop :=
  ∀ h, p.Ends (fun a h' => ∃ made, h' = h ++ made ∧ Q a made)
    (fun e h' => ∃ made, h' = h ++ made ∧ E e made) h

/-- An outcome in `Q` or `E`. -/
def Either (Q : α → CallHistory Call Reply → Prop) (E : ε → CallHistory Call Reply → Prop) :
    Except ε α → CallHistory Call Reply → Prop
  | .ok a => Q a
  | .error e => E e

namespace Does

variable {p : Routine (CallHistory Call Reply) ε α} {f : α → Routine (CallHistory Call Reply) ε β}
  {Q Q' : α → CallHistory Call Reply → Prop} {R : β → CallHistory Call Reply → Prop}
  {E E' : ε → CallHistory Call Reply → Prop}

theorem outcome (hp : Does p Q E) (h : CallHistory Call Reply) :
    ∃ made, (p h).2 = h ++ made ∧ (∀ a, (p h).1 = .ok a → Q a made) ∧
      ∀ e, (p h).1 = .error e → E e made := by
  have hends := hp h
  unfold Routine.Ends at hends
  rcases hrun : p h with ⟨e | a, h'⟩
  · rw [hrun] at hends
    obtain ⟨made, hmade, he⟩ := hends
    refine ⟨made, hmade, fun a ha => ?_, fun e' he' => ?_⟩
    · cases ha
    · cases he'
      exact he
  · rw [hrun] at hends
    obtain ⟨made, hmade, ha⟩ := hends
    refine ⟨made, hmade, fun a' ha' => ?_, fun e he => ?_⟩
    · cases ha'
      exact ha
    · cases he

theorem returns (hp : Does p Q E) : Returns p Q :=
  fun h => (hp h).mono (fun _ _ h => h) fun _ _ _ => trivial

theorem and (hp : Does p Q E) (hp' : Does p Q' E') :
    Does p (fun a made => Q a made ∧ Q' a made) fun e made => E e made ∧ E' e made := by
  intro h
  refine ((hp h).and (hp' h)).mono ?_ ?_
  · rintro a h' ⟨⟨made, rfl, ha⟩, made', hmade', ha'⟩
    obtain rfl := List.append_cancel_left hmade'
    exact ⟨made, rfl, ha, ha'⟩
  · rintro e h' ⟨⟨made, rfl, he⟩, made', hmade', he'⟩
    obtain rfl := List.append_cancel_left hmade'
    exact ⟨made, rfl, he, he'⟩

theorem mono (hp : Does p Q E) (hQ : ∀ a made, Q a made → Q' a made)
    (hE : ∀ e made, E e made → E' e made) : Does p Q' E' := by
  intro h
  refine (hp h).mono ?_ ?_
  · rintro a h' ⟨made, hmade, ha⟩
    exact ⟨made, hmade, hQ a made ha⟩
  · rintro e h' ⟨made, hmade, he⟩
    exact ⟨made, hmade, hE e made he⟩

theorem pure {a : α} (h : Q a []) :
    Does (Pure.pure a : Routine (CallHistory Call Reply) ε α) Q E :=
  fun _ => ⟨[], (List.append_nil _).symm, h⟩

theorem raise {e : ε} (h : E e []) :
    Does (Routine.raise e : Routine (CallHistory Call Reply) ε α) Q E :=
  fun _ => ⟨[], (List.append_nil _).symm, h⟩

theorem lift {x : Except ε α} (hQ : ∀ a, x = .ok a → Q a []) (hE : ∀ e, x = .error e → E e []) :
    Does (Routine.lift x : Routine (CallHistory Call Reply) ε α) Q E := by
  intro s
  rw [Routine.ends_lift]
  exact ⟨fun a ha => ⟨[], (List.append_nil _).symm, hQ a ha⟩,
    fun e he => ⟨[], (List.append_nil _).symm, hE e he⟩⟩

theorem raiseIf {c : Prop} [Decidable c] {e : ε} {Q : Unit → CallHistory Call Reply → Prop}
    (hE : c → E e []) (hQ : ¬ c → Q () []) :
    Does (Routine.raiseIf c e : Routine (CallHistory Call Reply) ε Unit) Q E := by
  intro s
  rw [Routine.ends_raiseIf]
  exact ⟨fun hc => ⟨[], (List.append_nil _).symm, hE hc⟩,
    fun hc => ⟨[], (List.append_nil _).symm, hQ hc⟩⟩

theorem ask {env : Environment Call Reply} {c : Call} {Q : Reply c → CallHistory Call Reply → Prop}
    (h : ∀ r, Q r [⟨c, r⟩]) :
    Does (ask env c : Routine (CallHistory Call Reply) ε (Reply c)) Q E :=
  fun _ => ⟨_, rfl, h _⟩

theorem bind (hp : Does p Q E)
    (hf : ∀ a made, Q a made →
      Does (f a) (fun b later => R b (made ++ later)) fun e later => E' e (made ++ later))
    (hE : ∀ e made, E e made → E' e made) : Does (p >>= f) R E' := by
  intro h
  rw [Routine.ends_bind]
  refine (hp h).mono ?_ ?_
  · rintro a h' ⟨made, rfl, ha⟩
    refine (hf a made ha (h ++ made)).mono ?_ ?_
    · rintro b h' ⟨later, rfl, hb⟩
      exact ⟨made ++ later, List.append_assoc _ _ _, hb⟩
    · rintro e h' ⟨later, rfl, he⟩
      exact ⟨made ++ later, List.append_assoc _ _ _, he⟩
  · rintro e h' ⟨made, rfl, he⟩
    exact ⟨made, rfl, hE e made he⟩

/-- After the calls in `before`, which the conditions speak of too. -/
theorem follow {before : CallHistory Call Reply} (hp : Does p Q E)
    (hf : ∀ a made, Q a made → Does (f a) (fun b later => R b (before ++ made ++ later))
      fun e later => E' e (before ++ made ++ later))
    (hE : ∀ e made, E e made → E' e (before ++ made)) :
    Does (p >>= f) (fun b later => R b (before ++ later)) fun e later => E' e (before ++ later) := by
  refine bind hp ?_ hE
  intro a made ha
  refine mono (hf a made ha) ?_ ?_
  · intro b later hb
    rwa [List.append_assoc] at hb
  · intro e later he
    rwa [List.append_assoc] at he

/-- A program that cannot raise any more. -/
theorem attempt {ε' : Type} {E' : ε' → CallHistory Call Reply → Prop} (hp : Does p Q E) :
    Does (Routine.attempt p : Routine (CallHistory Call Reply) ε' (Except ε α)) (Either Q E) E' := by
  intro h
  rw [Routine.ends_attempt]
  exact hp h

theorem mapError {ε' : Type} {g : ε → ε'} {E' : ε' → CallHistory Call Reply → Prop}
    (hp : Does p Q fun e => E' (g e)) : Does (Routine.mapError g p) Q E' := by
  intro h
  rw [Routine.ends_mapError]
  exact hp h

end Does

/-! ### Outcomes that do not depend on what happened before -/

/-- Whatever happened before, this is how the program ends. -/
def Settles (p : Routine (CallHistory Call Reply) ε α) (x : Except ε α) : Prop := ∀ h, (p h).1 = x

/-- Whatever happened before, the program raises. -/
def Fails (p : Routine (CallHistory Call Reply) ε α) : Prop := ∃ e, Settles p (.error e)

namespace Settles

variable {p : Routine (CallHistory Call Reply) ε α} {f : α → Routine (CallHistory Call Reply) ε β}

theorem pure {a : α} : Settles (Pure.pure a : Routine (CallHistory Call Reply) ε α) (.ok a) :=
  fun _ => rfl

theorem raise {e : ε} : Settles (Routine.raise e : Routine (CallHistory Call Reply) ε α) (.error e) :=
  fun _ => rfl

theorem ask {env : Environment Call Reply} {c : Call} {r : Reply c} (h : ∀ before, env before c = r) :
    Settles (CallHistory.ask env c : Routine (CallHistory Call Reply) ε (Reply c)) (.ok r) := by
  intro before
  rw [← h before]
  rfl

theorem raiseIf_pos {c : Prop} [Decidable c] {e : ε} (hc : c) :
    Settles (Routine.raiseIf c e : Routine (CallHistory Call Reply) ε Unit) (.error e) := by
  rw [Routine.raiseIf, if_pos hc]
  exact raise

theorem raiseIf_neg {c : Prop} [Decidable c] {e : ε} (hc : ¬ c) :
    Settles (Routine.raiseIf c e : Routine (CallHistory Call Reply) ε Unit) (.ok ()) := by
  rw [Routine.raiseIf, if_neg hc]
  exact pure

theorem bind {a : α} {y : Except ε β} (hp : Settles p (.ok a)) (hf : Settles (f a) y) :
    Settles (p >>= f) y := by
  intro h
  have hfirst := hp h
  rcases hrun : p h with ⟨x, h'⟩
  rw [hrun] at hfirst
  obtain rfl : x = .ok a := hfirst
  rw [Routine.bind_ok hrun]
  exact hf h'

/-- What the first part returns does not matter. -/
theorem bind_any {y : Except ε β} (hp : ∀ h, ∃ a h', p h = (.ok a, h')) (hf : ∀ a, Settles (f a) y) :
    Settles (p >>= f) y := by
  intro h
  obtain ⟨a, h', hrun⟩ := hp h
  rw [Routine.bind_ok hrun]
  exact hf a h'

theorem bind_error {e : ε} (hp : Settles p (.error e)) : Settles (p >>= f) (.error e) := by
  intro h
  have hfirst := hp h
  rcases hrun : p h with ⟨x, h'⟩
  rw [hrun] at hfirst
  obtain rfl : x = .error e := hfirst
  rw [Routine.bind_error hrun]

theorem onError {handler : ε → Routine (CallHistory Call Reply) ε α} {a : α} (hp : Settles p (.ok a)) :
    Settles (Routine.onError p handler) (.ok a) := by
  intro h
  have hfirst := hp h
  rcases hrun : p h with ⟨x, h'⟩
  rw [hrun] at hfirst
  obtain rfl : x = .ok a := hfirst
  simp only [Routine.onError, hrun]

theorem lift {x : Except ε α} :
    Settles (Routine.lift x : Routine (CallHistory Call Reply) ε α) x :=
  fun _ => rfl

theorem onError_error {handler : ε → Routine (CallHistory Call Reply) ε α} {e : ε} {x : Except ε α}
    (hp : Settles p (.error e)) (hhandler : Settles (handler e) x) :
    Settles (Routine.onError p handler) x := by
  intro h
  have hfirst := hp h
  rcases hrun : p h with ⟨y, h'⟩
  rw [hrun] at hfirst
  obtain rfl : y = .error e := hfirst
  simp only [Routine.onError, hrun]
  exact hhandler h'

theorem finally' {clean : Routine (CallHistory Call Reply) ε Unit} {x : Except ε α} (hp : Settles p x)
    (hclean : Settles clean (.ok ())) : Settles (Routine.finally' p clean) x := by
  intro h
  have hfirst := hp h
  rcases hrun : p h with ⟨y, h'⟩
  rw [hrun] at hfirst
  obtain rfl : y = x := hfirst
  have hlast := hclean h'
  rcases hfinal : clean h' with ⟨z, h''⟩
  rw [hfinal] at hlast
  obtain rfl : z = .ok () := hlast
  simp only [Routine.finally', hrun, hfinal]

theorem returns {a : α} (hp : Settles p (.ok a)) (before : CallHistory Call Reply) :
    ∃ after, p before = (.ok a, after) :=
  ⟨(p before).2, Prod.ext (hp before) rfl⟩

end Settles

namespace Fails

variable {p : Routine (CallHistory Call Reply) ε α} {f : α → Routine (CallHistory Call Reply) ε β}

theorem raise {e : ε} : Fails (Routine.raise e : Routine (CallHistory Call Reply) ε α) :=
  ⟨e, Settles.raise⟩

theorem bind (hp : Fails p) : Fails (p >>= f) := by
  obtain ⟨e, he⟩ := hp
  exact ⟨e, he.bind_error⟩

theorem bind_right {a : α} (hp : Settles p (.ok a)) (hf : Fails (f a)) : Fails (p >>= f) := by
  obtain ⟨e, he⟩ := hf
  exact ⟨e, hp.bind he⟩

/-- A handler that only raises. -/
theorem onError {g : ε → ε} (hp : Fails p) :
    Fails (Routine.onError p fun e => Routine.raise (g e)) := by
  obtain ⟨e, he⟩ := hp
  refine ⟨g e, fun h => ?_⟩
  have hfirst := he h
  rcases hrun : p h with ⟨x, h'⟩
  rw [hrun] at hfirst
  obtain rfl : x = .error e := hfirst
  simp only [Routine.onError, hrun]
  rfl

theorem not_returns (hp : Fails p) (before : CallHistory Call Reply) {a : α} :
    ¬ ∃ after, p before = (.ok a, after) := by
  obtain ⟨e, he⟩ := hp
  rintro ⟨after, hrun⟩
  have hsame := he before
  rw [hrun] at hsame
  cases hsame

end Fails

end CallHistory
