import MosaicArchive.Bytes.Redirect

/-!
Programs that keep a log, and hand it over when they fail as well. `Erases` says what
such a program is without its log, `Ensures` what holds of the log however the program
ends and whatever it reads.
-/

open FixedWidth

namespace IoProgram

variable {ε ε' α β ρ ρ' : Type}

/-- Whatever is read, the program returns in `Q` or fails in `E`. -/
def Always (Q : α → Prop) (E : ε → Prop) : IoProgram ε α → Prop
  | ret a => Q a
  | fail e => E e
  | readExact _ onError next => (∀ e, E (onError e)) ∧ ∀ b, (next b).Always Q E
  | probe onError next => (∀ e, E (onError e)) ∧ ∀ b, (next b).Always Q E
  | write _ next => next.Always Q E

namespace Always

variable {Q Q' : α → Prop} {E E' : ε → Prop} {p : IoProgram ε α}

theorem mono (h : p.Always Q E) (hQ : ∀ a, Q a → Q' a) (hE : ∀ e, E e → E' e) : p.Always Q' E' := by
  induction p with
  | ret a => exact hQ a h
  | fail e => exact hE e h
  | readExact n onError next ih => exact ⟨fun e => hE _ (h.1 e), fun b => ih b (h.2 b)⟩
  | probe onError next ih => exact ⟨fun e => hE _ (h.1 e), fun b => ih b (h.2 b)⟩
  | write b next ih => exact ih h

theorem bind {f : α → IoProgram ε β} {R : β → Prop} (hp : p.Always Q E)
    (hf : ∀ a, Q a → (f a).Always R E) : (p.bind f).Always R E := by
  induction p with
  | ret a => exact hf a hp
  | fail e => exact hp
  | readExact n onError next ih => exact ⟨hp.1, fun b => ih b (hp.2 b)⟩
  | probe onError next ih => exact ⟨hp.1, fun b => ih b (hp.2 b)⟩
  | write b next ih => exact ih hp

theorem mapError {f : ε → ε'} {E : ε' → Prop} (h : p.Always Q fun e => E (f e)) :
    (p.mapError f).Always Q E := by
  induction p with
  | ret a => exact h
  | fail e => exact h
  | readExact n onError next ih => exact ⟨h.1, fun b => ih b (h.2 b)⟩
  | probe onError next ih => exact ⟨h.1, fun b => ih b (h.2 b)⟩
  | write b next ih => exact ih h

theorem trivial (p : IoProgram ε α) : p.Always (fun _ => True) fun _ => True := by
  induction p with
  | ret a => exact True.intro
  | fail e => exact True.intro
  | readExact n onError next ih => exact ⟨fun _ => True.intro, ih⟩
  | probe onError next ih => exact ⟨fun _ => True.intro, ih⟩
  | write b next ih => exact ih

theorem require {c : Prop} [Decidable c] {e : ε} {Q : Unit → Prop} (hc : c → Q ()) (he : ¬ c → E e) :
    (IoProgram.require c e).Always Q E := by
  unfold IoProgram.require
  split
  · rename_i h
    exact hc h
  · rename_i h
    exact he h

theorem ofExcept {x : Except ε α} (hQ : ∀ a, x = .ok a → Q a) (hE : ∀ e, x = .error e → E e) :
    (IoProgram.ofExcept x).Always Q E := by
  cases x with
  | ok a => exact hQ a rfl
  | error e => exact hE e rfl

theorem ofOption {x : Option α} {e : ε} (hQ : ∀ a, x = some a → Q a) (hE : x = none → E e) :
    (IoProgram.ofOption x e).Always Q E := by
  cases x with
  | some a => exact hQ a rfl
  | none => exact hE rfl

/-- Any reader may be what is read. -/
theorem run [Reader ρ] (h : p.Always Q E) (r : ρ) :
    (∀ a, (p.run r).result = .ok a → Q a) ∧ ∀ e, (p.run r).result = .error e → E e := by
  induction p generalizing r with
  | ret a =>
      refine ⟨?_, fun e he => (by cases he)⟩
      rintro _ ⟨⟩
      exact h
  | fail e =>
      refine ⟨fun a ha => (by cases ha), ?_⟩
      rintro _ ⟨⟩
      exact h
  | readExact n onError next ih =>
      rw [IoProgram.run]
      rcases hr : readFully r n with ⟨e | b, r'⟩
      · refine ⟨fun a ha => (by cases ha), ?_⟩
        rintro _ ⟨⟩
        exact h.1 e
      · exact ih b (h.2 b) r'
  | probe onError next ih =>
      rw [IoProgram.run]
      rcases hr : (Reader.read r 1 : Except IoError Bytes × ρ) with ⟨e | b, r'⟩
      · refine ⟨fun a ha => (by cases ha), ?_⟩
        rintro _ ⟨⟩
        exact h.1 e
      · exact ih b (h.2 b) r'
  | write b next ih => exact ih h r

end Always

/-! ### Runs that correspond -/

theorem run_mapError [Reader ρ] (f : ε → ε') (p : IoProgram ε α) (r : ρ) :
    (p.mapError f).run r =
      ⟨(p.run r).result.mapError f, (p.run r).written, (p.run r).reader⟩ := by
  induction p generalizing r with
  | ret a => rfl
  | fail e => rfl
  | readExact n onError next ih =>
      simp only [mapError, run]
      rcases readFully r n with ⟨e | b, r'⟩
      · rfl
      · exact ih b r'
  | probe onError next ih =>
      simp only [mapError, run]
      rcases (Reader.read r 1 : Except IoError Bytes × ρ) with ⟨e | b, r'⟩
      · rfl
      · exact ih b r'
  | write b next ih =>
      simp only [mapError, run, ih]

theorem run_bind_ret [Reader ρ] (f : α → β) (p : IoProgram ε α) (r : ρ) :
    (p.bind fun a => ret (f a)).run r =
      ⟨(p.run r).result.map f, (p.run r).written, (p.run r).reader⟩ := by
  induction p generalizing r with
  | ret a => rfl
  | fail e => rfl
  | readExact n onError next ih =>
      simp only [IoProgram.bind, run]
      rcases readFully r n with ⟨e | b, r'⟩
      · rfl
      · exact ih b r'
  | probe onError next ih =>
      simp only [IoProgram.bind, run]
      rcases (Reader.read r 1 : Except IoError Bytes × ρ) with ⟨e | b, r'⟩
      · rfl
      · exact ih b r'
  | write b next ih =>
      simp only [IoProgram.bind, run, ih]

/-- A reader that carries more than another one delivers the same. -/
theorem readFullyLoop_project [Reader ρ] [Reader ρ'] {f : ρ' → ρ}
    (hf : ∀ r n, Reader.read (f r) n = ((Reader.read r n).1, f (Reader.read r n).2)) (fuel : ℕ)
    (r : ρ') (n : ℕ) :
    readFullyLoop fuel (f r) n = ((readFullyLoop fuel r n).1, f (readFullyLoop fuel r n).2) := by
  induction fuel generalizing r n with
  | zero => cases n <;> rfl
  | succ fuel ih =>
      cases n with
      | zero => rfl
      | succ n =>
          rw [readFullyLoop, readFullyLoop, hf]
          rcases (Reader.read r (n + 1) : Except IoError Bytes × ρ') with ⟨e | _ | ⟨b, bs⟩, r'⟩
          · rfl
          · rfl
          · dsimp only
            rw [ih]
            rcases readFullyLoop fuel r' (n - bs.length) with ⟨e | rest, r''⟩
            · rfl
            · rfl

theorem run_project [Reader ρ] [Reader ρ'] {f : ρ' → ρ}
    (hf : ∀ r n, Reader.read (f r) n = ((Reader.read r n).1, f (Reader.read r n).2))
    (p : IoProgram ε α) (r : ρ') :
    p.run (f r) = ⟨(p.run r).result, (p.run r).written, f (p.run r).reader⟩ := by
  induction p generalizing r with
  | ret a => rfl
  | fail e => rfl
  | readExact n onError next ih =>
      simp only [run, readFully, readFullyLoop_project hf]
      rcases readFullyLoop n r n with ⟨e | b, r'⟩
      · rfl
      · exact ih b r'
  | probe onError next ih =>
      simp only [run, hf]
      rcases (Reader.read r 1 : Except IoError Bytes × ρ') with ⟨e | b, r'⟩
      · rfl
      · exact ih b r'
  | write b next ih => simp only [run, ih]

end IoProgram

/-! ### Programs with a log -/

/-- A program that is given a log and hands it over with its result or its failure. -/
def Logged (μ ε α : Type) := List μ → IoProgram (ε × List μ) (α × List μ)

namespace Logged

open IoProgram

variable {μ ε α β : Type}

instance : Monad (Logged μ ε) where
  pure a := fun log => .ret (a, log)
  bind p f := fun log => (p log).bind fun x => f x.1 x.2

def note (m : μ) : Logged μ ε Unit := fun log => .ret ((), log ++ [m])

/-- A program that notes nothing. -/
def lift (p : IoProgram ε α) : Logged μ ε α := fun log =>
  (p.mapError fun e => (e, log)).bind fun a => .ret (a, log)

/-- The program, when nobody keeps the log. -/
def Erases (p : Logged μ ε α) (q : IoProgram ε α) : Prop :=
  ∀ log, ((p log).mapError Prod.fst).bind (fun x => .ret x.1) = q

/-- From a log in `P`, the program returns in `Q` or fails with a log in `E`. -/
def Ensures (P : List μ → Prop) (p : Logged μ ε α) (Q : α → List μ → Prop) (E : List μ → Prop) : Prop :=
  ∀ log, P log → (p log).Always (fun x => Q x.1 x.2) fun x => E x.2

theorem mapError_bind {ε' : Type} (f : ε → ε') (p : IoProgram ε α) (g : α → IoProgram ε β) :
    (p.bind g).mapError f = (p.mapError f).bind fun a => (g a).mapError f := by
  induction p with
  | ret a => rfl
  | fail e => rfl
  | readExact n onError next ih =>
      simp only [IoProgram.bind, IoProgram.mapError, ih]
  | probe onError next ih =>
      simp only [IoProgram.bind, IoProgram.mapError, ih]
  | write b next ih =>
      simp only [IoProgram.bind, IoProgram.mapError, ih]

theorem bind_assoc {γ : Type} (p : IoProgram ε α) (f : α → IoProgram ε β) (g : β → IoProgram ε γ) :
    (p.bind f).bind g = p.bind fun a => (f a).bind g := by
  induction p with
  | ret a => rfl
  | fail e => rfl
  | readExact n onError next ih => simp only [IoProgram.bind, ih]
  | probe onError next ih => simp only [IoProgram.bind, ih]
  | write b next ih => simp only [IoProgram.bind, ih]

namespace Erases

variable {p : Logged μ ε α} {q : IoProgram ε α} {f : α → Logged μ ε β} {g : α → IoProgram ε β}

theorem pure (a : α) : Erases (Pure.pure a : Logged μ ε α) (.ret a) := fun _ => rfl

theorem bind (hp : p.Erases q) (hf : ∀ a, (f a).Erases (g a)) : (p >>= f).Erases (q.bind g) := by
  intro log
  have hnext : ∀ x : α × List μ, ((f x.1 x.2).mapError Prod.fst).bind (fun y => .ret y.1) = g x.1 :=
    fun x => hf x.1 x.2
  show (((p log).bind fun x => f x.1 x.2).mapError Prod.fst).bind _ = _
  rw [mapError_bind, bind_assoc, ← hp log, bind_assoc]
  congr 1
  funext x
  exact hnext x

theorem note_bind {m : μ} {f : Unit → Logged μ ε β} {q : IoProgram ε β} (hf : (f ()).Erases q) :
    (Logged.note m >>= f).Erases q := fun log => hf (log ++ [m])

theorem lift (p : IoProgram ε α) : Erases (Logged.lift p : Logged μ ε α) p := by
  intro log
  rw [Logged.lift]
  induction p with
  | ret a => rfl
  | fail e => rfl
  | readExact n onError next ih =>
      simp only [IoProgram.mapError, IoProgram.bind, ih]
      rfl
  | probe onError next ih =>
      simp only [IoProgram.mapError, IoProgram.bind, ih]
      rfl
  | write b next ih =>
      simp only [IoProgram.mapError, IoProgram.bind, ih]

/-- On every reader the two end alike. -/
theorem run {ρ : Type} [Reader ρ] (h : p.Erases q) (log : List μ) (r : ρ) :
    q.run r = ⟨(((p log).run r).result.mapError Prod.fst).map Prod.fst, ((p log).run r).written,
      ((p log).run r).reader⟩ := by
  rw [← h log, run_bind_ret, run_mapError]

end Erases

namespace Ensures

variable {P P' : List μ → Prop} {p : Logged μ ε α} {Q Q' : α → List μ → Prop} {E : List μ → Prop}
  {f : α → Logged μ ε β} {R : β → List μ → Prop}

theorem mono (h : Ensures P p Q E) (hP : ∀ log, P' log → P log) (hQ : ∀ a log, Q a log → Q' a log) :
    Ensures P' p Q' E :=
  fun log hlog => (h log (hP log hlog)).mono (fun x hx => hQ x.1 x.2 hx) fun _ h => h

/-- What does not depend on the log is assumed outright. -/
theorem of_fact {fact : Prop} (h : fact → Ensures P p Q E) : Ensures (fun log => fact ∧ P log) p Q E :=
  fun log hlog => h hlog.1 log hlog.2

theorem pure {a : α} (h : ∀ log, P log → Q a log) : Ensures P (Pure.pure a : Logged μ ε α) Q E :=
  fun log hlog => h log hlog

theorem bind (hp : Ensures P p Q E) (hf : ∀ a, Ensures (Q a) (f a) R E) : Ensures P (p >>= f) R E :=
  fun log hlog => (hp log hlog).bind fun x hx => hf x.1 x.2 hx

theorem note_bind {m : μ} {f : Unit → Logged μ ε β}
    (hf : Ensures (fun log => ∃ before, P before ∧ log = before ++ [m]) (f ()) R E) :
    Ensures P (Logged.note m >>= f) R E :=
  fun log hlog => hf (log ++ [m]) ⟨log, hlog, rfl⟩

theorem lift {q : IoProgram ε α} {F : α → Prop} (h : q.Always F fun _ => True)
    (hE : ∀ log, P log → E log) :
    Ensures P (Logged.lift q : Logged μ ε α) (fun a log => F a ∧ P log) E := by
  intro log hlog
  have hq : (q.mapError fun e => (e, log)).Always F fun x => E x.2 :=
    Always.mapError (h.mono (fun _ h => h) fun _ _ => hE log hlog)
  exact hq.bind fun a ha => ⟨ha, hlog⟩

end Ensures

end Logged
