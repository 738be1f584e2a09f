import MosaicArchive.Bytes.ProgramRules

/-!
Programs whose writes go to another program. A sink takes each write and a
state of its own; redirecting a program to it gives a program that writes what
the sink writes. Where the sink never reads, the redirected program succeeds
exactly when the program does and the sink accepts all its writes in order.
-/

open FixedWidth

namespace IoProgram

variable {ε ε' α β σ : Type}

/-- Translate the errors of a program. -/
def mapError (f : ε → ε') : IoProgram ε α → IoProgram ε' α
  | ret a => ret a
  | fail e => fail (f e)
  | readExact n onError next => readExact n (f ∘ onError) fun b => (next b).mapError f
  | probe onError next => probe (f ∘ onError) fun b => (next b).mapError f
  | write b next => write b (next.mapError f)

theorem eval_mapError (f : ε → ε') (p : IoProgram ε α) (s : ByteSource) :
    (p.mapError f).eval s =
      { result := (p.eval s).result.mapError f, written := (p.eval s).written,
        reader := (p.eval s).reader } := by
  induction p generalizing s with
  | ret a => rfl
  | fail e => rfl
  | readExact n onError next ih =>
      match hs : s.readExact n with
      | (.error e, s') => simp [mapError, eval, hs, Except.mapError]
      | (.ok b, s') => simp [mapError, eval, hs, ih]
  | probe onError next ih =>
      match hs : s.probe with
      | (.error e, s') => simp [mapError, eval, hs, Except.mapError]
      | (.ok b, s') => simp [mapError, eval, hs, ih]
  | write b next ih => simp [mapError, ih]

theorem Yields.mapError {p : IoProgram ε α} {s s' : ByteSource} {a : α} {w : List Bytes}
    (h : p.Yields s a w s') (f : ε → ε') : (p.mapError f).Yields s a w s' := by
  unfold Yields at *
  rw [eval_mapError, h]
  rfl

theorem mapError_inv {p : IoProgram ε α} {f : ε → ε'} {s s' : ByteSource} {a : α}
    {w : List Bytes} (h : (p.mapError f).Yields s a w s') : p.Yields s a w s' := by
  unfold Yields at *
  rw [eval_mapError] at h
  obtain ⟨hresult, hwritten, hreader⟩ := IoRun.mk.inj h
  match hp : p.eval s with
  | ⟨.error e, w₁, t⟩ =>
      rw [hp] at hresult
      cases hresult
  | ⟨.ok b, w₁, t⟩ =>
      rw [hp] at hresult hwritten hreader
      rw [← hwritten, ← hreader, Except.ok.inj hresult]

/-! ### Programs that never read -/

/-- The program does the same on every source and leaves it as it is. -/
def Detached (p : IoProgram ε α) : Prop :=
  ∀ s s', p.eval s = { p.eval s' with reader := s }

theorem detached_ret (a : α) : (ret a : IoProgram ε α).Detached := fun _ _ => rfl

theorem detached_fail (e : ε) : (fail e : IoProgram ε α).Detached := fun _ _ => rfl

theorem detached_require (p : Prop) [Decidable p] (e : ε) : (require p e).Detached := by
  unfold require
  split
  · exact detached_ret ()
  · exact detached_fail e

theorem detached_ofExcept (x : Except ε α) : (ofExcept x).Detached := by
  cases x with
  | error e => exact detached_fail e
  | ok a => exact detached_ret a

theorem detached_ofOption (x : Option α) (e : ε) : (ofOption x e).Detached := by
  cases x with
  | none => exact detached_fail e
  | some a => exact detached_ret a

theorem Detached.write {p : IoProgram ε α} (h : p.Detached) (b : Bytes) :
    (write b p).Detached := by
  intro s s'
  simp only [eval_write]
  rw [h s s']

theorem Detached.reader {p : IoProgram ε α} (h : p.Detached) (s : ByteSource) :
    (p.eval s).reader = s := by rw [h s s]

theorem Detached.bind {p : IoProgram ε α} {f : α → IoProgram ε β} (hp : p.Detached)
    (hf : ∀ a, (f a).Detached) : (p.bind f).Detached := by
  intro s s'
  rw [eval_bind, eval_bind, hp.reader, hp.reader, hp s s']
  dsimp only
  match (p.eval s').result with
  | .error e => rfl
  | .ok a => simp only [hf a s s']

theorem Detached.mapError {p : IoProgram ε α} (h : p.Detached) (f : ε → ε') :
    (p.mapError f).Detached := by
  intro s s'
  rw [eval_mapError, eval_mapError, h s s']

theorem Detached.yields {p : IoProgram ε α} (h : p.Detached) {s s' : ByteSource} {a : α}
    {w : List Bytes} (hp : p.Yields s a w s') (t : ByteSource) : p.Yields t a w t := by
  unfold Yields at *
  rw [h t s, hp]

/-! ### Redirected writes -/

/-- Hand every write to the sink. -/
def redirect (sink : σ → Bytes → IoProgram ε σ) : IoProgram ε α → σ → IoProgram ε (α × σ)
  | ret a, st => ret (a, st)
  | fail e, _ => fail e
  | readExact n onError next, st => readExact n onError fun b => (next b).redirect sink st
  | probe onError next, st => probe onError fun b => (next b).redirect sink st
  | write b next, st => (sink st b).bind fun st => next.redirect sink st

/-- The sink takes some writes, one after another. -/
def feed (sink : σ → Bytes → IoProgram ε σ) : σ → List Bytes → IoProgram ε σ
  | st, [] => ret st
  | st, b :: rest => (sink st b).bind fun st => feed sink st rest

variable {sink : σ → Bytes → IoProgram ε σ}

theorem detached_feed (hsink : ∀ st b, (sink st b).Detached) (st : σ) (writes : List Bytes) :
    (feed sink st writes).Detached := by
  induction writes generalizing st with
  | nil => exact detached_ret st
  | cons b rest ih => exact (hsink st b).bind fun st => ih st

theorem Yields.redirect (hsink : ∀ st b, (sink st b).Detached) {p : IoProgram ε α}
    {s s' t t' : ByteSource} {a : α} {w out : List Bytes} {st st' : σ} (hp : p.Yields s a w s')
    (hfeed : (feed sink st w).Yields t st' out t') :
    (p.redirect sink st).Yields s (a, st') out s' := by
  induction p generalizing s t st w out with
  | ret b =>
      have hrun : (⟨.ok b, [], s⟩ : IoRun ByteSource ε α) = ⟨.ok a, w, s'⟩ := hp
      obtain ⟨hresult, rfl, rfl⟩ := IoRun.mk.inj hrun
      have hkept : (⟨.ok st, [], t⟩ : IoRun ByteSource ε σ) = ⟨.ok st', out, t'⟩ := hfeed
      obtain ⟨hstate, rfl, -⟩ := IoRun.mk.inj hkept
      rw [← Except.ok.inj hresult, ← Except.ok.inj hstate]
      exact yields_ret _ _
  | fail e => cases hp.result
  | readExact n onError next ih =>
      unfold Yields at hp ⊢
      match hs : s.readExact n with
      | (.error e, s₁) =>
          rw [eval, hs] at hp
          cases hp
      | (.ok b, s₁) =>
          rw [eval, hs] at hp
          rw [IoProgram.redirect, eval, hs]
          exact ih b hp hfeed
  | probe onError next ih =>
      unfold Yields at hp ⊢
      match hs : s.probe with
      | (.error e, s₁) =>
          rw [eval, hs] at hp
          cases hp
      | (.ok b, s₁) =>
          rw [eval, hs] at hp
          rw [IoProgram.redirect, eval, hs]
          exact ih b hp hfeed
  | write b next ih =>
      unfold Yields at hp
      rw [eval_write] at hp
      obtain ⟨hresult, rfl, hreader⟩ := IoRun.mk.inj hp
      have hnext : next.Yields s a (next.eval s).written s' := by
        unfold Yields
        rw [← hresult, ← hreader]
      obtain ⟨st₁, w₁, t₁, w₂, hfirst, hrest, rfl⟩ := hfeed.bind_inv
      exact ((hsink st b).yields hfirst s).bind (ih hnext hrest)

/-- A redirected program that succeeded came from a success of the program and
of the sink. -/
theorem redirect_ok (hsink : ∀ st b, (sink st b).Detached) {p : IoProgram ε α} {s : ByteSource}
    {st st' : σ} {a : α} (h : ((p.redirect sink st).eval s).result = .ok (a, st')) :
    (p.eval s).result = .ok a ∧
      (feed sink st (p.eval s).written).Yields s st' ((p.redirect sink st).eval s).written s := by
  induction p generalizing s st with
  | ret b =>
      obtain ⟨rfl, rfl⟩ := Prod.mk.inj (Except.ok.inj h)
      exact ⟨rfl, rfl⟩
  | fail e => cases h
  | readExact n onError next ih =>
      rcases hs : s.readExact n with ⟨e | b, s₁⟩
      · rw [IoProgram.redirect, eval, hs] at h
        cases h
      · rw [IoProgram.redirect, eval, hs] at h
        rw [IoProgram.redirect, eval, eval, hs]
        obtain ⟨hresult, hfeed⟩ := ih b h
        exact ⟨hresult, (detached_feed hsink _ _).yields hfeed s⟩
  | probe onError next ih =>
      rcases hs : s.probe with ⟨e | b, s₁⟩
      · rw [IoProgram.redirect, eval, hs] at h
        cases h
      · rw [IoProgram.redirect, eval, hs] at h
        rw [IoProgram.redirect, eval, eval, hs]
        obtain ⟨hresult, hfeed⟩ := ih b h
        exact ⟨hresult, (detached_feed hsink _ _).yields hfeed s⟩
  | write b next ih =>
      rw [IoProgram.redirect, eval_bind] at h
      rcases hfirst : (sink st b).eval s with ⟨e | st₁, w₁, s₁⟩
      · rw [hfirst] at h
        cases h
      · obtain rfl : s₁ = s := by
          have hreader := (hsink st b).reader s
          rw [hfirst] at hreader
          exact hreader
        rw [hfirst] at h
        obtain ⟨hresult, hfeed⟩ := ih h
        refine ⟨hresult, ?_⟩
        have hyields : (sink st b).Yields s₁ st₁ w₁ s₁ := hfirst
        rw [IoProgram.redirect, eval_bind, hfirst]
        exact hyields.bind hfeed

end IoProgram
