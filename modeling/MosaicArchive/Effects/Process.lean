import Mathlib.Logic.Relation

/-!
Sequential programs that call the operating system while other parties act.
What a call may answer is a relation, and so is what the other parties may do
between two calls, so a statement about every reachable configuration is one
about every interleaving and every answer. `Leads` is the judgment in which a
program is verified: its rules follow the program's text, the one for a loop
asks for an invariant.
-/

/-- A program that makes system calls. A loop repeats its body until the body
yields a result. -/
inductive Process (Call : Type) (Reply : Call → Type) : Type → Type 1 where
  | done {α : Type} (a : α) : Process Call Reply α
  | call {α : Type} (c : Call) (next : Reply c → Process Call Reply α) : Process Call Reply α
  | loop {α σ β : Type} (body : σ → Process Call Reply (σ ⊕ β)) (s : σ)
      (next : β → Process Call Reply α) : Process Call Reply α

namespace Process

variable {Call : Type} {Reply : Call → Type} {α β σ : Type}

def bind : Process Call Reply α → (α → Process Call Reply β) → Process Call Reply β
  | done a, f => f a
  | call c next, f => call c fun r => bind (next r) f
  | loop body s next, f => loop body s fun b => bind (next b) f

instance : Monad (Process Call Reply) where
  pure := done
  bind := bind

/-- One system call, with its reply. -/
def perform (c : Call) : Process Call Reply (Reply c) := call c done

/-- Repeats the body until it yields a result. -/
def repeats (body : σ → Process Call Reply (σ ⊕ α)) (s : σ) : Process Call Reply α :=
  loop body s done

/-- How a loop goes on after its body. -/
def again (body : σ → Process Call Reply (σ ⊕ β)) (next : β → Process Call Reply α) :
    σ ⊕ β → Process Call Reply α
  | .inl s => loop body s next
  | .inr b => next b

theorem bind_assoc' {γ : Type} {p : Process Call Reply α} {f : α → Process Call Reply β}
    {g : β → Process Call Reply γ} : (p.bind f).bind g = p.bind fun a => (f a).bind g := by
  induction p with
  | done a => rfl
  | call c next ih => simp [bind, ih]
  | loop body s next _ ih => simp [bind, ih]

theorem again_bind {body : σ → Process Call Reply (σ ⊕ β)} {next : β → Process Call Reply α}
    {γ : Type} {f : α → Process Call Reply γ} (r : σ ⊕ β) :
    (again body next r).bind f = again body (fun b => (next b).bind f) r := by
  cases r with
  | inl s => rfl
  | inr b => rfl

end Process

/-- What the system answers to a call, and what the other parties do meanwhile. -/
structure CallSystem (Call : Type) (Reply : Call → Type) (World : Type) where
  kernel : (c : Call) → World → Reply c → World → Prop
  rely : World → World → Prop

namespace CallSystem

open Process

variable {Call : Type} {Reply : Call → Type} {World : Type} (S : CallSystem Call Reply World)
  {α β σ : Type}

inductive Step : Process Call Reply α × World → Process Call Reply α × World → Prop where
  | call {c : Call} {next : Reply c → Process Call Reply α} {w w' : World} {r : Reply c}
      (h : S.kernel c w r w') : Step (.call c next, w) (next r, w')
  | loop {σ β : Type} {body : σ → Process Call Reply (σ ⊕ β)} {s : σ}
      {next : β → Process Call Reply α} {w : World} :
      Step (.loop body s next, w) ((body s).bind (again body next), w)
  | other {p : Process Call Reply α} {w w' : World} (h : S.rely w w') : Step (p, w) (p, w')

def Reaches : Process Call Reply α × World → Process Call Reply α × World → Prop :=
  Relation.ReflTransGen S.Step

/-- In every configuration reached the world is in `G`, and in `Q` once the program has returned. -/
def Safe (G : World → Prop) (Q : α → World → Prop) (p : Process Call Reply α) (w : World) : Prop :=
  ∀ p' w', S.Reaches (p, w) (p', w') → G w' ∧ ∀ a, p' = .done a → Q a w'

def Leads (G P : World → Prop) (p : Process Call Reply α) (Q : α → World → Prop) : Prop :=
  ∀ w, P w → S.Safe G Q p w

/-- What the other parties keep. -/
def Stable (P : World → Prop) : Prop := ∀ w w', P w → S.rely w w' → P w'

variable {S} {G P P' : World → Prop} {Q Q' : α → World → Prop} {p : Process Call Reply α}
  {w : World}

theorem Safe.step (h : S.Safe G Q p w) {p' : Process Call Reply α} {w' : World}
    (hstep : S.Step (p, w) (p', w')) : S.Safe G Q p' w' := fun q w'' hreach =>
  h q w'' (.head hstep hreach)

theorem Safe.guarantee (h : S.Safe G Q p w) : G w := (h p w .refl).1

theorem Safe.returned {a : α} (h : S.Safe G Q (.done a) w) : Q a w := (h (.done a) w .refl).2 a rfl

/-- The configurations reached from a set that is closed under steps are in the set. -/
theorem Reaches.closed {R : Process Call Reply α × World → Prop}
    (hstep : ∀ x y, R x → S.Step x y → R y) {x y : Process Call Reply α × World}
    (hreach : S.Reaches x y) (hx : R x) : R y := by
  induction hreach with
  | refl => exact hx
  | tail _ hlast ih => exact hstep _ _ ih hlast

theorem Leads.mono (h : S.Leads G P p Q) (hP : ∀ w, P' w → P w)
    (hQ : ∀ a w, Q a w → Q' a w) : S.Leads G P' p Q' := by
  intro w hw p' w' hreach
  obtain ⟨hg, hq⟩ := h w (hP w hw) p' w' hreach
  exact ⟨hg, fun a ha => hQ a w' (hq a ha)⟩

/-! ### Rules -/

theorem leads_done {a : α} (hstable : S.Stable P) (hG : ∀ w, P w → G w)
    (hQ : ∀ w, P w → Q a w) : S.Leads G P (.done a) Q := by
  intro w hw p' w' hreach
  have hclosed : p' = .done a ∧ P w' := by
    refine hreach.closed (R := fun x => x.1 = .done a ∧ P x.2) ?_ ⟨rfl, hw⟩
    rintro ⟨_, _⟩ ⟨_, _⟩ ⟨rfl, hx⟩ (_ | _ | hrely)
    exact ⟨rfl, hstable _ _ hx hrely⟩
  obtain ⟨rfl, hw'⟩ := hclosed
  refine ⟨hG w' hw', fun b hb => ?_⟩
  obtain rfl := done.inj hb
  exact hQ w' hw'

/-- Until the call is answered the precondition is kept; every answer leads on. -/
theorem leads_call {c : Call} {next : Reply c → Process Call Reply α} {R : Reply c → World → Prop}
    (hstable : S.Stable P) (hG : ∀ w, P w → G w)
    (hkernel : ∀ w r w', P w → S.kernel c w r w' → R r w')
    (hnext : ∀ r, S.Leads G (R r) (next r) Q) : S.Leads G P (.call c next) Q := by
  intro w hw p' w' hreach
  have hclosed : (p' = .call c next ∧ P w') ∨ S.Safe G Q p' w' := by
    refine hreach.closed (R := fun x => (x.1 = .call c next ∧ P x.2) ∨ S.Safe G Q x.1 x.2) ?_
      (.inl ⟨rfl, hw⟩)
    rintro ⟨_, _⟩ ⟨_, _⟩ (⟨rfl, hx⟩ | hx) hstep
    · cases hstep with
      | call h => exact .inr (hnext _ _ (hkernel _ _ _ hx h))
      | other h => exact .inl ⟨rfl, hstable _ _ hx h⟩
    · exact .inr (hx.step hstep)
  rcases hclosed with ⟨rfl, hw'⟩ | hsafe
  · exact ⟨hG w' hw', fun a ha => by cases ha⟩
  · exact hsafe p' w' .refl

theorem leads_perform {c : Call} {R : Reply c → World → Prop} (hP : S.Stable P)
    (hG : ∀ w, P w → G w) (hkernel : ∀ w r w', P w → S.kernel c w r w' → R r w')
    (hR : ∀ r, S.Stable (R r)) (hG' : ∀ r w, R r w → G w) : S.Leads G P (perform c) R :=
  leads_call hP hG hkernel fun r => leads_done (hR r) (hG' r) fun _ h => h

/-- A step of a program that goes on with `f` is one of the program, unless it has returned. -/
theorem step_bind {p : Process Call Reply α} {f : α → Process Call Reply β}
    {q : Process Call Reply β} {w w' : World} (h : S.Step (p.bind f, w) (q, w')) :
    (∃ a, p = .done a) ∨ ∃ p', S.Step (p, w) (p', w') ∧ q = p'.bind f := by
  cases p with
  | done a => exact .inl ⟨a, rfl⟩
  | call c next =>
      right
      cases h with
      | call h => exact ⟨_, .call h, rfl⟩
      | other h => exact ⟨_, .other h, rfl⟩
  | loop body s next =>
      right
      cases h with
      | loop => exact ⟨_, .loop, by simp only [bind_assoc', again_bind]⟩
      | other h => exact ⟨_, .other h, rfl⟩

theorem done_of_bind {p : Process Call Reply α} {f : α → Process Call Reply β} {b : β}
    (h : p.bind f = .done b) : ∃ a, p = .done a ∧ f a = .done b := by
  cases p with
  | done a => exact ⟨a, rfl, h⟩
  | call c next => cases h
  | loop body s next => cases h

theorem leads_bind {f : α → Process Call Reply β} {R : α → World → Prop} {Q : β → World → Prop}
    (hp : S.Leads G P p R) (hf : ∀ a, S.Leads G (R a) (f a) Q) : S.Leads G P (p >>= f) Q := by
  intro w hw p' w' hreach
  have hclosed : (∃ q, p' = q.bind f ∧ S.Safe G R q w') ∨ S.Safe G Q p' w' := by
    refine hreach.closed
      (R := fun x => (∃ q, x.1 = q.bind f ∧ S.Safe G R q x.2) ∨ S.Safe G Q x.1 x.2) ?_
      (.inl ⟨p, rfl, hp w hw⟩)
    rintro ⟨_, w₁⟩ ⟨q', w₂⟩ (⟨q, rfl, hq⟩ | hx) hstep
    · rcases step_bind hstep with ⟨a, rfl⟩ | ⟨q', hq', rfl⟩
      · exact .inr ((hf a w₁ hq.returned).step hstep)
      · exact .inl ⟨q', rfl, hq.step hq'⟩
    · exact .inr (hx.step hstep)
  rcases hclosed with ⟨q, rfl, hq⟩ | hsafe
  · refine ⟨hq.guarantee, fun b hb => ?_⟩
    obtain ⟨a, rfl, ha⟩ := done_of_bind hb
    exact (hf a w' hq.returned _ w' .refl).2 b ha
  · exact hsafe p' w' .refl

/-- What a round of a loop ends in: the invariant again, or the result. -/
def Round (I : σ → World → Prop) (Q : α → World → Prop) : σ ⊕ α → World → Prop
  | .inl s => I s
  | .inr a => Q a

/-- The rule for a loop: the invariant holds whenever the body starts. -/
theorem leads_repeats {body : σ → Process Call Reply (σ ⊕ α)} {s : σ} {I : σ → World → Prop}
    (hstable : ∀ s, S.Stable (I s)) (hG : ∀ s w, I s w → G w)
    (hbody : ∀ s, S.Leads G (I s) (body s) (Round I Q)) :
    S.Leads G (I s) (repeats body s) Q := by
  intro w hw p' w' hreach
  -- Every configuration is the rest of some round, with the loop after it.
  have hstart : S.Leads G (I s) (.done (.inl s)) (Round I Q) :=
    leads_done (hstable s) (hG s) fun _ h => h
  have hclosed : ∃ q, p' = q.bind (again body .done) ∧ S.Safe G (Round I Q) q w' := by
    refine hreach.closed
      (R := fun x => ∃ q, x.1 = q.bind (again body .done) ∧ S.Safe G (Round I Q) q x.2) ?_
      ⟨.done (.inl s), rfl, hstart w hw⟩
    rintro ⟨_, w₁⟩ ⟨q', w₂⟩ ⟨q, rfl, hq⟩ hstep
    rcases step_bind hstep with ⟨s' | a, rfl⟩ | ⟨q', hq', rfl⟩
    · cases hstep with
      | loop => exact ⟨_, rfl, hbody s' w₁ hq.returned⟩
      | other h => exact ⟨_, rfl, hq.step (.other h)⟩
    · cases hstep with
      | other h => exact ⟨_, rfl, hq.step (.other h)⟩
    · exact ⟨q', rfl, hq.step hq'⟩
  obtain ⟨q, rfl, hq⟩ := hclosed
  refine ⟨hq.guarantee, fun a ha => ?_⟩
  obtain ⟨s' | a', rfl, ha'⟩ := done_of_bind ha
  · cases ha'
  · obtain rfl := done.inj ha'
    exact hq.returned

end CallSystem
