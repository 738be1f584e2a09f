import Mathlib.Logic.Relation
import Mathlib.Data.Nat.Notation

/-!
Loops that may fail. A loop is given by its round, which goes on in a new
state, breaks with a result or raises; it is run for a number of rounds, and
raises an error of its own if that is not enough. A loop whose measure falls
never does, and what its rounds preserve holds in every state it visits.
-/

namespace Iteration

variable {σ ε α : Type}

/-- At most `n` rounds; `endless` where more would be needed. -/
def run (round : σ → Except ε (σ ⊕ α)) (endless : ε) : ℕ → σ → Except ε α
  | 0, _ => .error endless
  | n + 1, s =>
      match round s with
      | .error e => .error e
      | .ok (.inl s') => run round endless n s'
      | .ok (.inr a) => .ok a

def Next (round : σ → Except ε (σ ⊕ α)) (s s' : σ) : Prop := round s = .ok (.inl s')

/-- The states in which a round starts. -/
def Visits (round : σ → Except ε (σ ⊕ α)) : σ → σ → Prop := Relation.ReflTransGen (Next round)

inductive Ends (round : σ → Except ε (σ ⊕ α)) : σ → α → Prop where
  | stop {s : σ} {a : α} (h : round s = .ok (.inr a)) : Ends round s a
  | next {s s' : σ} {a : α} (h : round s = .ok (.inl s')) (hends : Ends round s' a) : Ends round s a

variable {round : σ → Except ε (σ ⊕ α)} {endless : ε} {n : ℕ} {s s' : σ} {a : α}

/-- What a result satisfies, and what an error. -/
def Outcome (Q : α → Prop) (E : ε → Prop) : Except ε α → Prop
  | .ok a => Q a
  | .error e => E e

/-- What a round does from a state in `I`: the measure falls and `I` is kept,
or the loop is over. -/
def Round (I : σ → Prop) (measure : σ → ℕ) (Q : α → Prop) (E : ε → Prop) (s : σ) :
    Except ε (σ ⊕ α) → Prop
  | .ok (.inl s') => I s' ∧ measure s' < measure s
  | .ok (.inr a) => Q a
  | .error e => E e

theorem run_outcome (endless : ε) {I : σ → Prop} {measure : σ → ℕ} {Q : α → Prop} {E : ε → Prop}
    (hround : ∀ s, I s → Round I measure Q E s (round s)) (hs : I s) (hn : measure s < n) :
    Outcome Q E (run round endless n s) := by
  induction n generalizing s with
  | zero => cases hn
  | succ n ih =>
      have h := hround s hs
      unfold run
      rcases hr : round s with e | s' | a
      · rw [hr] at h
        exact h
      · rw [hr] at h
        exact ih h.1 (Nat.lt_of_lt_of_le h.2 (Nat.lt_succ_iff.mp hn))
      · rw [hr] at h
        exact h

theorem Visits.invariant {I : σ → Prop} (hround : ∀ s s', I s → Next round s s' → I s')
    (h : Visits round s s') (hs : I s) : I s' := by
  induction h with
  | refl => exact hs
  | tail _ hnext ih => exact hround _ _ ih hnext

theorem run_of_ends {measure : σ → ℕ} (hround : ∀ s s', Next round s s' → measure s' < measure s)
    (h : Ends round s a) (hn : measure s < n) : run round endless n s = .ok a := by
  induction h generalizing n with
  | stop h =>
      obtain ⟨n, rfl⟩ := Nat.exists_eq_add_of_lt hn
      simp only [run, h]
  | next h _ ih =>
      have hlt := hround _ _ h
      obtain ⟨n, rfl⟩ := Nat.exists_eq_succ_of_ne_zero (Nat.ne_zero_of_lt hn)
      simp only [run, h]
      exact ih (Nat.lt_of_lt_of_le hlt (Nat.lt_succ_iff.mp hn))

theorem Ends.of_visits (hvisits : Visits round s s') (h : Ends round s' a) : Ends round s a := by
  induction hvisits using Relation.ReflTransGen.head_induction_on with
  | refl => exact h
  | head hnext _ ih => exact .next hnext ih

end Iteration
