import Mathlib.Tactic

/-!
Finite traces in which each element is constrained by what came before it.
-/

namespace Trace

variable {α : Type}

/-- Every element of the trace is allowed by the elements before it. -/
def Lawful (R : List α → α → Prop) (trace : List α) : Prop :=
  ∀ before a after, trace = before ++ a :: after → R before a

variable {R R' : List α → α → Prop}

@[simp] theorem lawful_nil : Lawful R [] := by
  intro before a after h
  simp at h

theorem Lawful.mono {trace : List α} (h : Lawful R trace) (hR : ∀ before a, R before a → R' before a) :
    Lawful R' trace :=
  fun before a after heq => hR before a (h before a after heq)

theorem lawful_append {first second : List α} :
    Lawful R (first ++ second) ↔ Lawful R first ∧ Lawful (fun before => R (first ++ before)) second := by
  constructor
  · intro h
    refine ⟨fun before a after heq => ?_, fun before a after heq => ?_⟩
    · exact h before a (after ++ second) (by simp [heq])
    · exact h (first ++ before) a after (by simp [heq])
  · rintro ⟨hfirst, hsecond⟩ before a after heq
    rcases List.append_eq_append_iff.mp heq with ⟨rest, rfl, htail⟩ | ⟨rest, rfl, htail⟩
    · exact hsecond rest a after htail
    · cases rest with
      | nil =>
          simpa using hsecond [] a after htail.symm
      | cons b rest =>
          obtain ⟨rfl, htail⟩ := List.cons.inj htail
          exact hfirst before a rest rfl

@[simp] theorem lawful_singleton {a : α} : Lawful R [a] ↔ R [] a := by
  constructor
  · intro h
    exact h [] a [] rfl
  · intro h before b after heq
    cases before with
    | nil =>
        obtain ⟨rfl, -⟩ := List.cons.inj heq
        exact h
    | cons c before => simp at heq

theorem lawful_concat {trace : List α} {a : α} :
    Lawful R (trace ++ [a]) ↔ Lawful R trace ∧ R trace a := by
  simp [lawful_append]

/-- Elements that are allowed after anything. -/
theorem lawful_of_always {trace : List α} (h : ∀ a ∈ trace, ∀ before, R before a) :
    Lawful R trace := by
  intro before a after heq
  exact h a (by simp [heq]) before

/-- Traces whose elements correspond. -/
theorem lawful_iff_of_forall₂ {β : Type} {S : α → β → Prop} {R : List α → α → Prop}
    {T : List β → β → Prop} {trace : List α} {trace' : List β} (h : List.Forall₂ S trace trace')
    (hR : ∀ before before' a b, List.Forall₂ S before before' → S a b → (R before a ↔ T before' b)) :
    Lawful R trace ↔ Lawful T trace' := by
  induction h generalizing R T with
  | nil => simp
  | @cons a b trace trace' hab _ ih =>
      rw [← List.singleton_append, ← List.singleton_append (l := trace'), lawful_append, lawful_append,
        lawful_singleton, lawful_singleton]
      refine and_congr (hR [] [] a b .nil hab) (ih fun before before' c d hbefore hcd => ?_)
      exact hR _ _ c d (.cons hab hbefore) hcd

/-- What each element is allowed to be carries over to the elements that correspond. -/
theorem Lawful.forall₂ {β : Type} {S : α → β → Prop} {T : List β → β → Prop} {trace : List α}
    {trace' : List β} (hl : Lawful R trace) (h : List.Forall₂ S trace trace')
    (hR : ∀ before before' a b, List.Forall₂ S before before' → S a b → R before a → T before' b) :
    Lawful T trace' := by
  rintro before' b after' rfl
  have hbefore := List.forall₂_take_append trace before' (b :: after') h
  have hrest := List.forall₂_drop_append trace before' (b :: after') h
  obtain ⟨a, after, hab, -, hdrop⟩ := List.forall₂_cons_right_iff.mp hrest
  refine hR _ before' a b hbefore hab (hl _ a after ?_)
  rw [← hdrop, List.take_append_drop]

theorem Lawful.of_mem {trace : List α} (h : Lawful R trace) {a : α} (ha : a ∈ trace) :
    ∃ before, R before a := by
  obtain ⟨before, after, heq⟩ := List.append_of_mem ha
  exact ⟨before, h before a after heq⟩

end Trace
