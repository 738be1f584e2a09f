import MosaicArchive.Effects.CallHistory

/-!
A program and its dry run, which leaves out the calls that change something. The dry run ends in
the same way whatever the system answers. The program can only return what the dry run returns,
and where the calls that were left out succeed, it ends as the dry run does.
-/

namespace CallHistory

variable {Call : Type} {Reply : Call → Type} {ε α β τ : Type}

/-- `q` is the dry run of `p`; `calm` says that the calls it leaves out succeed. -/
def DryRun (calm : Prop) (p q : Routine (CallHistory Call Reply) ε α) : Prop :=
  ∃ x, Settles q x ∧ (calm → Settles p x) ∧ Returns p fun a _ => x = .ok a

namespace DryRun

variable {calm : Prop} {p q : Routine (CallHistory Call Reply) ε α}
  {f g : α → Routine (CallHistory Call Reply) ε β}

theorem pure (a : α) :
    DryRun calm (Pure.pure a : Routine (CallHistory Call Reply) ε α) (Pure.pure a) :=
  ⟨.ok a, Settles.pure, fun _ => Settles.pure, Returns.pure rfl⟩

theorem raise (e : ε) :
    DryRun calm (Routine.raise e : Routine (CallHistory Call Reply) ε α) (Routine.raise e) :=
  ⟨.error e, Settles.raise, fun _ => Settles.raise, Returns.raise⟩

/-- What makes no calls is its own dry run. -/
theorem lift (x : Except ε α) :
    DryRun calm (Routine.lift x : Routine (CallHistory Call Reply) ε α) (Routine.lift x) :=
  ⟨x, Settles.lift, fun _ => Settles.lift, Returns.lift fun _ h => h⟩

/-- A part that is left out. -/
theorem skip {p : Routine (CallHistory Call Reply) ε Unit} (hp : Returns p fun _ _ => True)
    (hcalm : calm → Settles p (.ok ())) : DryRun calm p (Pure.pure ()) :=
  ⟨.ok (), Settles.pure, hcalm, hp.mono fun _ _ _ => rfl⟩

theorem bind (hp : DryRun calm p q) (hf : ∀ a, DryRun calm (f a) (g a)) :
    DryRun calm (p >>= f) (q >>= g) := by
  obtain ⟨e | a, hq, hcalm, hreturns⟩ := hp
  · refine ⟨.error e, hq.bind_error, fun h => (hcalm h).bind_error, ?_⟩
    refine Returns.bind hreturns ?_
    rintro a made ha
    cases ha
  · obtain ⟨y, hg, hcalm', hreturns'⟩ := hf a
    refine ⟨y, hq.bind hg, fun h => (hcalm h).bind (hcalm' h), ?_⟩
    refine Returns.bind hreturns ?_
    rintro a' made ha
    cases ha
    exact hreturns'

/-- What is done in the end is left out, too. -/
theorem finally' {clean : Routine (CallHistory Call Reply) ε Unit} (hp : DryRun calm p q)
    (hclean : Returns clean fun _ _ => True) (hcalm : calm → Settles clean (.ok ())) :
    DryRun calm (Routine.finally' p clean) (Routine.finally' q (Pure.pure ())) := by
  obtain ⟨x, hq, hp', hreturns⟩ := hp
  refine ⟨x, hq.finally' Settles.pure, fun h => (hp' h).finally' (hcalm h), ?_⟩
  refine Returns.mono (Returns.finally' hreturns hclean) ?_
  rintro a made ⟨body, final, -, ha, -⟩
  exact ha

/-- Two handlers that raise the exception again, after what they do. -/
theorem onError {clean clean' : Routine (CallHistory Call Reply) ε Unit} (hp : DryRun calm p q)
    (hclean : Returns clean fun _ _ => True) (hcalm : calm → Settles clean (.ok ()))
    (hclean' : Settles clean' (.ok ())) :
    DryRun calm (Routine.onError p fun e => do clean; Routine.raise e)
      (Routine.onError q fun e => do clean'; Routine.raise e) := by
  have hnever : ∀ e, Returns (do clean; Routine.raise e : Routine (CallHistory Call Reply) ε α)
      fun _ _ => False := fun e => Returns.bind hclean fun _ _ _ => Returns.raise
  obtain ⟨e | a, hq, hp', hreturns⟩ := hp
  · exact ⟨.error e, hq.onError_error (hclean'.bind Settles.raise),
      fun h => (hp' h).onError_error ((hcalm h).bind Settles.raise), Returns.onError hreturns hnever⟩
  · exact ⟨.ok a, hq.onError, fun h => (hp' h).onError, Returns.onError hreturns hnever⟩

theorem forEach {body body' : τ → α → Routine (CallHistory Call Reply) ε τ}
    (hbody : ∀ t a, DryRun calm (body t a) (body' t a)) (as : List α) (t : τ) :
    DryRun calm (Routine.forEach body as t) (Routine.forEach body' as t) := by
  induction as generalizing t with
  | nil => exact pure t
  | cons a as ih => exact bind (hbody t a) ih

end DryRun

end CallHistory
