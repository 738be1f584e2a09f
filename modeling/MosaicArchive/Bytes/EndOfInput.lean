import MosaicArchive.Bytes.ProgramRules

/-!
Programs that see the end of their input before they succeed. A probe that finds
a byte makes such a program fail, so of two inputs it succeeds on, neither
begins with the other.
-/

open FixedWidth

namespace IoProgram

variable {ε α β : Type}

/-- No run of the program succeeds. -/
def NeverSucceeds (p : IoProgram ε α) : Prop := ∀ s a, (p.eval s).result ≠ .ok a

/-- A result that does not satisfy `Q` is only returned after the end was probed, and a probe
that finds a byte leads to a failure. -/
def EndsInput (Q : α → Prop) : IoProgram ε α → Prop
  | ret a => Q a
  | fail _ => True
  | readExact _ _ next => ∀ b, EndsInput Q (next b)
  | probe _ next => ∀ b, b ≠ [] → NeverSucceeds (next b)
  | write _ next => EndsInput Q next

theorem neverSucceeds_fail (e : ε) : NeverSucceeds (fail e : IoProgram ε α) := fun _ _ h => by
  cases h

theorem NeverSucceeds.bind {p : IoProgram ε α} (h : NeverSucceeds p) (f : α → IoProgram ε β) :
    NeverSucceeds (p.bind f) := by
  intro s b hb
  obtain ⟨a, w, s', w', hp, -, -⟩ := (yields_of_result hb).bind_inv
  exact h s a hp.result

theorem neverSucceeds_bind {f : α → IoProgram ε β} (h : ∀ a, NeverSucceeds (f a))
    (p : IoProgram ε α) : NeverSucceeds (p.bind f) := by
  intro s b hb
  obtain ⟨a, w, s', w', -, hf, -⟩ := (yields_of_result hb).bind_inv
  exact h a s' b hf.result

theorem EndsInput.bind {Q : α → Prop} {R : β → Prop} {p : IoProgram ε α} {f : α → IoProgram ε β}
    (hp : EndsInput Q p) (hf : ∀ a, Q a → EndsInput R (f a)) : EndsInput R (p.bind f) := by
  induction p with
  | ret a => exact hf a hp
  | fail e => trivial
  | readExact n onError next ih => exact fun b => ih b (hp b)
  | probe onError next ih => exact fun b hb => (hp b hb).bind f
  | write b next ih => exact ih hp

theorem endsInput_fail (Q : α → Prop) (e : ε) : EndsInput Q (fail e) := trivial

theorem endsInput_require {p : Prop} [Decidable p] (e : ε) :
    EndsInput (fun _ => True) (require p e) := by
  unfold require
  split
  · trivial
  · trivial

theorem endsInput_ofExcept (x : Except ε α) : EndsInput (fun _ => True) (ofExcept x) := by
  cases x <;> trivial

theorem endsInput_ofOption (x : Option α) (e : ε) : EndsInput (fun _ => True) (ofOption x e) := by
  cases x <;> trivial

/-- If a program also succeeds on a longer input, it has not seen the end of the shorter one:
it has done the same and left as much more. -/
theorem EndsInput.extend {Q : α → Prop} {p : IoProgram ε α} (hp : EndsInput Q p)
    {s t s' t' : ByteSource} {a b : α} {w v : List Bytes} {more : Bytes} (hmore : more ≠ [])
    (hbytes : t.bytes = s.bytes ++ more) (hs : p.Yields s a w s') (ht : p.Yields t b v t') :
    Q a ∧ b = a ∧ t'.bytes = s'.bytes ++ more := by
  induction p generalizing s t w v with
  | ret c =>
      obtain ⟨rfl, -, rfl⟩ := ret_inv hs
      obtain ⟨rfl, -, rfl⟩ := ret_inv ht
      exact ⟨hp, rfl, hbytes⟩
  | fail e => cases hs.result
  | readExact n onError next ih =>
      have hlong : n ≤ s.bytes.length := by
        by_contra hshort
        have hfail := eval_readExact_short n onError next (Nat.not_le.mp hshort)
        rw [hs] at hfail
        cases (IoRun.mk.inj hfail).1
      have hlonger : n ≤ t.bytes.length := by
        rw [hbytes, List.length_append]
        exact hlong.trans (Nat.le_add_right _ _)
      have hfield : t.bytes.take n = s.bytes.take n := by
        rw [hbytes, List.take_append_of_le_length hlong]
      unfold Yields at hs ht
      rw [eval_readExact_le n onError next hlong] at hs
      rw [eval_readExact_le n onError next hlonger, hfield] at ht
      apply ih _ (hp _) _ hs ht
      rw [hbytes, List.drop_append_of_le_length hlong]
  | probe onError next ih =>
      -- the longer input still has a byte where the probe is made
      obtain ⟨byte, rest, hcons⟩ : ∃ byte rest, t.bytes = byte :: rest := by
        apply List.exists_cons_of_ne_nil
        rw [hbytes]
        exact fun h => hmore (List.append_eq_nil_iff.mp h).2
      have hprobe : t.probe = (.ok [byte], { t with bytes := rest }) := by
        simp [ByteSource.probe, ByteSource.read, hcons]
      have hresult := ht.result
      simp only [eval, hprobe] at hresult
      exact absurd hresult (hp [byte] (List.cons_ne_nil _ _) _ _)
  | write c next ih =>
      unfold Yields at hs ht
      rw [eval_write] at hs ht
      obtain ⟨hresult, -, hreader⟩ := IoRun.mk.inj hs
      obtain ⟨hresult', -, hreader'⟩ := IoRun.mk.inj ht
      have hs' := yields_of_result hresult
      have ht' := yields_of_result hresult'
      rw [hreader] at hs'
      rw [hreader'] at ht'
      exact ih hp hbytes hs' ht'

/-- Of two inputs that a program succeeds on, neither begins with the other. -/
theorem EndsInput.prefix_free {p : IoProgram ε α} (hp : EndsInput (fun _ => False) p)
    {ρ σ : Type} [LawfulReader ρ] [LawfulReader σ] {r : ρ} {r' : σ} {a b : α}
    (hstarts : (LawfulReader.rest r).bytes <+: (LawfulReader.rest r').bytes)
    (hr : (p.run r).result = .ok a) (hr' : (p.run r').result = .ok b) :
    (LawfulReader.rest r').bytes = (LawfulReader.rest r).bytes := by
  obtain ⟨more, hmore⟩ := hstarts
  have hs := yields_of_result ((p.run_rest r).1.symm.trans hr)
  have ht := yields_of_result ((p.run_rest r').1.symm.trans hr')
  by_contra hne
  have hrest : more ≠ [] := by
    rintro rfl
    rw [List.append_nil] at hmore
    exact hne hmore.symm
  exact (hp.extend hrest hmore.symm hs ht).1

end IoProgram
