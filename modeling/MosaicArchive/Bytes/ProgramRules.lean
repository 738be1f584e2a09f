import MosaicArchive.Bytes.ByteSource

/-!
Rules for programs on a source. `Yields` is a completed run with what it wrote
and where it left the source; it is built up along a program. `Settles` holds
of a program when every run from a source, failed or not, ends in a given
postcondition; it takes a program apart.
-/

open FixedWidth

namespace IoProgram

variable {ε α β : Type}

/-- The program succeeds on the source. -/
def Yields (p : IoProgram ε α) (s : ByteSource) (a : α) (written : List Bytes)
    (s' : ByteSource) : Prop :=
  p.eval s = { result := .ok a, written := written, reader := s' }

/-- The program fails on the source. -/
def Fails (p : IoProgram ε α) (s : ByteSource) (e : ε) (written : List Bytes) : Prop :=
  (p.eval s).result = .error e ∧ (p.eval s).written = written

theorem Yields.result {p : IoProgram ε α} {s s' : ByteSource} {a : α} {w : List Bytes}
    (h : p.Yields s a w s') : (p.eval s).result = .ok a := by rw [h]

theorem Yields.written {p : IoProgram ε α} {s s' : ByteSource} {a : α} {w : List Bytes}
    (h : p.Yields s a w s') : (p.eval s).written = w := by rw [h]

theorem yields_ret (a : α) (s : ByteSource) : (ret a : IoProgram ε α).Yields s a [] s := rfl

theorem Yields.bind {p : IoProgram ε α} {f : α → IoProgram ε β} {s s' s'' : ByteSource} {a : α}
    {b : β} {w w' : List Bytes} (hp : p.Yields s a w s') (hf : (f a).Yields s' b w' s'') :
    (p.bind f).Yields s b (w ++ w') s'' := by
  unfold Yields at *
  rw [eval_bind, hp]
  simp [hf]

/-- A completed run of two parts is a completed run of each. -/
theorem Yields.bind_inv {p : IoProgram ε α} {f : α → IoProgram ε β} {s s'' : ByteSource} {b : β}
    {w : List Bytes} (h : (p.bind f).Yields s b w s'') :
    ∃ a w₁ s' w₂, p.Yields s a w₁ s' ∧ (f a).Yields s' b w₂ s'' ∧ w = w₁ ++ w₂ := by
  unfold Yields at h
  rw [eval_bind] at h
  match hp : p.eval s with
  | ⟨.error e, w₁, s'⟩ =>
      rw [hp] at h
      cases (IoRun.mk.inj h).1
  | ⟨.ok a, w₁, s'⟩ =>
      rw [hp] at h
      obtain ⟨hresult, hwritten, hreader⟩ := IoRun.mk.inj h
      refine ⟨a, w₁, s', _, hp, ?_, hwritten.symm⟩
      unfold Yields
      rw [← hresult, ← hreader]

/-- A first part that writes nothing. -/
theorem Yields.bind_silent {p : IoProgram ε α} {f : α → IoProgram ε β} {s s' s'' : ByteSource}
    {a : α} {b : β} {w : List Bytes} (hp : p.Yields s a [] s') (hf : (f a).Yields s' b w s'') :
    (p.bind f).Yields s b w s'' := hp.bind hf

theorem Yields.bind_ret {p : IoProgram ε α} {f : α → β} {s s' : ByteSource} {a : α}
    {w : List Bytes} (hp : p.Yields s a w s') :
    (p.bind fun a => ret (f a)).Yields s (f a) w s' := by
  unfold Yields at *
  rw [eval_bind, hp]
  simp

theorem Yields.bind_fails {p : IoProgram ε α} {f : α → IoProgram ε β} {s s' : ByteSource}
    {a : α} {e : ε} {w w' : List Bytes} (hp : p.Yields s a w s') (hf : (f a).Fails s' e w') :
    (p.bind f).Fails s e (w ++ w') := by
  unfold Yields Fails at *
  rw [eval_bind, hp]
  exact ⟨hf.1, by simp [hf.2]⟩

theorem Fails.bind {p : IoProgram ε α} {f : α → IoProgram ε β} {s : ByteSource} {e : ε}
    {w : List Bytes} (hp : p.Fails s e w) : (p.bind f).Fails s e w := by
  obtain ⟨hresult, hwritten⟩ := hp
  unfold Fails
  rw [eval_bind, hresult]
  exact ⟨rfl, hwritten⟩

theorem yields_require {p : Prop} [Decidable p] (h : p) (e : ε) (s : ByteSource) :
    (require p e).Yields s () [] s := by
  rw [require, if_pos h]
  exact yields_ret () s

theorem fails_require {p : Prop} [Decidable p] (h : ¬ p) (e : ε) (s : ByteSource) :
    (require p e).Fails s e [] := by
  rw [require, if_neg h]
  exact ⟨rfl, rfl⟩

theorem yields_ofExcept {x : Except ε α} {a : α} (h : x = .ok a) (s : ByteSource) :
    (ofExcept x).Yields s a [] s := by
  subst h
  exact yields_ret a s

theorem yields_ofOption {x : Option α} {a : α} (h : x = some a) (e : ε) (s : ByteSource) :
    (ofOption x e).Yields s a [] s := by
  subst h
  exact yields_ret a s

theorem yields_write {p : IoProgram ε α} {s s' : ByteSource} {a : α} {w : List Bytes} (b : Bytes)
    (h : p.Yields s a w s') : (write b p).Yields s a (b :: w) s' := by
  unfold Yields at *
  rw [eval_write, h]

/-- An exact read of a field that stands at the front of the source. -/
theorem yields_readExact (onError : IoError → ε) {field : Bytes} {n : ℕ} (h : field.length = n)
    (rest : Bytes) (fault : Option IoError) (sawEnd : Bool) :
    (readExact n onError ret).Yields ⟨field ++ rest, fault, sawEnd⟩ field []
      ⟨rest, fault, sawEnd⟩ := by
  unfold Yields
  rw [eval_readExact_append n onError ret h]
  rfl

/-- The two outcomes of an exact read. -/
theorem readExact_cases (n : ℕ) (onError : IoError → ε) (s : ByteSource) :
    (readExact n onError ret).Fails s (onError (s.fault.getD unexpectedEof)) [] ∨
      ∃ field rest, s.bytes = field ++ rest ∧ field.length = n ∧
        (readExact n onError ret).Yields s field [] { s with bytes := rest } := by
  rcases Nat.lt_or_ge s.bytes.length n with hshort | hlong
  · refine Or.inl ⟨?_, ?_⟩ <;> rw [eval_readExact_short n onError ret hshort]
  · refine Or.inr ⟨s.bytes.take n, s.bytes.drop n, (List.take_append_drop n s.bytes).symm,
      by simpa using hlong, ?_⟩
    unfold Yields
    rw [eval_readExact_le n onError ret hlong]
    rfl

/-! ### Taking a completed run apart -/

theorem yields_of_result {p : IoProgram ε α} {s : ByteSource} {a : α}
    (h : (p.eval s).result = .ok a) : p.Yields s a (p.eval s).written (p.eval s).reader := by
  unfold Yields
  rw [← h]

theorem ret_inv {a b : α} {s s' : ByteSource} {w : List Bytes}
    (h : (ret a : IoProgram ε α).Yields s b w s') : b = a ∧ w = [] ∧ s' = s := by
  have hrun : (⟨.ok a, [], s⟩ : IoRun ByteSource ε α) = ⟨.ok b, w, s'⟩ := h
  obtain ⟨hresult, rfl, rfl⟩ := IoRun.mk.inj hrun
  exact ⟨(Except.ok.inj hresult).symm, rfl, rfl⟩

theorem require_bind_inv {p : Prop} [Decidable p] {e : ε} {f : Unit → IoProgram ε β}
    {s s' : ByteSource} {b : β} {w : List Bytes}
    (h : ((require p e).bind f).Yields s b w s') : p ∧ (f ()).Yields s b w s' := by
  by_cases hp : p
  · rw [require, if_pos hp] at h
    exact ⟨hp, h⟩
  · rw [require, if_neg hp] at h
    cases h.result

theorem ofExcept_bind_inv {x : Except ε α} {f : α → IoProgram ε β} {s s' : ByteSource} {b : β}
    {w : List Bytes} (h : ((ofExcept x).bind f).Yields s b w s') :
    ∃ a, x = .ok a ∧ (f a).Yields s b w s' := by
  cases x with
  | error e => cases h.result
  | ok a => exact ⟨a, rfl, h⟩

theorem ofOption_bind_inv {x : Option α} {e : ε} {f : α → IoProgram ε β} {s s' : ByteSource}
    {b : β} {w : List Bytes} (h : ((ofOption x e).bind f).Yields s b w s') :
    ∃ a, x = some a ∧ (f a).Yields s b w s' := by
  cases x with
  | none => cases h.result
  | some a => exact ⟨a, rfl, h⟩

/-- A completed run that starts with a part known to succeed. -/
theorem Yields.bind_inv_of {p : IoProgram ε α} {f : α → IoProgram ε β} {s s' s'' : ByteSource}
    {a : α} {b : β} {w₁ w : List Bytes} (hp : p.Yields s a w₁ s')
    (h : (p.bind f).Yields s b w s'') : ∃ w₂, (f a).Yields s' b w₂ s'' ∧ w = w₁ ++ w₂ := by
  obtain ⟨a', w₁', t, w₂, hp', hf, rfl⟩ := h.bind_inv
  obtain ⟨hresult, rfl, rfl⟩ := IoRun.mk.inj (hp.symm.trans hp')
  obtain rfl := Except.ok.inj hresult
  exact ⟨w₂, hf, rfl⟩

/-- A completed run that starts with an exact read. -/
theorem readExact_bind_inv {n : ℕ} {onError : IoError → ε} {f : Bytes → IoProgram ε β}
    {s s' : ByteSource} {b : β} {w : List Bytes}
    (h : ((readExact n onError ret).bind f).Yields s b w s') :
    ∃ field rest, s.bytes = field ++ rest ∧ field.length = n ∧
      (f field).Yields { s with bytes := rest } b w s' := by
  rcases readExact_cases n onError s with hfails | ⟨field, rest, hbytes, hlength, hyields⟩
  · obtain ⟨a, w₁, t, w₂, hp, -, -⟩ := h.bind_inv
    cases hfails.1.symm.trans hp.result
  · obtain ⟨w₂, hf, rfl⟩ := hyields.bind_inv_of h
    exact ⟨field, rest, hbytes, hlength, hf⟩

/-- The outcomes of a probe. -/
theorem probe_cases (onError : IoError → ε) (s : ByteSource) :
    (s.bytes = [] ∧ ∃ e, s.fault = some e ∧
        (probe onError ret : IoProgram ε Bytes).Fails s (onError e) []) ∨
      (s.bytes = [] ∧ s.fault = none ∧
        (probe onError ret).Yields s [] [] { s with sawEnd := true }) ∨
      ∃ x rest, s.bytes = x :: rest ∧
        (probe onError ret).Yields s [x] [] { s with bytes := rest } := by
  rcases hbytes : s.bytes with _ | ⟨x, rest⟩
  · rcases hfault : s.fault with _ | e
    · refine .inr (.inl ⟨rfl, rfl, ?_⟩)
      simp [Yields, eval, ByteSource.probe, ByteSource.read, hbytes, hfault]
    · refine .inl ⟨rfl, e, rfl, ?_⟩
      simp [Fails, eval, ByteSource.probe, ByteSource.read, hbytes, hfault]
  · refine .inr (.inr ⟨x, rest, rfl, ?_⟩)
    simp [Yields, eval, ByteSource.probe, ByteSource.read, hbytes]

/-- A completed run that starts with a probe. -/
theorem probe_bind_inv {onError : IoError → ε} {f : Bytes → IoProgram ε β} {s s' : ByteSource}
    {b : β} {w : List Bytes} (h : ((probe onError ret).bind f).Yields s b w s') :
    (s.bytes = [] ∧ s.fault = none ∧ (f []).Yields { s with sawEnd := true } b w s') ∨
      ∃ x rest, s.bytes = x :: rest ∧ (f [x]).Yields { s with bytes := rest } b w s' := by
  rcases probe_cases onError s with ⟨-, e, -, hfails⟩ | ⟨hend, hfault, hyields⟩ |
    ⟨x, rest, hbytes, hyields⟩
  · obtain ⟨a, w₁, t, w₂, hp, -, -⟩ := h.bind_inv
    cases hfails.1.symm.trans hp.result
  · obtain ⟨w₂, hf, rfl⟩ := hyields.bind_inv_of h
    exact .inl ⟨hend, hfault, hf⟩
  · obtain ⟨w₂, hf, rfl⟩ := hyields.bind_inv_of h
    exact .inr ⟨x, rest, hbytes, hf⟩

/-! ### Programs that succeed -/

def Succeeds (p : IoProgram ε α) (s : ByteSource) : Prop := ∃ a w s', p.Yields s a w s'

theorem Yields.succeeds {p : IoProgram ε α} {s s' : ByteSource} {a : α} {w : List Bytes}
    (h : p.Yields s a w s') : p.Succeeds s := ⟨a, w, s', h⟩

theorem Yields.succeeds_bind {p : IoProgram ε α} {f : α → IoProgram ε β} {s s' : ByteSource}
    {a : α} {w : List Bytes} (hp : p.Yields s a w s') (hf : (f a).Succeeds s') :
    (p.bind f).Succeeds s := by
  obtain ⟨b, w', s'', hf⟩ := hf
  exact (hp.bind hf).succeeds

/-- What is known of a completed first part may be used for the second. -/
theorem Succeeds.bind {p : IoProgram ε α} {f : α → IoProgram ε β} {s : ByteSource}
    (hp : p.Succeeds s) (hf : ∀ a w s', p.Yields s a w s' → (f a).Succeeds s') :
    (p.bind f).Succeeds s := by
  obtain ⟨a, w, s', hp⟩ := hp
  exact hp.succeeds_bind (hf a w s' hp)

/-! ### Postconditions -/

/-- Every run of the program from the source ends in the postcondition. -/
def Settles (p : IoProgram ε α) (s : ByteSource)
    (post : Except ε α → List Bytes → ByteSource → Prop) : Prop :=
  post (p.eval s).result (p.eval s).written (p.eval s).reader

section Settles

variable {post : Except ε β → List Bytes → ByteSource → Prop}

theorem Yields.settles {p : IoProgram ε β} {s s' : ByteSource} {b : β} {w : List Bytes}
    (h : p.Yields s b w s') (hpost : post (.ok b) w s') : p.Settles s post := by
  unfold Settles
  rw [h]
  exact hpost

theorem Fails.settles {p : IoProgram ε β} {s : ByteSource} {e : ε} {w : List Bytes}
    (h : p.Fails s e w) (hpost : ∀ s', post (.error e) w s') : p.Settles s post := by
  unfold Settles
  rw [h.1, h.2]
  exact hpost _

theorem Yields.settles_bind {p : IoProgram ε α} {f : α → IoProgram ε β} {s s' : ByteSource}
    {a : α} (hp : p.Yields s a [] s') (hf : (f a).Settles s' post) : (p.bind f).Settles s post := by
  unfold Settles Yields at *
  rw [eval_bind, hp]
  simpa using hf

theorem Settles.mono {p : IoProgram ε β} {s : ByteSource}
    {mid : Except ε β → List Bytes → ByteSource → Prop} (h : p.Settles s mid)
    (himp : ∀ result written s', mid result written s' → post result written s') :
    p.Settles s post := himp _ _ _ h

/-- A first part with a postcondition of its own; the rest starts where it
ended. -/
theorem Settles.bind {p : IoProgram ε α} {f : α → IoProgram ε β} {s : ByteSource}
    {mid : Except ε α → List Bytes → ByteSource → Prop} (hp : p.Settles s mid)
    (hfail : ∀ e w s', mid (.error e) w s' → post (.error e) w s')
    (hnext : ∀ a w s', mid (.ok a) w s' →
      (f a).Settles s' fun result written s'' => post result (w ++ written) s'') :
    (p.bind f).Settles s post := by
  unfold Settles at hp
  match hresult : (p.eval s).result with
  | .error e =>
      rw [hresult] at hp
      unfold Settles
      rw [eval_bind, hresult]
      exact hfail e _ _ hp
  | .ok a =>
      rw [hresult] at hp
      unfold Settles at *
      rw [eval_bind, hresult]
      exact hnext a _ _ hp

/-- A first part followed by a pure value. -/
theorem Settles.bind_ret {p : IoProgram ε α} {f : α → β} {s : ByteSource}
    {mid : Except ε α → List Bytes → ByteSource → Prop} (hp : p.Settles s mid)
    (hfail : ∀ e w s', mid (.error e) w s' → post (.error e) w s')
    (hnext : ∀ a w s', mid (.ok a) w s' → post (.ok (f a)) w s') :
    (p.bind fun a => ret (f a)).Settles s post := by
  unfold Settles at *
  match hresult : (p.eval s).result with
  | .error e =>
      rw [hresult] at hp
      rw [eval_bind, hresult]
      exact hfail e _ _ hp
  | .ok a =>
      rw [hresult] at hp
      rw [eval_bind, hresult]
      simpa using hnext a _ _ hp

theorem settles_require_bind {p : Prop} [Decidable p] {e : ε} {f : Unit → IoProgram ε β}
    {s : ByteSource} (hfail : ∀ s', post (.error e) [] s')
    (hnext : p → (f ()).Settles s post) : ((require p e).bind f).Settles s post := by
  by_cases h : p
  · exact (yields_require h e s).settles_bind (hnext h)
  · exact (fails_require h e s).bind.settles hfail

theorem settles_ofExcept_bind {x : Except ε α} {f : α → IoProgram ε β} {s : ByteSource}
    (hfail : ∀ e s', post (.error e) [] s') (hnext : ∀ a, x = .ok a → (f a).Settles s post) :
    ((ofExcept x).bind f).Settles s post := by
  cases x with
  | error e => exact hfail e s
  | ok a => exact hnext a rfl

theorem settles_readExact_bind {n : ℕ} {onError : IoError → ε} {f : Bytes → IoProgram ε β}
    {s : ByteSource} (hfail : ∀ e s', post (.error e) [] s')
    (hnext : ∀ field rest, s.bytes = field ++ rest → field.length = n →
      (f field).Settles { s with bytes := rest } post) :
    ((readExact n onError ret).bind f).Settles s post := by
  rcases readExact_cases n onError s with hfails | ⟨field, rest, hbytes, hlength, hyields⟩
  · exact hfails.bind.settles (hfail _)
  · exact hyields.settles_bind (hnext field rest hbytes hlength)

theorem settles_probe_bind {onError : IoError → ε} {f : Bytes → IoProgram ε β} {s : ByteSource}
    (hfail : ∀ e s', post (.error e) [] s')
    (hend : s.bytes = [] → s.fault = none → (f []).Settles { s with sawEnd := true } post)
    (hmore : ∀ b rest, s.bytes = b :: rest → (f [b]).Settles { s with bytes := rest } post) :
    ((probe onError ret).bind f).Settles s post := by
  rcases probe_cases onError s with ⟨-, e, -, hfails⟩ | ⟨hbytes, hfault, hyields⟩ |
    ⟨b, rest, hbytes, hyields⟩
  · exact hfails.bind.settles (hfail _)
  · exact hyields.settles_bind (hend hbytes hfault)
  · exact hyields.settles_bind (hmore b rest hbytes)

end Settles

/-! ### Programs that give up earlier -/

/-- `p` does what `q` does, or fails having written a part of what `q` writes. -/
def Cautious (p q : IoProgram ε α) : Prop :=
  ∀ s, ((∃ e, (p.eval s).result = .error e) ∧ (p.eval s).written <+: (q.eval s).written) ∨
    p.eval s = q.eval s

theorem Cautious.refl (p : IoProgram ε α) : Cautious p p := fun _ => .inr rfl

theorem cautious_require {p q : Prop} [Decidable p] [Decidable q] (h : p → q) (e : ε) :
    Cautious (require p e) (require q e) := by
  intro s
  by_cases hp : p
  · right
    rw [require, require, if_pos hp, if_pos (h hp)]
  · left
    rw [require, if_neg hp]
    exact ⟨⟨e, rfl⟩, List.nil_prefix⟩

theorem Cautious.bind {p q : IoProgram ε α} {f g : α → IoProgram ε β} (hp : Cautious p q)
    (hf : ∀ a, Cautious (f a) (g a)) : Cautious (p.bind f) (q.bind g) := by
  intro s
  rcases hp s with ⟨⟨e, he⟩, hwritten⟩ | heq
  · -- the first part gave up: later writes of `q` only extend its own
    left
    rw [eval_bind p, he]
    refine ⟨⟨e, rfl⟩, hwritten.trans ?_⟩
    rw [eval_bind q]
    split
    · exact List.prefix_refl _
    · exact List.prefix_append _ _
  · rw [eval_bind p, eval_bind q, heq]
    match (q.eval s).result with
    | .error e => exact .inr rfl
    | .ok a =>
        rcases hf a (q.eval s).reader with ⟨⟨e, he⟩, hwritten⟩ | hsame
        · left
          exact ⟨⟨e, he⟩, (List.prefix_append_right_inj _).mpr hwritten⟩
        · right
          simp only [hsame]

end IoProgram
