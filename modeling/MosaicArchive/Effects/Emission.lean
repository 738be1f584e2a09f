import MosaicArchive.Effects.Deeds

/-!
Programs that emit items one after the other, each under the next number. Every item has its deeds;
a program that raises may leave the last one unfinished.
-/

namespace CallHistory

variable {Call : Type} {Reply : Call → Type} {ε α β δ ι : Type}

/-- A kind of items: the deeds of an item under a number, and the deeds that may be left of one
that was not finished. -/
structure Emission (δ ι : Type) where
  render : ℕ → ι → List δ
  valid : ℕ → ι → Prop
  broken : ℕ → List δ → Prop
  broken_nil : ∀ number, broken number []

namespace Emission

variable (kind : Emission δ ι)

/-- The deeds of items under consecutive numbers. -/
def deeds (start : ℕ) (items : List ι) : List δ :=
  (items.zipIdx start).flatMap fun item => kind.render item.2 item.1

def Valid (start : ℕ) (items : List ι) : Prop :=
  ∀ item ∈ items.zipIdx start, kind.valid item.2 item.1

theorem deeds_append (start : ℕ) (items more : List ι) : kind.deeds start (items ++ more) =
    kind.deeds start items ++ kind.deeds (start + items.length) more := by
  rw [deeds, deeds, deeds, List.zipIdx_append, List.flatMap_append]

theorem deeds_singleton (start : ℕ) (item : ι) : kind.deeds start [item] = kind.render start item := by
  simp [deeds]

theorem deeds_cons (start : ℕ) (item : ι) (items : List ι) :
    kind.deeds start (item :: items) = kind.render start item ++ kind.deeds (start + 1) items := by
  rw [← List.singleton_append, deeds_append, deeds_singleton]
  rfl

theorem valid_append {start : ℕ} {items more : List ι} : kind.Valid start (items ++ more) ↔
    kind.Valid start items ∧ kind.Valid (start + items.length) more := by
  simp only [Valid, List.zipIdx_append, List.mem_append, or_imp, forall_and]

theorem valid_nil {start : ℕ} : kind.Valid start [] := fun _ h => absurd h List.not_mem_nil

theorem valid_singleton {start : ℕ} {item : ι} : kind.Valid start [item] ↔ kind.valid start item := by
  simp [Valid]

theorem valid_cons {start : ℕ} {item : ι} {items : List ι} : kind.Valid start (item :: items) ↔
    kind.valid start item ∧ kind.Valid (start + 1) items := by
  rw [← List.singleton_append, valid_append, valid_singleton]
  rfl

end Emission

variable (deedsOf : (Σ c : Call, Reply c) → List δ) (kind : Emission δ ι)

/-- From the number `start` the program emits valid items; when it returns, all are finished and its
result is in `Q` with them. -/
def Emits (start : ℕ) (p : Routine (CallHistory Call Reply) ε α) (Q : α → List ι → Prop) : Prop :=
  Traces deedsOf p
    (fun a t => ∃ items, kind.Valid start items ∧ t = kind.deeds start items ∧ Q a items)
    fun _ t => ∃ items last, kind.Valid start items ∧ kind.broken (start + items.length) last ∧
      t = kind.deeds start items ++ last

namespace Emits

variable {deedsOf} {kind} {start : ℕ} {p : Routine (CallHistory Call Reply) ε α}
  {f : α → Routine (CallHistory Call Reply) ε β} {Q Q' : α → List ι → Prop} {R : β → List ι → Prop}

theorem mono (hp : Emits deedsOf kind start p Q) (h : ∀ a items, Q a items → Q' a items) :
    Emits deedsOf kind start p Q' := by
  refine Traces.mono hp ?_ fun _ _ h => h
  rintro a t ⟨items, hvalid, ht, ha⟩
  exact ⟨items, hvalid, ht, h a items ha⟩

/-- A program that emits nothing. -/
theorem quietly {P : α → Prop} (hp : Quietly deedsOf p P) (h : ∀ a, P a → Q a []) :
    Emits deedsOf kind start p Q := by
  refine Traces.mono hp ?_ ?_
  · rintro a t ⟨rfl, ha⟩
    exact ⟨[], kind.valid_nil, rfl, h a ha⟩
  · rintro e t rfl
    exact ⟨[], [], kind.valid_nil, kind.broken_nil _, rfl⟩

theorem pure {a : α} (h : Q a []) :
    Emits deedsOf kind start (Pure.pure a : Routine (CallHistory Call Reply) ε α) Q :=
  quietly (Quietly.pure h) fun _ h => h

theorem raise {e : ε} :
    Emits deedsOf kind start (Routine.raise e : Routine (CallHistory Call Reply) ε α) Q :=
  quietly (P := fun _ => False) Quietly.raise fun _ h => h.elim

theorem bind (hp : Emits deedsOf kind start p Q)
    (hf : ∀ a items, Q a items →
      Emits deedsOf kind (start + items.length) (f a) fun b more => R b (items ++ more)) :
    Emits deedsOf kind start (p >>= f) R := by
  refine Traces.bind hp ?_ fun _ _ h => h
  rintro a t ⟨items, hvalid, rfl, ha⟩
  refine Traces.mono (hf a items ha) ?_ ?_
  · rintro b t ⟨more, hvalid', rfl, hb⟩
    exact ⟨items ++ more, kind.valid_append.mpr ⟨hvalid, hvalid'⟩, (kind.deeds_append ..).symm, hb⟩
  · rintro e t ⟨more, last, hvalid', hlast, rfl⟩
    refine ⟨items ++ more, last, kind.valid_append.mpr ⟨hvalid, hvalid'⟩, ?_, ?_⟩
    · rwa [List.length_append, ← Nat.add_assoc]
    · rw [kind.deeds_append, List.append_assoc]

/-- After a program that emits nothing. -/
theorem before {P : α → Prop} (hp : Quietly deedsOf p P)
    (hf : ∀ a, P a → Emits deedsOf kind start (f a) R) : Emits deedsOf kind start (p >>= f) R := by
  refine bind (quietly hp (Q := fun a items => P a ∧ items = []) fun a ha => ⟨ha, rfl⟩) ?_
  rintro a items ⟨ha, rfl⟩
  exact hf a ha

theorem guard {c : Prop} [Decidable c] {e : ε} {f : Unit → Routine (CallHistory Call Reply) ε β}
    (h : ¬ c → Emits deedsOf kind start (f ()) R) :
    Emits deedsOf kind start (Routine.raiseIf c e >>= f) R :=
  before (P := fun _ => ¬ c) (Quietly.raiseIf fun hc => hc) fun _ => h

/-- Before a program that emits nothing. -/
theorem after {P : α → β → Prop} (hp : Emits deedsOf kind start p Q)
    (hf : ∀ a, Quietly deedsOf (f a) (P a)) (h : ∀ a b items, Q a items → P a b → R b items) :
    Emits deedsOf kind start (p >>= f) R := by
  refine bind hp fun a items ha => quietly (hf a) fun b hb => ?_
  rw [List.append_nil]
  exact h a b items ha hb

/-- A loop, with what holds of the elements it has done and of what was emitted for them. -/
theorem forEach {τ : Type} {body : τ → α → Routine (CallHistory Call Reply) ε τ}
    {I : List α → τ → List ι → Prop} {origin : ℕ}
    (hbody : ∀ before t a items, I before t items → Emits deedsOf kind (origin + items.length) (body t a)
      fun t' more => I (before ++ [a]) t' (items ++ more))
    {before todo : List α} {t : τ} {items : List ι} (h : I before t items) :
    Emits deedsOf kind (origin + items.length) (Routine.forEach body todo t)
      fun t' more => I (before ++ todo) t' (items ++ more) := by
  induction todo generalizing before t items with
  | nil =>
      refine pure ?_
      rwa [List.append_nil, List.append_nil]
  | cons a todo ih =>
      refine bind (hbody before t a items h) fun t' more ht' => ?_
      have hrest := ih ht'
      rw [List.length_append, ← Nat.add_assoc] at hrest
      refine mono hrest fun t'' last ht'' => ?_
      rwa [List.append_assoc, List.append_assoc, List.singleton_append] at ht''

/-- The whole loop. -/
theorem loop {τ : Type} {body : τ → α → Routine (CallHistory Call Reply) ε τ}
    {I : List α → τ → List ι → Prop}
    (hbody : ∀ before t a items, I before t items → Emits deedsOf kind (start + items.length) (body t a)
      fun t' more => I (before ++ [a]) t' (items ++ more))
    {as : List α} {t : τ} (h : I [] t []) :
    Emits deedsOf kind start (Routine.forEach body as t) (I as) := by
  have hall : Emits deedsOf kind (start + 0) (Routine.forEach body as t)
      fun t' more => I ([] ++ as) t' ([] ++ more) := forEach hbody h
  simpa only [List.nil_append, Nat.add_zero] using hall

/-- What is done in the end emits nothing. -/
theorem finally' {clean : Routine (CallHistory Call Reply) ε Unit} (hp : Emits deedsOf kind start p Q)
    (hclean : Quietly deedsOf clean fun _ => True) :
    Emits deedsOf kind start (Routine.finally' p clean) Q := by
  refine Traces.finally' hp (Traces.mono hclean (fun _ _ h => h.1) fun _ _ h => h) ?_ fun _ _ _ h => h
  rintro a e t ⟨items, hvalid, ht, -⟩
  refine ⟨items, [], hvalid, kind.broken_nil _, ?_⟩
  rw [ht, List.append_nil]

/-- A handler that emits nothing and raises. -/
theorem onError {handler : ε → Routine (CallHistory Call Reply) ε α}
    (hp : Emits deedsOf kind start p Q)
    (hhandler : ∀ e, Quietly deedsOf (handler e) fun _ => False) :
    Emits deedsOf kind start (Routine.onError p handler) Q := by
  refine Traces.onError hp ?_
  rintro e t ⟨items, last, hvalid, hlast, rfl⟩
  refine Traces.mono (hhandler e) ?_ ?_
  · rintro a t ⟨-, hfalse⟩
    exact hfalse.elim
  · rintro e' t rfl
    exact ⟨items, last, hvalid, hlast, List.append_nil _⟩

end Emits

end CallHistory
