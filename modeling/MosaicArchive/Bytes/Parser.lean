import MosaicArchive.Bytes.Struct

/-!
Parsers of byte strings that consume a prefix or fail with an error. `Accepts`
says what a parser returns and what it leaves; it has one rewrite rule for each
way of building a parser, so that the accepted inputs of a whole parser are
computed by `simp`. A parser that accepts exactly the encodings of some values
is a codec; the rule for loops lifts this from the body to the whole loop.
-/

open FixedWidth

namespace Except

variable {ε α β : Type}

@[simp] theorem bind_eq_ok_iff {x : Except ε α} {f : α → Except ε β} {b : β} :
    (x >>= f) = .ok b ↔ ∃ a, x = .ok a ∧ f a = .ok b := by
  rcases x with e | a <;> simp [bind, Except.bind]

/-- `if c: raise e` -/
def raiseIf (c : Prop) [Decidable c] (e : ε) : Except ε Unit := if c then .error e else .ok ()

@[simp] theorem raiseIf_eq_ok {c : Prop} [Decidable c] {e : ε} {u : Unit} :
    raiseIf c e = .ok u ↔ ¬ c := by
  unfold raiseIf
  split <;> simp [*]

theorem mapError_eq_ok {ε' : Type} {x : Except ε α} {f : ε → ε'} {a : α} :
    x.mapError f = .ok a ↔ x = .ok a := by
  cases x <;> simp [Except.mapError]

end Except

/-- Unpacking a byte string that must have the size of the layout. -/
def Struct.parse {ε : Type} (l : Struct.Layout) (data : Bytes) (truncated : ε) :
    Except ε (Struct.Values l) := do
  Except.raiseIf (data.length ≠ Struct.size l) truncated
  pure (Struct.unpack l data)

theorem Struct.parse_eq_ok {ε : Type} {l : Struct.Layout} {data : Bytes} {truncated : ε}
    {v : Struct.Values l} :
    Struct.parse l data truncated = .ok v ↔ Struct.Exact l v ∧ Struct.pack l v = some data := by
  simp only [Struct.parse, Except.bind_eq_ok_iff, Except.raiseIf_eq_ok, not_not,
    exists_and_left, exists_const, pure, Except.pure, Except.ok.injEq]
  constructor
  · rintro ⟨hlen, hv⟩
    exact (Struct.unpack_eq_iff hlen v).mp hv
  · rintro ⟨hexact, hpack⟩
    have hlen := Struct.pack_length hpack
    exact ⟨hlen, (Struct.unpack_eq_iff hlen v).mpr ⟨hexact, hpack⟩⟩

/-- A parser with errors in `ε`. -/
abbrev ByteParser (ε α : Type) := StateT Bytes (Except ε) α

namespace ByteParser

variable {ε α β σ : Type}

/-- The parser takes a prefix of the input, returns the value and leaves the rest. -/
def Accepts (p : ByteParser ε α) (input : Bytes) (a : α) (rest : Bytes) : Prop :=
  p input = .ok (a, rest)

theorem accepts_iff {p : ByteParser ε α} {input rest : Bytes} {a : α} :
    p.Accepts input a rest ↔ p input = .ok (a, rest) := Iff.rfl

theorem Accepts.unique {p : ByteParser ε α} {input r r' : Bytes} {a a' : α}
    (h : p.Accepts input a r) (h' : p.Accepts input a' r') : a = a' ∧ r = r' := by
  have hpair := Except.ok.inj (h.symm.trans h')
  exact ⟨congrArg Prod.fst hpair, congrArg Prod.snd hpair⟩

@[simp] theorem accepts_pure {a b : α} {input rest : Bytes} :
    (pure a : ByteParser ε α).Accepts input b rest ↔ b = a ∧ input = rest := by
  show (.ok (a, input) : Except ε (α × Bytes)) = .ok (b, rest) ↔ _
  simp [eq_comm]

@[simp] theorem accepts_bind {p : ByteParser ε α} {f : α → ByteParser ε β} {input rest : Bytes}
    {b : β} : (p >>= f).Accepts input b rest ↔
      ∃ a mid, p.Accepts input a mid ∧ (f a).Accepts mid b rest := by
  unfold Accepts
  show Except.bind (p input) (fun r => f r.1 r.2) = _ ↔ _
  rcases p input with e | ⟨a, mid⟩
  · simp [Except.bind]
  · simp [Except.bind]

@[simp] theorem accepts_throw {e : ε} {input rest : Bytes} {a : α} :
    ¬ (throw e : ByteParser ε α).Accepts input a rest := by
  intro h
  cases h

/-- `if c: raise e` -/
def raiseIf (c : Prop) [Decidable c] (e : ε) : ByteParser ε Unit :=
  if c then throw e else pure ()

@[simp] theorem accepts_raiseIf {c : Prop} [Decidable c] {e : ε} {input rest : Bytes} {u : Unit} :
    (raiseIf c e).Accepts input u rest ↔ ¬ c ∧ input = rest := by
  unfold raiseIf
  split <;> simp [*]

/-- A computation that reads nothing. -/
def lift (x : Except ε α) : ByteParser ε α := fun input => x.map fun a => (a, input)

@[simp] theorem accepts_lift {x : Except ε α} {input rest : Bytes} {a : α} :
    (lift x).Accepts input a rest ↔ x = .ok a ∧ input = rest := by
  unfold Accepts lift
  cases x <;> simp [Except.map]

/-- The next bytes, at most `n`. -/
def read (n : ℕ) : ByteParser ε Bytes := fun input => .ok (input.take n, input.drop n)

@[simp] theorem accepts_read {n : ℕ} {input rest b : Bytes} :
    (read n : ByteParser ε Bytes).Accepts input b rest ↔
      b = input.take n ∧ rest = input.drop n := by
  simp [Accepts, read, eq_comm]

/-- The next `n` bytes; the error where fewer are left. -/
def exactly (n : ℕ) (e : ε) : ByteParser ε Bytes := do
  let data ← read n
  raiseIf (data.length ≠ n) e
  pure data

@[simp] theorem accepts_exactly {n : ℕ} {e : ε} {input rest b : Bytes} :
    (exactly n e).Accepts input b rest ↔ b.length = n ∧ input = b ++ rest := by
  simp only [exactly, accepts_bind, accepts_read, accepts_raiseIf, accepts_pure,
    not_not]
  constructor
  · rintro ⟨_, _, ⟨rfl, rfl⟩, _, _, ⟨hlen, rfl⟩, rfl, rfl⟩
    exact ⟨hlen, (List.take_append_drop n input).symm⟩
  · rintro ⟨rfl, rfl⟩
    exact ⟨b, rest, by simp, (), rest, ⟨rfl, rfl⟩, rfl, rfl⟩

/-- The next record of a layout. -/
def record (l : Struct.Layout) (e : ε) : ByteParser ε (Struct.Values l) := do
  let data ← exactly (Struct.size l) e
  pure (Struct.unpack l data)

@[simp] theorem accepts_record {l : Struct.Layout} {e : ε} {input rest : Bytes}
    {v : Struct.Values l} : (record l e).Accepts input v rest ↔
      Struct.Exact l v ∧ ∃ b, Struct.pack l v = some b ∧ input = b ++ rest := by
  simp only [record, accepts_bind, accepts_exactly, accepts_pure]
  constructor
  · rintro ⟨b, _, ⟨hlen, rfl⟩, rfl, rfl⟩
    exact ⟨Struct.exact_unpack l hlen, b, Struct.pack_unpack l hlen, rfl⟩
  · rintro ⟨hexact, b, hpack, rfl⟩
    have hlen := Struct.pack_length hpack
    exact ⟨b, rest, ⟨hlen, rfl⟩, ((Struct.unpack_eq_iff hlen v).mpr ⟨hexact, hpack⟩).symm, rfl⟩

/-! ### Loops -/

/-- `for index in range(index, index + count)` with the state the body updates. -/
def forRange (body : ℕ → σ → ByteParser ε σ) : (count index : ℕ) → σ → ByteParser ε σ
  | 0, _, state => pure state
  | count + 1, index, state => do
      let next ← body index state
      forRange body count (index + 1) next

/-- The encodings of a list, one after another; `none` where one has none. -/
def encodeAll (encode : α → Option Bytes) : List α → Option Bytes
  | [] => some []
  | a :: as =>
      match encode a, encodeAll encode as with
      | some b, some bs => some (b ++ bs)
      | _, _ => none

theorem encodeAll_cons {encode : α → Option Bytes} {a : α} {as : List α} {bytes : Bytes} :
    encodeAll encode (a :: as) = some bytes ↔
      ∃ b bs, encode a = some b ∧ encodeAll encode as = some bs ∧ bytes = b ++ bs := by
  rw [encodeAll]
  cases encode a <;> cases encodeAll encode as <;> simp [eq_comm]

/-- A list is encoded where every item is. -/
theorem encodeAll_isSome {encode : α → Option Bytes} {as : List α}
    (h : ∀ a ∈ as, ∃ b, encode a = some b) : ∃ b, encodeAll encode as = some b := by
  induction as with
  | nil => exact ⟨[], rfl⟩
  | cons a as ih =>
      rw [List.forall_mem_cons] at h
      obtain ⟨b, hb⟩ := h.1
      obtain ⟨bs, hbs⟩ := ih h.2
      exact ⟨b ++ bs, encodeAll_cons.mpr ⟨b, bs, hb, hbs, rfl⟩⟩

/-- The state after pushing items one after another from the given index. -/
def pushAll (push : ℕ → σ → α → σ) : ℕ → σ → List α → σ
  | _, state, [] => state
  | index, state, a :: as => pushAll push (index + 1) (push index state a) as

/-- Items may be pushed one after another from the given index and state. -/
def Along (ok : ℕ → σ → α → Prop) (push : ℕ → σ → α → σ) : ℕ → σ → List α → Prop
  | _, _, [] => True
  | index, state, a :: as => ok index state a ∧ Along ok push (index + 1) (push index state a) as

@[simp] theorem pushAll_nil {push : ℕ → σ → α → σ} {index : ℕ} {state : σ} :
    pushAll push index state [] = state := rfl

@[simp] theorem pushAll_cons {push : ℕ → σ → α → σ} {index : ℕ} {state : σ} {a : α}
    {as : List α} :
    pushAll push index state (a :: as) = pushAll push (index + 1) (push index state a) as := rfl

@[simp] theorem along_nil {ok : ℕ → σ → α → Prop} {push : ℕ → σ → α → σ} {index : ℕ} {state : σ} :
    Along ok push index state [] ↔ True := Iff.rfl

@[simp] theorem along_cons {ok : ℕ → σ → α → Prop} {push : ℕ → σ → α → σ} {index : ℕ} {state : σ}
    {a : α} {as : List α} : Along ok push index state (a :: as) ↔
      ok index state a ∧ Along ok push (index + 1) (push index state a) as := Iff.rfl

/-- A loop whose body accepts exactly the encodings of items that may be
pushed accepts exactly the encodings of lists of such items. -/
theorem accepts_forRange {body : ℕ → σ → ByteParser ε σ} {ok : ℕ → σ → α → Prop}
    {push : ℕ → σ → α → σ} {encode : α → Option Bytes}
    (hbody : ∀ index state input next rest, (body index state).Accepts input next rest ↔
      ∃ a b, ok index state a ∧ encode a = some b ∧ next = push index state a ∧ input = b ++ rest)
    {count index : ℕ} {state final : σ} {input rest : Bytes} :
    (forRange body count index state).Accepts input final rest ↔
      ∃ as b, as.length = count ∧ Along ok push index state as ∧ encodeAll encode as = some b ∧
        final = pushAll push index state as ∧ input = b ++ rest := by
  induction count generalizing index state input with
  | zero =>
      simp only [forRange, accepts_pure, List.length_eq_zero_iff]
      constructor
      · rintro ⟨rfl, rfl⟩
        exact ⟨[], [], rfl, trivial, rfl, rfl, rfl⟩
      · rintro ⟨_, b, rfl, _, hb, rfl, rfl⟩
        cases hb
        exact ⟨rfl, rfl⟩
  | succ count ih =>
      simp only [forRange, accepts_bind, hbody, ih]
      constructor
      · rintro ⟨_, _, ⟨a, b, hok, hb, rfl, rfl⟩, as, bs, hlen, halong, hbs, rfl, rfl⟩
        exact ⟨a :: as, b ++ bs, congrArg (· + 1) hlen, ⟨hok, halong⟩,
          encodeAll_cons.mpr ⟨b, bs, hb, hbs, rfl⟩, rfl, (List.append_assoc ..).symm⟩
      · rintro ⟨as, bytes, hlen, halong, hbytes, rfl, rfl⟩
        obtain ⟨a, as, rfl⟩ := List.exists_cons_of_length_eq_add_one hlen
        obtain ⟨b, bs, hb, hbs, rfl⟩ := encodeAll_cons.mp hbytes
        exact ⟨push index state a, bs ++ rest, ⟨a, b, halong.1, hb, rfl, List.append_assoc ..⟩,
          as, bs, Nat.succ.inj hlen, halong.2, hbs, rfl, rfl⟩

end ByteParser
