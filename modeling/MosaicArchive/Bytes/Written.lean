import MosaicArchive.Bytes.Parser

/-!
Loops of a parser whose items are encoded in terms of their place and of the state of the
loop, such as an index that is left out or a difference to the item before. `Written` is
the encoding of a list of such items.
-/

open FixedWidth

namespace ByteParser

variable {ε α σ : Type}

/-- The bytes not read yet. -/
def remaining : ByteParser ε Bytes := fun input => .ok (input, input)

@[simp] theorem accepts_remaining {input rest b : Bytes} :
    (remaining : ByteParser ε Bytes).Accepts input b rest ↔ b = input ∧ rest = input := by
  show (.ok (input, input) : Except ε (Bytes × Bytes)) = .ok (b, rest) ↔ _
  simp [eq_comm]

/-- The items are encoded one after another, from an index and a state on. -/
def Written (item : ℕ → σ → α → Bytes → Prop) (push : ℕ → σ → α → σ) :
    ℕ → σ → List α → Bytes → Prop
  | _, _, [], bytes => bytes = []
  | index, state, a :: as, bytes => ∃ b bs, item index state a b ∧
      Written item push (index + 1) (push index state a) as bs ∧ bytes = b ++ bs

variable {item : ℕ → σ → α → Bytes → Prop} {push : ℕ → σ → α → σ}

@[simp] theorem written_nil {index : ℕ} {state : σ} {bytes : Bytes} :
    Written item push index state [] bytes ↔ bytes = [] := Iff.rfl

@[simp] theorem written_cons {index : ℕ} {state : σ} {a : α} {as : List α} {bytes : Bytes} :
    Written item push index state (a :: as) bytes ↔ ∃ b bs, item index state a b ∧
      Written item push (index + 1) (push index state a) as bs ∧ bytes = b ++ bs := Iff.rfl

/-- A loop whose body accepts exactly the encodings of items accepts exactly those of lists. -/
theorem accepts_forRange_written {body : ℕ → σ → ByteParser ε σ}
    (hbody : ∀ index state input next rest, (body index state).Accepts input next rest ↔
      ∃ a b, item index state a b ∧ next = push index state a ∧ input = b ++ rest)
    {count index : ℕ} {state final : σ} {input rest : Bytes} :
    (forRange body count index state).Accepts input final rest ↔
      ∃ as b, as.length = count ∧ Written item push index state as b ∧
        final = pushAll push index state as ∧ input = b ++ rest := by
  induction count generalizing index state input with
  | zero =>
      simp only [forRange, accepts_pure, List.length_eq_zero_iff]
      constructor
      · rintro ⟨rfl, rfl⟩
        exact ⟨[], [], rfl, rfl, rfl, rfl⟩
      · rintro ⟨_, _, rfl, rfl, rfl, rfl⟩
        exact ⟨rfl, rfl⟩
  | succ count ih =>
      simp only [forRange, accepts_bind, hbody, ih]
      constructor
      · rintro ⟨_, _, ⟨a, b, hitem, rfl, rfl⟩, as, bs, hlen, hrest, rfl, rfl⟩
        exact ⟨a :: as, b ++ bs, congrArg (· + 1) hlen, ⟨b, bs, hitem, hrest, rfl⟩, rfl,
          (List.append_assoc ..).symm⟩
      · rintro ⟨as, _, hlen, hwritten, rfl, rfl⟩
        obtain ⟨a, as, rfl⟩ := List.exists_cons_of_length_eq_add_one hlen
        obtain ⟨b, bs, hitem, hrest, rfl⟩ := hwritten
        exact ⟨push index state a, bs ++ rest, ⟨a, b, hitem, rfl, List.append_assoc ..⟩, as, bs,
          Nat.succ.inj hlen, hrest, rfl, rfl⟩

/-- Lists of one length whose items are told by their encodings are told by theirs. -/
theorem encodeAll_inj {encode : α → Option Bytes} {P : α → Prop}
    (hitem : ∀ {a a' : α} {b b' rest rest' : Bytes}, P a → P a' → encode a = some b →
      encode a' = some b' → b ++ rest = b' ++ rest' → a = a' ∧ rest = rest')
    {as as' : List α} (has : ∀ a ∈ as, P a) (has' : ∀ a ∈ as', P a) (hlen : as.length = as'.length)
    {b b' rest rest' : Bytes} (hb : encodeAll encode as = some b) (hb' : encodeAll encode as' = some b')
    (h : b ++ rest = b' ++ rest') : as = as' ∧ rest = rest' := by
  induction as generalizing as' b b' with
  | nil =>
      obtain rfl := List.eq_nil_of_length_eq_zero hlen.symm
      cases hb
      cases hb'
      exact ⟨rfl, h⟩
  | cons a as ih =>
      cases as' with
      | nil => cases hlen
      | cons a' as' =>
          obtain ⟨c, cs, hc, hcs, rfl⟩ := encodeAll_cons.mp hb
          obtain ⟨c', cs', hc', hcs', rfl⟩ := encodeAll_cons.mp hb'
          rw [List.forall_mem_cons] at has has'
          rw [List.append_assoc, List.append_assoc] at h
          obtain ⟨rfl, htail⟩ := hitem has.1 has'.1 hc hc' h
          obtain ⟨rfl, hrest⟩ := ih has.2 has'.2 (Nat.succ.inj hlen) hcs hcs' htail
          exact ⟨rfl, hrest⟩

end ByteParser
