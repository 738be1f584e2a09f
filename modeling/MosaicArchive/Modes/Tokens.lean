import MosaicArchive.Modes.Decoding

/-!
The tokens of the two LZ modes: bytes that are new, and copies of bytes that are
already there. A copy may overlap what it writes. A list of tokens leads from
one output to another.
-/

namespace MosaicArchive.Modes

open FixedWidth
open Manifest (PyError)

inductive Token where
  | literals (bytes : Bytes)
  | copied (distance length : ℕ)
  deriving DecidableEq, Repr

/-- `output[-distance]` -/
def fromEnd (output : Bytes) (distance : ℕ) : Option UInt8 :=
  if distance = 0 then output[0]?
  else if output.length < distance then none
  else output[output.length - distance]?

/-- `output.append(output[-distance])`, as often as the length says. -/
def copyMatch (distance : ℕ) : ℕ → Bytes → Except PyError Bytes
  | 0, output => .ok output
  | length + 1, output =>
      match fromEnd output distance with
      | none => .error lookupError
      | some byte => copyMatch distance length (output ++ [byte])

/-- The distance reaches back into the output. -/
def Reaches (distance : ℕ) (output : Bytes) : Prop := 1 ≤ distance ∧ distance ≤ output.length

theorem Reaches.fromEnd {distance : ℕ} {output : Bytes} (h : Reaches distance output) :
    ∃ byte, fromEnd output distance = some byte ∧
      output[output.length - distance]? = some byte := by
  obtain ⟨hpos, hle⟩ := h
  have hlt : output.length - distance < output.length := by omega
  refine ⟨output[output.length - distance], ?_, List.getElem?_eq_getElem hlt⟩
  rw [Modes.fromEnd, if_neg (by omega), if_neg (by omega), List.getElem?_eq_getElem hlt]

theorem copyMatch_length {distance : ℕ} (length : ℕ) {output : Bytes} (h : Reaches distance output) :
    ∃ result, copyMatch distance length output = .ok result ∧
      result.length = output.length + length := by
  induction length generalizing output with
  | zero => exact ⟨output, rfl, rfl⟩
  | succ length ih =>
      obtain ⟨byte, hbyte, -⟩ := h.fromEnd
      have hnext : Reaches distance (output ++ [byte]) := ⟨h.1, by
        rw [List.length_append]
        exact h.2.trans (Nat.le_add_right _ _)⟩
      obtain ⟨result, hresult, hlength⟩ := ih hnext
      refine ⟨result, ?_, ?_⟩
      · simp only [copyMatch, hbyte, hresult]
      · rw [hlength, List.length_append, List.length_singleton]
        omega

/-- The bytes at the position repeat those a distance before it. -/
def Repeats (block : Bytes) (position distance length : ℕ) : Prop :=
  ∀ i < length, block[position + i]? = block[position + i - distance]?

/-- A copy of bytes that repeat writes the next bytes of the block. -/
theorem copyMatch_take {block : Bytes} {position distance length : ℕ} (hpos : 1 ≤ distance)
    (hle : distance ≤ position) (hlength : position + length ≤ block.length)
    (hrepeats : Repeats block position distance length) :
    copyMatch distance length (block.take position) = .ok (block.take (position + length)) := by
  induction length generalizing position with
  | zero => rfl
  | succ length ih =>
      have htake : (block.take position).length = position := by
        rw [List.length_take]
        omega
      have hbyte : block[position - distance]? = block[position]? := (hrepeats 0 (by omega)).symm
      have hlt : position < block.length := by omega
      have hlast : fromEnd (block.take position) distance = some block[position] := by
        rw [fromEnd, if_neg (by omega), htake, if_neg (by omega),
          List.getElem?_take_of_lt (by omega), hbyte, List.getElem?_eq_getElem hlt]
      have hnext : block.take position ++ [block[position]] = block.take (position + 1) := by
        rw [List.take_succ_eq_append_getElem hlt]
      have hrest := @ih (position + 1) (by omega) (by omega) fun i hi => by
        have hnext := hrepeats (i + 1) (by omega)
        rwa [show position + (i + 1) = position + 1 + i by omega] at hnext
      simp only [copyMatch, hlast, hnext, hrest]
      congr 2
      omega

/-- The tokens lead from the first output to the second, and each of them is allowed. -/
inductive Emits (Allowed : Token → Prop) : Bytes → List Token → Bytes → Prop where
  | nil {output : Bytes} : Emits Allowed output [] output
  | literals {output result bytes : Bytes} {tokens : List Token}
      (hallowed : Allowed (.literals bytes)) (h : Emits Allowed (output ++ bytes) tokens result) :
      Emits Allowed output (.literals bytes :: tokens) result
  | copied {output next result : Bytes} {distance length : ℕ} {tokens : List Token}
      (hallowed : Allowed (.copied distance length)) (hreaches : Reaches distance output)
      (hcopy : copyMatch distance length output = .ok next) (h : Emits Allowed next tokens result) :
      Emits Allowed output (.copied distance length :: tokens) result

variable {Allowed : Token → Prop}

theorem Emits.append {output middle result : Bytes} {tokens tokens' : List Token}
    (h : Emits Allowed output tokens middle) (h' : Emits Allowed middle tokens' result) :
    Emits Allowed output (tokens ++ tokens') result := by
  induction h with
  | nil => exact h'
  | literals hallowed _ ih => exact .literals hallowed (ih h')
  | copied hallowed hreaches hcopy _ ih => exact .copied hallowed hreaches hcopy (ih h')

theorem copyMatch_length_eq {distance length : ℕ} {output next : Bytes}
    (h : Reaches distance output) (hcopy : copyMatch distance length output = .ok next) :
    next.length = output.length + length := by
  obtain ⟨result, hresult, hlength⟩ := copyMatch_length length h
  rw [hcopy] at hresult
  rw [Except.ok.inj hresult, hlength]

/-- Tokens only add to the output. -/
theorem Emits.length_le {output result : Bytes} {tokens : List Token}
    (h : Emits Allowed output tokens result) : output.length ≤ result.length := by
  induction h with
  | nil => exact le_rfl
  | literals _ _ ih =>
      rw [List.length_append] at ih
      omega
  | copied _ hreaches hcopy _ ih =>
      rw [copyMatch_length_eq hreaches hcopy] at ih
      omega

end MosaicArchive.Modes
