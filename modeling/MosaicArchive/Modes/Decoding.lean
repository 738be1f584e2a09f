import MosaicArchive.Bytes.Parser
import MosaicArchive.Effects.Iteration
import MosaicArchive.Manifest.Paths

/-!
What the block decoders share: the bytes not read yet beside the output, the
exceptions that Python raises by itself, and what it means for a decoder to be
total and bounded.
-/

namespace MosaicArchive.Modes

open FixedWidth
open Manifest (PyError)

/-- `IndexError`, `KeyError`: a lookup that finds nothing. -/
def lookupError : PyError := .runtime "lookup"

/-- What a loop that does not end is given in the model. -/
def endless : PyError := .runtime "endless"

def IsFormatError (e : PyError) : Prop := ∃ message, e = .archiveFormat message

/-- The state of a decoder: the payload from its position on, and the output. -/
structure Cursor where
  rest : Bytes
  output : Bytes
  deriving DecidableEq, Repr

/-- The decoder returns a block of the expected size or raises `ArchiveFormatError`. -/
def Decodes (expectedSize : ℕ) (result : Except PyError Bytes) : Prop :=
  Iteration.Outcome (fun output => output.length = expectedSize) IsFormatError result

theorem isFormatError (message : String) : IsFormatError (.archiveFormat message) := ⟨message, rfl⟩

section

variable {σ : Type} (size : σ → ℕ) (measure : σ → ℕ) (J : σ → Prop) (expectedSize : ℕ)

/-- What a round of a decoder does, whatever the payload is: the output stays within the
expected size, which the result has, and every failure is an `ArchiveFormatError`. -/
abbrev BoundedRound (s : σ) : Except PyError (σ ⊕ Bytes) → Prop :=
  Iteration.Round (fun s => size s ≤ expectedSize ∧ J s) measure
    (fun output => output.length = expectedSize) IsFormatError s

variable {size measure J expectedSize}

/-- A loop all of whose rounds are bounded decodes, and its output never exceeds the limit. -/
theorem decodes_of_rounds {round : σ → Except PyError (σ ⊕ Bytes)}
    (hround : ∀ s, size s ≤ expectedSize → J s →
      BoundedRound size measure J expectedSize s (round s))
    {s : σ} {n : ℕ} (hs : size s ≤ expectedSize) (hj : J s) (hn : measure s < n) :
    Decodes expectedSize (Iteration.run round endless n s) ∧
      ∀ s', Iteration.Visits round s s' → size s' ≤ expectedSize ∧ J s' := by
  refine ⟨Iteration.run_outcome endless (fun s hs => hround s hs.1 hs.2) ⟨hs, hj⟩ hn, fun s' hvisits => ?_⟩
  refine hvisits.invariant (I := fun s => size s ≤ expectedSize ∧ J s) ?_ ⟨hs, hj⟩
  intro s₁ s₂ h₁ hnext
  have h := hround s₁ h₁.1 h₁.2
  rw [show round s₁ = _ from hnext] at h
  exact h.1

end

end MosaicArchive.Modes
