import MosaicArchive.Bytes.EndOfInput
import MosaicArchive.Core.Decode

/-!
The decoder accepts no stream that begins with another one it accepts. Only the
footer ends the loop, and after it the decoder looks for one more byte.
-/

namespace MosaicArchive.Core

open FixedWidth Sha256 Gear IoProgram

theorem endsInput_checkedAdd (bits a b : ℕ) (e : Error) :
    EndsInput (fun _ => True) (checkedAdd bits a b e) := by
  unfold checkedAdd
  split
  · trivial
  · trivial

theorem endsInput_readExactFormat (n : ℕ) (message : String) :
    EndsInput (fun _ => True) (readExactFormat n message) := fun _ => trivial

theorem endsInput_decodeChunk (codecs : Codecs) (s : DecoderState) (d : Descriptor) :
    EndsInput (fun _ => True) (decodeChunk codecs s d) := by
  unfold decodeChunk
  split
  · apply (endsInput_readExactFormat _ _).bind
    intro payload _
    apply (endsInput_ofExcept _).bind
    intro decoded _
    trivial
  · apply (endsInput_require _).bind
    intro _ _
    apply (endsInput_ofExcept _).bind
    intro chunk _
    trivial

theorem endsInput_decodeRecords (codecs : Codecs) (ds : List Descriptor) (segment : Bytes)
    (s : DecoderState) : EndsInput (fun _ => True) (decodeRecords codecs ds segment s) := by
  induction ds generalizing segment s with
  | nil => trivial
  | cons d rest ih =>
      apply (endsInput_decodeChunk codecs s d).bind
      intro chunk _
      apply (endsInput_ofExcept _).bind
      intro history _
      apply (endsInput_checkedAdd _ _ _ _).bind
      intro offset _
      exact ih _ _

theorem endsInput_decodeSegment (codecs : Codecs) (options : DecodeOptions) (s : DecoderState)
    (encodedBytes : ℕ) :
    EndsInput (fun _ => True) (decodeSegment codecs options s encodedBytes) := by
  unfold decodeSegment
  apply (endsInput_readExactFormat _ _).bind
  intro header _
  apply (endsInput_checkedAdd _ _ _ _).bind
  intro encoded _
  apply (endsInput_require _).bind
  intro _ _
  apply (endsInput_checkedAdd _ _ _ _).bind
  intro segments _
  apply (endsInput_checkedAdd _ _ _ _).bind
  intro records _
  apply (endsInput_checkedAdd _ _ _ _).bind
  intro output _
  apply (endsInput_checkedAdd _ _ _ _).bind
  intro total _
  apply (endsInput_require _).bind
  intro _ _
  apply (endsInput_readExactFormat _ _).bind
  intro table _
  apply (endsInput_ofExcept _).bind
  intro descriptors _
  apply (endsInput_require _).bind
  intro _ _
  apply (endsInput_decodeRecords _ _ _ _).bind
  intro decoded _
  apply (endsInput_require _).bind
  intro _ _
  trivial

/-- After the footer one more byte is looked for, and found only if the input goes on. -/
theorem endsInput_decodeFooter (options : DecodeOptions) (s : DecoderState) (encodedBytes : ℕ) :
    EndsInput (fun _ => False) (decodeFooter options s encodedBytes) := by
  unfold decodeFooter
  apply (endsInput_checkedAdd _ _ _ _).bind
  intro total _
  apply (endsInput_require _).bind
  intro _ _
  apply (endsInput_readExactFormat _ _).bind
  intro footer _
  apply (endsInput_require _).bind
  intro _ _ byte hbyte
  show NeverSucceeds ((require (byte = []) _).bind _)
  rw [require, if_neg hbyte]
  exact neverSucceeds_fail _

/-- A round that goes on has not seen the end. -/
theorem endsInput_decodeRound (codecs : Codecs) (options : DecodeOptions) (s : DecoderState) :
    EndsInput (fun next => ∃ s', next = .inr s') (decodeRound codecs options s) := by
  unfold decodeRound
  apply (endsInput_readExactFormat _ _).bind
  intro tag _
  apply (endsInput_checkedAdd _ _ _ _).bind
  intro encoded _
  apply (endsInput_require _).bind
  intro _ _
  split
  · apply (endsInput_decodeFooter options s encoded).bind
    intro stats hstats
    exact hstats.elim
  · apply (endsInput_require _).bind
    intro _ _
    apply (endsInput_decodeSegment codecs options s encoded).bind
    intro s' _
    exact ⟨s', rfl⟩

theorem endsInput_decodeLoop (codecs : Codecs) (options : DecodeOptions) (rounds : ℕ)
    (s : DecoderState) : EndsInput (fun _ => False) (decodeLoop codecs options rounds s) := by
  induction rounds generalizing s with
  | zero => trivial
  | succ rounds ih =>
      rw [decodeLoop]
      apply (endsInput_decodeRound codecs options s).bind
      rintro next ⟨s', rfl⟩
      exact ih s'

theorem endsInput_decodeWithOptions (codecs : Codecs) (options : DecodeOptions) :
    EndsInput (fun _ => False) (decodeWithOptions codecs options) := by
  unfold decodeWithOptions
  apply (endsInput_require _).bind
  intro _ _
  apply (endsInput_readExactFormat _ _).bind
  intro header _
  apply (endsInput_require _).bind
  intro _ _
  exact endsInput_decodeLoop codecs options _ _

end MosaicArchive.Core
