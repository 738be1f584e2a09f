import MosaicArchive.Modes.LzRansRoundTrip
import MosaicArchive.Modes.LzSimple
import MosaicArchive.Modes.Rle

/-!
The block decoders on any payload. Each of them returns a block of the expected
size or raises `ArchiveFormatError`, and writes no more than the expected size
before that.
-/

namespace MosaicArchive.Modes

open FixedWidth
open Manifest (PyError)

/-- `RawMode.decode` -/
def RawMode.decode (payload : Bytes) (expectedSize : ℕ) : Except PyError Bytes :=
  if payload.length ≠ expectedSize then
    .error (.archiveFormat "RAW block size does not match its metadata")
  else .ok payload

theorem RawMode.decode_total (payload : Bytes) (expectedSize : ℕ) :
    Decodes expectedSize (RawMode.decode payload expectedSize) := by
  unfold RawMode.decode
  split_ifs with hsize
  · exact isFormatError _
  · exact not_not.mp hsize

/-- The six decoders are total, and none of them ever writes more than the expected size, nor
does a decoder it calls. -/
theorem block_decoders_total (payload : Bytes) (expectedSize : ℕ) :
    Decodes expectedSize (RawMode.decode payload expectedSize) ∧
    (Decodes expectedSize (RleMode.decode payload expectedSize) ∧
      ∀ s, payload.length % 2 = 0 →
        Iteration.Visits (RleMode.round expectedSize) ⟨payload, []⟩ s →
        s.output.length ≤ expectedSize) ∧
    (Decodes expectedSize (Delta8Mode.decode payload expectedSize) ∧
      (expectedSize ≠ 0 → payload ≠ [] →
        (∀ s, (payload.drop 1).length % 2 = 0 →
          Iteration.Visits (RleMode.round (expectedSize - 1)) ⟨payload.drop 1, []⟩ s →
          s.output.length ≤ expectedSize) ∧
        ∀ deltas, RleMode.decode (payload.drop 1) (expectedSize - 1) = .ok deltas →
          ∀ before output, before <+: deltas →
            Delta8Mode.appendDeltas before (payload.take 1) = .ok output →
            output.length ≤ expectedSize)) ∧
    (Decodes expectedSize (LzSimpleMode.decode payload expectedSize) ∧
      ∀ s, Iteration.Visits (LzSimpleMode.round expectedSize) ⟨payload, []⟩ s →
        s.output.length ≤ expectedSize) ∧
    (Decodes expectedSize (ByteRansMode.decode payload expectedSize) ∧
      ∀ m state rest, ByteRansMode.readHeader payload = .ok (m, state, rest) →
        ∀ s, Iteration.Visits (ByteRansMode.decodeRound m) ⟨expectedSize, state, rest, []⟩ s →
          s.output.length ≤ expectedSize) ∧
    Decodes expectedSize (LzRansMode.decode payload expectedSize) ∧
      (∀ lengths, LzRansMode.readLengths payload expectedSize = .ok lengths →
        ∀ l ∈ lengths, l.1 ≤ expectedSize ∧ ∀ encoded m state rest,
          ByteRansMode.readHeader encoded = .ok (m, state, rest) →
          ∀ s, Iteration.Visits (ByteRansMode.decodeRound m) ⟨l.1, state, rest, []⟩ s →
            s.output.length ≤ expectedSize) ∧
      ∀ s, LzRansMode.readStreams payload expectedSize = .ok s →
        (∀ stream ∈ s.toList, stream.length ≤ expectedSize) ∧
        ∀ start, LzRansMode.readTokens s = .ok start →
          ∀ s', Iteration.Visits (LzRansMode.round expectedSize) start s' →
            s'.output.length ≤ expectedSize :=
  ⟨RawMode.decode_total payload expectedSize, RleMode.decode_total payload expectedSize,
    ⟨Delta8Mode.decode_total payload expectedSize, fun hsize hpayload =>
      ⟨fun s heven hvisits =>
        ((RleMode.decode_total _ (expectedSize - 1)).2 s heven hvisits).trans (Nat.sub_le _ _),
      fun _ hdeltas _ _ hbefore houtput =>
        Delta8Mode.appendDeltas_bounded hsize hpayload hdeltas hbefore houtput⟩⟩,
    LzSimpleMode.decode_total payload expectedSize,
    ByteRansMode.decode_total payload expectedSize, LzRansMode.decode_total payload expectedSize⟩

end MosaicArchive.Modes
