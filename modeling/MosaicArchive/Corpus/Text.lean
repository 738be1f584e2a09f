import Mathlib.Tactic
import MosaicArchive.Bytes.Utf8

/-!
Python strings, which may hold surrogates: a decoder of JSON makes them of escapes. Encoding
in UTF-8 fails on the first of them.
-/

namespace MosaicArchive.Corpus

open FixedWidth
open Utf8 (Text)

/-- A code point: a scalar value, or a surrogate given by its distance from `0xD800`. -/
inductive CodePoint where
  | scalar (c : Char)
  | surrogate (n : Fin 2048)
  deriving DecidableEq

abbrev PyText := List CodePoint

instance : LawfulBEq PyText := inferInstance

def ofText (text : Text) : PyText := text.map .scalar

/-- The text of a string literal of the source. -/
def lit (text : String) : PyText := ofText text.toList

def CodePoint.isScalar : CodePoint → Bool
  | scalar _ => true
  | surrogate _ => false

/-- `ord(character)` -/
def CodePoint.ord : CodePoint → ℕ
  | scalar c => c.toNat
  | surrogate n => 0xD800 + n.val

/-- The string holds no surrogate. -/
def isEncodable (text : PyText) : Bool := text.all CodePoint.isScalar

def encodeChar : CodePoint → Option Bytes
  | .scalar c => some (String.utf8EncodeChar c)
  | .surrogate _ => none

/-- `text.encode("utf-8")`; nothing where it raises `UnicodeEncodeError`. -/
def encodeUtf8 : PyText → Option Bytes
  | [] => some []
  | c :: text =>
      match encodeChar c, encodeUtf8 text with
      | some head, some tail => some (head ++ tail)
      | _, _ => none

theorem encodeUtf8_isSome (text : PyText) : (encodeUtf8 text).isSome = isEncodable text := by
  induction text with
  | nil => rfl
  | cons c text ih =>
      cases c with
      | surrogate n => rfl
      | scalar c =>
          have hcons : isEncodable (.scalar c :: text) = isEncodable text := rfl
          rw [hcons, ← ih, encodeUtf8, encodeChar]
          cases encodeUtf8 text <;> rfl

theorem encodeUtf8_ofText (text : Text) : encodeUtf8 (ofText text) = some (Utf8.encode text) := by
  induction text with
  | nil => rfl
  | cons c text ih =>
      show encodeUtf8 (.scalar c :: ofText text) = _
      rw [encodeUtf8, ih]
      rfl

theorem isEncodable_append (first second : PyText) :
    isEncodable (first ++ second) = (isEncodable first && isEncodable second) := List.all_append

/-- Every part of a string that is split is in the string. -/
theorem mem_of_mem_splitOn {text part : PyText} {c d : CodePoint} (hpart : part ∈ text.splitOn c)
    (hd : d ∈ part) : d ∈ text := by
  obtain ⟨i, hi⟩ := List.mem_iff_getElem?.mp hpart
  have hmem : part ∈ (text.splitOn c).intersperse [c] := by
    apply @List.mem_of_getElem? _ _ (2 * i)
    rw [List.getElem?_intersperse_two_mul, hi]
  have hjoin : [c].intercalate (text.splitOn c) = text := List.intercalate_splitOn c
  rw [← hjoin, List.intercalate]
  exact List.mem_flatten.mpr ⟨part, hmem, hd⟩

theorem isEncodable_of_mem_splitOn {text part : PyText} {c : CodePoint}
    (h : isEncodable text = true) (hpart : part ∈ text.splitOn c) : isEncodable part = true := by
  rw [isEncodable, List.all_eq_true] at h ⊢
  exact fun d hd => h d (mem_of_mem_splitOn hpart hd)

end MosaicArchive.Corpus
