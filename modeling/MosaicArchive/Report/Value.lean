import MosaicArchive.Bytes.Utf8
import MosaicArchive.Bytes.Parser
import Mathlib.Computability.RegularExpressions
import Mathlib.Data.List.Lex
import Mathlib.Data.Char

/-!
The values a report is made of, as `json.loads` returns them, and the checks of
single values in `mosaic_archive/competitive_report.py`. Each check returns a
value exactly under a condition that does not mention where it stands in the
report; that is only in the message.
-/

namespace MosaicArchive.Report

open Utf8 (Text encode)
open Except (raiseIf)

inductive Value where
  | null
  | bool (b : Bool)
  | int (z : ℤ)
  /-- The bits of a `float`. -/
  | float (bits : UInt64)
  | str (text : Text)
  | list (items : List Value)
  | dict (entries : List (Text × Value))

/-- The exceptions of a rejected report: `ReportValidationError` and `ValueError`. -/
inductive ReportError where
  | message (text : String)
  /-- A message that ends with a list of texts. -/
  | listing (text : String) (texts : List Text)
  /-- The keys of an object are not exact. -/
  | keys (context : String) (missing unexpected : List Text)
  /-- An exception raised from another one, with its text after a prefix. -/
  | within (context : String) (cause : ReportError)
  deriving DecidableEq, Repr

/-! ### Objects -/

abbrev Mapping := List (Text × Value)

namespace Mapping

def keys (m : Mapping) : List Text := (m.map Prod.fst).dedup

/-- `m[key]` for a key that is there. -/
def get (m : Mapping) (key : Text) : Value :=
  ((List.find? (fun entry => entry.1 = key) m).map Prod.snd).getD .null

/-- The object with another value for one key. -/
def set (m : Mapping) (key : Text) (value : Value) : Mapping := (key, value) :: m

theorem keys_nodup (m : Mapping) : m.keys.Nodup := List.nodup_dedup _

@[simp] theorem get_set_self (m : Mapping) (key : Text) (value : Value) :
    (m.set key value).get key = value := by
  simp [get, set]

theorem get_set_of_ne (m : Mapping) {key other : Text} (h : key ≠ other) (value : Value) :
    (m.set key value).get other = m.get other := by
  simp [get, set, h]

theorem mem_keys_iff {m : Mapping} {key : Text} : key ∈ m.keys ↔ ∃ value, (key, value) ∈ m := by
  simp [keys]

theorem mem_keys_of_get {m : Mapping} {key : Text} (h : m.get key ≠ .null) : key ∈ m.keys := by
  by_contra hnot
  apply h
  have hfind : List.find? (fun entry => decide (entry.1 = key)) m = none := by
    rw [List.find?_eq_none]
    rintro ⟨k, v⟩ hmem
    simp only [decide_eq_true_eq]
    rintro rfl
    exact hnot (mem_keys_iff.mpr ⟨v, hmem⟩)
  simp [get, hfind]

theorem keys_set {m : Mapping} {key : Text} (h : key ∈ m.keys) (value : Value) :
    (m.set key value).keys.toFinset = m.keys.toFinset := by
  ext k
  simp only [List.mem_toFinset, mem_keys_iff, set, List.mem_cons, Prod.mk.injEq]
  constructor
  · rintro ⟨v, ⟨rfl, rfl⟩ | hv⟩
    · exact mem_keys_iff.mp h
    · exact ⟨v, hv⟩
  · rintro ⟨v, hv⟩
    exact ⟨v, Or.inr hv⟩

/-- The items of the object. -/
def items (m : Mapping) : List (Text × Value) := m.keys.map fun key => (key, m.get key)

end Mapping

/-- `value[key]`, of a value that is an object. -/
def Value.entry (value : Value) (key : Text) : Value :=
  match value with
  | .dict entries => Mapping.get entries key
  | _ => .null

@[simp] theorem Value.entry_dict (m : Mapping) (key : Text) :
    (Value.dict m).entry key = m.get key := rfl

def requireObject (value : Value) (context : String) : Except ReportError Mapping :=
  match value with
  | .dict entries => .ok entries
  | _ => .error (.message (context ++ " must be an object"))

def sorted (texts : List Text) : List Text := texts.mergeSort (· ≤ ·)

def requireExactKeys (m : Mapping) (expected : List Text) (context : String) :
    Except ReportError Unit :=
  raiseIf (m.keys.toFinset ≠ expected.toFinset)
    (.keys context (sorted (expected.filter (· ∉ m.keys))) (sorted (m.keys.filter (· ∉ expected))))

theorem requireObject_eq_ok {value : Value} {context : String} {m : Mapping} :
    requireObject value context = .ok m ↔ value = .dict m := by
  cases value <;> simp [requireObject]

theorem requireExactKeys_eq_ok {m : Mapping} {expected : List Text} {context : String} {r : Unit} :
    requireExactKeys m expected context = .ok r ↔ m.keys.toFinset = expected.toFinset := by
  simp [requireExactKeys]

/-! ### Texts -/

def isLowerHex (c : Char) : Bool := ('0' ≤ c ∧ c ≤ '9') ∨ ('a' ≤ c ∧ c ≤ 'f')

/-- `[0-9a-f]{length}` -/
def isHexOf (length : ℕ) (text : Text) : Bool := text.length = length ∧ text.all isLowerHex

/-- `_SHA256_RE` -/
def isSha256 (text : Text) : Bool := isHexOf 64 text

def requireLiteral (value : Value) (expected : Text) (context : String) : Except ReportError Text :=
  match value with
  | .str text =>
      if text = expected then .ok text
      else .error (.message (context ++ " must equal '" ++ String.ofList expected ++ "'"))
  | _ => .error (.message (context ++ " must equal '" ++ String.ofList expected ++ "'"))

/-- The checks of a text: it matches a pattern. -/
def requireText (pattern : Text → Bool) (value : Value) (message : String) : Except ReportError Text :=
  match value with
  | .str text => if pattern text then .ok text else .error (.message message)
  | _ => .error (.message message)

def requireSha256 (value : Value) (context : String) : Except ReportError Text :=
  requireText isSha256 value (context ++ " must be a lowercase SHA-256 digest")

theorem requireLiteral_eq_ok {value : Value} {expected text : Text} {context : String} :
    requireLiteral value expected context = .ok text ↔ value = .str expected ∧ text = expected := by
  cases value with
  | str t =>
      simp only [requireLiteral, Value.str.injEq]
      split_ifs with h
      · subst h
        simp [eq_comm]
      · simp [h]
  | _ => simp [requireLiteral]

theorem requireText_eq_ok {pattern : Text → Bool} {value : Value} {message : String} {text : Text} :
    requireText pattern value message = .ok text ↔ value = .str text ∧ pattern text = true := by
  cases value with
  | str t =>
      simp only [requireText, Value.str.injEq]
      split_ifs with h
      · simp only [Except.ok.injEq]
        constructor
        · rintro rfl
          exact ⟨rfl, h⟩
        · exact And.left
      · simp only [false_iff]
        rintro ⟨rfl, hpattern⟩
        exact h hpattern
  | _ => simp [requireText]

theorem requireSha256_eq_ok {value : Value} {context : String} {text : Text} :
    requireSha256 value context = .ok text ↔ value = .str text ∧ isSha256 text = true :=
  requireText_eq_ok

/-! ### Numbers and sequences -/

def requirePositiveInteger (value : Value) (context : String) : Except ReportError ℕ :=
  match value with
  | .int z =>
      if 0 < z then .ok z.toNat
      else .error (.message (context ++ " must be a positive integer"))
  | _ => .error (.message (context ++ " must be a positive integer"))

def requireSequence (value : Value) (context : String) (length : ℕ) : Except ReportError (List Value) :=
  match value with
  | .list items =>
      if items.length = length then .ok items
      else .error (.message (context ++ " must contain exactly " ++ toString length ++ " items"))
  | _ => .error (.message (context ++ " must contain exactly " ++ toString length ++ " items"))

theorem requirePositiveInteger_eq_ok {value : Value} {context : String} {n : ℕ} :
    requirePositiveInteger value context = .ok n ↔ 0 < n ∧ value = .int n := by
  cases value with
  | int z =>
      simp only [requirePositiveInteger, Value.int.injEq]
      split_ifs with h
      · simp only [Except.ok.injEq]
        omega
      · simp only [false_iff]
        omega
  | _ => simp [requirePositiveInteger]

theorem requireSequence_eq_ok {value : Value} {context : String} {length : ℕ} {items : List Value} :
    requireSequence value context length = .ok items ↔ value = .list items ∧ items.length = length := by
  cases value with
  | list xs =>
      simp only [requireSequence, Value.list.injEq]
      split_ifs with h
      · simp only [Except.ok.injEq]
        constructor
        · rintro rfl
          exact ⟨rfl, h⟩
        · exact And.left
      · simp only [false_iff]
        rintro ⟨rfl, hlength⟩
        exact h hlength
  | _ => simp [requireSequence]

/-- `tuple(f(item) for item in items)` -/
def forAll {α β : Type} (f : α → Except ReportError β) : List α → Except ReportError (List β)
  | [] => .ok []
  | a :: as => do
      let b ← f a
      let bs ← forAll f as
      .ok (b :: bs)

theorem forAll_eq_ok {α β : Type} {f : α → Except ReportError β} {as : List α} {bs : List β} :
    forAll f as = .ok bs ↔ List.Forall₂ (fun a b => f a = .ok b) as bs := by
  induction as generalizing bs with
  | nil => simp [forAll, eq_comm]
  | cons a as ih =>
      simp only [forAll, Except.bind_eq_ok_iff, ih, List.forall₂_cons_left_iff, Except.ok.injEq]
      constructor
      · rintro ⟨b, hb, rest, hrest, rfl⟩
        exact ⟨b, rest, hb, hrest, rfl⟩
      · rintro ⟨b, rest, hb, hrest, rfl⟩
        exact ⟨b, hb, rest, hrest, rfl⟩

/-- What the results say agrees with what the items say. -/
theorem map_eq_of_forAll {α β γ : Type} {f : α → Except ReportError β} {as : List α} {bs : List β}
    {g : α → γ} {k : β → γ} (h : forAll f as = .ok bs) (hsame : ∀ a b, f a = .ok b → g a = k b) :
    as.map g = bs.map k := by
  rw [forAll_eq_ok] at h
  rw [← List.forall₂_eq_eq_eq, List.forall₂_map_left_iff, List.forall₂_map_right_iff]
  exact h.imp hsame

theorem exists_of_forall₂_right {α β : Type} {r : α → β → Prop} {as : List α} {bs : List β}
    (h : List.Forall₂ r as bs) {b : β} (hb : b ∈ bs) : ∃ a ∈ as, r a b := by
  induction h with
  | nil => simp at hb
  | cons hab hrest ih =>
      rcases List.mem_cons.mp hb with rfl | hb
      · exact ⟨_, List.mem_cons_self, hab⟩
      · obtain ⟨a, ha, hr⟩ := ih hb
        exact ⟨a, List.mem_cons_of_mem _ ha, hr⟩

theorem exists_of_forall₂_left {α β : Type} {r : α → β → Prop} {as : List α} {bs : List β}
    (h : List.Forall₂ r as bs) {a : α} (ha : a ∈ as) : ∃ b ∈ bs, r a b :=
  exists_of_forall₂_right h.flip ha

/-! ### Patterns -/

/-- One of the characters. -/
def anyOf (characters : Text) : RegularExpression Char :=
  characters.foldr (fun c pattern => .char c + pattern) 0

/-- `pattern+` -/
def oneOrMore (pattern : RegularExpression Char) : RegularExpression Char := pattern * pattern.star

def digits : Text := "0123456789".toList
def lowerLetters : Text := "abcdefghijklmnopqrstuvwxyz".toList
def upperLetters : Text := "ABCDEFGHIJKLMNOPQRSTUVWXYZ".toList

end MosaicArchive.Report
