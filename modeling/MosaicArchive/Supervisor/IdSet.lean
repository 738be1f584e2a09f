import MosaicArchive.Supervisor.Control
import MosaicArchive.Binding.IdSet

/-!
The identifier sets of the native supervisor (`native/binding-supervisor/src/lib.rs`).
It keeps a set as ranges, judges it component by component and compares the ranges;
the coordinator expands a set and compares its rendering. They judge alike but for
ranges that touch: the supervisor takes these for canonical.
-/

namespace MosaicArchive.Supervisor

open FixedWidth (Bytes)
open Utf8 (Text)

structure ParseControlError where
  message : String
  deriving DecidableEq, Repr

def maxControlBytes : ℕ := 64 * 1024

/-! ### Lines -/

/-- `str::is_ascii` -/
def isAscii (text : Text) : Bool := text.all fun c => c.toNat < 128

/-- `exact_lines` -/
def exactLines (bytes : Bytes) : Except ParseControlError (List Text) := do
  Except.raiseIf (bytes = [] ∨ bytes.length > maxControlBytes)
    ⟨"control text has an invalid byte length"⟩
  Except.raiseIf (bytes.getLast? ≠ some 10 ∨ 13 ∈ bytes ∨ 0 ∈ bytes)
    ⟨"control text is not exact LF-terminated text"⟩
  let body := bytes.dropLast
  Except.raiseIf (body = [] ∨ 10 ∈ body ∧ [] ∈ body.splitOn 10) ⟨"control text contains an empty line"⟩
  match Utf8.decode body with
  | none => .error ⟨"control text is not valid UTF-8"⟩
  | some text => do
      Except.raiseIf (isAscii text = false) ⟨"control text is not ASCII"⟩
      pure (text.splitOn '\n')

/-- `parse_single_line` -/
def parseSingleLine (bytes : Bytes) : Except ParseControlError Text := do
  match ← exactLines bytes with
  | [line] => pure line
  | _ => .error ⟨"control text is not exactly one line"⟩

/-! ### Numbers -/

/-- `str::parse` for an unsigned type of the given width. -/
def parseUnsigned (bits : ℕ) (value : Text) : Option ℕ :=
  let digits := if value.head? = some '+' then value.tail else value
  if digits ≠ [] ∧ digits.all Char.isDigit = true ∧ Nat.ofDigitChars 10 digits 0 < 2 ^ bits then
    some (Nat.ofDigitChars 10 digits 0)
  else none

/-- `is_canonical_unsigned` -/
def isCanonicalUnsigned (value : Text) : Bool :=
  value ≠ [] ∧ value.all Char.isDigit = true ∧ (value = ['0'] ∨ value.head? ≠ some '0') ∧
    (parseUnsigned 64 value).isSome

/-- `parse_canonical_u32` -/
def parseCanonicalU32 (value : Text) : Except ParseControlError ℕ := do
  Except.raiseIf (isCanonicalUnsigned value = false) ⟨"ID set number is not canonical unsigned text"⟩
  match parseUnsigned 32 value with
  | none => .error ⟨"ID set number exceeds u32"⟩
  | some number => pure number

/-! ### Ranges -/

/-- `str::split_once` -/
def splitOnce (separator : Char) (text : Text) : Option (Text × Text) :=
  match text.dropWhile (· ≠ separator) with
  | [] => none
  | _ :: rest => some (text.takeWhile (· ≠ separator), rest)

/-- What `parse_id_set` asks of one component. -/
def parseIdRange (component : Text) : Except ParseControlError (ℕ × ℕ) := do
  Except.raiseIf (component = []) ⟨"ID set contains an empty component"⟩
  let texts := (splitOnce '-' component).getD (component, component)
  Except.raiseIf ('-' ∈ texts.1 ∨ '-' ∈ texts.2) ⟨"ID set range has too many separators"⟩
  let start ← parseCanonicalU32 texts.1
  let stop ← parseCanonicalU32 texts.2
  Except.raiseIf (stop < start) ⟨"ID set range is descending"⟩
  Except.raiseIf (start = stop ∧ '-' ∈ component) ⟨"ID set uses a redundant singleton range"⟩
  pure (start, stop)

/-- The loop of `parse_id_set`, with the end of the range before. -/
def parseIdRanges : List Text → Option ℕ → Except ParseControlError (List (ℕ × ℕ))
  | [], _ => pure []
  | component :: rest, previousEnd => do
      let range ← parseIdRange component
      Except.raiseIf (previousEnd.any fun previous => range.1 ≤ previous)
        ⟨"ID set is not strictly ordered and disjoint"⟩
      let ranges ← parseIdRanges rest (some range.2)
      pure (range :: ranges)

/-- `parse_id_set` -/
def parseIdSet (bytes : Bytes) : Except ParseControlError (List (ℕ × ℕ)) := do
  let line ← parseSingleLine bytes
  parseIdRanges (line.splitOn ',') none

/-- `.map_err(..)` with a context -/
def withContext {α : Type} (context : String) (result : Except ParseControlError α) :
    Except SupervisorError α :=
  result.mapError fun error => ⟨context ++ ": " ++ error.message⟩

/-- `verify_id_set_equals` with what `read_control` returned. -/
def verifyIdSetEquals (observed : Except SupervisorError Bytes) (name : String) (expectedText : Text) :
    Except SupervisorError Unit := do
  let observed ← observed
  let observedRanges ← withContext ("invalid " ++ name) (parseIdSet observed)
  let expectedRanges ←
    withContext ("invalid expected " ++ name) (parseIdSet (Utf8.encode expectedText ++ [10]))
  Except.raiseIf (observedRanges ≠ expectedRanges)
    ⟨name ++ " does not match the delegated parent's effective set"⟩

example : parseIdSet (Utf8.encode "0-3,8,10-12\n".toList) = .ok [(0, 3), (8, 8), (10, 12)] := by
  decide +kernel

/-! ### What is accepted -/

theorem parseUnsigned_toDigits (bits n : ℕ) :
    parseUnsigned bits (Nat.toDigits 10 n) = if n < 2 ^ bits then some n else none := by
  have hdigit := (Decimal.canonical_toDigits n).isDigit
  have hhead : (Nat.toDigits 10 n).head? ≠ some '+' := by
    intro hplus
    have hmem := hdigit '+' (List.mem_of_head? hplus)
    cases hmem
  simp only [parseUnsigned, if_neg hhead, Nat.ofDigitChars_ten_toDigits]
  refine if_congr ?_ rfl rfl
  exact ⟨fun h => h.2.2, fun h => ⟨Nat.toDigits_ne_nil, List.all_eq_true.mpr hdigit, h⟩⟩

theorem isCanonicalUnsigned_iff {value : Text} :
    isCanonicalUnsigned value = true ↔ ∃ n, n < 2 ^ 64 ∧ value = Nat.toDigits 10 n := by
  rw [isCanonicalUnsigned, decide_eq_true_eq]
  constructor
  · rintro ⟨hne, hdigit, hleading, hparse⟩
    obtain ⟨n, rfl⟩ := Decimal.canonical_iff.mp ⟨hne, List.all_eq_true.mp hdigit, hleading⟩
    rw [parseUnsigned_toDigits] at hparse
    split at hparse
    · rename_i hlt
      exact ⟨n, hlt, rfl⟩
    · cases hparse
  · rintro ⟨n, hlt, rfl⟩
    have hcanonical := Decimal.canonical_toDigits n
    refine ⟨hcanonical.nonempty, List.all_eq_true.mpr hcanonical.isDigit, hcanonical.leading, ?_⟩
    rw [parseUnsigned_toDigits, if_pos hlt]
    rfl

/-- A number is accepted only as it is written. -/
theorem parseCanonicalU32_eq_ok {value : Text} {n : ℕ} :
    parseCanonicalU32 value = .ok n ↔ value = Nat.toDigits 10 n ∧ n < 2 ^ 32 := by
  simp only [parseCanonicalU32, Except.bind_eq_ok_iff, Except.raiseIf_eq_ok, exists_const,
    Bool.not_eq_false, isCanonicalUnsigned_iff]
  constructor
  · rintro ⟨⟨m, -, rfl⟩, h⟩
    rw [parseUnsigned_toDigits] at h
    by_cases hlt : m < 2 ^ 32
    · rw [if_pos hlt] at h
      obtain rfl := Except.ok.inj h
      exact ⟨rfl, hlt⟩
    · rw [if_neg hlt] at h
      cases h
  · rintro ⟨rfl, hlt⟩
    refine ⟨⟨n, by omega, rfl⟩, ?_⟩
    rw [parseUnsigned_toDigits, if_pos hlt]
    rfl

theorem splitOnce_eq_none {separator : Char} {text : Text} (h : separator ∉ text) :
    splitOnce separator text = none := by
  have hdrop : text.dropWhile (fun c => decide (c ≠ separator)) = [] := by
    rw [List.dropWhile_eq_nil_iff]
    intro c hc
    exact decide_eq_true (ne_of_mem_of_not_mem hc h)
  rw [splitOnce, hdrop]

theorem splitOnce_append {separator : Char} {front : Text} (h : separator ∉ front) (rest : Text) :
    splitOnce separator (front ++ separator :: rest) = some (front, rest) := by
  have hfront : ∀ c ∈ front, decide (c ≠ separator) = true := fun c hc =>
    decide_eq_true (ne_of_mem_of_not_mem hc h)
  rw [splitOnce, List.dropWhile_append_of_pos hfront, List.takeWhile_append_of_pos hfront,
    List.dropWhile_cons_of_neg (by simp), List.takeWhile_cons_of_neg (by simp), List.append_nil]

theorem exists_splitOnce {separator : Char} {text : Text} (h : separator ∈ text) :
    ∃ front rest, text = front ++ separator :: rest ∧ splitOnce separator text = some (front, rest) := by
  obtain ⟨front, rest, htext, hfront⟩ := List.eq_append_cons_of_mem h
  refine ⟨front, rest, htext, ?_⟩
  rw [htext, splitOnce_append hfront]

open Binding (formatRange)

theorem dash_not_mem_toDigits (n : ℕ) : '-' ∉ Nat.toDigits 10 n :=
  Binding.not_mem_toDigits (by decide) n

/-- A component is accepted only as the rendering of its range. -/
theorem parseIdRange_eq_ok {component : Text} {r : ℕ × ℕ} :
    parseIdRange component = .ok r ↔ component = formatRange r.1 r.2 ∧ r.1 ≤ r.2 ∧ r.2 < 2 ^ 32 := by
  obtain ⟨first, last⟩ := r
  simp only [parseIdRange, Except.bind_eq_ok_iff, Except.raiseIf_eq_ok, exists_const,
    parseCanonicalU32_eq_ok, not_or, not_and, not_lt, Binding.formatRange_eq]
  constructor
  · rintro ⟨-, hdash, start, ⟨hstart, hstartlt⟩, stop, ⟨hstop, hstoplt⟩, hle, hredundant, hreturn⟩
    obtain ⟨rfl, rfl⟩ := Prod.mk.inj (Except.ok.inj hreturn)
    refine ⟨?_, hle, hstoplt⟩
    by_cases hmem : '-' ∈ component
    · obtain ⟨front, rest, hcomponent, hsplit⟩ := exists_splitOnce hmem
      rw [hsplit] at hstart hstop
      have hne : start ≠ stop := fun hsame => hredundant hsame hmem
      rw [if_neg hne, hcomponent, show front = _ from hstart, show rest = _ from hstop]
    · rw [splitOnce_eq_none hmem] at hstart hstop
      have hsame : start = stop := by
        have hdigits : Nat.toDigits 10 start = Nat.toDigits 10 stop := hstart.symm.trans hstop
        rw [← @Nat.ofDigitChars_ten_toDigits start, hdigits, Nat.ofDigitChars_ten_toDigits]
      rw [if_pos hsame]
      exact hstart
  · rintro ⟨rfl, hle, hlt⟩
    by_cases hsame : first = last
    · subst hsame
      have hdash := dash_not_mem_toDigits first
      rw [if_pos rfl, splitOnce_eq_none hdash]
      exact ⟨Nat.toDigits_ne_nil, ⟨hdash, hdash⟩, first, ⟨rfl, hlt⟩, first, ⟨rfl, hlt⟩, le_rfl,
        fun _ => hdash, rfl⟩
    · rw [if_neg hsame, splitOnce_append (dash_not_mem_toDigits first)]
      exact ⟨by simp, ⟨dash_not_mem_toDigits first, dash_not_mem_toDigits last⟩, first,
        ⟨rfl, by omega⟩, last, ⟨rfl, hlt⟩, hle, fun h => absurd h hsame, rfl⟩

/-- Ranges are accepted when they are in order; they may touch. -/
theorem parseIdRanges_eq_ok {components : List Text} {previousEnd : Option ℕ} {rs : List (ℕ × ℕ)} :
    parseIdRanges components previousEnd = .ok rs ↔
      components = rs.map (fun r => formatRange r.1 r.2) ∧ Runs.Spaced 0 rs ∧
        (∀ r ∈ rs, r.2 < 2 ^ 32) ∧ ∀ previous ∈ previousEnd, ∀ r ∈ rs.head?, previous < r.1 := by
  induction components generalizing previousEnd rs with
  | nil =>
      constructor
      · rintro h
        cases h
        exact ⟨rfl, .nil, by simp, by simp⟩
      · rintro ⟨hmap, -⟩
        rw [List.map_eq_nil_iff.mp hmap.symm]
        rfl
  | cons component components ih =>
      simp only [parseIdRanges, Except.bind_eq_ok_iff, Except.raiseIf_eq_ok, exists_const,
        parseIdRange_eq_ok, ih]
      constructor
      · rintro ⟨r, ⟨rfl, hle, hlt⟩, hprevious, rest, ⟨rfl, hspaced, hsmall, hhead⟩, hreturn⟩
        obtain rfl := Except.ok.inj hreturn
        refine ⟨rfl, hspaced.cons hle fun s hs => hhead r.2 rfl s hs, ?_, ?_⟩
        · rw [List.forall_mem_cons]
          exact ⟨hlt, hsmall⟩
        · rintro previous hmem s hs
          cases hs
          refine not_le.mp fun hge => hprevious ((Option.any_eq_true _ _).mpr ?_)
          exact ⟨previous, hmem, decide_eq_true hge⟩
      · rintro ⟨hmap, hspaced, hsmall, hhead⟩
        cases rs with
        | nil => cases hmap
        | cons r rest =>
            obtain ⟨rfl, rfl⟩ := List.cons.inj hmap
            rw [List.forall_mem_cons] at hsmall
            refine ⟨r, ⟨rfl, hspaced.nonempty r List.mem_cons_self, hsmall.1⟩, ?_, rest, ?_, rfl⟩
            · intro hany
              obtain ⟨previous, hmem, hge⟩ := (Option.any_eq_true _ _).mp hany
              have hlt := hhead previous hmem r rfl
              exact absurd (of_decide_eq_true hge) (not_le.mpr hlt)
            · refine ⟨rfl, hspaced.tail, hsmall.2, ?_⟩
              intro previous hprevious s hs
              cases hprevious
              exact hspaced.before s (List.mem_of_head? hs)

/-! ### ASCII text -/

theorem utf8EncodeChar_ascii {c : Char} (h : c.toNat < 128) :
    String.utf8EncodeChar c = [UInt8.ofNat c.toNat] := by
  simp only [String.utf8EncodeChar, if_pos (show c.val.toNat ≤ 0x7f from Nat.le_of_lt_succ h)]
  rfl

theorem encode_ascii {text : Text} (h : ∀ c ∈ text, c.toNat < 128) :
    Utf8.encode text = text.map fun c => UInt8.ofNat c.toNat := by
  induction text with
  | nil => rfl
  | cons c text ih =>
      rw [List.forall_mem_cons] at h
      rw [Utf8.encode, List.flatMap_cons, utf8EncodeChar_ascii h.1]
      exact congrArg _ (ih h.2)

theorem mem_encode_ascii {text : Text} (h : ∀ c ∈ text, c.toNat < 128) {c : Char} (hc : c.toNat < 128) :
    UInt8.ofNat c.toNat ∈ Utf8.encode text ↔ c ∈ text := by
  rw [encode_ascii h, List.mem_map]
  constructor
  · rintro ⟨d, hd, hsame⟩
    have hvalue := congrArg UInt8.toNat hsame
    rw [UInt8.toNat_ofNat', UInt8.toNat_ofNat'] at hvalue
    have hdlt := h d hd
    have htoNat : d.toNat = c.toNat := by omega
    rwa [← Char.toNat_inj.mp htoNat]
  · intro hmem
    exact ⟨c, hmem, rfl⟩

theorem splitOn_of_not_mem {line : Text} {separator : Char} (h : separator ∉ line) :
    line.splitOn separator = [line] := by
  have hsplit : (List.intercalate [separator] [line]).splitOn separator = [line] :=
    List.splitOn_intercalate separator (by simpa using h) (by simp)
  rwa [List.intercalate_singleton] at hsplit

theorem encode_line (line : Text) : Utf8.encode (line ++ ['\n']) = Utf8.encode line ++ [10] :=
  List.flatMap_append

/-- The single line of a text that ends in a line feed is what stands before it. -/
theorem parseSingleLine_eq {text line : Text} (hlast : text.getLast? = some '\n')
    (h : parseSingleLine (Utf8.encode text) = .ok line) :
    line = text.dropLast := by
  have htext : text = text.dropLast ++ ['\n'] := (List.dropLast_append_getLast? '\n' hlast).symm
  have hencode : (Utf8.encode text).dropLast = Utf8.encode text.dropLast := by
    conv_lhs => rw [htext, encode_line]
    exact List.dropLast_concat
  simp only [parseSingleLine, exactLines, Except.bind_eq_ok_iff, Except.raiseIf_eq_ok, exists_const,
    hencode, Utf8.decode_encode] at h
  obtain ⟨lines, ⟨-, -, -, -, hlines⟩, h⟩ := h
  obtain rfl := Except.ok.inj hlines
  split at h
  · rename_i single hsingle
    obtain rfl := Except.ok.inj h
    have hjoined : List.intercalate ['\n'] (text.dropLast.splitOn '\n') = text.dropLast :=
      List.intercalate_splitOn '\n'
    rw [← hjoined, hsingle, List.intercalate_singleton]
  · cases h

theorem parseSingleLine_of_line {line : Text} (hascii : ∀ c ∈ line, c.toNat < 128) (hne : line ≠ [])
    (hlength : line.length < maxControlBytes) (hlf : '\n' ∉ line) (hcr : '\r' ∉ line)
    (hnul : '\x00' ∉ line) : parseSingleLine (Utf8.encode (line ++ ['\n'])) = .ok line := by
  have hencode := encode_line line
  have hbytes : (Utf8.encode line).length = line.length := by rw [encode_ascii hascii, List.length_map]
  have hbody : Utf8.encode line ≠ [] := by
    intro hempty
    rw [hempty] at hbytes
    exact hne (List.length_eq_zero_iff.mp hbytes.symm)
  have hlf' : (10 : UInt8) ∉ Utf8.encode line := fun hmem =>
    hlf ((mem_encode_ascii hascii (c := '\n') (by decide)).mp hmem)
  have hcr' : (13 : UInt8) ∉ Utf8.encode line := fun hmem =>
    hcr ((mem_encode_ascii hascii (c := '\r') (by decide)).mp hmem)
  have hnul' : (0 : UInt8) ∉ Utf8.encode line := fun hmem =>
    hnul ((mem_encode_ascii hascii (c := '\x00') (by decide)).mp hmem)
  have hlines : exactLines (Utf8.encode (line ++ ['\n'])) = .ok [line] := by
    have hlast : (Utf8.encode line ++ [10]).getLast? = some 10 := List.getLast?_concat
    have hbodyOf : (Utf8.encode line ++ [10]).dropLast = Utf8.encode line := List.dropLast_concat
    have hisAscii : isAscii line = true :=
      List.all_eq_true.mpr fun c hc => decide_eq_true (hascii c hc)
    simp only [exactLines, hencode, hlast, hbodyOf, Except.raiseIf, Utf8.decode_encode, bind,
      Except.bind, List.append_eq_nil_iff, List.length_append, List.length_singleton, hbytes,
      List.mem_append, List.mem_singleton, hlf', hcr', hnul', hbody, hisAscii]
    rw [if_neg (by simp; omega)]
    simp [splitOn_of_not_mem hlf]
    rfl
  rw [parseSingleLine, hlines]
  rfl

/-! ### What a text denotes -/

def IsNumeral (digits : Text) : Prop := digits ≠ [] ∧ ∀ c ∈ digits, c.isDigit = true

def valueOf (digits : Text) : ℕ := Nat.ofDigitChars 10 digits 0

/-- A component as a number or a range, however its numbers are written. -/
inductive DenotesRange : Text → ℕ × ℕ → Prop
  | single {digits : Text} : IsNumeral digits → DenotesRange digits (valueOf digits, valueOf digits)
  | range {first last : Text} : IsNumeral first → IsNumeral last →
      DenotesRange (first ++ '-' :: last) (valueOf first, valueOf last)

def Denotes (line : Text) (n : ℕ) : Prop :=
  ∃ component ∈ line.splitOn ',', ∃ r, DenotesRange component r ∧ r.1 ≤ n ∧ n ≤ r.2

/-- An ASCII text of at most 64 KiB that ends in exactly one line feed and denotes at most 65,536
identifiers below `2^32`. -/
structure Admissible (text : Text) : Prop where
  ascii : ∀ c ∈ text, c.toNat < 128
  bounded : text.length ≤ 64 * 1024
  terminated : text.getLast? = some '\n' ∧ text.dropLast.getLast? ≠ some '\n'
  denoted : ∃ ids : Finset ℕ, (∀ n, n ∈ ids ↔ Denotes text.dropLast n) ∧ ids.card ≤ 65536 ∧
    ∀ n ∈ ids, n < 2 ^ 32

theorem isNumeral_toDigits (n : ℕ) : IsNumeral (Nat.toDigits 10 n) :=
  ⟨Nat.toDigits_ne_nil, (Decimal.canonical_toDigits n).isDigit⟩

theorem valueOf_toDigits (n : ℕ) : valueOf (Nat.toDigits 10 n) = n := Nat.ofDigitChars_ten_toDigits

theorem denotesRange_formatRange (r : ℕ × ℕ) : DenotesRange (formatRange r.1 r.2) r := by
  obtain ⟨first, last⟩ := r
  rw [Binding.formatRange_eq]
  split
  · rename_i hsame
    obtain rfl : first = last := hsame
    have hsingle := DenotesRange.single (isNumeral_toDigits first)
    rwa [valueOf_toDigits] at hsingle
  · have hrange := DenotesRange.range (isNumeral_toDigits first) (isNumeral_toDigits last)
    rwa [valueOf_toDigits, valueOf_toDigits] at hrange

theorem dash_not_mem_numeral {digits : Text} (h : IsNumeral digits) : '-' ∉ digits := by
  intro hmem
  have hdash := h.2 '-' hmem
  cases hdash

/-- A component denotes one range. -/
theorem DenotesRange.eq {component : Text} {r : ℕ × ℕ} (h : DenotesRange component r) :
    r = (valueOf ((splitOnce '-' component).getD (component, component)).1,
      valueOf ((splitOnce '-' component).getD (component, component)).2) := by
  cases h with
  | single hdigits => rw [splitOnce_eq_none (dash_not_mem_numeral hdigits), Option.getD_none]
  | range hfirst hlast => rw [splitOnce_append (dash_not_mem_numeral hfirst), Option.getD_some]

/-- The numbers of ranges are what their rendering denotes. -/
theorem mem_expand_iff_denotes {line : Text} {rs : List (ℕ × ℕ)}
    (hline : line.splitOn ',' = rs.map fun r => formatRange r.1 r.2) (n : ℕ) :
    n ∈ Runs.expand rs ↔ Denotes line n := by
  rw [Runs.mem_expand, Denotes, hline]
  constructor
  · rintro ⟨r, hr, hn⟩
    exact ⟨_, List.mem_map_of_mem hr, r, denotesRange_formatRange r, hn⟩
  · rintro ⟨component, hmem, s, hs, hn⟩
    obtain ⟨r, hr, rfl⟩ := List.mem_map.mp hmem
    have hsame : s = r := hs.eq.trans (denotesRange_formatRange r).eq.symm
    rw [hsame] at hn
    exact ⟨r, hr, hn⟩

namespace Admissible

variable {text : Text} {rs : List (ℕ × ℕ)}

theorem text_eq (h : Admissible text) : text = text.dropLast ++ ['\n'] :=
  (List.dropLast_append_getLast? '\n' h.terminated.1).symm

theorem expand_length (h : Admissible text) {gap : ℕ} (hspaced : Runs.Spaced gap rs)
    (hline : text.dropLast.splitOn ',' = rs.map fun r => formatRange r.1 r.2) :
    (Runs.expand rs).length ≤ 65536 := by
  obtain ⟨ids, hids, hcard, -⟩ := h.denoted
  have hnodup : (Runs.expand rs).Nodup := (Runs.expand_sorted hspaced).imp fun hlt => hlt.ne
  have hsub : (Runs.expand rs).toFinset ⊆ ids := by
    intro n hn
    rw [hids, ← mem_expand_iff_denotes hline]
    exact List.mem_toFinset.mp hn
  have hle := Finset.card_le_card hsub
  rw [List.toFinset_card_of_nodup hnodup] at hle
  omega

theorem small (h : Admissible text)
    (hline : text.dropLast.splitOn ',' = rs.map fun r => formatRange r.1 r.2) {n : ℕ}
    (hn : n ∈ Runs.expand rs) : n < 2 ^ 32 := by
  obtain ⟨ids, hids, -, hsmall⟩ := h.denoted
  exact hsmall n ((hids n).mpr ((mem_expand_iff_denotes hline n).mp hn))

theorem line_eq (hline : text.dropLast.splitOn ',' = rs.map fun r => formatRange r.1 r.2) :
    text.dropLast = List.intercalate [','] (rs.map fun r => formatRange r.1 r.2) := by
  rw [← hline, List.intercalate_splitOn]

theorem line_ne_nil (hline : text.dropLast.splitOn ',' = rs.map fun r => formatRange r.1 r.2) :
    text.dropLast ≠ [] := by
  intro hempty
  rw [hempty] at hline
  cases rs with
  | nil => cases hline
  | cons r rs =>
      have hhead : ([] : Text) = formatRange r.1 r.2 := (List.cons.inj hline).1
      have hdenotes := denotesRange_formatRange r
      rw [← hhead] at hdenotes
      generalize hcomponent : ([] : Text) = component at hdenotes
      cases hdenotes with
      | single hdigits => exact hdigits.1 hcomponent.symm
      | range => cases List.append_eq_nil_iff.mp hcomponent.symm |>.2

/-- The supervisor accepts ranges in order. -/
theorem parseIdSet_eq_ok (h : Admissible text) :
    parseIdSet (Utf8.encode text) = .ok rs ↔
      (text.dropLast.splitOn ',' = rs.map fun r => formatRange r.1 r.2) ∧ Runs.Spaced 0 rs := by
  rw [parseIdSet, Except.bind_eq_ok_iff]
  constructor
  · rintro ⟨line, hline, hranges⟩
    obtain rfl := parseSingleLine_eq h.terminated.1 hline
    obtain ⟨hcomponents, hspaced, -⟩ := parseIdRanges_eq_ok.mp hranges
    exact ⟨hcomponents, hspaced⟩
  · rintro ⟨hline, hspaced⟩
    have hchars : ∀ c ∈ text.dropLast, Binding.isAsciiDigit c = true ∨ c = '-' ∨ c = ',' := by
      intro c hc
      rw [line_eq hline] at hc
      exact Binding.mem_components hc
    have hlength : text.length = text.dropLast.length + 1 := by
      conv_lhs => rw [h.text_eq]
      exact List.length_append
    have hsingle : parseSingleLine (Utf8.encode (text.dropLast ++ ['\n'])) = .ok text.dropLast := by
      refine parseSingleLine_of_line (fun c hc => h.ascii c (List.mem_of_mem_dropLast hc))
        (line_ne_nil hline) ?_ ?_ ?_ ?_
      · have hbounded := h.bounded
        rw [maxControlBytes]
        omega
      all_goals
        intro hmem
        rcases hchars _ hmem with hdigit | hc | hc
        · revert hdigit
          decide
        · cases hc
        · cases hc
    rw [← h.text_eq] at hsingle
    refine ⟨_, hsingle, parseIdRanges_eq_ok.mpr ⟨hline, hspaced, ?_, by simp⟩⟩
    intro r hr
    have hle := hspaced.nonempty r hr
    exact h.small hline (Runs.mem_expand.mpr ⟨r, hr, hle, le_rfl⟩)

/-- The coordinator accepts ranges with a gap between them. -/
theorem binding_parseIdSet_eq_ok (h : Admissible text) (context : String) {values : List ℕ} :
    Binding.parseIdSet (.text text) context = .ok values ↔
      ∃ rs, (text.dropLast.splitOn ',' = rs.map fun r => formatRange r.1 r.2) ∧ Runs.Spaced 1 rs ∧
        values = Runs.expand rs := by
  have hwithout : Binding.withoutNewline text = text.dropLast := if_pos h.terminated.1
  constructor
  · intro hparse
    obtain ⟨hsorted, hne, -, hformat⟩ := Binding.parseIdSet_spec hparse
    refine ⟨Runs.group values, ?_, Runs.spaced_group hsorted, (Runs.expand_group values).symm⟩
    rw [← hwithout, ← hformat, Binding.splitOn_formatIdSet hne]
  · rintro ⟨rs, hline, hspaced, rfl⟩
    have hne : Runs.expand rs ≠ [] := by
      intro hempty
      cases rs with
      | nil => exact List.splitOn_ne_nil _ _ hline
      | cons r rs =>
          have hmem : r.1 ∈ Runs.expand (r :: rs) :=
            Runs.mem_expand.mpr ⟨r, List.mem_cons_self, le_rfl, hspaced.nonempty r List.mem_cons_self⟩
          rw [hempty] at hmem
          cases hmem
    have hbytes : (Utf8.encode text).length ≤ Binding.maxControlBytes := by
      rw [encode_ascii h.ascii, List.length_map]
      exact h.bounded
    refine Binding.parseIdSet_of_format context (Runs.expand_sorted hspaced) hne
      (h.expand_length hspaced hline) ?_ hbytes ?_
    · intro n hn
      exact Binding.small_lt ((h.small hline hn).trans (by decide))
    · rw [hwithout, Binding.formatIdSet_eq, Runs.group_expand hspaced, line_eq hline]

end Admissible

theorem admissible_of_ranges {text : Text} {rs : List (ℕ × ℕ)} (hascii : isAscii text = true)
    (hbounded : text.length ≤ 64 * 1024)
    (hterminated : text.getLast? = some '\n' ∧ text.dropLast.getLast? ≠ some '\n')
    (hline : text.dropLast.splitOn ',' = rs.map fun r => formatRange r.1 r.2)
    (hlength : (Runs.expand rs).length ≤ 65536) (hsmall : ∀ r ∈ rs, r.2 < 2 ^ 32) :
    Admissible text := by
  refine ⟨fun c hc => of_decide_eq_true (List.all_eq_true.mp hascii c hc), hbounded, hterminated,
    (Runs.expand rs).toFinset, ?_, ?_, ?_⟩
  · intro n
    rw [List.mem_toFinset, mem_expand_iff_denotes hline]
  · exact (List.toFinset_card_le _).trans hlength
  · intro n hn
    obtain ⟨r, hr, -, hle⟩ := Runs.mem_expand.mp (List.mem_toFinset.mp hn)
    exact lt_of_le_of_lt hle (hsmall r hr)

/-! ### Agreement -/

/-- Both parsers judge the text alike and read the same identifiers. -/
def Agree (context : String) (text : Text) : Prop :=
  ((∃ rs, parseIdSet (Utf8.encode text) = .ok rs) ↔
      ∃ values, Binding.parseIdSet (.text text) context = .ok values) ∧
    ∀ rs values, parseIdSet (Utf8.encode text) = .ok rs →
      Binding.parseIdSet (.text text) context = .ok values → ∀ n, n ∈ Runs.expand rs ↔ n ∈ values

/-- The components are ranges in order, one of which begins right after the one before. -/
def Touching (line : Text) : Prop :=
  ∃ rs, (line.splitOn ',' = rs.map fun r => formatRange r.1 r.2) ∧ Runs.Spaced 0 rs ∧ ¬ Runs.Spaced 1 rs

theorem formatRange_map_inj {rs rs' : List (ℕ × ℕ)}
    (h : (rs.map fun r => formatRange r.1 r.2) = rs'.map fun r => formatRange r.1 r.2) : rs = rs' := by
  refine List.map_injective_iff.mpr ?_ h
  intro r r' hsame
  have hdenotes := denotesRange_formatRange r
  rw [show formatRange r.1 r.2 = formatRange r'.1 r'.2 from hsame] at hdenotes
  exact hdenotes.eq.trans (denotesRange_formatRange r').eq.symm

theorem agree_iff {text : Text} (h : Admissible text) (context : String) :
    Agree context text ↔ ¬ Touching text.dropLast := by
  constructor
  · rintro ⟨haccept, -⟩ ⟨rs, hline, hspaced, hgap⟩
    obtain ⟨values, hvalues⟩ := haccept.mp ⟨rs, h.parseIdSet_eq_ok.mpr ⟨hline, hspaced⟩⟩
    obtain ⟨rs', hline', hspaced', -⟩ := (h.binding_parseIdSet_eq_ok context).mp hvalues
    rw [formatRange_map_inj (hline.symm.trans hline')] at hgap
    exact hgap hspaced'
  · intro htouching
    refine ⟨⟨?_, ?_⟩, ?_⟩
    · rintro ⟨rs, hparse⟩
      obtain ⟨hline, hspaced⟩ := h.parseIdSet_eq_ok.mp hparse
      have hgap : Runs.Spaced 1 rs := by
        by_contra hgap
        exact htouching ⟨rs, hline, hspaced, hgap⟩
      exact ⟨_, (h.binding_parseIdSet_eq_ok context).mpr ⟨rs, hline, hgap, rfl⟩⟩
    · rintro ⟨values, hvalues⟩
      obtain ⟨rs, hline, hspaced, -⟩ := (h.binding_parseIdSet_eq_ok context).mp hvalues
      exact ⟨rs, h.parseIdSet_eq_ok.mpr ⟨hline, hspaced.mono (by omega)⟩⟩
    · intro rs values hparse hvalues n
      obtain ⟨hline, -⟩ := h.parseIdSet_eq_ok.mp hparse
      obtain ⟨rs', hline', -, rfl⟩ := (h.binding_parseIdSet_eq_ok context).mp hvalues
      rw [formatRange_map_inj (hline.symm.trans hline')]

/-- The check compares the ranges that were parsed. -/
theorem verifyIdSetEquals_eq_ok {a b : Text} {ra rb : List (ℕ × ℕ)} (hb : Admissible b)
    (ha : parseIdSet (Utf8.encode a) = .ok ra) (hrb : parseIdSet (Utf8.encode b) = .ok rb)
    (name : String) :
    verifyIdSetEquals (.ok (Utf8.encode a)) name b.dropLast = .ok () ↔ ra = rb := by
  have hbytes : Utf8.encode b.dropLast ++ [10] = Utf8.encode b := by
    conv_rhs => rw [hb.text_eq, encode_line]
  simp [verifyIdSetEquals, withContext, hbytes, ha, hrb, Except.mapError, bind, Except.bind,
    Except.raiseIf]

/-- The two parsers agree on two texts, and the equality check of the supervisor compares their sets,
exactly when no range of either begins right after the one before. -/
theorem idSets_agree_iff (context name : String) {a b : Text} (ha : Admissible a) (hb : Admissible b) :
    (Agree context a ∧ Agree context b ∧
      ∀ ra rb, parseIdSet (Utf8.encode a) = .ok ra → parseIdSet (Utf8.encode b) = .ok rb →
        (verifyIdSetEquals (.ok (Utf8.encode a)) name b.dropLast = .ok () ↔
          ∀ n, n ∈ Runs.expand ra ↔ n ∈ Runs.expand rb)) ↔
      ¬ Touching a.dropLast ∧ ¬ Touching b.dropLast := by
  rw [agree_iff ha, agree_iff hb]
  constructor
  · rintro ⟨hta, htb, -⟩
    exact ⟨hta, htb⟩
  · rintro ⟨hta, htb⟩
    refine ⟨hta, htb, ?_⟩
    intro ra rb hra hrb
    rw [verifyIdSetEquals_eq_ok hb hra hrb]
    constructor
    · rintro rfl n
      exact Iff.rfl
    · have hspaced {text : Text} {rs : List (ℕ × ℕ)} (h : Admissible text)
          (htouching : ¬ Touching text.dropLast) (hparse : parseIdSet (Utf8.encode text) = .ok rs) :
          Runs.Spaced 1 rs := by
        obtain ⟨hline, hordered⟩ := h.parseIdSet_eq_ok.mp hparse
        by_contra hgap
        exact htouching ⟨rs, hline, hordered, hgap⟩
      exact Runs.eq_of_mem_iff (hspaced ha hta hra) (hspaced hb htb hrb)

/-- Two ranges that touch are accepted by the supervisor alone. -/
theorem touching_disagree : Admissible "0,1\n".toList ∧
    parseIdSet (Utf8.encode "0,1\n".toList) = .ok [(0, 0), (1, 1)] ∧
    ¬ Agree "effective CPU" "0,1\n".toList := by
  have haccepted : parseIdSet (Utf8.encode "0,1\n".toList) = .ok [(0, 0), (1, 1)] := by decide +kernel
  refine ⟨?_, haccepted, ?_⟩
  · exact @admissible_of_ranges _ [(0, 0), (1, 1)] (by decide) (by decide) (by decide)
      (by decide +kernel) (by decide) (by decide)
  · rintro ⟨haccept, -⟩
    obtain ⟨values, hvalues⟩ := haccept.mp ⟨_, haccepted⟩
    have hrejected : (Binding.parseIdSet (.text "0,1\n".toList) "effective CPU").toOption = none := by
      decide +kernel
    rw [hvalues] at hrejected
    cases hrejected

theorem idSets_agree_iff_at_ranges :
    (Agree "effective CPU" "0-3\n".toList ∧ Agree "effective CPU" "4,6\n".toList ∧
      ∀ ra rb, parseIdSet (Utf8.encode "0-3\n".toList) = .ok ra →
        parseIdSet (Utf8.encode "4,6\n".toList) = .ok rb →
        (verifyIdSetEquals (.ok (Utf8.encode "0-3\n".toList)) "cpuset.cpus.effective"
            "4,6\n".toList.dropLast = .ok () ↔
          ∀ n, n ∈ Runs.expand ra ↔ n ∈ Runs.expand rb)) ↔
      ¬ Touching "0-3\n".toList.dropLast ∧ ¬ Touching "4,6\n".toList.dropLast :=
  idSets_agree_iff "effective CPU" "cpuset.cpus.effective"
    (@admissible_of_ranges _ [(0, 3)] (by decide) (by decide) (by decide) (by decide +kernel)
      (by decide) (by decide))
    (@admissible_of_ranges _ [(4, 4), (6, 6)] (by decide) (by decide) (by decide)
      (by decide +kernel) (by decide) (by decide))

end MosaicArchive.Supervisor
