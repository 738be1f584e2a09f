import MosaicArchive.Binding.World
import MosaicArchive.Bytes.Parser

/-!
The text of cgroup control files: canonical single lines, sets of CPU and
memory-node identifiers, `cgroup.events` and the member list of `cgroup.procs`.
-/

namespace MosaicArchive.Binding

open Utf8 (Text)

def maxControlBytes : ℕ := 64 * 1024
def maxCpusetItems : ℕ := 65536

/-- The number of digits `int` and `str` convert (`sys.set_int_max_str_digits`). -/
def maxStrDigits : ℕ := 4300

def isAsciiDigit (c : Char) : Bool := '0' ≤ c ∧ c ≤ '9'

def digitsToNat (digits : Text) : ℕ :=
  digits.foldl (fun n c => 10 * n + (c.toNat - '0'.toNat)) 0

/-- `int(text)` on ASCII digits -/
def intOfDigits (digits : Text) : Except Raised ℕ :=
  if digits.length > maxStrDigits then
    .error (valueError ("Exceeds the limit (4300 digits) for integer string conversion: value has " ++
      toString digits.length ++ " digits; use sys.set_int_max_str_digits() to increase the limit"))
  else .ok (digitsToNat digits)

/-- `str(number)` -/
def strOfInt (number : ℕ) : Except Raised Text :=
  let digits := (toString number).toList
  if digits.length > maxStrDigits then
    .error (valueError ("Exceeds the limit (4300 digits) for integer string conversion; " ++
      "use sys.set_int_max_str_digits() to increase the limit"))
  else .ok digits

/-- `_POSITIVE_INTEGER_RE.fullmatch` -/
def isPositiveInteger : Text → Bool
  | [] => false
  | c :: rest => '1' ≤ c ∧ c ≤ '9' ∧ rest.all isAsciiDigit

/-! ### Lines -/

def lineBoundaries : List Char :=
  ['\n', '\r', '\x0b', '\x0c', '\x1c', '\x1d', '\x1e', '\u0085', '\u2028', '\u2029']

/-- `str.splitlines`, with the characters of the current line. -/
def splitLinesFrom (line : Text) : Text → List Text
  | [] => if line = [] then [] else [line]
  | '\r' :: '\n' :: rest => line :: splitLinesFrom [] rest
  | c :: rest =>
      if c ∈ lineBoundaries then line :: splitLinesFrom [] rest
      else splitLinesFrom (line ++ [c]) rest

def splitLines (text : Text) : List Text := splitLinesFrom [] text

/-- `_single_line` -/
def singleLine (reply : ReadReply) (context : String) : Except Raised Text :=
  match reply with
  | .other => .error (hostError (context ++ " did not return text"))
  | .surrogates message => .error ⟨.other "UnicodeEncodeError" true, message, []⟩
  | .text value => do
      Except.raiseIf ((Utf8.encode value).length > maxControlBytes)
        (hostError (context ++ " exceeds the bounded read limit"))
      let value := if value.getLast? = some '\n' then value.dropLast else value
      Except.raiseIf ('\n' ∈ value ∨ '\r' ∈ value ∨ '\x00' ∈ value)
        (hostError (context ++ " is not canonical single-line text"))
      pure value

/-- `_control_scalar` -/
def controlScalar (reply : ReadReply) (filename : String) : Except Raised Text :=
  singleLine reply filename

/-! ### Identifier sets -/

/-- `_CPUSET_COMPONENT_RE.fullmatch`, with its two groups. -/
def matchCpusetComponent (component : Text) : Option (Text × Option Text) :=
  let first := component.takeWhile isAsciiDigit
  if first = [] then none
  else
    match component.dropWhile isAsciiDigit with
    | [] => some (first, none)
    | '-' :: second => if second ≠ [] ∧ second.all isAsciiDigit then some (first, some second) else none
    | _ => none

/-- The loop of `_parse_id_set` over the components. -/
def parseIdComponents (context : String) : List Text → List ℕ → Except Raised (List ℕ)
  | [], result => pure result
  | component :: rest, result =>
      match matchCpusetComponent component with
      | none => .error (hostError (context ++ " set is malformed"))
      | some (first, second) => do
          let start ← intOfDigits first
          let stop ← intOfDigits (second.getD first)
          Except.raiseIf (start > stop) (hostError (context ++ " range is descending"))
          let count := stop - start + 1
          Except.raiseIf (count > maxCpusetItems ∨ result.length + count > maxCpusetItems)
            (hostError (context ++ " set exceeds the supported bound"))
          parseIdComponents context rest (result ++ List.range' start count)

def formatRange (start previous : ℕ) : Text :=
  if start = previous then (toString start).toList
  else (toString start).toList ++ '-' :: (toString previous).toList

def formatRanges (start previous : ℕ) : List ℕ → List Text
  | [] => [formatRange start previous]
  | value :: values =>
      if value = previous + 1 then formatRanges start value values
      else formatRange start previous :: formatRanges value value values

/-- `_format_id_set` -/
def formatIdSet : List ℕ → Text
  | [] => []
  | value :: values => List.intercalate [','] (formatRanges value value values)

/-- `_parse_id_set` -/
def parseIdSet (reply : ReadReply) (context : String) : Except Raised (List ℕ) := do
  let text ← singleLine reply context
  Except.raiseIf (text = []) (hostError (context ++ " set is empty"))
  let parsed ← parseIdComponents context (text.splitOn ',') []
  Except.raiseIf (parsed.dedup.insertionSort (· ≤ ·) ≠ parsed ∨ formatIdSet parsed ≠ text)
    (hostError (context ++ " set is not canonical"))
  pure parsed

/-- The check of `_verify_effective_id_set` on what was read. -/
def checkEffectiveIdSet (reply : ReadReply) (expected : List ℕ) (context : String) :
    Except Raised Unit := do
  let actual ← parseIdSet reply context
  Except.raiseIf (actual ≠ expected)
    (hostError (context ++ " effective-set mismatch: expected '" ++ String.ofList (formatIdSet expected) ++
      "', observed '" ++ String.ofList (formatIdSet actual) ++ "'"))

/-! ### Events and members -/

/-- The loop over the lines of `cgroup.events`. -/
def populatedOfLines : List Text → Option Bool → Except Raised (Option Bool)
  | [], populated => pure populated
  | line :: rest, populated =>
      match line.splitOn ' ' with
      | [key, value] => do
          Except.raiseIf (key = [] ∨ ¬ (value = ['0'] ∨ value = ['1']))
            (hostError "cgroup.events is malformed")
          if key = "populated".toList then do
            Except.raiseIf (populated ≠ none) (hostError "cgroup.events repeats populated")
            populatedOfLines rest (some (value = ['1']))
          else
            populatedOfLines rest populated
      | _ => .error (hostError "cgroup.events is malformed")

/-- What `_is_populated` makes of the text it read. -/
def populatedOf (reply : ReadReply) : Except Raised Bool :=
  match reply with
  | .other => .error (hostError "cgroup.events is not bounded text")
  | .surrogates message => .error ⟨.other "UnicodeEncodeError" true, message, []⟩
  | .text value => do
      Except.raiseIf ((Utf8.encode value).length > maxControlBytes)
        (hostError "cgroup.events is not bounded text")
      match ← populatedOfLines (splitLines value) none with
      | none => .error (hostError "cgroup.events does not report populated")
      | some populated => pure populated

/-- The members listed in `cgroup.procs`. -/
def membersOfLines : List Text → Except Raised (List ℕ)
  | [] => pure []
  | line :: rest => do
      Except.raiseIf (isPositiveInteger line = false)
        (hostError "cgroup.procs membership readback is malformed")
      let member ← intOfDigits line
      let members ← membersOfLines rest
      pure (member :: members)

def membersOf (reply : ReadReply) : Except Raised (List ℕ) :=
  match reply with
  | .other => .error ⟨.attributeError, "object has no attribute 'splitlines'", []⟩
  | .surrogates _ => .error (hostError "cgroup.procs membership readback is malformed")
  | .text value => membersOfLines (splitLines value)

/-- `_MAX_SIGNED_64` -/
def maxSigned64 : ℕ := 2 ^ 63 - 1

/-- The checks of `read_memory_peak_bytes` on the scalar it read. -/
def peakOf (value : Text) : Except Raised ℕ := do
  Except.raiseIf (isPositiveInteger value = false)
    (hostError "memory.peak is not a canonical positive integer")
  let result ← intOfDigits value
  Except.raiseIf (result > maxSigned64) (hostError "memory.peak exceeds the signed 64-bit bound")
  pure result

example : parseIdSet (.text "0-2,4\n".toList) "child CPU" = .ok [0, 1, 2, 4] := by decide +kernel

end MosaicArchive.Binding
