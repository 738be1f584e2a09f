import MosaicArchive.Corpus.Fields
import MosaicArchive.Json.Machine

/-!
`json.loads` with the hooks of `mosaic_archive/competitive_corpus.py`. The text is read as if
nothing were limited, and the reading notes the integer literals and the containers it meets;
the first of them beyond a limit of the interpreter is where `json.loads` raises.
-/

namespace MosaicArchive.Corpus

open Utf8 (Text)
open Json (isSpace isPlain isSign isExponent)

/-! ### Readings -/

inductive DecodeError where
  /-- `json.JSONDecodeError` -/
  | malformed
  /-- A hook raises `CorpusLockValidationError`. -/
  | hook (message : String) (values : List PyText)
  /-- Never raised: the fuel is the length of the text. -/
  | outOfFuel

/-- What the interpreter limits. -/
inductive Mark where
  /-- An integer literal is converted, with the number of its digits. -/
  | integer (digits : ℕ)
  /-- A container is entered, with the number of those that are open. -/
  | container (depth : ℕ)
  deriving DecidableEq, Repr

/-- A reading, with what it met. -/
structure Reading (α : Type) where
  marks : List Mark
  result : Except DecodeError α

namespace Reading

variable {α β : Type}

def raise (e : DecodeError) : Reading α := ⟨[], .error e⟩

def mark (m : Mark) : Reading Unit := ⟨[m], .ok ()⟩

def lift (x : Except DecodeError α) : Reading α := ⟨[], x⟩

instance : Monad Reading where
  pure a := ⟨[], .ok a⟩
  bind x f :=
    match x.result with
    | .error e => ⟨x.marks, .error e⟩
    | .ok a => ⟨x.marks ++ (f a).marks, (f a).result⟩

end Reading

def malformed {α : Type} : Reading α := .raise .malformed

/-! ### Strings -/

def hexValue (c : Char) : Option ℕ :=
  if '0' ≤ c ∧ c ≤ '9' then some (c.toNat - '0'.toNat)
  else if 'a' ≤ c ∧ c ≤ 'f' then some (c.toNat - 'a'.toNat + 10)
  else if 'A' ≤ c ∧ c ≤ 'F' then some (c.toNat - 'A'.toNat + 10)
  else none

/-- The code unit of four hexadecimal digits. -/
def unitOf (a b c d : Char) : Option ℕ := do
  let a ← hexValue a
  let b ← hexValue b
  let c ← hexValue c
  let d ← hexValue d
  some (4096 * a + 256 * b + 16 * c + d)

def codePoint (unit : ℕ) : CodePoint :=
  if h : 0xD800 ≤ unit ∧ unit < 0xE000 then .surrogate ⟨unit - 0xD800, by omega⟩
  else .scalar (Char.ofNat unit)

def unescape : Char → Option Char
  | '"' => some '"'
  | '\\' => some '\\'
  | '/' => some '/'
  | 'b' => some '\x08'
  | 'f' => some '\x0c'
  | 'n' => some '\n'
  | 'r' => some '\r'
  | 't' => some '\t'
  | _ => none

/-- The characters up to the closing quote, with the surrogates of escapes as they are. -/
def scanUnits : Text → Option (PyText × Text)
  | [] => none
  | '"' :: rest => some ([], rest)
  | '\\' :: 'u' :: a :: b :: c :: d :: rest => do
      let unit ← unitOf a b c d
      let (text, rest) ← scanUnits rest
      some (codePoint unit :: text, rest)
  | '\\' :: escape :: rest => do
      let c ← unescape escape
      let (text, rest) ← scanUnits rest
      some (.scalar c :: text, rest)
  | c :: rest =>
      if isPlain c then do
        let (text, rest) ← scanUnits rest
        some (.scalar c :: text, rest)
      else none

/-- A high surrogate and the low one after it are one character. -/
def joinSurrogates : PyText → PyText
  | .surrogate high :: .surrogate low :: rest =>
      if high.val < 1024 ∧ 1024 ≤ low.val then
        .scalar (Char.ofNat (0x10000 + 1024 * high.val + (low.val - 1024))) :: joinSurrogates rest
      else .surrogate high :: joinSurrogates (.surrogate low :: rest)
  | c :: rest => c :: joinSurrogates rest
  | [] => []

/-- A string, after its opening quote. -/
def scanString (text : Text) : Reading (PyText × Text) :=
  match scanUnits text with
  | none => malformed
  | some (units, rest) => pure (joinSurrogates units, rest)

/-! ### Numbers -/

def takeDigits (text : Text) : Text := text.takeWhile Char.isDigit

def dropDigits (text : Text) : Text := text.dropWhile Char.isDigit

def scanInteger : Text → Option (Text × Text)
  | [] => none
  | c :: rest =>
      if c = '0' then some (['0'], rest)
      else if c.isDigit then some (c :: takeDigits rest, dropDigits rest)
      else none

def scanFraction (text : Text) : Text × Text :=
  match text with
  | '.' :: rest =>
      if takeDigits rest = [] then ([], text) else ('.' :: takeDigits rest, dropDigits rest)
  | _ => ([], text)

def scanSign (text : Text) : Text × Text :=
  match text with
  | c :: rest => if isSign c then ([c], rest) else ([], text)
  | [] => ([], [])

def scanExponent (text : Text) : Text × Text :=
  match text with
  | c :: rest =>
      if isExponent c = true ∧ takeDigits (scanSign rest).2 ≠ [] then
        (c :: (scanSign rest).1 ++ takeDigits (scanSign rest).2, dropDigits (scanSign rest).2)
      else ([], text)
  | [] => ([], [])

def natOf (digits : Text) : ℕ := digits.foldl (fun n c => 10 * n + (c.toNat - '0'.toNat)) 0

/-- What `json.loads` depends on beside the text. -/
structure Decoder where
  /-- `math.isfinite(float(literal))` -/
  isFinite : Text → Bool
  /-- The containers that may be open before the interpreter raises `RecursionError`. -/
  recursionLimit : ℕ

variable (decoder : Decoder)

/-- `_parse_json_float` -/
def parseJsonFloat (literal : Text) : Except DecodeError Value :=
  if decoder.isFinite literal then .ok (.float literal)
  else .error (.hook "non-finite JSON number is forbidden: " [ofText literal])

/-- A number, after its sign. -/
def scanNumber (isNegative : Bool) (text : Text) : Reading (Value × Text) :=
  match scanInteger text with
  | none => malformed
  | some (digits, rest) => do
      let (fraction, rest) := scanFraction rest
      let (exponent, rest) := scanExponent rest
      if fraction = [] ∧ exponent = [] then do
        Reading.mark (.integer digits.length)
        pure (.int (if isNegative then -(natOf digits : ℤ) else natOf digits), rest)
      else do
        let sign := if isNegative then ['-'] else []
        let value ← Reading.lift (parseJsonFloat decoder (sign ++ digits ++ fraction ++ exponent))
        pure (value, rest)

/-! ### Values -/

def skipSpace (text : Text) : Text := text.dropWhile isSpace

/-- `_duplicate_rejecting_object`, with the keys before these. -/
def duplicateRejectingObject (keys : List PyText) :
    List (PyText × Value) → Except DecodeError (List (PyText × Value))
  | [] => .ok []
  | (key, value) :: pairs =>
      if key ∈ keys then .error (.hook "duplicate JSON key: " [key])
      else do
        let entries ← duplicateRejectingObject (key :: keys) pairs
        pure ((key, value) :: entries)

/-- `_reject_json_constant` -/
def rejectJsonConstant {α : Type} (constant : String) : Reading α :=
  .raise (.hook ("non-finite JSON constant is forbidden: " ++ constant) [])

/-- The elements of an array, the first one being next. -/
def scanElements (scan : Text → Reading (Value × Text)) : ℕ → Text → Reading (List Value × Text)
  | 0, _ => .raise .outOfFuel
  | fuel + 1, text => do
      let (value, rest) ← scan text
      match skipSpace rest with
      | ',' :: rest => do
          let (values, rest) ← scanElements scan fuel (skipSpace rest)
          pure (value :: values, rest)
      | ']' :: rest => pure ([value], rest)
      | _ => malformed

/-- The members of an object, the first key being next. -/
def scanMembers (scan : Text → Reading (Value × Text)) :
    ℕ → Text → Reading (List (PyText × Value) × Text)
  | 0, _ => .raise .outOfFuel
  | fuel + 1, text =>
      match text with
      | '"' :: rest => do
          let (key, rest) ← scanString rest
          match skipSpace rest with
          | ':' :: rest => do
              let (value, rest) ← scan (skipSpace rest)
              match skipSpace rest with
              | ',' :: rest => do
                  let (pairs, rest) ← scanMembers scan fuel (skipSpace rest)
                  pure ((key, value) :: pairs, rest)
              | '\x7d' :: rest => pure ([(key, value)], rest)
              | _ => malformed
          | _ => malformed
      | _ => malformed

/-- An array, after its bracket. -/
def scanArray (scan : Text → Reading (Value × Text)) (fuel : ℕ) (text : Text) :
    Reading (List Value × Text) :=
  match skipSpace text with
  | ']' :: rest => pure ([], rest)
  | first => scanElements scan fuel first

/-- An object, after its brace. -/
def scanObject (scan : Text → Reading (Value × Text)) (fuel : ℕ) (text : Text) :
    Reading (List (PyText × Value) × Text) :=
  match skipSpace text with
  | '\x7d' :: rest => pure ([], rest)
  | first => scanMembers scan fuel first

/-- `scan_once`, with so many containers open. -/
def scanOnce : ℕ → ℕ → Text → Reading (Value × Text)
  | 0, _, _ => .raise .outOfFuel
  | fuel + 1, depth, text =>
      match text with
      | '"' :: rest => do
          let (string, rest) ← scanString rest
          pure (.str string, rest)
      | '\x7b' :: rest => do
          Reading.mark (.container (depth + 1))
          let (pairs, rest) ← scanObject (scanOnce fuel (depth + 1)) fuel rest
          let entries ← Reading.lift (duplicateRejectingObject [] pairs)
          pure (.dict entries, rest)
      | '[' :: rest => do
          Reading.mark (.container (depth + 1))
          let (values, rest) ← scanArray (scanOnce fuel (depth + 1)) fuel rest
          pure (.list values, rest)
      | 'n' :: 'u' :: 'l' :: 'l' :: rest => pure (.null, rest)
      | 't' :: 'r' :: 'u' :: 'e' :: rest => pure (.bool true, rest)
      | 'f' :: 'a' :: 'l' :: 's' :: 'e' :: rest => pure (.bool false, rest)
      | 'N' :: 'a' :: 'N' :: _ => rejectJsonConstant "NaN"
      | 'I' :: 'n' :: 'f' :: 'i' :: 'n' :: 'i' :: 't' :: 'y' :: _ => rejectJsonConstant "Infinity"
      | '-' :: 'I' :: 'n' :: 'f' :: 'i' :: 'n' :: 'i' :: 't' :: 'y' :: _ =>
          rejectJsonConstant "-Infinity"
      | '-' :: rest => scanNumber decoder true rest
      | _ => scanNumber decoder false text

/-- The reading of a document. -/
def readDocument (text : Text) : Reading Value :=
  if text.head? = some '\ufeff' then malformed
  else do
    let (value, rest) ← scanOnce decoder (text.length + 1) 0 (skipSpace text)
    if skipSpace rest ≠ [] then malformed else pure value

/-- `sys.get_int_max_str_digits()` -/
def maxStrDigits : ℕ := 4300

/-- The exception for what is beyond a limit. -/
def Mark.error : Mark → Option LockError
  | integer digits => if maxStrDigits < digits then some .tooManyDigits else none
  | container depth => if decoder.recursionLimit < depth then some .recursion else none

def DecodeError.toLockError : DecodeError → LockError
  | malformed => .jsonDecode
  | hook message values => .validation message values
  | outOfFuel => .jsonDecode

/-- `json.loads` -/
def loads (text : Text) : Except LockError Value :=
  match (readDocument decoder text).marks.findSome? (Mark.error decoder) with
  | some e => .error e
  | none => (readDocument decoder text).result.mapError DecodeError.toLockError

/-! ### The fuel is enough -/

/-- What is left of the text is shorter than `n`, and the fuel was enough. -/
structure Consumes {α : Type} (n : ℕ) (r : Reading (α × Text)) : Prop where
  shorter : ∀ a rest, r.result = .ok (a, rest) → rest.length < n
  fueled : r.result ≠ .error .outOfFuel

section

variable {α β : Type} {n : ℕ}

theorem consumes_pure {a : α} {rest : Text} (h : rest.length < n) :
    Consumes n (pure (a, rest) : Reading (α × Text)) := by
  refine ⟨fun a' rest' h' => ?_, nofun⟩
  obtain ⟨-, rfl⟩ := Prod.mk.inj (Except.ok.inj h')
  exact h

theorem consumes_raise {e : DecodeError} (h : e ≠ .outOfFuel) :
    Consumes n (Reading.raise e : Reading (α × Text)) :=
  ⟨nofun, fun h' => h (Except.error.inj h')⟩

theorem consumes_malformed : Consumes n (malformed : Reading (α × Text)) := consumes_raise nofun

theorem consumes_bind {m : ℕ} {x : Reading (β × Text)} {f : β × Text → Reading (α × Text)}
    (hx : Consumes m x) (hf : ∀ b rest, rest.length < m → Consumes n (f (b, rest))) :
    Consumes n (x >>= f) := by
  cases hresult : x.result with
  | error e =>
      have hbind : (x >>= f).result = .error e := by simp only [bind, hresult]
      refine ⟨fun a rest h => ?_, fun h => ?_⟩
      · rw [hbind] at h
        cases h
      · rw [hbind] at h
        exact hx.fueled (by rw [hresult, Except.error.inj h])
  | ok b =>
      have hbind : (x >>= f).result = (f b).result := by simp only [bind, hresult]
      have hrest := hf b.1 b.2 (hx.shorter b.1 b.2 hresult)
      exact ⟨fun a rest h => hrest.shorter a rest (hbind.symm.trans h), fun h =>
        hrest.fueled (hbind.symm.trans h)⟩

theorem consumes_mark {m : Mark} {f : Unit → Reading (α × Text)} (hf : Consumes n (f ())) :
    Consumes n (Reading.mark m >>= f) :=
  ⟨hf.shorter, hf.fueled⟩

theorem consumes_lift {x : Except DecodeError β} {f : β → Reading (α × Text)}
    (hx : x ≠ .error .outOfFuel) (hf : ∀ b, Consumes n (f b)) :
    Consumes n (Reading.lift x >>= f) := by
  cases x with
  | error e => exact ⟨nofun, fun h => hx (by rw [Except.error.inj h])⟩
  | ok b => exact ⟨(hf b).shorter, (hf b).fueled⟩

end

theorem skipSpace_length (text : Text) : (skipSpace text).length ≤ text.length :=
  (List.dropWhile_sublist _).length_le

theorem dropDigits_length (text : Text) : (dropDigits text).length ≤ text.length :=
  (List.dropWhile_sublist _).length_le

theorem scanUnits_length {text rest : Text} {units : PyText}
    (h : scanUnits text = some (units, rest)) : rest.length < text.length := by
  induction text using scanUnits.induct generalizing units rest with
  | case1 => cases h
  | case2 rest' =>
      obtain ⟨-, rfl⟩ := Prod.mk.inj (Option.some.inj h)
      simp
  | case3 a b c d rest' ih =>
      rw [scanUnits] at h
      simp only [Option.bind_eq_bind, Option.bind_eq_some_iff, Option.some.injEq, Prod.mk.injEq,
        Prod.exists] at h
      obtain ⟨unit, -, units', rest'', hrest, -, rfl⟩ := h
      have hshorter := ih hrest
      simp only [List.length_cons]
      omega
  | case4 escape rest' hnot ih =>
      rw [scanUnits] at h
      · simp only [Option.bind_eq_bind, Option.bind_eq_some_iff, Option.some.injEq, Prod.mk.injEq,
          Prod.exists] at h
        obtain ⟨c, -, units', rest'', hrest, -, rfl⟩ := h
        have hshorter := ih hrest
        simp only [List.length_cons]
        omega
      · exact hnot
  | case5 c rest' hquote hunicode hescape hplain ih =>
      rw [scanUnits] at h
      · rw [if_pos hplain] at h
        simp only [Option.bind_eq_bind, Option.bind_eq_some_iff, Option.some.injEq, Prod.mk.injEq,
          Prod.exists] at h
        obtain ⟨units', rest'', hrest, -, rfl⟩ := h
        have hshorter := ih hrest
        simp only [List.length_cons]
        omega
      · exact hquote
      · exact hunicode
      · exact hescape
  | case6 c rest' hquote hunicode hescape hplain =>
      rw [scanUnits] at h
      · rw [if_neg hplain] at h
        cases h
      · exact hquote
      · exact hunicode
      · exact hescape

theorem consumes_scanString (text : Text) : Consumes text.length (scanString text) := by
  rw [scanString]
  split
  · exact consumes_malformed
  · rename_i units rest h
    exact consumes_pure (scanUnits_length h)

theorem scanInteger_length {text digits rest : Text} (h : scanInteger text = some (digits, rest)) :
    rest.length < text.length := by
  cases text with
  | nil => cases h
  | cons c text =>
      rw [scanInteger] at h
      have hdrop := dropDigits_length text
      split_ifs at h
      · obtain ⟨-, rfl⟩ := Prod.mk.inj (Option.some.inj h)
        simp
      · obtain ⟨-, rfl⟩ := Prod.mk.inj (Option.some.inj h)
        simp only [List.length_cons]
        omega

theorem scanFraction_length (text : Text) : (scanFraction text).2.length ≤ text.length := by
  rw [scanFraction.eq_def]
  split
  · rename_i rest
    have hdrop := dropDigits_length rest
    split_ifs
    · exact le_rfl
    · simp only [List.length_cons]
      omega
  · exact le_rfl

theorem scanSign_length (text : Text) : (scanSign text).2.length ≤ text.length := by
  rw [scanSign.eq_def]
  split
  · split_ifs
    · simp
    · exact le_rfl
  · exact le_rfl

theorem scanExponent_length (text : Text) : (scanExponent text).2.length ≤ text.length := by
  rw [scanExponent.eq_def]
  split
  · rename_i c rest
    have hdrop := dropDigits_length (scanSign rest).2
    have hsign := scanSign_length rest
    split_ifs
    · simp only [List.length_cons]
      omega
    · exact le_rfl
  · exact le_rfl

theorem parseJsonFloat_ne (literal : Text) :
    parseJsonFloat decoder literal ≠ .error .outOfFuel := by
  rw [parseJsonFloat]
  split_ifs
  · exact nofun
  · exact nofun

theorem consumes_scanNumber (isNegative : Bool) (text : Text) :
    Consumes text.length (scanNumber decoder isNegative text) := by
  rw [scanNumber.eq_def]
  split
  · exact consumes_malformed
  · rename_i digits rest hinteger
    have hrest := scanInteger_length hinteger
    have hfraction := scanFraction_length rest
    have hexponent := scanExponent_length (scanFraction rest).2
    have hshorter : (scanExponent (scanFraction rest).2).2.length < text.length := by omega
    dsimp only
    by_cases hinteger : (scanFraction rest).1 = [] ∧ (scanExponent (scanFraction rest).2).1 = []
    · rw [if_pos hinteger]
      exact consumes_mark (consumes_pure hshorter)
    · rw [if_neg hinteger]
      apply consumes_lift (parseJsonFloat_ne decoder _)
      exact fun value => consumes_pure hshorter

section

variable {scan : Text → Reading (Value × Text)} {bound : ℕ}

/-- The scan of one value reads something of every text up to a length. -/
def Scans (bound : ℕ) (scan : Text → Reading (Value × Text)) : Prop :=
  ∀ text : Text, text.length ≤ bound → Consumes text.length (scan text)

theorem Consumes.mono {α : Type} {n m : ℕ} {r : Reading (α × Text)} (h : Consumes n r)
    (hle : n ≤ m) : Consumes m r :=
  ⟨fun a rest hr => lt_of_lt_of_le (h.shorter a rest hr) hle, h.fueled⟩

theorem consumes_scanElements (hscan : Scans bound scan) (fuel : ℕ) (text : Text)
    (hbound : text.length ≤ bound) (hfuel : text.length < fuel) :
    Consumes text.length (scanElements scan fuel text) := by
  induction fuel generalizing text with
  | zero => omega
  | succ fuel ih =>
      rw [scanElements]
      apply consumes_bind (hscan text hbound)
      intro value rest hrest
      have hskip := skipSpace_length rest
      dsimp only
      split
      · rename_i next hnext
        have hcomma : (skipSpace rest).length = next.length + 1 := by rw [hnext]; rfl
        have hafter := skipSpace_length next
        apply consumes_bind (ih (skipSpace next) (by omega) (by omega))
        intro values tail htail
        have htail' : tail.length < text.length := by omega
        exact consumes_pure htail'
      · rename_i next hnext
        have hbracket : (skipSpace rest).length = next.length + 1 := by rw [hnext]; rfl
        exact consumes_pure (by omega)
      · exact consumes_malformed

theorem consumes_scanMembers (hscan : Scans bound scan) (fuel : ℕ) (text : Text)
    (hbound : text.length ≤ bound) (hfuel : text.length < fuel) :
    Consumes text.length (scanMembers scan fuel text) := by
  induction fuel generalizing text with
  | zero => omega
  | succ fuel ih =>
      rw [scanMembers.eq_def]
      dsimp only
      split
      · rename_i first
        rw [List.length_cons] at hbound hfuel ⊢
        apply consumes_bind (consumes_scanString first)
        intro key rest hrest
        have hskip := skipSpace_length rest
        dsimp only
        split
        · rename_i second hsecond
          have hcolon : (skipSpace rest).length = second.length + 1 := by rw [hsecond]; rfl
          have hafter := skipSpace_length second
          apply consumes_bind (hscan (skipSpace second) (by omega))
          intro value tail htail
          have htailSkip := skipSpace_length tail
          dsimp only
          split
          · rename_i next hnext
            have hcomma : (skipSpace tail).length = next.length + 1 := by rw [hnext]; rfl
            have hnextSkip := skipSpace_length next
            apply consumes_bind (ih (skipSpace next) (by omega) (by omega))
            intro pairs left hleft
            have hleft' : left.length < first.length + 1 := by omega
            exact consumes_pure hleft'
          · rename_i next hnext
            have hbrace : (skipSpace tail).length = next.length + 1 := by rw [hnext]; rfl
            exact consumes_pure (by omega)
          · exact consumes_malformed
        · exact consumes_malformed
      · exact consumes_malformed

theorem consumes_scanArray (hscan : Scans bound scan) (fuel : ℕ) (text : Text)
    (hbound : text.length ≤ bound) (hfuel : text.length < fuel) :
    Consumes (text.length + 1) (scanArray scan fuel text) := by
  have hskip := skipSpace_length text
  rw [scanArray.eq_def]
  split
  · rename_i rest hrest
    have hbracket : (skipSpace text).length = rest.length + 1 := by rw [hrest]; rfl
    exact consumes_pure (by omega)
  · exact (consumes_scanElements hscan fuel _ (by omega) (by omega)).mono (by omega)

theorem consumes_scanObject (hscan : Scans bound scan) (fuel : ℕ) (text : Text)
    (hbound : text.length ≤ bound) (hfuel : text.length < fuel) :
    Consumes (text.length + 1) (scanObject scan fuel text) := by
  have hskip := skipSpace_length text
  rw [scanObject.eq_def]
  split
  · rename_i rest hrest
    have hbrace : (skipSpace text).length = rest.length + 1 := by rw [hrest]; rfl
    exact consumes_pure (by omega)
  · exact (consumes_scanMembers hscan fuel _ (by omega) (by omega)).mono (by omega)

end

theorem duplicateRejectingObject_ne (keys : List PyText) (pairs : List (PyText × Value)) :
    duplicateRejectingObject keys pairs ≠ .error .outOfFuel := by
  induction pairs generalizing keys with
  | nil => exact nofun
  | cons pair pairs ih =>
      obtain ⟨key, value⟩ := pair
      rw [duplicateRejectingObject]
      split_ifs
      · exact nofun
      · cases hrest : duplicateRejectingObject (key :: keys) pairs with
        | error e =>
            intro h
            exact ih (key :: keys) (hrest.trans h)
        | ok entries => exact nofun

/-- A value is read with as much fuel as the text is long. -/
theorem consumes_scanOnce (fuel depth : ℕ) (text : Text) (hfuel : text.length < fuel) :
    Consumes text.length (scanOnce decoder fuel depth text) := by
  induction fuel generalizing depth text with
  | zero => omega
  | succ fuel ih =>
      have hscan : ∀ rest : Text, rest.length < fuel →
          Scans rest.length (scanOnce decoder fuel (depth + 1)) :=
        fun rest hrest next hnext => ih (depth + 1) next (by omega)
      rw [scanOnce.eq_def]
      dsimp only
      split
      · rename_i rest
        apply consumes_bind ((consumes_scanString rest).mono (Nat.le_succ _))
        exact fun string tail htail => consumes_pure htail
      · rename_i rest
        have hrest : rest.length < fuel := by simpa using hfuel
        apply consumes_mark
        apply consumes_bind (consumes_scanObject (hscan rest hrest) fuel rest le_rfl hrest)
        intro pairs tail htail
        apply consumes_lift (duplicateRejectingObject_ne [] pairs)
        exact fun entries => consumes_pure htail
      · rename_i rest
        have hrest : rest.length < fuel := by simpa using hfuel
        apply consumes_mark
        apply consumes_bind (consumes_scanArray (hscan rest hrest) fuel rest le_rfl hrest)
        exact fun values tail htail => consumes_pure htail
      · exact consumes_pure (by simp only [List.length_cons]; omega)
      · exact consumes_pure (by simp only [List.length_cons]; omega)
      · exact consumes_pure (by simp only [List.length_cons]; omega)
      · exact consumes_raise nofun
      · exact consumes_raise nofun
      · exact consumes_raise nofun
      · rename_i rest hinfinity
        exact (consumes_scanNumber decoder true rest).mono (Nat.le_succ _)
      · exact consumes_scanNumber decoder false text

/-- The fuel of a document is enough. -/
theorem readDocument_fueled (text : Text) :
    (readDocument decoder text).result ≠ .error .outOfFuel := by
  have hskip := skipSpace_length text
  have hvalue := consumes_scanOnce decoder (text.length + 1) 0 (skipSpace text) (by omega)
  rw [readDocument]
  split_ifs
  · exact nofun
  · cases hresult : (scanOnce decoder (text.length + 1) 0 (skipSpace text)).result with
    | error e =>
        simp only [bind, hresult]
        exact fun h => hvalue.fueled (by rw [hresult, Except.error.inj h])
    | ok b =>
        simp only [bind, hresult]
        split_ifs
        · exact nofun
        · exact nofun

end MosaicArchive.Corpus
