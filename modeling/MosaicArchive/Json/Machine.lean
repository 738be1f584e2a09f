import Mathlib.Data.List.Basic
import Mathlib.Tactic

/-!
A left-to-right parser of JSON as a machine: what it has open, and what it may read next. It
reads the text one character at a time and stops at the first character that no JSON text can
have there. It also takes the constants `NaN`, `Infinity` and `-Infinity`, as common decoders do.
-/

namespace Json

inductive Container where
  | array
  | object
  deriving DecidableEq

/-- Where in a number the parser is. -/
inductive NumberMode where
  | minus
  | zero
  | integer
  | point
  | fraction
  | exponent
  | exponentSign
  | exponentDigits
  deriving DecidableEq

/-- What is still to come of a literal. -/
abbrev Letters := { letters : List Char // ∀ c ∈ letters, c.isAlpha = true }

/-- What the parser may read next. A string can be a key or a value. -/
inductive Mode where
  | value
  | firstElement
  | firstKey
  | key
  | colon
  | after
  | string (isKey : Bool)
  | escape (isKey : Bool)
  | hex (isKey : Bool) (left : ℕ)
  | literal (rest : Letters)
  | number (n : NumberMode)
  deriving DecidableEq

structure State where
  opened : List Container
  mode : Mode
  deriving DecidableEq

def State.start : State := ⟨[], .value⟩

/-! ### Characters -/

def isSpace (c : Char) : Bool := c == ' ' || c == '\t' || c == '\n' || c == '\r'

def isHex (c : Char) : Bool :=
  c.isDigit || ('a' ≤ c && c ≤ 'f') || ('A' ≤ c && c ≤ 'F')

def isEscape (c : Char) : Bool :=
  c == '"' || c == '\\' || c == '/' || c == 'b' || c == 'f' || c == 'n' || c == 'r' || c == 't'

/-- A character that stands for itself in a string. -/
def isPlain (c : Char) : Bool := c != '"' && c != '\\' && decide (0x20 ≤ c.toNat)

def isSign (c : Char) : Bool := c == '+' || c == '-'

def isExponent (c : Char) : Bool := c == 'e' || c == 'E'

/-! ### One character -/

/-- The number goes on with the character. -/
def NumberMode.next (n : NumberMode) (c : Char) : Option NumberMode :=
  match n with
  | .minus => if c = '0' then some .zero else if c.isDigit then some .integer else none
  | .zero => if c = '.' then some .point else if isExponent c then some .exponent else none
  | .integer => if c.isDigit then some .integer else if c = '.' then some .point
      else if isExponent c then some .exponent else none
  | .point => if c.isDigit then some .fraction else none
  | .fraction => if c.isDigit then some .fraction else if isExponent c then some .exponent else none
  | .exponent => if c.isDigit then some .exponentDigits else if isSign c then some .exponentSign
      else none
  | .exponentSign => if c.isDigit then some .exponentDigits else none
  | .exponentDigits => if c.isDigit then some .exponentDigits else none

/-- The number may end here. -/
def NumberMode.final : NumberMode → Bool
  | .zero | .integer | .fraction | .exponentDigits => true
  | .minus | .point | .exponent | .exponentSign => false

def closeContainer (opened : List Container) (container : Container) : Option State :=
  match opened with
  | [] => none
  | last :: others => if last = container then some ⟨others, .after⟩ else none

def infinity : Letters := ⟨['n', 'f', 'i', 'n', 'i', 't', 'y'], List.all_eq_true.mp rfl⟩

/-- The first character of a number. -/
def NumberMode.first (c : Char) : Option NumberMode :=
  if c = '-' then some .minus
  else if c = '0' then some .zero
  else if c.isDigit then some .integer
  else none

/-- What follows the first character of a literal. -/
def letters : Char → Option Letters
  | 't' => some ⟨['r', 'u', 'e'], List.all_eq_true.mp rfl⟩
  | 'f' => some ⟨['a', 'l', 's', 'e'], List.all_eq_true.mp rfl⟩
  | 'n' => some ⟨['u', 'l', 'l'], List.all_eq_true.mp rfl⟩
  | 'N' => some ⟨['a', 'N'], List.all_eq_true.mp rfl⟩
  | 'I' => some infinity
  | _ => none

/-- The first character of a number or a literal. -/
def startScalar (c : Char) : Option Mode :=
  ((NumberMode.first c).map Mode.number).or ((letters c).map Mode.literal)

def startValue (opened : List Container) (c : Char) : Option State :=
  if c = '"' then some ⟨opened, .string false⟩
  else if c = '[' then some ⟨.array :: opened, .firstElement⟩
  else if c = '\x7b' then some ⟨.object :: opened, .firstKey⟩
  else (startScalar c).map fun mode => ⟨opened, mode⟩

def startKey (opened : List Container) (c : Char) : Option State :=
  if c = '"' then some ⟨opened, .string true⟩ else none

def separate (opened : List Container) : Option State :=
  match opened with
  | [] => none
  | .array :: _ => some ⟨opened, .value⟩
  | .object :: _ => some ⟨opened, .key⟩

/-- The character after a value. -/
def endValue (opened : List Container) (c : Char) : Option State :=
  if isSpace c then some ⟨opened, .after⟩
  else if c = ',' then separate opened
  else if c = ']' then closeContainer opened .array
  else if c = '\x7d' then closeContainer opened .object
  else none

def afterString (isKey : Bool) : Mode := if isKey then .colon else .after

def step (s : State) (c : Char) : Option State :=
  match s.mode with
  | .value => if isSpace c then some s else startValue s.opened c
  | .firstElement => if isSpace c then some s
      else if c = ']' then closeContainer s.opened .array else startValue s.opened c
  | .firstKey => if isSpace c then some s
      else if c = '\x7d' then closeContainer s.opened .object else startKey s.opened c
  | .key => if isSpace c then some s else startKey s.opened c
  | .colon => if isSpace c then some s else if c = ':' then some ⟨s.opened, .value⟩ else none
  | .after => endValue s.opened c
  | .string isKey => if c = '"' then some ⟨s.opened, afterString isKey⟩
      else if c = '\\' then some ⟨s.opened, .escape isKey⟩
      else if isPlain c then some s else none
  | .escape isKey => if c = 'u' then some ⟨s.opened, .hex isKey 3⟩
      else if isEscape c then some ⟨s.opened, .string isKey⟩ else none
  | .hex isKey left => if isHex c then
        some ⟨s.opened, if left = 0 then .string isKey else .hex isKey (left - 1)⟩
      else none
  | .literal ⟨[], _⟩ => none
  | .literal ⟨e :: es, h⟩ => if c = e then
        some ⟨s.opened, if es = [] then .after
          else .literal ⟨es, fun c hc => h c (List.mem_cons_of_mem e hc)⟩⟩
      else none
  | .number n => match n.next c with
      | some m => some ⟨s.opened, .number m⟩
      | none => if n = .minus ∧ c = 'I' then
            some ⟨s.opened, .literal infinity⟩
          else if n.final then endValue s.opened c else none

/-- The parser on a text; no state where it stops. -/
def run (s : State) (text : List Char) : Option State := text.foldlM step s

/-- The parser may stop here at the end of the text. -/
def State.complete (s : State) : Bool :=
  s.opened.isEmpty && match s.mode with
    | .after => true
    | .number n => n.final
    | _ => false

/-! ### What a character does to the containers -/

/-- Whether the parser is inside a string, and whether it is behind a backslash there. -/
def Mode.scan : Mode → Bool × Bool
  | .string _ | .hex _ _ => (true, false)
  | .escape _ => (true, true)
  | _ => (false, false)

theorem Mode.scan_of_not_inString {mode : Mode} {escaped : Bool}
    (h : mode.scan = (false, escaped)) : mode.scan = (false, false) := by
  cases mode <;> first | rfl | cases h

/-- The characters that open or close something. -/
def isStructural (c : Char) : Bool :=
  c == '"' || c == '[' || c == ']' || c == '\x7b' || c == '\x7d'

theorem isStructural_eq_false {c : Char} {p : Char → Bool} (hc : p c = true)
    (hquote : p '"' = false) (hopen : p '[' = false) (hclose : p ']' = false)
    (hopen' : p '\x7b' = false) (hclose' : p '\x7d' = false) : isStructural c = false := by
  have hne (d : Char) (hd : p d = false) : c ≠ d := by
    rintro rfl
    simp [hc] at hd
  simp [isStructural, hne _ hquote, hne _ hopen, hne _ hclose, hne _ hopen', hne _ hclose']

theorem isStructural_of_isSpace {c : Char} (h : isSpace c = true) : isStructural c = false :=
  isStructural_eq_false h (by decide) (by decide) (by decide) (by decide) (by decide)

theorem isStructural_of_isAlpha {c : Char} (h : c.isAlpha = true) : isStructural c = false :=
  isStructural_eq_false h (by decide) (by decide) (by decide) (by decide) (by decide)

/-- What a character outside strings does: it starts a string, opens a container, closes the
last one, or does none of these. -/
inductive Outside (opened : List Container) : Char → State → Prop
  | quote {t : State} : t.opened = opened → t.mode.scan = (true, false) → Outside opened '"' t
  | opening {t : State} {c : Char} (container : Container) : (c = '[' ∨ c = '\x7b') →
      t.opened = container :: opened → t.mode.scan = (false, false) → Outside opened c t
  | closing {t : State} {c : Char} (container : Container) : (c = ']' ∨ c = '\x7d') →
      opened = container :: t.opened → t.mode.scan = (false, false) → Outside opened c t
  | other {t : State} {c : Char} : isStructural c = false → t.opened = opened →
      t.mode.scan = (false, false) → Outside opened c t

theorem closeContainer_outside {opened : List Container} {container : Container} {c : Char}
    {t : State} (hc : c = ']' ∨ c = '\x7d') (h : closeContainer opened container = some t) :
    Outside opened c t := by
  cases opened with
  | nil => simp [closeContainer] at h
  | cons last others =>
      rw [closeContainer] at h
      split at h
      · obtain rfl := Option.some.inj h
        exact .closing last hc rfl rfl
      · cases h

theorem startScalar_other {c : Char} {mode : Mode} (h : startScalar c = some mode) :
    isStructural c = false :=
  @isStructural_eq_false c (fun c => (startScalar c).isSome) (Option.isSome_of_eq_some h)
    rfl rfl rfl rfl rfl

theorem startScalar_scan {c : Char} {mode : Mode} (h : startScalar c = some mode) :
    mode.scan = (false, false) := by
  rw [startScalar, Option.or_eq_some_iff] at h
  rcases h with h | ⟨-, h⟩
  · obtain ⟨n, -, rfl⟩ := Option.map_eq_some_iff.mp h
    rfl
  · obtain ⟨rest, -, rfl⟩ := Option.map_eq_some_iff.mp h
    rfl

theorem startValue_outside {opened : List Container} {c : Char} {t : State}
    (h : startValue opened c = some t) : Outside opened c t := by
  rw [startValue] at h
  split_ifs at h with hquote harray hobject
  · obtain rfl := Option.some.inj h
    subst hquote
    exact .quote rfl rfl
  · obtain rfl := Option.some.inj h
    exact .opening .array (Or.inl harray) rfl rfl
  · obtain rfl := Option.some.inj h
    exact .opening .object (Or.inr hobject) rfl rfl
  · obtain ⟨mode, hmode, rfl⟩ := Option.map_eq_some_iff.mp h
    exact .other (startScalar_other hmode) rfl (startScalar_scan hmode)

theorem startKey_outside {opened : List Container} {c : Char} {t : State}
    (h : startKey opened c = some t) : Outside opened c t := by
  rw [startKey] at h
  split_ifs at h with hquote
  obtain rfl := Option.some.inj h
  subst hquote
  exact .quote rfl rfl

theorem separate_outside {opened : List Container} {t : State}
    (h : separate opened = some t) : Outside opened ',' t := by
  match opened, h with
  | .array :: _, h =>
      obtain rfl := Option.some.inj h
      exact .other rfl rfl rfl
  | .object :: _, h =>
      obtain rfl := Option.some.inj h
      exact .other rfl rfl rfl

theorem endValue_outside {opened : List Container} {c : Char} {t : State}
    (h : endValue opened c = some t) : Outside opened c t := by
  rw [endValue] at h
  split_ifs at h with hspace hcomma harray hobject
  · obtain rfl := Option.some.inj h
    exact .other (isStructural_of_isSpace hspace) rfl rfl
  · subst hcomma
    exact separate_outside h
  · exact closeContainer_outside (Or.inl harray) h
  · exact closeContainer_outside (Or.inr hobject) h

theorem NumberMode.next_other {n m : NumberMode} {c : Char} (h : n.next c = some m) :
    isStructural c = false := by
  apply @isStructural_eq_false c (fun c => (n.next c).isSome) (Option.isSome_of_eq_some h) <;>
    cases n <;> rfl

theorem step_outside {s t : State} {c : Char} (hs : s.mode.scan = (false, false))
    (h : step s c = some t) : Outside s.opened c t := by
  obtain ⟨opened, mode⟩ := s
  have hspace (hc : isSpace c = true) {mode : Mode} (hmode : mode.scan = (false, false)) :
      Outside opened c ⟨opened, mode⟩ := .other (isStructural_of_isSpace hc) rfl hmode
  cases mode with
  | value =>
      simp only [step] at h
      split_ifs at h with hc
      · obtain rfl := Option.some.inj h
        exact hspace hc rfl
      · exact startValue_outside h
  | firstElement =>
      simp only [step] at h
      split_ifs at h with hc hclose
      · obtain rfl := Option.some.inj h
        exact hspace hc rfl
      · exact closeContainer_outside (Or.inl hclose) h
      · exact startValue_outside h
  | firstKey =>
      simp only [step] at h
      split_ifs at h with hc hclose
      · obtain rfl := Option.some.inj h
        exact hspace hc rfl
      · exact closeContainer_outside (Or.inr hclose) h
      · exact startKey_outside h
  | key =>
      simp only [step] at h
      split_ifs at h with hc
      · obtain rfl := Option.some.inj h
        exact hspace hc rfl
      · exact startKey_outside h
  | colon =>
      simp only [step] at h
      split_ifs at h with hc hcolon
      · obtain rfl := Option.some.inj h
        exact hspace hc rfl
      · obtain rfl := Option.some.inj h
        subst hcolon
        exact .other rfl rfl rfl
  | after => exact endValue_outside h
  | string isKey => cases hs
  | escape isKey => cases hs
  | hex isKey left => cases hs
  | literal rest =>
      obtain ⟨letters, hletters⟩ := rest
      cases letters with
      | nil => cases h
      | cons e es =>
          simp only [step] at h
          split_ifs at h with hc hes
          · obtain rfl := Option.some.inj h
            exact .other (isStructural_of_isAlpha (hletters c (by simp [hc]))) rfl rfl
          · obtain rfl := Option.some.inj h
            exact .other (isStructural_of_isAlpha (hletters c (by simp [hc]))) rfl rfl
  | number n =>
      simp only [step] at h
      split at h
      · rename_i m hm
        obtain rfl := Option.some.inj h
        exact .other (NumberMode.next_other hm) rfl rfl
      · split_ifs at h with hc hfinal
        · obtain rfl := Option.some.inj h
          rw [hc.2]
          exact .other rfl rfl rfl
        · exact endValue_outside h

/-- What a character inside a string does to the flags. -/
def scanString (escaped : Bool) (c : Char) : Bool × Bool :=
  if escaped then (true, false)
  else if c = '\\' then (true, true)
  else if c = '"' then (false, false)
  else (true, false)

theorem ne_of_isHex {c : Char} (h : isHex c = true) : c ≠ '"' ∧ c ≠ '\\' := by
  constructor <;> rintro rfl <;> cases h

theorem step_inside {s t : State} {c : Char} {escaped : Bool} (hs : s.mode.scan = (true, escaped))
    (h : step s c = some t) : t.opened = s.opened ∧ t.mode.scan = scanString escaped c := by
  obtain ⟨opened, mode⟩ := s
  cases mode with
  | string isKey =>
      obtain rfl : false = escaped := congrArg Prod.snd hs
      simp only [step] at h
      split_ifs at h with hquote hback hplain
      · obtain rfl := Option.some.inj h
        subst hquote
        cases isKey <;> exact ⟨rfl, rfl⟩
      · obtain rfl := Option.some.inj h
        subst hback
        exact ⟨rfl, rfl⟩
      · obtain rfl := Option.some.inj h
        exact ⟨rfl, by simp [scanString, hquote, hback, Mode.scan]⟩
  | escape isKey =>
      obtain rfl : true = escaped := congrArg Prod.snd hs
      simp only [step] at h
      split_ifs at h with hu hescape
      · obtain rfl := Option.some.inj h
        exact ⟨rfl, rfl⟩
      · obtain rfl := Option.some.inj h
        exact ⟨rfl, rfl⟩
  | hex isKey left =>
      obtain rfl : false = escaped := congrArg Prod.snd hs
      simp only [step] at h
      by_cases hhex : isHex c = true
      · rw [if_pos hhex] at h
        obtain rfl := Option.some.inj h
        obtain ⟨hquote, hback⟩ := ne_of_isHex hhex
        have hscan : scanString false c = (true, false) := by simp [scanString, hback, hquote]
        rw [hscan]
        refine ⟨rfl, ?_⟩
        show (if left = 0 then Mode.string isKey else Mode.hex isKey (left - 1)).scan = _
        split_ifs <;> rfl
      · rw [if_neg hhex] at h
        cases h
  | _ => cases hs

end Json
