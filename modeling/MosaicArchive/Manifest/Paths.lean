import MosaicArchive.Bytes.Utf8

/-!
Portable archive paths (`mosaic_archive/paths.py`) and the exceptions of the
Python package. Unicode normalisation and case mappings are those of the
running interpreter, so they are a parameter of the model.
-/

namespace MosaicArchive.Manifest

open FixedWidth Utf8

/-- The exceptions the package raises, with their messages. -/
inductive PyError where
  /-- `ValueError` -/
  | value (message : String)
  /-- `OSError` -/
  | os (message : String)
  /-- `struct.error` -/
  | struct
  /-- `ZeroDivisionError` -/
  | zeroDivision
  /-- `MemoryError` and other failures of the interpreter or of a library -/
  | runtime (message : String)
  | archiveFormat (message : String)
  | unsupportedVersion (message : String)
  | authentication (message : String)
  | integrity (message : String)
  deriving DecidableEq, Repr

/-- The Unicode functions of the interpreter: `unicodedata.normalize("NFC", s)`,
`s.casefold()` and `s.upper()`. -/
structure Unicode where
  nfc : Text → Text
  casefold : Text → Text
  upper : Text → Text

/-- What these functions do on ASCII text. -/
def asciiUnicode : Unicode where
  nfc := id
  casefold := List.map Char.toLower
  upper := List.map Char.toUpper

/-! ### Components of a POSIX path -/

/-- `PurePosixPath(path).parts` without the root: empty and `"."` components
are dropped. -/
def posixParts (path : Text) : List Text :=
  (path.splitOn '/').filter fun part => part ≠ [] ∧ part ≠ ['.']

/-- `PurePosixPath(path).is_absolute()` -/
def isAbsolute (path : Text) : Prop := path.head? = some '/'

instance (path : Text) : Decidable (isAbsolute path) := inferInstanceAs (Decidable (_ = _))

/-- `Path(path).parent.as_posix()` of a relative path. -/
def parentPosix (path : Text) : Text :=
  match (posixParts path).dropLast with
  | [] => ['.']
  | parts => ['/'].intercalate parts

theorem mem_posixParts {path part : Text} :
    part ∈ posixParts path ↔ part ∈ path.splitOn '/' ∧ part ≠ [] ∧ part ≠ ['.'] := by
  simp [posixParts]

/-! ### Validation -/

def invalidWindowsChars : Text := "<>:\"\\|?*".toList

def reservedWindowsNames : List Text :=
  [['C', 'O', 'N'], ['P', 'R', 'N'], ['A', 'U', 'X'], ['N', 'U', 'L']] ++
    (List.range' 1 9).map (fun number => ['C', 'O', 'M'] ++ Nat.toDigits 10 number) ++
    (List.range' 1 9).map (fun number => ['L', 'P', 'T'] ++ Nat.toDigits 10 number)

/-- The checks of one component. -/
def checkPart (u : Unicode) (part : Text) : Except PyError Unit :=
  if part ∈ [[], ['.'], ['.', '.']] then
    .error (.value "archive path contains traversal components")
  else if part.getLast? = some ' ' ∨ part.getLast? = some '.' then
    .error (.value "archive path has a platform-unsafe trailing character")
  else if part.any fun character => character ∈ invalidWindowsChars ∨ character.toNat < 32 then
    .error (.value "archive path contains platform-unsafe characters")
  else if u.upper (part.takeWhile (· ≠ '.')) ∈ reservedWindowsNames then
    .error (.value "archive path uses a reserved platform name")
  else .ok ()

/-- The checks of every component, in order. -/
def checkParts (u : Unicode) : List Text → Except PyError Unit
  | [] => .ok ()
  | part :: parts => do
      let _ ← checkPart u part
      checkParts u parts

/-- The NFC-normalized portable relative path, or a `ValueError`. -/
def validateRelativePath (u : Unicode) (value : Text) : Except PyError Text :=
  let normalized := u.nfc value
  if normalized = [] ∨ normalized ∈ [['.'], ['.', '.']] then
    .error (.value "archive path must not be empty or relative-dot only")
  else if '\x00' ∈ normalized ∨ '\\' ∈ normalized then
    .error (.value "archive paths must use safe POSIX separators")
  else if 65535 < (encode normalized).length then
    .error (.value "archive path is too long")
  else if isAbsolute normalized ∨ posixParts normalized = [] then
    .error (.value "archive path must be relative")
  else do
    let _ ← checkParts u (posixParts normalized)
    .ok normalized

theorem checkParts_eq_ok {u : Unicode} {parts : List Text} :
    checkParts u parts = .ok () ↔ ∀ part ∈ parts, checkPart u part = .ok () := by
  induction parts with
  | nil => simp [checkParts]
  | cons part parts ih =>
      rw [List.forall_mem_cons, ← ih, checkParts]
      rcases checkPart u part with e | ⟨⟩
      · simp [bind, Except.bind]
      · simp [bind, Except.bind]

/-- What a validated path satisfies. -/
structure Portable (u : Unicode) (path : Text) : Prop where
  nonempty : path ≠ []
  not_dots : path ∉ [['.'], ['.', '.']]
  separators : '\x00' ∉ path ∧ '\\' ∉ path
  length_le : (encode path).length ≤ 65535
  relative : ¬ isAbsolute path
  parts_nonempty : posixParts path ≠ []
  parts_ok : ∀ part ∈ posixParts path, checkPart u part = .ok ()

/-- Validation succeeds exactly where the normal form is portable, and returns it. -/
theorem validateRelativePath_eq_ok {u : Unicode} {value path : Text} :
    validateRelativePath u value = .ok path ↔ path = u.nfc value ∧ Portable u path := by
  simp only [validateRelativePath]
  constructor
  · intro h
    split_ifs at h with hempty hsep hlong habs
    rcases hparts : checkParts u (posixParts (u.nfc value)) with e | ⟨⟩
    · rw [hparts] at h
      cases h
    · rw [hparts] at h
      obtain rfl := Except.ok.inj h
      push Not at hempty hsep hlong habs
      exact ⟨rfl, hempty.1, hempty.2, hsep, hlong, habs.1, habs.2, checkParts_eq_ok.mp hparts⟩
  · rintro ⟨rfl, hp⟩
    rw [if_neg (by push Not; exact ⟨hp.nonempty, hp.not_dots⟩),
      if_neg (by push Not; exact hp.separators), if_neg (Nat.not_lt.mpr hp.length_le),
      if_neg (by push Not; exact ⟨hp.relative, hp.parts_nonempty⟩),
      checkParts_eq_ok.mpr hp.parts_ok]
    rfl

/-- A path the validation returns unchanged. -/
def Canonical (u : Unicode) (path : Text) : Prop := validateRelativePath u path = .ok path

instance (u : Unicode) (path : Text) : Decidable (Canonical u path) :=
  inferInstanceAs (Decidable (_ = _))

theorem Canonical.portable {u : Unicode} {path : Text} (h : Canonical u path) : Portable u path :=
  (validateRelativePath_eq_ok.mp h).2

theorem Canonical.nfc_eq {u : Unicode} {path : Text} (h : Canonical u path) : u.nfc path = path :=
  (validateRelativePath_eq_ok.mp h).1.symm

/-- The length of a canonical path fits the two bytes it is stored in. -/
theorem Canonical.length_lt {u : Unicode} {path : Text} (h : Canonical u path) :
    (encode path).length < 256 ^ 2 := by
  have hle := h.portable.length_le
  omega

theorem checkPart_eq_ok_ne {u : Unicode} {part : Text} (h : checkPart u part = .ok ()) :
    part ≠ [] ∧ part ≠ ['.'] ∧ part ≠ ['.', '.'] := by
  unfold checkPart at h
  split_ifs at h with htraversal
  simpa using htraversal

end MosaicArchive.Manifest
