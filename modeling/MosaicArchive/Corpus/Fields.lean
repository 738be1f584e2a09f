import MosaicArchive.Corpus.Text
import MosaicArchive.Bytes.Parser

/-!
The checks of single values in `mosaic_archive/competitive_corpus.py`. Each takes a value as
the JSON decoder returns it. A rejected value raises `CorpusLockValidationError`; a string with
a surrogate raises `UnicodeEncodeError` where a check encodes it.
-/

namespace MosaicArchive.Corpus

open FixedWidth
open Except (raiseIf)

/-! ### Constants -/

def maxRelativePathBytes : ℕ := 4096
def maxPathComponentBytes : ℕ := 255
def maxTextBytes : ℕ := 4096

def movingIdentifiers : List PyText :=
  [lit "current", lit "head", lit "latest", lit "main", lit "master", lit "stable", lit "tip",
    lit "trunk"]

/-! ### Values and exceptions -/

/-- What `json.loads` returns, with the literal of a `float`. -/
inductive Value where
  | null
  | bool (b : Bool)
  | int (z : ℤ)
  | float (literal : Utf8.Text)
  | str (text : PyText)
  | list (items : List Value)
  | dict (entries : List (PyText × Value))

inductive LockError where
  /-- `CorpusLockValidationError`, with the values at the end of its message -/
  | validation (message : String) (values : List PyText)
  /-- `json.JSONDecodeError` -/
  | jsonDecode
  /-- `UnicodeEncodeError` -/
  | unicodeEncode
  /-- `ValueError` of `int` for a literal of too many digits -/
  | tooManyDigits
  /-- `RecursionError` -/
  | recursion
  /-- `KeyError` -/
  | missingKey
  deriving DecidableEq

/-- `isinstance(error, CorpusLockValidationError)` -/
def LockError.isValidation : LockError → Bool
  | validation _ _ => true
  | _ => false

def invalid (message : String) : LockError := .validation message []

structure SplitUrl where
  scheme : PyText
  hostname : Option PyText
  username : Option PyText
  password : Option PyText
  port : Option ℕ
  deriving DecidableEq

/-- Functions of the standard library. -/
structure Library where
  /-- `str.isspace` of one character -/
  isSpace : CodePoint → Bool
  /-- `unicodedata.category(character) in {"Cc", "Cf"}` -/
  isControl : CodePoint → Bool
  /-- `unicodedata.normalize("NFC", text)` -/
  nfc : PyText → PyText
  casefold : PyText → PyText
  /-- `PureWindowsPath(path).is_absolute()` -/
  windowsIsAbsolute : PyText → Bool
  /-- `PureWindowsPath(path).drive` -/
  windowsDrive : PyText → PyText
  /-- `urlsplit(url)` with its `port`; nothing where one of them raises `ValueError`. -/
  urlsplit : PyText → Option SplitUrl

/-! ### Texts -/

/-- The characters of a class in a regular expression. -/
def oneOf (chars : String) (c : CodePoint) : Bool := c ∈ lit chars

def digits : String := "0123456789"
def lowerLetters : String := "abcdefghijklmnopqrstuvwxyz"
def upperLetters : String := "ABCDEFGHIJKLMNOPQRSTUVWXYZ"

/-- `[first][rest]` with a bounded number of characters after the first one -/
def matchesIdentifier (first rest : String) (least most : ℕ) : PyText → Bool
  | [] => false
  | c :: text => oneOf first c ∧ text.all (oneOf rest) ∧ least ≤ text.length ∧ text.length ≤ most

/-- `_SHA256_RE.fullmatch` -/
def isSha256 (text : PyText) : Bool := text.length = 64 ∧ text.all (oneOf (digits ++ "abcdef"))

/-- `_SNAPSHOT_ID_RE.fullmatch` -/
def isSnapshotId : PyText → Bool :=
  matchesIdentifier (upperLetters ++ lowerLetters ++ digits)
    (upperLetters ++ lowerLetters ++ digits ++ "._:@/+()-") 2 255

/-- `_STABLE_ID_RE.fullmatch` -/
def isStableId : PyText → Bool :=
  matchesIdentifier (lowerLetters ++ digits) (lowerLetters ++ digits ++ "._-") 2 127

/-- `_SPDX_ID_RE.fullmatch` -/
def isSpdxId : PyText → Bool :=
  matchesIdentifier (upperLetters ++ lowerLetters ++ digits)
    (upperLetters ++ lowerLetters ++ digits ++ ".+-") 1 127

/-- `PurePosixPath(path).as_posix()` -/
def asPosix (path : PyText) : PyText :=
  let parts := (path.splitOn (.scalar '/')).filter fun part => part ≠ [] ∧ part ≠ lit "."
  let root := if lit "//" <+: path ∧ ¬ lit "///" <+: path then lit "//"
    else if lit "/" <+: path then lit "/" else []
  if root ++ [CodePoint.scalar '/'].intercalate parts = [] then lit "."
  else root ++ [CodePoint.scalar '/'].intercalate parts

/-- `text.encode("utf-8")` -/
def encodeOrRaise (text : PyText) : Except LockError Bytes :=
  match encodeUtf8 text with
  | some encoded => .ok encoded
  | none => .error .unicodeEncode

section

variable (library : Library)

/-- `text.strip()` -/
def strip (text : PyText) : PyText :=
  ((text.dropWhile library.isSpace).reverse.dropWhile library.isSpace).reverse

/-! ### Checks -/

/-- A string. -/
def expectText (value : Value) (error : LockError) : Except LockError PyText :=
  match value with
  | .str text => .ok text
  | _ => .error error

/-- `_expect_string` -/
def expectString (value : Value) (context : String) : Except LockError PyText := do
  let error := invalid
    (context ++ " must be a bounded canonical string without control characters")
  let text ← expectText value error
  raiseIf (text = [] ∨ text ≠ strip library text) error
  let encoded ← encodeOrRaise text
  raiseIf (maxTextBytes < encoded.length ∨ text.any library.isControl = true) error
  pure text

/-- `_expect_positive_int` -/
def expectPositiveInt (value : Value) (context : String) : Except LockError ℕ :=
  match value with
  | .int z => if z ≤ 0 then .error (invalid (context ++ " must be a positive integer"))
      else .ok z.toNat
  | _ => .error (invalid (context ++ " must be a positive integer"))

/-- `_expect_sha256` -/
def expectSha256 (value : Value) (context : String) : Except LockError PyText := do
  let error := invalid (context ++ " sha256 must be 64 lowercase hexadecimal characters")
  let text ← expectText value error
  raiseIf (isSha256 text = false) error
  pure text

/-- `any(len(part.encode("utf-8")) > MAX_PATH_COMPONENT_BYTES …)` -/
def checkComponents (error : LockError) : List PyText → Except LockError Unit
  | [] => pure ()
  | part :: parts => do
      let encoded ← encodeOrRaise part
      raiseIf (maxPathComponentBytes < encoded.length) error
      checkComponents error parts

/-- The conditions of `_expect_relative_path` before the first that encodes. -/
def isUnsafePath (path : PyText) : Bool :=
  .scalar '\\' ∈ path ∨ .scalar '\x00' ∈ path ∨ path.head? = some (.scalar '/') ∨
    library.windowsIsAbsolute path = true ∨ library.windowsDrive path ≠ [] ∨
    (path.splitOn (.scalar '/')).any (· ∈ [[], lit ".", lit ".."]) = true ∨
    asPosix path ≠ path ∨ path ≠ strip library path ∨ library.nfc path ≠ path

/-- `_expect_relative_path` -/
def expectRelativePath (value : Value) (context : String) : Except LockError PyText := do
  let error := invalid (context ++ " path must be a normalized relative POSIX path")
  let path ← expectString library value (context ++ " path")
  raiseIf (isUnsafePath library path = true) error
  let encoded ← encodeOrRaise path
  raiseIf (maxRelativePathBytes < encoded.length) error
  checkComponents error (path.splitOn (.scalar '/'))
  raiseIf (path.any library.isControl = true) error
  pure path

/-- The URL is `https`, with a host and without a user. -/
def isSafeUrl (parsed : SplitUrl) : Bool :=
  library.casefold parsed.scheme = lit "https" ∧ (parsed.hostname.getD []) ≠ [] ∧
    parsed.username = none ∧ parsed.password = none ∧
    parsed.port.all fun port => 1 ≤ port ∧ port ≤ 65535

/-- `_expect_https_url` -/
def expectHttpsUrl (value : Value) (context : String) : Except LockError PyText := do
  let error := invalid (context ++ " must be a safe HTTPS URL")
  let url ← expectString library value context
  raiseIf (url.any (fun c => library.isSpace c ∨ c.ord < 32) = true) error
  raiseIf ((library.urlsplit url).any (isSafeUrl library) = false) error
  pure url

/-- `_expect_stable_identifier` -/
def expectStableIdentifier (value : Value) (context : String) : Except LockError PyText := do
  let identifier ← expectString library value context
  raiseIf (isStableId identifier = false ∨ library.casefold identifier ∈ movingIdentifiers)
    (invalid (context ++ " must be a stable identifier"))
  pure identifier

/-- `_expect_snapshot_id` -/
def expectSnapshotId (value : Value) (context : String) : Except LockError PyText := do
  let identifier ← expectString library value context
  raiseIf (isSnapshotId identifier = false ∨ library.casefold identifier ∈ movingIdentifiers)
    (invalid (context ++ " must be an explicit immutable snapshot_id"))
  pure identifier

end

end MosaicArchive.Corpus
