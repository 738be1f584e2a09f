import MosaicArchive.Bytes.ByteSource
import MosaicArchive.Effects.CallHistory
import MosaicArchive.Manifest.Paths

/-!
Identity-bound source traversal and reads (`mosaic_archive/source_identity.py`).
A session captures a tree of files and directories, with what `stat` says about
each, and opens a file only while the path leads to the object it captured.
Between two system calls the tree may change in any way.
-/

namespace MosaicArchive.Source

open Utf8 (Text)
open FixedWidth CallHistory MosaicArchive.Manifest

/-! ### Metadata -/

/-- The components of an absolute path. -/
abbrev Path := List Text

/-- The path as messages show it. -/
def Path.text (path : Path) : String := "/" ++ String.intercalate "/" (path.map String.ofList)

/-- `os.stat_result` -/
structure Metadata where
  dev : ℕ
  ino : ℕ
  mode : ℕ
  size : ℕ
  mtimeNs : ℤ
  ctimeNs : ℤ
  birthtimeNs : Option ℤ
  fileAttributes : ℕ
  deriving DecidableEq, Repr

/-- `stat.S_IFMT` -/
def formatOf (mode : ℕ) : ℕ := mode &&& 0o170000
/-- `stat.S_IMODE` -/
def permissionsOf (mode : ℕ) : ℕ := mode &&& 0o7777

def Metadata.isLink (m : Metadata) : Bool := formatOf m.mode = 0o120000
def Metadata.isDirectory (m : Metadata) : Bool := formatOf m.mode = 0o040000
def Metadata.isRegular (m : Metadata) : Bool := formatOf m.mode = 0o100000

/-- `_REPARSE_POINT` -/
def reparsePoint : ℕ := 0x400

def isLinkOrReparse (m : Metadata) : Bool := m.isLink ∨ m.fileAttributes &&& reparsePoint ≠ 0

/-- What the platform offers: whether `os.name` is `"nt"`, and whether there is `O_NOFOLLOW`. -/
structure Platform where
  nt : Bool
  noFollow : Bool

/-! ### Exceptions -/

inductive SourceError where
  | python (e : PyError)
  /-- `KeyError` -/
  | key (message : String)
  /-- `IsADirectoryError` -/
  | isADirectory (message : String)
  /-- `FileNotFoundError` -/
  | fileNotFound (message : String)
  deriving DecidableEq, Repr

def osError (message : String) : SourceError := .python (.os message)
def valueError (message : String) : SourceError := .python (.value message)

/-- `isinstance(error, OSError)` -/
def SourceError.isOsError : SourceError → Bool
  | python (.os _) => true
  | isADirectory _ => true
  | fileNotFound _ => true
  | _ => false

def identityChanged (path : Path) : SourceError :=
  osError ("input source identity changed: " ++ path.text)

def changedWhileDiscovered (path : Path) : SourceError :=
  osError ("input changed while it was discovered: " ++ path.text)

def notDiscovered (relative : Text) : SourceError :=
  .key ("source entry was not discovered: " ++ String.ofList relative)

def linksUnsupported (path : Path) : SourceError :=
  valueError ("symbolic links and reparse points are not supported: " ++ path.text)

/-! ### Identities -/

/-- The captured metadata of one source object. -/
structure SourceIdentity where
  metadata : Metadata
  ino_ne : metadata.ino ≠ 0
  deriving DecidableEq

def SourceIdentity.capture (m : Metadata) (path : Path) : Except SourceError SourceIdentity :=
  if hino : m.ino = 0 then
    .error (osError ("the filesystem does not expose a stable source identity: " ++ path.text))
  else .ok ⟨m, hino⟩

/-- `_matches_common` -/
def SourceIdentity.matchesCommon (identity : SourceIdentity) (m : Metadata) : Bool :=
  let captured := identity.metadata
  captured.dev = m.dev ∧ captured.ino = m.ino ∧ formatOf captured.mode = formatOf m.mode ∧
    permissionsOf captured.mode = permissionsOf m.mode ∧
    (captured.birthtimeNs ≠ none → captured.birthtimeNs = m.birthtimeNs) ∧
    captured.mtimeNs = m.mtimeNs ∧ (captured.isRegular → captured.size = m.size)

def SourceIdentity.matchesPath (identity : SourceIdentity) (m : Metadata) : Bool :=
  identity.matchesCommon m ∧ identity.metadata.ctimeNs = m.ctimeNs

def SourceIdentity.matchesHandle (platform : Platform) (identity : SourceIdentity) (m : Metadata) :
    Bool :=
  identity.matchesCommon m ∧ (platform.nt ∨ identity.metadata.ctimeNs = m.ctimeNs)

/-- A path and what was captured there. -/
structure Binding where
  path : Path
  identity : SourceIdentity
  deriving DecidableEq

structure SourceEntry where
  relativePath : Text
  isDirectory : Bool
  identity : SourceIdentity
  path : Path
  /-- The chain of `_parent`, the nearest first. -/
  ancestors : List Binding
  deriving DecidableEq

def SourceEntry.binding (e : SourceEntry) : Binding := ⟨e.path, e.identity⟩

/-! ### System calls -/

inductive StatFailure where
  /-- `FileNotFoundError` or `NotADirectoryError` -/
  | notFound
  | other
  deriving DecidableEq, Repr

/-- The names `os.scandir` yields, and whether it failed after them. -/
structure Listing where
  names : List Text
  failed : Bool

/-- The blocks read from a file, and whether a read failed after them. -/
structure Content where
  reads : Reads
  failed : Bool

inductive Call where
  /-- `path.stat(follow_symlinks=False)` -/
  | stat (path : Path)
  | scandir (path : Path)
  | openFile (path : Path) (noFollow : Bool)
  | fstat (descriptor : ℕ)
  /-- All reads of a file up to its end. -/
  | read (descriptor : ℕ)
  | close (descriptor : ℕ)

/-- `none` is an `OSError`. -/
def Reply : Call → Type
  | .stat _ => Except StatFailure Metadata
  | .scandir _ => Listing
  | .openFile _ _ => Option ℕ
  | .fstat _ => Option Metadata
  | .read _ => Content
  | .close _ => Option Unit

abbrev History := CallHistory Call Reply

abbrev Run := Routine History SourceError

open Routine (raise raiseIf lift onError finally' forEach)

/-- `OSError` of a call that has no handler of its own. -/
def systemError (operation : String) : SourceError := osError operation

def orRaise {α : Type} (e : SourceError) : Option α → Run α
  | none => raise e
  | some a => pure a

section

variable (env : Environment Call Reply) (platform : Platform)

/-! ### Discovery -/

def statReply (onFailure : StatFailure → SourceError) : Except StatFailure Metadata → Run Metadata
  | .error e => raise (onFailure e)
  | .ok m => pure m

/-- `_initial_metadata` -/
def initialMetadata (path : Path) : Run Metadata := do
  let reply ← ask env (.stat path)
  let m ← statReply (fun
    | .notFound => .fileNotFound ("input path does not exist: " ++ path.text)
    | .other => systemError "stat") reply
  raiseIf (isLinkOrReparse m) (linksUnsupported path)
  pure m

/-- `_require_binding` -/
def requireBinding (b : Binding) : Run Unit := do
  let reply ← ask env (.stat b.path)
  let m ← statReply (fun _ => identityChanged b.path) reply
  raiseIf (isLinkOrReparse m ∨ ¬ b.identity.matchesPath m) (identityChanged b.path)

/-- `_require_ancestor_bindings` -/
def requireAncestorBindings (e : SourceEntry) : Run Unit :=
  forEach (fun _ ancestor => requireBinding env ancestor) e.ancestors ()

/-- `_entries_by_path`, the latest first. -/
abbrev PathTable := List (Text × SourceEntry)

def PathTable.find (t : PathTable) (relative : Text) : Option SourceEntry :=
  (List.find? (fun p => p.1 = relative) t).map Prod.snd

def childRelative (current : SourceEntry) (name : Text) : Text :=
  if current.relativePath = [] then name else current.relativePath ++ '/' :: name

/-- The entry of one name of a directory. -/
def discoverChild (current : SourceEntry) (name : Text) : Run SourceEntry := do
  let childPath := current.path ++ [name]
  let reply ← ask env (.stat childPath)
  let m ← statReply (fun _ => changedWhileDiscovered childPath) reply
  raiseIf (isLinkOrReparse m) (linksUnsupported childPath)
  raiseIf (¬ m.isDirectory ∧ ¬ m.isRegular)
    (valueError ("special files are not supported: " ++ childPath.text))
  let identity ← lift (SourceIdentity.capture m childPath)
  pure { relativePath := childRelative current name, isDirectory := m.isDirectory, identity,
         path := childPath, ancestors := current.binding :: current.ancestors }

/-- What the discovery has found: the table, and the entries in the order of their discovery. -/
structure Discovered where
  table : PathTable
  entries : List SourceEntry

def Discovered.add (d : Discovered) (e : SourceEntry) : Discovered :=
  ⟨(e.relativePath, e) :: d.table, d.entries ++ [e]⟩

/-- The children of one directory, with those found before. -/
def scanDirectory (current : SourceEntry) (d : Discovered) : Run Discovered := do
  let listing ← ask env (.scandir current.path)
  let d ← forEach (fun d name => do
    let e ← discoverChild env current name
    pure (d.add e)) listing.names d
  raiseIf listing.failed (systemError "scandir")
  pure d

/-- `_discover_directory`. The head of the stack is the end of the list `pending`. -/
def discoverDirectory : ℕ → List SourceEntry → Discovered → Run Discovered
  | 0, _, _ => raise (.python (.runtime "endless"))
  | _ + 1, [], d => pure d
  | n + 1, current :: pending, d => do
      let d' ← onError (scanDirectory env current d) fun e =>
        raise (if e.isOsError then changedWhileDiscovered current.path else e)
      requireBinding env current.binding
      let children := d'.entries.drop d.entries.length
      discoverDirectory n ((children.filter SourceEntry.isDirectory).reverse ++ pending) d'

/-! ### The session -/

structure SourceSession where
  source : Path
  rootIsFile : Bool
  entriesByPath : PathTable
  entries : List SourceEntry

/-- The order of the entries: by depth, case-folded path, directories first, path. -/
def entryOrder (u : Unicode) (a b : SourceEntry) : Bool :=
  ((compare (a.relativePath.count '/') (b.relativePath.count '/')).then
    ((compare (u.casefold a.relativePath) (u.casefold b.relativePath)).then
      ((compare (!a.isDirectory) (!b.isDirectory)).then
        (compare a.relativePath b.relativePath)))).isLE

/-- `SourceSession(source)`, with a bound on the number of directories visited. -/
def SourceSession.capture (u : Unicode) (directories : ℕ) (source : Path) : Run SourceSession := do
  let m ← initialMetadata env source
  raiseIf (¬ m.isRegular ∧ ¬ m.isDirectory)
    (valueError ("input is neither a regular file nor a directory: " ++ source.text))
  let identity ← lift (SourceIdentity.capture m source)
  let root : SourceEntry :=
    { relativePath := [], isDirectory := !m.isRegular, identity, path := source, ancestors := [] }
  if m.isRegular then pure ⟨source, true, [([], root)], [root]⟩
  else do
    let d ← discoverDirectory env directories [root] ⟨[([], root)], []⟩
    pure ⟨source, false, d.table, d.entries.mergeSort (entryOrder u)⟩

/-- The lookup of the three accessors. -/
def SourceSession.lookup (s : SourceSession) (relative : Text) : Except SourceError SourceEntry :=
  match s.entriesByPath.find relative with
  | none => .error (notDiscovered relative)
  | some e => .ok e

def SourceSession.pathFor (s : SourceSession) (relative : Text) : Except SourceError Path :=
  (s.lookup relative).map SourceEntry.path

def SourceSession.identityFor (s : SourceSession) (relative : Text) :
    Except SourceError SourceIdentity :=
  (s.lookup relative).map SourceEntry.identity

/-- The check of the metadata of an open file. -/
def requireHandle (e : SourceEntry) (descriptor : ℕ) (changed : SourceError) : Run Unit := do
  let reply ← ask env (.fstat descriptor)
  let m ← orRaise (systemError "fstat") reply
  raiseIf (¬ e.identity.matchesHandle platform m) changed

/-- `with session.open_file(relative) as stream: body` -/
def SourceSession.openFile {α : Type} (s : SourceSession) (relative : Text) (body : ℕ → Run α) :
    Run α := do
  let e ← lift (s.lookup relative)
  raiseIf e.isDirectory (.isADirectory ("source entry is a directory: " ++ e.path.text))
  requireAncestorBindings env e
  let opened ← ask env (.openFile e.path platform.noFollow)
  let descriptor ← orRaise (identityChanged e.path) opened
  finally' (do
      let reply ← ask env (.fstat descriptor)
      let m ← orRaise (systemError "fstat") reply
      raiseIf (isLinkOrReparse m ∨ ¬ e.identity.matchesHandle platform m) (identityChanged e.path)
      let a ← body descriptor
      requireHandle env platform e descriptor
        (osError ("input changed while it was read: " ++ e.path.text))
      pure a)
    (do
      let reply ← ask env (.close descriptor)
      orRaise (systemError "close") reply)

/-- Everything a file holds. -/
def readAll (descriptor : ℕ) : Run Reads := do
  let content ← ask env (.read descriptor)
  raiseIf content.failed (systemError "read")
  pure content.reads

end

end MosaicArchive.Source
