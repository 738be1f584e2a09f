import MosaicArchive.Effects.Deeds
import MosaicArchive.Manifest.Entries
import MosaicArchive.Restore.TreeBuild

/-!
What the decoders of the framed containers do to the file system (`_decode_or_inspect` in
`stream_archive.py`, `_decode` in `dedup_archive.py`). Everything is built below a temporary root
next to the destination, which takes the destination's place when the whole archive has been
verified, and is removed when anything fails. Without a destination the archive is only verified.
-/

namespace MosaicArchive.Restore

open CallHistory Routine MosaicArchive.Manifest
open FixedWidth (Bytes)
open Utf8 (Text)

inductive Call where
  /-- `path_matches_file_identity(destination, opened_archive)` -/
  | sameFile
  /-- `destination.exists()` -/
  | destinationExists
  /-- `destination.parent.mkdir(parents=True, exist_ok=True)` -/
  | makeParent
  /-- `tempfile.mkdtemp` or `tempfile.NamedTemporaryFile`, next to the destination -/
  | makeRoot
  | deed (deed : TreeDeed Text)
  | close (path : List Text)
  /-- `os.replace(temporary_root, destination)` -/
  | replace
  /-- `temporary_root.exists()` -/
  | rootExists
  /-- `shutil.rmtree(temporary_root)` or `temporary_root.unlink(missing_ok=True)` -/
  | removeRoot
  /-- `tempfile.TemporaryDirectory`, in which an MSC3 decoder keeps chunks -/
  | makeCache
  /-- The end of the temporary directory. -/
  | removeCache
  /-- `(cache / f"{index:016x}").write_bytes(chunk)` -/
  | writeCache (index : ℕ) (chunk : Bytes)
  /-- `(cache / f"{index:016x}").read_bytes()` -/
  | readCache (index : ℕ)
  deriving DecidableEq

def Answer : Call → Type
  | .sameFile | .destinationExists | .rootExists => Bool
  | .readCache _ => Bytes
  | _ => Unit

/-- A call answers or raises. -/
abbrev Reply (c : Call) : Type := Except PyError (Answer c)

abbrev History := CallHistory Call Reply

abbrev Run := Routine History PyError

def call (env : Environment Call Reply) (c : Call) : Run (Answer c) := do
  let reply ← ask env c
  lift reply

def sameFile (env : Environment Call Reply) : Run Bool := call env .sameFile

def destinationExists (env : Environment Call Reply) : Run Bool := call env .destinationExists

def rootExists (env : Environment Call Reply) : Run Bool := call env .rootExists

/-- The variables of the loop over the entries: what has been restored, of which the source keeps
only the statistics, and the variables of the reader. -/
structure Progress (σ : Type) where
  items : List (TreeItem Text) := []
  reader : σ

/-- What the decoders differ in. -/
structure Job (σ : Type) where
  kind : ℕ
  entries : List Entry
  /-- The next block of the entry at a position, and the variables of the reader after it. -/
  block : (position : ℕ) → Entry → (i : ℕ) → σ → Run (Bytes × σ)
  /-- The check of the file when all of its blocks are written. -/
  verify : Entry → Bytes → Except PyError Unit
  /-- The check of the reader after the last entry. -/
  finish : σ → Except PyError Unit

/-- Where an entry is restored, below the root. -/
def target (kind : ℕ) (e : Entry) : List Text :=
  if kind = kindFile then [] else posixParts e.relativePath

/-- The directories in the order in which they get their metadata: by the number of slashes in their
name, the largest first. -/
def directoriesByDepth (entries : List Entry) : List Entry :=
  (entries.filter Entry.isDirectory).mergeSort fun a b =>
    decide (b.relativePath.count '/' ≤ a.relativePath.count '/')

def directoryItem (kind : ℕ) (e : Entry) : TreeItem Text := ⟨target kind e, none, e.mode, e.mtimeNs⟩

def fileItem (kind : ℕ) (e : Entry) (blocks : List Bytes) : TreeItem Text :=
  ⟨target kind e, some blocks, e.mode, e.mtimeNs⟩

section

variable (env : Environment Call Reply) {σ : Type} (destination : Option String) (job : Job σ)

/-- A step that is made only where there is a destination. -/
def publishing (p : Run Unit) : Run Unit := if destination.isSome then p else pure ()

/-- A step that is made only for the archive of a folder. -/
def inFolder (kind : ℕ) (p : Run Unit) : Run Unit := if kind = kindFolder then p else pure ()

/-- `_apply_file_metadata`, `_apply_metadata` -/
def applyMetadata (i : TreeItem Text) : Run Unit := do
  call env (.deed (.chmod i.path i.mode))
  call env (.deed (.utime i.path i.mtimeNs))

def writeBlock (position : ℕ) (e : Entry) (t : List Bytes × σ) (i : ℕ) : Run (List Bytes × σ) := do
  let (block, reader) ← job.block position e i t.2
  publishing destination (call env (.deed (.write (target job.kind e) block)))
  pure (t.1 ++ [block], reader)

def writeBlocks (position : ℕ) (e : Entry) (reader : σ) : Run (List Bytes × σ) :=
  forEach (writeBlock env destination job position e) (List.range e.count) ([], reader)

/-- The body of the loop over the entries, for a file. -/
def restoreFile (position : ℕ) (e : Entry) (t : Progress σ) : Run (Progress σ) := do
  let path := target job.kind e
  inFolder job.kind (publishing destination (call env (.deed (.mkdirParent path))))
  publishing destination (call env (.deed (.openWrite path)))
  let (blocks, reader) ← finally' (writeBlocks env destination job position e t.reader)
    (publishing destination (call env (.close path)))
  lift (job.verify e blocks.flatten)
  publishing destination (applyMetadata env (fileItem job.kind e blocks))
  pure ⟨t.items ++ [fileItem job.kind e blocks], reader⟩

/-- The body of the loop over the entries. -/
def restoreEntry (t : Progress σ) (entry : Entry × ℕ) : Run (Progress σ) := do
  let (e, position) := entry
  if e.entryType = entryDirectory then do
    publishing destination (call env (.deed (.mkdir (target job.kind e))))
    pure { t with items := t.items ++ [directoryItem job.kind e] }
  else restoreFile env destination job position e t

def refuseSameFile : Run Unit := do
  let same ← sameFile env
  raiseIf (same = true) (.value "archive and output paths must be different")

/-- The destination is replaced, unless it has become the archive. -/
def replaceDestination : Run Unit := do
  refuseSameFile env
  call env .replace

def restoreAll (reader : σ) : Run (Progress σ) := do
  let t ← forEach (restoreEntry env destination job) job.entries.zipIdx { reader }
  lift (job.finish t.reader)
  inFolder job.kind (publishing destination (forEach
    (fun _ e => applyMetadata env (directoryItem job.kind e)) (directoriesByDepth job.entries) ()))
  publishing destination (replaceDestination env)
  pure t

/-- `_cleanup_output` -/
def cleanup : Run Unit := do
  let there ← rootExists env
  if there then call env .removeRoot else pure ()

/-- The part of the decoders after the manifest; `prepare` makes the temporary root. -/
def restore (prepare : Run Unit) (reader : σ) : Run (Progress σ) := do
  publishing destination prepare
  onError (restoreAll env destination job reader) fun e => do
    publishing destination (cleanup env)
    raise e

end

end MosaicArchive.Restore
