import Mathlib.Tactic

/-!
A directory tree below a root, as a map from the components of a relative path to what is there,
with the operations that build one. Whoever creates something changes the modification time of the
directory it is created in, and nothing is reached through a directory its owner may not search.
-/

variable {Name : Type}

/-- The permission bits and the modification time, as far as they were set. -/
structure FileMetadata where
  mode : Option ℕ := none
  mtimeNs : Option ℤ := none
  deriving DecidableEq, Repr

inductive FileNode where
  | file (content : List UInt8) (metadata : FileMetadata)
  | directory (metadata : FileMetadata)
  deriving DecidableEq

/-- The node at each relative path; `[]` is the root. -/
abbrev FileTree (Name : Type) := List Name → Option FileNode

inductive TreeFailure where
  | fileExists
  | notADirectory
  | isADirectory
  | notFound
  | permission
  deriving DecidableEq, Repr

namespace FileNode

def isDirectory : FileNode → Bool
  | directory _ => true
  | file _ _ => false

def metadata : FileNode → FileMetadata
  | file _ metadata => metadata
  | directory metadata => metadata

def withMetadata (metadata : FileMetadata) : FileNode → FileNode
  | file content _ => file content metadata
  | directory _ => directory metadata

/-- The time of the last change is not known any more. -/
def touched (node : FileNode) : FileNode := node.withMetadata { node.metadata with mtimeNs := none }

/-- The owner may search a directory of this node, whose permissions may not have been set yet. -/
def searchable (node : FileNode) : Bool :=
  node.isDirectory && node.metadata.mode.all fun mode => mode &&& 0o100 ≠ 0

@[simp] theorem isDirectory_withMetadata (metadata : FileMetadata) (node : FileNode) :
    (node.withMetadata metadata).isDirectory = node.isDirectory := by
  cases node <;> rfl

@[simp] theorem metadata_withMetadata (metadata : FileMetadata) (node : FileNode) :
    (node.withMetadata metadata).metadata = metadata := by
  cases node <;> rfl

@[simp] theorem searchable_touched (node : FileNode) : node.touched.searchable = node.searchable := by
  cases node <;> rfl

end FileNode

namespace FileTree

/-- The tree with nothing but a root directory. -/
def emptyDirectory : FileTree Name := fun path => if path = [] then some (.directory {}) else none

/-- The tree that is one empty file. -/
def emptyFile : FileTree Name := fun path => if path = [] then some (.file [] {}) else none

/-- There is a directory at the path that may be searched. -/
def Searchable (t : FileTree Name) (path : List Name) : Prop :=
  (t path).any FileNode.searchable = true

instance (t : FileTree Name) (path : List Name) : Decidable (t.Searchable path) :=
  inferInstanceAs (Decidable (_ = true))

/-- Every directory on the way to the path may be searched. -/
def Reachable (t : FileTree Name) (path : List Name) : Prop :=
  path ≠ [] → ∀ p ∈ path.dropLast.inits, t.Searchable p

instance (t : FileTree Name) (path : List Name) [DecidableEq Name] : Decidable (t.Reachable path) :=
  inferInstanceAs (Decidable (_ → _))

section

variable [DecidableEq Name]

/-! ### Changing one node -/

def set (t : FileTree Name) (path : List Name) (node : FileNode) : FileTree Name :=
  Function.update t path (some node)

@[simp] theorem set_self (t : FileTree Name) (path : List Name) (node : FileNode) :
    t.set path node path = some node := by
  simp [set]

theorem set_of_ne (t : FileTree Name) {path other : List Name} (h : other ≠ path)
    (node : FileNode) : t.set path node other = t other := by
  simp [set, h]

/-- Something was created in the directory at the path. -/
def touch (t : FileTree Name) (path : List Name) : FileTree Name :=
  Function.update t path ((t path).map FileNode.touched)

/-- A new node in the directory above it. -/
def create (t : FileTree Name) (path : List Name) (node : FileNode) : FileTree Name :=
  (t.touch path.dropLast).set path node

/-! ### Directories -/

/-- `mkdir(parents=True, exist_ok=True)` of a path whose parent is there, and of the missing ones
above it. -/
def ensureFrom (base : List Name) : List Name → FileTree Name → Except TreeFailure (FileTree Name)
  | [], t => .ok t
  | name :: names, t =>
      let path := base ++ [name]
      if ¬ t.Searchable base then .error .permission
      else
        match t path with
        | some (.directory _) => ensureFrom path names t
        | some (.file _ _) => .error .notADirectory
        | none => ensureFrom path names (t.create path (.directory {}))

/-- `mkdir(parents=True, exist_ok=True)` -/
def ensureDirectory (path : List Name) (t : FileTree Name) : Except TreeFailure (FileTree Name) :=
  ensureFrom [] path t

/-- `mkdir(parents=True, exist_ok=False)` -/
def mkdir (path : List Name) (t : FileTree Name) : Except TreeFailure (FileTree Name) := do
  let t ← ensureDirectory path.dropLast t
  if ¬ t.Reachable path then .error .permission
  else if t path ≠ none then .error .fileExists
  else .ok (t.create path (.directory {}))

/-! ### Files -/

/-- `open("wb")`: creates the file or empties the one that is there. -/
def openWrite (path : List Name) (t : FileTree Name) : Except TreeFailure (FileTree Name) :=
  if ¬ t.Reachable path then .error .permission
  else
    match t path with
    | some (.directory _) => .error .isADirectory
    | some (.file _ metadata) => .ok (t.set path (FileNode.touched (.file [] metadata)))
    | none => .ok (t.create path (.file [] {}))

/-- Writing at the end of an open file. -/
def write (path : List Name) (block : List UInt8) (t : FileTree Name) :
    Except TreeFailure (FileTree Name) :=
  match t path with
  | some (.file content metadata) =>
      .ok (t.set path (FileNode.touched (.file (content ++ block) metadata)))
  | _ => .error .notFound

def updateMetadata (path : List Name) (change : FileMetadata → FileMetadata) (t : FileTree Name) :
    Except TreeFailure (FileTree Name) :=
  if ¬ t.Reachable path then .error .permission
  else
    match t path with
    | some node => .ok (t.set path (node.withMetadata (change node.metadata)))
    | none => .error .notFound

/-- `os.chmod` -/
def chmod (path : List Name) (mode : ℕ) : FileTree Name → Except TreeFailure (FileTree Name) :=
  updateMetadata path fun metadata => { metadata with mode := some mode }

/-- `os.utime` -/
def utime (path : List Name) (mtimeNs : ℤ) : FileTree Name → Except TreeFailure (FileTree Name) :=
  updateMetadata path fun metadata => { metadata with mtimeNs := some mtimeNs }

end

end FileTree
