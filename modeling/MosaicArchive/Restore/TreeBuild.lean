import MosaicArchive.Effects.Trace
import MosaicArchive.Restore.FileTree

/-!
Building a tree from a list of files and directories, in the order of the list: a directory is made,
a file is written and gets its metadata at once, and the directories get theirs at the end. Where
every parent comes before what lies in it, this succeeds, and leaves one node for each item.
-/

variable {Name : Type}

/-- A change of a tree. -/
inductive TreeDeed (Name : Type) where
  | mkdir (path : List Name)
  /-- The parent of the path is made if it is missing. -/
  | mkdirParent (path : List Name)
  | openWrite (path : List Name)
  | write (path : List Name) (block : List UInt8)
  | chmod (path : List Name) (mode : ℕ)
  | utime (path : List Name) (mtimeNs : ℤ)
  deriving DecidableEq

/-- What is to be restored at a path: the blocks of a file, or a directory. -/
structure TreeItem (Name : Type) where
  path : List Name
  blocks : Option (List (List UInt8))
  mode : ℕ
  mtimeNs : ℤ

namespace TreeItem

def isDirectory (i : TreeItem Name) : Bool := i.blocks.isNone

def setMetadata (i : TreeItem Name) : List (TreeDeed Name) :=
  [.chmod i.path i.mode, .utime i.path i.mtimeNs]

/-- Writing a file. -/
def fill (i : TreeItem Name) (blocks : List (List UInt8)) : List (TreeDeed Name) :=
  .openWrite i.path :: blocks.map (.write i.path) ++ i.setMetadata

/-- The deeds for one item, in their order. -/
def deeds (i : TreeItem Name) : List (TreeDeed Name) :=
  match i.blocks with
  | none => [.mkdir i.path]
  | some blocks => .mkdirParent i.path :: i.fill blocks

def metadata (i : TreeItem Name) : FileMetadata := ⟨some i.mode, some i.mtimeNs⟩

/-- The node when the item has been built. -/
def built (i : TreeItem Name) : FileNode :=
  match i.blocks with
  | none => .directory {}
  | some blocks => .file blocks.flatten i.metadata

/-- The node when the metadata of the directories have been set, too. -/
def node (i : TreeItem Name) : FileNode := i.built.withMetadata i.metadata

end TreeItem

namespace FileTree

/-- A directory whose metadata were never set. -/
def Fresh (t : FileTree Name) (path : List Name) : Prop := t path = some (.directory {})

theorem Fresh.searchable {t : FileTree Name} {path : List Name} (h : t.Fresh path) :
    t.Searchable path := by
  rw [Fresh] at h
  rw [Searchable, h]
  rfl

/-- All directories on the way to the path are fresh. -/
def FreshWay (t : FileTree Name) (path : List Name) : Prop := ∀ p, p <+: path.dropLast → t.Fresh p

theorem FreshWay.reachable {t : FileTree Name} {path : List Name} (h : t.FreshWay path) :
    t.Reachable path := by
  intro _ p hp
  exact (h p ((List.mem_inits p _).mp hp)).searchable

variable [DecidableEq Name]

def apply : TreeDeed Name → FileTree Name → Except TreeFailure (FileTree Name)
  | .mkdir path => mkdir path
  | .mkdirParent path => ensureDirectory path.dropLast
  | .openWrite path => openWrite path
  | .write path block => write path block
  | .chmod path mode => chmod path mode
  | .utime path mtimeNs => utime path mtimeNs

def applyAll : List (TreeDeed Name) → FileTree Name → Except TreeFailure (FileTree Name)
  | [], t => .ok t
  | deed :: deeds, t => do
      let t ← apply deed t
      applyAll deeds t

theorem applyAll_cons_ok {deed : TreeDeed Name} {deeds : List (TreeDeed Name)} {t t' : FileTree Name}
    (h : apply deed t = .ok t') : applyAll (deed :: deeds) t = applyAll deeds t' := by
  rw [applyAll, h]
  rfl

theorem applyAll_append {first second : List (TreeDeed Name)} {t : FileTree Name} :
    applyAll (first ++ second) t = applyAll first t >>= applyAll second := by
  induction first generalizing t with
  | nil => rfl
  | cons deed first ih =>
      rw [List.cons_append, applyAll, applyAll]
      rcases apply deed t with e | t'
      · rfl
      · exact ih

theorem applyAll_append_ok {first second : List (TreeDeed Name)} {t t' : FileTree Name}
    (h : applyAll first t = .ok t') : applyAll (first ++ second) t = applyAll second t' := by
  rw [applyAll_append, h]
  rfl

/-! ### Single deeds -/

@[simp] theorem set_set (t : FileTree Name) (path : List Name) (node node' : FileNode) :
    (t.set path node).set path node' = t.set path node' := by
  simp [set]

theorem Fresh.touch {t : FileTree Name} {path : List Name} (h : t.Fresh path) : t.touch path = t := by
  rw [Fresh] at h
  have hsame : (t path).map FileNode.touched = t path := by
    rw [h]
    rfl
  rw [FileTree.touch, hsame, Function.update_eq_self]

theorem ensureFrom_of_fresh {base names : List Name} {t : FileTree Name}
    (h : ∀ p, p <+: base ++ names → t.Fresh p) : ensureFrom base names t = .ok t := by
  induction names generalizing base with
  | nil => rfl
  | cons name names ih =>
      have hbase : t.Searchable base := (h base (List.prefix_append _ _)).searchable
      have hnext : t (base ++ [name]) = some (.directory {}) :=
        h (base ++ [name]) ⟨names, by simp⟩
      rw [ensureFrom]
      simp only [hbase, not_true_eq_false, if_false, hnext]
      apply ih
      intro p hp
      exact h p (by simpa using hp)

theorem FreshWay.ensureDirectory {t : FileTree Name} {path : List Name} (h : t.FreshWay path) :
    t.ensureDirectory path.dropLast = .ok t :=
  ensureFrom_of_fresh h

theorem FreshWay.create {t : FileTree Name} {path : List Name} (h : t.FreshWay path)
    (node : FileNode) : t.create path node = t.set path node := by
  rw [FileTree.create, (h path.dropLast List.prefix_rfl).touch]

theorem FreshWay.set {t : FileTree Name} {path : List Name} (h : t.FreshWay path) (hne : path ≠ [])
    (node : FileNode) : (t.set path node).FreshWay path := by
  intro p hp
  have hlt : p ≠ path := by
    rintro rfl
    have hle := hp.length_le
    have hpos := List.length_pos_iff.mpr hne
    rw [List.length_dropLast] at hle
    omega
  rw [Fresh, set_of_ne t hlt]
  exact h p hp

theorem applyAll_write {t : FileTree Name} {path : List Name} {blocks : List (List UInt8)}
    {content : List UInt8} (h : t path = some (.file content {})) :
    applyAll (blocks.map (.write path)) t = .ok (t.set path (.file (content ++ blocks.flatten) {})) := by
  induction blocks generalizing t content with
  | nil =>
      rw [List.map_nil, List.flatten_nil, List.append_nil, set, ← h, Function.update_eq_self]
      rfl
  | cons block blocks ih =>
      have hwrite : apply (.write path block) t = .ok (t.set path (.file (content ++ block) {})) := by
        simp only [apply, write, h]
        rfl
      rw [List.map_cons, applyAll_cons_ok hwrite, ih (set_self _ _ _), set_set, List.flatten_cons,
        List.append_assoc]

theorem applyAll_setMetadata {t : FileTree Name} {i : TreeItem Name} {node : FileNode}
    (hway : t.Reachable i.path) (hset : ∀ node, (t.set i.path node).Reachable i.path)
    (h : t i.path = some node) :
    applyAll i.setMetadata t = .ok (t.set i.path (node.withMetadata i.metadata)) := by
  have hchmod : apply (.chmod i.path i.mode) t = .ok (t.set i.path
      (node.withMetadata { node.metadata with mode := some i.mode })) := by
    simp only [apply, chmod, updateMetadata, hway, not_true_eq_false, if_false, h]
  have hutime : ∀ metadata : FileMetadata, metadata.mode = some i.mode →
      apply (.utime i.path i.mtimeNs) (t.set i.path (node.withMetadata metadata)) =
        .ok (t.set i.path (node.withMetadata i.metadata)) := by
    intro metadata hmode
    simp only [apply, utime, updateMetadata, hset, not_true_eq_false, if_false, set_self, set_set,
      FileNode.metadata_withMetadata, hmode]
    cases node <;> rfl
  rw [TreeItem.setMetadata, applyAll_cons_ok hchmod, applyAll_cons_ok (hutime _ rfl)]
  rfl

/-- An item whose place is free and whose directories are fresh is built. -/
theorem applyAll_deeds {t : FileTree Name} {i : TreeItem Name} (hne : i.path ≠ [])
    (hway : t.FreshWay i.path) (hfree : t i.path = none) :
    applyAll i.deeds t = .ok (t.set i.path i.built) := by
  rw [TreeItem.deeds, TreeItem.built]
  cases hblocks : i.blocks with
  | none =>
      have hmkdir : apply (.mkdir i.path) t = .ok (t.set i.path (.directory {})) := by
        simp only [apply, mkdir, hway.ensureDirectory, bind, Except.bind, hway.reachable, hfree,
          not_true_eq_false, if_false, ne_eq, hway.create]
      rw [applyAll_cons_ok hmkdir]
      rfl
  | some blocks =>
      have hparent : apply (.mkdirParent i.path) t = .ok t := hway.ensureDirectory
      have hopen : apply (.openWrite i.path) t = .ok (t.set i.path (.file [] {})) := by
        simp only [apply, openWrite, hway.reachable, hfree, not_true_eq_false, if_false, hway.create]
      dsimp only
      rw [TreeItem.fill, List.cons_append, applyAll_cons_ok hparent, applyAll_cons_ok hopen,
        applyAll_append_ok (applyAll_write (set_self _ _ _)), set_set, List.nil_append]
      have hset : ∀ node, (t.set i.path node).FreshWay i.path := hway.set hne
      rw [applyAll_setMetadata (hset _).reachable (fun node => by rw [set_set]; exact (hset _).reachable)
        (set_self _ _ _), set_set]
      rfl

/-- The root, where it is a file. -/
theorem applyAll_fill_root {i : TreeItem Name} (hroot : i.path = []) (blocks : List (List UInt8)) :
    applyAll (i.fill blocks) emptyFile =
      .ok (emptyFile.set [] (.file blocks.flatten i.metadata)) := by
  have hreach : ∀ t : FileTree Name, t.Reachable i.path := fun t hne => absurd hroot hne
  have hopen : apply (.openWrite i.path) emptyFile = .ok (emptyFile.set i.path (.file [] {})) := by
    simp only [apply, openWrite, hroot, emptyFile, if_true]
    rfl
  rw [TreeItem.fill, List.cons_append, applyAll_cons_ok hopen,
    applyAll_append_ok (applyAll_write (set_self _ _ _)), set_set, List.nil_append,
    applyAll_setMetadata (hreach _) (fun _ => hreach _) (set_self _ _ _), set_set, hroot]
  rfl

/-! ### All items -/

/-- A node for each item. -/
def setAll (node : TreeItem Name → FileNode) (items : List (TreeItem Name)) (t : FileTree Name) :
    FileTree Name :=
  items.foldl (fun t i => t.set i.path (node i)) t

theorem setAll_of_not_mem {node : TreeItem Name → FileNode} {items : List (TreeItem Name)}
    {t : FileTree Name} {path : List Name} (h : ∀ i ∈ items, i.path ≠ path) :
    setAll node items t path = t path := by
  induction items generalizing t with
  | nil => rfl
  | cons i items ih =>
      rw [List.forall_mem_cons] at h
      rw [setAll, List.foldl_cons]
      exact (ih h.2).trans (set_of_ne t h.1.symm (node i))

theorem setAll_of_mem {node : TreeItem Name → FileNode} {items : List (TreeItem Name)}
    {t : FileTree Name} (hnodup : (items.map TreeItem.path).Nodup) {i : TreeItem Name}
    (hi : i ∈ items) : setAll node items t i.path = some (node i) := by
  induction items generalizing t with
  | nil => cases hi
  | cons other items ih =>
      rw [List.map_cons, List.nodup_cons] at hnodup
      rw [setAll, List.foldl_cons]
      rcases List.mem_cons.mp hi with rfl | hi
      · have hlater : ∀ other ∈ items, other.path ≠ i.path := fun other hother heq =>
          hnodup.1 (List.mem_map.mpr ⟨other, hother, heq⟩)
        exact (setAll_of_not_mem hlater).trans (set_self t i.path (node i))
      · exact ih hnodup.2 hi

theorem setAll_concat (node : TreeItem Name → FileNode) (items : List (TreeItem Name))
    (i : TreeItem Name) (t : FileTree Name) :
    setAll node (items ++ [i]) t = (setAll node items t).set i.path (node i) := by
  rw [setAll, List.foldl_append]
  rfl

/-- The tree of some items: a root, and a node for each of them. -/
def ofItems (items : List (TreeItem Name)) : FileTree Name :=
  setAll TreeItem.node items emptyDirectory

end FileTree

/-! ### Parents before children -/

/-- The directory above the item is the root or one of the items before it. -/
def ParentBefore (before : List (TreeItem Name)) (i : TreeItem Name) : Prop :=
  i.path.dropLast = [] ∨ ∃ d ∈ before, d.isDirectory = true ∧ d.path = i.path.dropLast

/-- Items at different places, none of them the root. -/
structure Distinct (items : List (TreeItem Name)) : Prop where
  nodup : (items.map TreeItem.path).Nodup
  nonempty : ∀ i ∈ items, i.path ≠ []

theorem Distinct.of_append_left {items items' : List (TreeItem Name)} (h : Distinct (items ++ items')) :
    Distinct items := by
  refine ⟨?_, fun i hi => h.nonempty i (List.mem_append_left items' hi)⟩
  have hnodup := h.nodup
  rw [List.map_append] at hnodup
  exact hnodup.of_append_left

/-- The directories of some items, none before one below it. -/
structure DeepestFirst (items directories : List (TreeItem Name)) : Prop where
  perm : directories.Perm (items.filter TreeItem.isDirectory)
  order : directories.Pairwise fun a b => ¬ a.path <+: b.path

theorem DeepestFirst.mem {items directories : List (TreeItem Name)} (h : DeepestFirst items directories)
    {i : TreeItem Name} : i ∈ directories ↔ i ∈ items ∧ i.isDirectory = true := by
  rw [h.perm.mem_iff, List.mem_filter]

theorem DeepestFirst.distinct {items directories : List (TreeItem Name)}
    (h : DeepestFirst items directories) (hdistinct : Distinct items) : Distinct directories := by
  refine ⟨?_, fun i hi => hdistinct.nonempty i (h.mem.mp hi).1⟩
  exact (h.perm.map TreeItem.path).nodup_iff.mpr
    (hdistinct.nodup.sublist (List.filter_sublist.map TreeItem.path))

/-- Every directory on the way to an item is the root or one of the items. -/
theorem exists_directory_of_prefix {items : List (TreeItem Name)}
    (h : Trace.Lawful ParentBefore items) {i : TreeItem Name} (hi : i ∈ items) {p : List Name}
    (hp : p <+: i.path.dropLast) :
    p = [] ∨ ∃ before after, items = before ++ i :: after ∧
      ∃ d ∈ before, d.isDirectory = true ∧ d.path = p := by
  induction hn : i.path.length using Nat.strong_induction_on generalizing items i with
  | _ n ih =>
      obtain ⟨before, after, rfl⟩ := List.append_of_mem hi
      rcases h before i after rfl with hroot | ⟨d, hd, hdirectory, hpath⟩
      · rw [hroot] at hp
        exact .inl (List.prefix_nil.mp hp)
      · by_cases hsame : p = d.path
        · exact .inr ⟨before, after, rfl, d, hd, hdirectory, hsame.symm⟩
        · have hshorter : p <+: d.path.dropLast := by
            rw [← hpath] at hp
            have hlt : p.length < d.path.length := by
              by_contra hge
              exact hsame (hp.eq_of_length (Nat.le_antisymm hp.length_le (Nat.not_lt.mp hge)))
            apply List.prefix_of_prefix_length_le hp (List.dropLast_prefix d.path)
            rw [List.length_dropLast]
            omega
          have hlength : d.path.length < n := by
            have hne : i.path ≠ [] := by
              intro hnil
              rw [hnil, List.dropLast_nil] at hp
              rw [hpath, hnil] at hsame
              exact hsame (List.prefix_nil.mp hp)
            have hpos := List.length_pos_iff.mpr hne
            rw [hpath, List.length_dropLast]
            omega
          have hbefore : Trace.Lawful ParentBefore before := (Trace.lawful_append.mp h).1
          rcases ih d.path.length hlength hbefore hd hshorter rfl with hnil | ⟨_, _, hsplit, a, ha, hrest⟩
          · exact .inl hnil
          · refine .inr ⟨before, after, rfl, a, ?_, hrest⟩
            rw [hsplit]
            exact List.mem_append_left _ ha

theorem TreeItem.built_of_directory {i : TreeItem Name} (h : i.isDirectory = true) :
    i.built = .directory {} := by
  rw [TreeItem.isDirectory, Option.isNone_iff_eq_none] at h
  rw [TreeItem.built, h]

theorem TreeItem.built_of_file {i : TreeItem Name} (h : i.isDirectory = false) : i.built = i.node := by
  rw [TreeItem.isDirectory] at h
  obtain ⟨blocks, hblocks⟩ := Option.isSome_iff_exists.mp (by simpa using h)
  rw [TreeItem.node, TreeItem.built, hblocks]
  rfl

namespace FileTree

variable [DecidableEq Name]

/-- A path whose directories are all built. -/
theorem freshWay_of_directories {items : List (TreeItem Name)} (hdistinct : Distinct items)
    {path : List Name} (h : ∀ p, p <+: path.dropLast →
      p = [] ∨ ∃ d ∈ items, d.isDirectory = true ∧ d.path = p) :
    (setAll TreeItem.built items emptyDirectory).FreshWay path := by
  intro p hp
  rcases h p hp with rfl | ⟨d, hd, hdirectory, rfl⟩
  · rw [Fresh, setAll_of_not_mem hdistinct.nonempty]
    rfl
  · rw [Fresh, setAll_of_mem hdistinct.nodup hd, TreeItem.built_of_directory hdirectory]

/-- Items at different places whose parents come first are all built. -/
theorem applyAll_items {items : List (TreeItem Name)} (hdistinct : Distinct items)
    (hparents : Trace.Lawful ParentBefore items) :
    applyAll (items.flatMap TreeItem.deeds) emptyDirectory =
      .ok (setAll TreeItem.built items emptyDirectory) := by
  induction items using List.reverseRecOn with
  | nil => rfl
  | append_singleton items i ih =>
      have hbefore := (Trace.lawful_append.mp hparents).1
      have hdistinct' := hdistinct.of_append_left
      have hne : i.path ≠ [] := hdistinct.nonempty i (by simp)
      have hfresh : ∀ d ∈ items, d.path ≠ i.path := by
        have hnodup := hdistinct.nodup
        rw [List.map_append, List.nodup_append] at hnodup
        exact fun d hd => hnodup.2.2 d.path (List.mem_map_of_mem hd) i.path (by simp)
      rw [List.flatMap_append, applyAll_append_ok (ih hdistinct' hbefore), List.flatMap_singleton,
        setAll_concat]
      apply applyAll_deeds hne
      · apply freshWay_of_directories hdistinct'
        intro p hp
        rcases exists_directory_of_prefix hparents (List.mem_append_right items
          (List.mem_singleton.mpr rfl)) hp with hroot | ⟨before, after, hsplit, d, hd, hdirectory, hpath⟩
        · exact .inl hroot
        · refine .inr ⟨d, ?_, hdirectory, hpath⟩
          have hd' : d ∈ items ++ [i] := by
            rw [hsplit]
            exact List.mem_append_left _ hd
          rcases List.mem_append.mp hd' with hd' | hd'
          · exact hd'
          · have hle := hp.length_le
            rw [← hpath, List.mem_singleton.mp hd', List.length_dropLast] at hle
            have hpos := List.length_pos_iff.mpr hne
            omega
      · rw [setAll_of_not_mem hfresh, emptyDirectory, if_neg hne]

/-- Metadata can be set in any order in which no directory comes before one below it. -/
theorem applyAll_metadata {items : List (TreeItem Name)} {t : FileTree Name}
    (hdistinct : Distinct items) (horder : items.Pairwise fun a b => ¬ a.path <+: b.path)
    (hway : ∀ i ∈ items, t.FreshWay i.path) (hbuilt : ∀ i ∈ items, t i.path = some i.built) :
    applyAll (items.flatMap TreeItem.setMetadata) t = .ok (setAll TreeItem.node items t) := by
  induction items generalizing t with
  | nil => rfl
  | cons i items ih =>
      have hnodup := hdistinct.nodup
      rw [List.map_cons, List.nodup_cons] at hnodup
      rw [List.forall_mem_cons] at hway hbuilt
      rw [List.pairwise_cons] at horder
      have hset : ∀ node, (t.set i.path node).Reachable i.path := fun node =>
        (hway.1.set (hdistinct.nonempty i (by simp)) node).reachable
      rw [List.flatMap_cons, applyAll_append_ok (applyAll_setMetadata hway.1.reachable hset hbuilt.1)]
      apply ih ⟨hnodup.2, fun j hj => hdistinct.nonempty j (List.mem_cons_of_mem i hj)⟩ horder.2
      · intro j hj p hp
        have hother : p ≠ i.path := by
          rintro rfl
          exact horder.1 j hj (hp.trans (List.dropLast_prefix j.path))
        rw [Fresh, set_of_ne t hother]
        exact hway.2 j hj p hp
      · intro j hj
        have hother : j.path ≠ i.path := fun heq => hnodup.1 (heq ▸ List.mem_map_of_mem hj)
        rw [set_of_ne t hother]
        exact hbuilt.2 j hj

/-- The deeds for all items, with the metadata of the directories at the end. -/
def allDeeds (items directories : List (TreeItem Name)) : List (TreeDeed Name) :=
  items.flatMap TreeItem.deeds ++ directories.flatMap TreeItem.setMetadata

/-- All deeds leave exactly the tree of the items. -/
theorem applyAll_allDeeds {items directories : List (TreeItem Name)} (hdistinct : Distinct items)
    (hparents : Trace.Lawful ParentBefore items) (hdirectories : DeepestFirst items directories) :
    applyAll (allDeeds items directories) emptyDirectory = .ok (ofItems items) := by
  have hway : ∀ i ∈ directories, (setAll TreeItem.built items emptyDirectory).FreshWay i.path := by
    intro i hi
    apply freshWay_of_directories hdistinct
    intro p hp
    rcases exists_directory_of_prefix hparents (hdirectories.mem.mp hi).1 hp with
      hroot | ⟨before, after, rfl, d, hd, hdirectory, hpath⟩
    · exact .inl hroot
    · exact .inr ⟨d, List.mem_append_left _ hd, hdirectory, hpath⟩
  have hbuilt : ∀ i ∈ directories,
      setAll TreeItem.built items emptyDirectory i.path = some i.built := fun i hi =>
    setAll_of_mem hdistinct.nodup (hdirectories.mem.mp hi).1
  rw [allDeeds, applyAll_append_ok (applyAll_items hdistinct hparents),
    applyAll_metadata (hdirectories.distinct hdistinct) hdirectories.order
      hway hbuilt]
  congr 1
  funext path
  by_cases hpath : ∃ i ∈ items, i.path = path
  · obtain ⟨i, hi, rfl⟩ := hpath
    rw [ofItems, setAll_of_mem hdistinct.nodup hi]
    cases hdirectory : i.isDirectory with
    | true =>
        exact setAll_of_mem (hdirectories.distinct hdistinct).nodup
          (hdirectories.mem.mpr ⟨hi, hdirectory⟩)
    | false =>
        have hother : ∀ d ∈ directories, d.path ≠ i.path := by
          intro d hd heq
          obtain ⟨hd, hd'⟩ := hdirectories.mem.mp hd
          have hsame := List.inj_on_of_nodup_map hdistinct.nodup hd hi heq
          rw [hsame, hdirectory] at hd'
          cases hd'
        rw [setAll_of_not_mem hother, setAll_of_mem hdistinct.nodup hi,
          TreeItem.built_of_file hdirectory]
  · push Not at hpath
    rw [setAll_of_not_mem fun d hd => hpath d (hdirectories.mem.mp hd).1, setAll_of_not_mem hpath,
      ofItems, setAll_of_not_mem hpath]

/-! ### What a finished build shows -/

theorem set_ne_none {t : FileTree Name} {path p : List Name} {node : FileNode} (h : t p ≠ none) :
    t.set path node p ≠ none := by
  by_cases hpath : p = path
  · rw [hpath, set_self]
    exact Option.some_ne_none node
  · rwa [set_of_ne t hpath]

theorem create_ne_none {t : FileTree Name} {path p : List Name} {node : FileNode} (h : t p ≠ none) :
    t.create path node p ≠ none := by
  apply set_ne_none
  by_cases hpath : p = path.dropLast
  · subst hpath
    rw [touch, Function.update_self, ne_eq, Option.map_eq_none_iff]
    exact h
  · rwa [touch, Function.update_of_ne hpath]

/-- What is there stays, and in the end the whole path is. -/
theorem ensureFrom_ne_none {base names : List Name} {t t' : FileTree Name}
    (h : ensureFrom base names t = .ok t') :
    (∀ p, t p ≠ none → t' p ≠ none) ∧ (t base ≠ none → t' (base ++ names) ≠ none) := by
  induction names generalizing base t with
  | nil =>
      obtain rfl := Except.ok.inj h
      rw [List.append_nil]
      exact ⟨fun _ hp => hp, fun hbase => hbase⟩
  | cons name names ih =>
      rw [ensureFrom] at h
      split at h
      · cases h
      · rw [List.append_cons]
        cases hnode : t (base ++ [name]) with
        | none =>
            simp only [hnode] at h
            have hmade : t.create (base ++ [name]) (.directory {}) (base ++ [name]) ≠ none := by
              rw [create, set_self]
              exact Option.some_ne_none _
            obtain ⟨hkept, hlast⟩ := ih h
            exact ⟨fun p hp => hkept p (create_ne_none hp), fun _ => hlast hmade⟩
        | some node =>
            have hthere : t (base ++ [name]) ≠ none := by
              rw [hnode]
              exact Option.some_ne_none node
            cases node with
            | file content metadata => simp only [hnode, reduceCtorEq] at h
            | directory metadata =>
                simp only [hnode] at h
                exact ⟨(ih h).1, fun _ => (ih h).2 hthere⟩

theorem mkdir_ok {path : List Name} {t t' : FileTree Name} (h : mkdir path t = .ok t') :
    ∃ between : FileTree Name, t.ensureDirectory path.dropLast = .ok between ∧ between path = none ∧
      t' = between.create path (.directory {}) := by
  rw [mkdir] at h
  rcases hparent : t.ensureDirectory path.dropLast with e | between
  · rw [hparent] at h
    cases h
  · rw [hparent] at h
    simp only [bind, Except.bind] at h
    split_ifs at h with hreach hfree
    exact ⟨between, rfl, not_not.mp hfree, (Except.ok.inj h).symm⟩

/-- No deed takes anything away. -/
theorem apply_ne_none {deed : TreeDeed Name} {t t' : FileTree Name} (h : apply deed t = .ok t')
    {p : List Name} (hp : t p ≠ none) : t' p ≠ none := by
  have hmetadata : ∀ {path : List Name} {change : FileMetadata → FileMetadata},
      updateMetadata path change t = .ok t' → t' p ≠ none := by
    intro path change h
    rw [updateMetadata] at h
    split at h
    · cases h
    · cases hnode : t path with
      | none => simp only [hnode, reduceCtorEq] at h
      | some node =>
          simp only [hnode] at h
          rw [← Except.ok.inj h]
          exact set_ne_none hp
  cases deed with
  | mkdir path =>
      obtain ⟨between, hparent, -, rfl⟩ := mkdir_ok h
      exact create_ne_none ((ensureFrom_ne_none hparent).1 p hp)
  | mkdirParent path => exact (ensureFrom_ne_none h).1 p hp
  | openWrite path =>
      rw [apply, openWrite] at h
      split at h
      · cases h
      · cases hnode : t path with
        | none =>
            simp only [hnode] at h
            rw [← Except.ok.inj h]
            exact create_ne_none hp
        | some node =>
            cases node with
            | directory metadata => simp only [hnode, reduceCtorEq] at h
            | file content metadata =>
                simp only [hnode] at h
                rw [← Except.ok.inj h]
                exact set_ne_none hp
  | write path block =>
      rw [apply, write] at h
      cases hnode : t path with
      | none => simp only [hnode, reduceCtorEq] at h
      | some node =>
          cases node with
          | directory metadata => simp only [hnode, reduceCtorEq] at h
          | file content metadata =>
              simp only [hnode] at h
              rw [← Except.ok.inj h]
              exact set_ne_none hp
  | chmod path mode =>
      rw [apply, chmod] at h
      exact hmetadata h
  | utime path mtimeNs =>
      rw [apply, utime] at h
      exact hmetadata h

theorem applyAll_cons_eq_ok {deed : TreeDeed Name} {deeds : List (TreeDeed Name)} {t t' : FileTree Name} :
    applyAll (deed :: deeds) t = .ok t' ↔
      ∃ between, apply deed t = .ok between ∧ applyAll deeds between = .ok t' := by
  rw [applyAll]
  rcases apply deed t with e | between
  · simp [bind, Except.bind]
  · simp [bind, Except.bind]

theorem applyAll_append_eq_ok {first second : List (TreeDeed Name)} {t t' : FileTree Name} :
    applyAll (first ++ second) t = .ok t' ↔
      ∃ between, applyAll first t = .ok between ∧ applyAll second between = .ok t' := by
  rw [applyAll_append]
  rcases applyAll first t with e | between
  · simp [bind, Except.bind]
  · simp [bind, Except.bind]

theorem applyAll_ne_none {deeds : List (TreeDeed Name)} {t t' : FileTree Name}
    (h : applyAll deeds t = .ok t') {p : List Name} (hp : t p ≠ none) : t' p ≠ none := by
  induction deeds generalizing t with
  | nil => rwa [← Except.ok.inj h]
  | cons deed deeds ih =>
      obtain ⟨between, hdeed, hrest⟩ := applyAll_cons_eq_ok.mp h
      exact ih hrest (apply_ne_none hdeed hp)

/-- What is built has a parent. -/
theorem parent_of_deeds {i : TreeItem Name} {t t' : FileTree Name} (h : applyAll i.deeds t = .ok t')
    (hroot : t [] ≠ none) : t' i.path.dropLast ≠ none := by
  rw [TreeItem.deeds] at h
  cases hblocks : i.blocks with
  | none =>
      simp only [hblocks] at h
      obtain ⟨made, hmkdir, hrest⟩ := applyAll_cons_eq_ok.mp h
      obtain ⟨between, hparent, -, rfl⟩ := mkdir_ok hmkdir
      exact applyAll_ne_none hrest (create_ne_none ((ensureFrom_ne_none hparent).2 hroot))
  | some blocks =>
      simp only [hblocks] at h
      obtain ⟨between, hparent, hrest⟩ := applyAll_cons_eq_ok.mp h
      exact applyAll_ne_none hrest ((ensureFrom_ne_none hparent).2 hroot)

/-- A directory is built only where nothing was. -/
theorem free_of_deeds {i : TreeItem Name} {t t' : FileTree Name} (h : applyAll i.deeds t = .ok t')
    (hdirectory : i.isDirectory = true) : t i.path = none := by
  rw [TreeItem.isDirectory, Option.isNone_iff_eq_none] at hdirectory
  rw [TreeItem.deeds, hdirectory] at h
  obtain ⟨made, hmkdir, -⟩ := applyAll_cons_eq_ok.mp h
  obtain ⟨between, hparent, hfree, -⟩ := mkdir_ok hmkdir
  by_contra hthere
  exact (ensureFrom_ne_none hparent).1 i.path hthere hfree

/-- Where every parent is listed, the build succeeds only if the parents come first. -/
theorem parents_of_applyAll {items : List (TreeItem Name)} {t : FileTree Name}
    (hlisted : ∀ i ∈ items, i.path.dropLast = [] ∨
      ∃ d ∈ items, d.isDirectory = true ∧ d.path = i.path.dropLast)
    (hne : ∀ i ∈ items, i.path ≠ [])
    (h : applyAll (items.flatMap TreeItem.deeds) emptyDirectory = .ok t) :
    Trace.Lawful ParentBefore items := by
  intro before i after hsplit
  have hi : i ∈ items := by simp [hsplit]
  rcases hlisted i hi with hroot | ⟨d, hd, hdirectory, hpath⟩
  · exact .inl hroot
  rw [hsplit] at hd
  rcases List.mem_append.mp hd with hd | hd
  · exact .inr ⟨d, hd, hdirectory, hpath⟩
  rcases List.mem_cons.mp hd with rfl | hd
  · have hlength := congrArg List.length hpath
    have hpos := List.length_pos_iff.mpr (hne d hi)
    rw [List.length_dropLast] at hlength
    omega
  -- The parent comes later, but it is made with the item, and cannot be made again.
  obtain ⟨early, late, rfl⟩ := List.append_of_mem hd
  rw [hsplit, List.flatMap_append, List.flatMap_cons, List.flatMap_append, List.flatMap_cons] at h
  obtain ⟨t₁, hbefore, h⟩ := applyAll_append_eq_ok.mp h
  obtain ⟨t₂, hitem, h⟩ := applyAll_append_eq_ok.mp h
  obtain ⟨t₃, hearly, h⟩ := applyAll_append_eq_ok.mp h
  obtain ⟨t₄, hparent, -⟩ := applyAll_append_eq_ok.mp h
  have hroot : (emptyDirectory : FileTree Name) [] ≠ none := by simp [emptyDirectory]
  have hthere := applyAll_ne_none hearly (parent_of_deeds hitem (applyAll_ne_none hbefore hroot))
  rw [← hpath] at hthere
  exact absurd (free_of_deeds hparent hdirectory) hthere

end FileTree
