import MosaicArchive.Container.InnerStream
import MosaicArchive.Restore.Outcome

/-!
The tree that the deeds of a finished run leave. For a folder whose paths have no empty or dotted
components, the deeds can be done exactly if every directory is listed before what lies in it, and
then they leave one node for every entry, with its content and metadata.
-/

namespace MosaicArchive.Restore

open MosaicArchive.Manifest
open FixedWidth (Bytes)
open Utf8 (Text)

/-! ### Paths -/

/-- No component of the path is empty or a dot. -/
def Plain (path : Text) : Prop := posixParts path = path.splitOn '/'

instance (path : Text) : Decidable (Plain path) := inferInstanceAs (Decidable (_ = _))

theorem length_splitOn (c : Char) (text : Text) : (text.splitOn c).length = text.count c + 1 := by
  induction text with
  | nil => rfl
  | cons d text ih =>
      rw [List.splitOn_cons_eq_if_modifyHead, List.count_cons]
      split_ifs with hd
      · rw [List.length_cons, ih]
      · rw [List.length_modifyHead, ih, Nat.add_zero]

theorem posixParts_intercalate {parts : List Text}
    (h : ∀ part ∈ parts, part ≠ [] ∧ part ≠ ['.'] ∧ '/' ∉ part) (hne : parts ≠ []) :
    posixParts (['/'].intercalate parts) = parts := by
  rw [posixParts, List.splitOn_intercalate '/' (fun part hpart => (h part hpart).2.2) hne,
    List.filter_eq_self]
  intro part hpart
  simp [(h part hpart).1, (h part hpart).2.1]

namespace Plain

variable {path path' : Text}

theorem intercalate (h : Plain path) : ['/'].intercalate (posixParts path) = path := by
  rw [h, List.intercalate_splitOn]

theorem inj (h : Plain path) (h' : Plain path') (heq : posixParts path = posixParts path') :
    path = path' := by
  rw [← h.intercalate, heq, h'.intercalate]

theorem parts_ne_nil (h : Plain path) : posixParts path ≠ [] := by
  rw [h]
  exact List.splitOn_ne_nil '/' path

theorem length_parts (h : Plain path) : (posixParts path).length = path.count '/' + 1 := by
  rw [h, length_splitOn]

end Plain

/-- The directory above the entry is the root or one of the entries before it. -/
def ListedBefore (before : List Entry) (e : Entry) : Prop :=
  (posixParts e.relativePath).dropLast = [] ∨
    ∃ d ∈ before, d.isDirectory = true ∧
      posixParts d.relativePath = (posixParts e.relativePath).dropLast

/-- The check of the manifest, in terms of the components. -/
theorem parent_listed {entries : List Entry} {e : Entry}
    (h : parentPosix e.relativePath = ['.'] ∨
      ∃ d ∈ entries, d.isDirectory ∧ d.relativePath = parentPosix e.relativePath) :
    ListedBefore entries e := by
  rw [ListedBefore, or_iff_not_imp_left]
  intro hne
  have hparts : ∀ part ∈ (posixParts e.relativePath).dropLast,
      part ≠ [] ∧ part ≠ ['.'] ∧ '/' ∉ part := by
    intro part hpart
    obtain ⟨hmem, hempty, hdot⟩ := mem_posixParts.mp (List.mem_of_mem_dropLast hpart)
    exact ⟨hempty, hdot, Container.not_mem_of_mem_splitOn hmem⟩
  have hjoined : parentPosix e.relativePath =
      ['/'].intercalate (posixParts e.relativePath).dropLast := by
    rw [parentPosix]
    cases hdrop : (posixParts e.relativePath).dropLast with
    | nil => exact absurd hdrop hne
    | cons part parts => rfl
  have hback := posixParts_intercalate hparts hne
  rw [← hjoined] at hback
  rcases h with hdot | ⟨d, hd, hdirectory, hpath⟩
  · have hroot : posixParts ['.'] = [] := by decide
    rw [hdot, hroot] at hback
    exact absurd hback.symm hne
  · exact ⟨d, hd, hdirectory, by rw [hpath, hback]⟩

/-! ### The items of a folder -/

/-- The entries of a folder as a manifest lists them, under plain paths. -/
structure PlainFolder (entries : List Entry) : Prop where
  entryType : ∀ e ∈ entries, e.entryType = entryFile ∨ e.entryType = entryDirectory
  plain : ∀ e ∈ entries, Plain e.relativePath
  nodup : (entries.map Entry.relativePath).Nodup
  parents : ∀ e ∈ entries, ListedBefore entries e

section

variable {σ : Type} {job : Job σ} {items : List (TreeItem Text)}

/-- The item of an entry is at its place, and a directory where the entry is one. -/
structure ItemOf (kind : ℕ) (e : Entry) (i : TreeItem Text) : Prop where
  path : i.path = target kind e
  directory : e.isDirectory = true → i = directoryItem kind e
  file : e.isDirectory = false → i.isDirectory = false

theorem Restores.itemOf {e : Entry} {i : TreeItem Text} (h : Restores job e i) :
    ItemOf job.kind e i := by
  rw [Restores] at h
  split at h
  · rename_i hdirectory
    have htrue : e.isDirectory = true := isDirectory_iff.mpr hdirectory
    refine ⟨congrArg TreeItem.path h, fun _ => h, fun hfalse => ?_⟩
    rw [htrue] at hfalse
    cases hfalse
  · rename_i hfile
    obtain ⟨blocks, rfl, -⟩ := h
    exact ⟨rfl, fun htrue => absurd (isDirectory_iff.mp htrue) hfile, fun _ => rfl⟩

theorem ItemOf.isDirectory_eq {kind : ℕ} {e : Entry} {i : TreeItem Text} (h : ItemOf kind e i) :
    i.isDirectory = e.isDirectory := by
  cases hdirectory : e.isDirectory with
  | true =>
      rw [h.directory hdirectory]
      rfl
  | false => exact h.file hdirectory

variable {entries : List Entry}

theorem map_path {kind : ℕ} (h : List.Forall₂ (ItemOf kind) entries items) :
    items.map TreeItem.path = entries.map (target kind) := by
  induction h with
  | nil => rfl
  | cons hi _ ih => rw [List.map_cons, List.map_cons, ih, hi.path]

theorem filter_isDirectory {kind : ℕ} (h : List.Forall₂ (ItemOf kind) entries items) :
    items.filter TreeItem.isDirectory = (entries.filter Entry.isDirectory).map (directoryItem kind) := by
  induction h with
  | nil => rfl
  | @cons e i entries items hi _ ih =>
      rw [List.filter_cons, List.filter_cons, hi.isDirectory_eq]
      split
      · rename_i hdirectory
        rw [List.map_cons, ih, hi.directory hdirectory]
      · exact ih

theorem exists_entry {kind : ℕ} (h : List.Forall₂ (ItemOf kind) entries items) {i : TreeItem Text}
    (hi : i ∈ items) : ∃ e ∈ entries, ItemOf kind e i := by
  induction h with
  | nil => cases hi
  | @cons e i' entries items hei _ ih =>
      rcases List.mem_cons.mp hi with rfl | hi
      · exact ⟨e, List.mem_cons_self, hei⟩
      · obtain ⟨e', he', hei'⟩ := ih hi
        exact ⟨e', List.mem_cons_of_mem e he', hei'⟩

theorem target_folder (e : Entry) : target kindFolder e = posixParts e.relativePath := rfl

theorem PlainFolder.nodup_target (hfolder : PlainFolder entries) :
    (entries.map (target kindFolder)).Nodup := by
  refine List.Nodup.map_on ?_ (List.Nodup.of_map _ hfolder.nodup)
  intro e he e' he' heq
  rw [target_folder, target_folder] at heq
  exact List.inj_on_of_nodup_map hfolder.nodup he he'
    ((hfolder.plain e he).inj (hfolder.plain e' he') heq)

theorem PlainFolder.distinct (hfolder : PlainFolder entries)
    (h : List.Forall₂ (ItemOf kindFolder) entries items) : Distinct items := by
  refine ⟨?_, fun i hi hroot => ?_⟩
  · rw [map_path h]
    exact hfolder.nodup_target
  · have hmem : i.path ∈ items.map TreeItem.path := List.mem_map_of_mem hi
    rw [map_path h, hroot, List.mem_map] at hmem
    obtain ⟨e, he, hpath⟩ := hmem
    exact (hfolder.plain e he).parts_ne_nil hpath

/-- The order by the number of slashes. -/
theorem PlainFolder.deepestFirst (hfolder : PlainFolder entries)
    (h : List.Forall₂ (ItemOf kindFolder) entries items) :
    DeepestFirst items ((directoriesByDepth entries).map (directoryItem kindFolder)) := by
  refine ⟨?_, ?_⟩
  · rw [filter_isDirectory h]
    exact (List.mergeSort_perm _ _).map _
  · rw [List.pairwise_map]
    have hsorted : (directoriesByDepth entries).Pairwise fun a b =>
        decide (b.relativePath.count '/' ≤ a.relativePath.count '/') = true := by
      apply List.pairwise_mergeSort
      · intro a b c hab hbc
        simp only [decide_eq_true_eq] at hab hbc ⊢
        exact hbc.trans hab
      · intro a b
        simp only [Bool.or_eq_true, decide_eq_true_eq]
        exact Nat.le_total _ _
    have hmem : ∀ e ∈ directoriesByDepth entries, e ∈ entries := fun e he =>
      (List.mem_filter.mp (List.mem_mergeSort.mp he)).1
    have hnodup : (directoriesByDepth entries).Nodup := by
      rw [directoriesByDepth, (List.mergeSort_perm _ _).nodup_iff]
      exact (List.Nodup.of_map _ hfolder.nodup).filter _
    refine (hsorted.and hnodup).imp_of_mem ?_
    rintro a b ha hb ⟨hle, hne⟩ hprefix
    simp only [decide_eq_true_eq] at hle
    have hplain := hfolder.plain a (hmem a ha)
    have hplain' := hfolder.plain b (hmem b hb)
    have hlength : (posixParts b.relativePath).length ≤ (posixParts a.relativePath).length := by
      rw [hplain.length_parts, hplain'.length_parts]
      exact Nat.succ_le_succ hle
    have hsame : posixParts a.relativePath = posixParts b.relativePath :=
      List.IsPrefix.eq_of_length_le hprefix hlength
    exact hne (List.inj_on_of_nodup_map hfolder.nodup (hmem a ha) (hmem b hb)
      (hplain.inj hplain' hsame))

theorem parentBefore_iff {e : Entry} {i : TreeItem Text}
    (h : List.Forall₂ (ItemOf kindFolder) entries items) (hi : ItemOf kindFolder e i) :
    ParentBefore items i ↔ ListedBefore entries e := by
  have hdirectories : (∃ d ∈ items, d.isDirectory = true ∧ d.path = i.path.dropLast) ↔
      i.path.dropLast ∈ (items.filter TreeItem.isDirectory).map TreeItem.path := by
    simp only [List.mem_map, List.mem_filter, and_assoc]
  rw [ParentBefore, ListedBefore, hdirectories, filter_isDirectory h, hi.path, target_folder,
    List.map_map]
  simp only [List.mem_map, List.mem_filter, and_assoc]
  rfl

theorem lawful_iff (h : List.Forall₂ (ItemOf kindFolder) entries items) :
    Trace.Lawful ParentBefore items ↔ Trace.Lawful ListedBefore entries :=
  (Trace.lawful_iff_of_forall₂ (R := ListedBefore) (T := ParentBefore) h
    fun _ _ _ _ hbefore hi => (parentBefore_iff hbefore hi).symm).symm

theorem itemDeeds_folder (i : TreeItem Text) : itemDeeds kindFolder i = i.deeds := by
  rw [itemDeeds, TreeItem.deeds]
  cases i.blocks with
  | none => rfl
  | some blocks => rfl

theorem allItemDeeds_folder (hkind : job.kind = kindFolder) : allItemDeeds job items =
    FileTree.allDeeds items ((directoriesByDepth job.entries).map (directoryItem kindFolder)) := by
  rw [allItemDeeds, FileTree.allDeeds, hkind, lastDeeds, if_pos rfl, List.flatMap_map,
    List.flatMap_congr fun i _ => itemDeeds_folder i]

/-- The deeds of a finished run can be done exactly if every directory is listed before what lies in
it; then they leave the tree of the items. -/
theorem folder_tree (hkind : job.kind = kindFolder) (hfolder : PlainFolder job.entries)
    (hrestored : Restored job items) {t : FileTree Text} :
    FileTree.applyAll (allItemDeeds job items) FileTree.emptyDirectory = .ok t ↔
      Trace.Lawful ListedBefore job.entries ∧ t = FileTree.ofItems items := by
  have hitems : List.Forall₂ (ItemOf kindFolder) job.entries items := by
    rw [← hkind]
    exact List.Forall₂.imp (fun _ _ h => h.itemOf) hrestored
  have hdistinct := hfolder.distinct hitems
  rw [allItemDeeds_folder hkind, ← lawful_iff hitems]
  constructor
  · intro h
    obtain ⟨built, hbuilt, -⟩ := FileTree.applyAll_append_eq_ok.mp h
    have hlisted : ∀ i ∈ items, i.path.dropLast = [] ∨
        ∃ d ∈ items, d.isDirectory = true ∧ d.path = i.path.dropLast := by
      intro i hi
      obtain ⟨e, he, hei⟩ := exists_entry hitems hi
      exact (parentBefore_iff hitems hei).mpr (hfolder.parents e he)
    have hparents := FileTree.parents_of_applyAll hlisted hdistinct.nonempty hbuilt
    have htree := FileTree.applyAll_allDeeds hdistinct hparents (hfolder.deepestFirst hitems)
    exact ⟨hparents, Except.ok.inj (h.symm.trans htree)⟩
  · rintro ⟨hparents, rfl⟩
    exact FileTree.applyAll_allDeeds hdistinct hparents (hfolder.deepestFirst hitems)

/-! ### What is in the tree -/

/-- The node of an entry: its metadata, and for a file a content that passes the check. -/
def NodeOf (verify : Entry → Bytes → Except PyError Unit) (e : Entry) (node : FileNode) : Prop :=
  if e.entryType = entryDirectory then node = .directory ⟨some e.mode, some e.mtimeNs⟩
  else ∃ content, node = .file content ⟨some e.mode, some e.mtimeNs⟩ ∧ verify e content = .ok ()

/-- The tree has a node for every entry, and nothing else but the root. -/
structure IsTreeOf (verify : Entry → Bytes → Except PyError Unit) (entries : List Entry)
    (t : FileTree Text) : Prop where
  node : ∀ e ∈ entries, ∃ node, t (posixParts e.relativePath) = some node ∧ NodeOf verify e node
  only : ∀ path, t path ≠ none → path = [] ∨ ∃ e ∈ entries, posixParts e.relativePath = path

theorem Restores.nodeOf {e : Entry} {i : TreeItem Text} (h : Restores job e i) :
    NodeOf job.verify e i.node := by
  rw [Restores] at h
  rw [NodeOf]
  split at h
  · rename_i hdirectory
    rw [if_pos hdirectory, h]
    rfl
  · rename_i hfile
    obtain ⟨blocks, rfl, hverify⟩ := h
    rw [if_neg hfile]
    exact ⟨blocks.flatten, rfl, hverify⟩

theorem exists_item {R : Entry → TreeItem Text → Prop} (h : List.Forall₂ R entries items) {e : Entry}
    (he : e ∈ entries) : ∃ i ∈ items, R e i := by
  induction h with
  | nil => cases he
  | @cons e' i entries items hi _ ih =>
      rcases List.mem_cons.mp he with rfl | he
      · exact ⟨i, List.mem_cons_self, hi⟩
      · obtain ⟨i', hi', hei⟩ := ih he
        exact ⟨i', List.mem_cons_of_mem i hi', hei⟩

theorem isTreeOf_ofItems (hkind : job.kind = kindFolder) (hfolder : PlainFolder job.entries)
    (hrestored : Restored job items) : IsTreeOf job.verify job.entries (FileTree.ofItems items) := by
  have hitems : List.Forall₂ (ItemOf kindFolder) job.entries items := by
    rw [← hkind]
    exact List.Forall₂.imp (fun _ _ h => h.itemOf) hrestored
  have hdistinct := hfolder.distinct hitems
  refine ⟨fun e he => ?_, fun path hpath => ?_⟩
  · obtain ⟨i, hi, hei⟩ := exists_item hrestored he
    have hplace : i.path = posixParts e.relativePath := by
      rw [hei.itemOf.path, hkind, target_folder]
    refine ⟨i.node, ?_, hei.nodeOf⟩
    rw [← hplace]
    exact FileTree.setAll_of_mem hdistinct.nodup hi
  · by_cases hlisted : ∃ i ∈ items, i.path = path
    · obtain ⟨i, hi, rfl⟩ := hlisted
      obtain ⟨e, he, hei⟩ := exists_entry hitems hi
      exact .inr ⟨e, he, hei.path.symm⟩
    · push Not at hlisted
      rw [FileTree.ofItems, FileTree.setAll_of_not_mem hlisted, FileTree.emptyDirectory] at hpath
      split at hpath
      · exact .inl ‹_›
      · exact absurd rfl hpath

/-! ### Files and folders -/

/-- What the parsers of the manifests ensure of the entries, apart from the contents of files. -/
structure Catalog (u : Unicode) (kind : ℕ) (entries : List Entry) : Prop where
  entryType : ∀ e ∈ entries, e.entryType = entryFile ∨ e.entryType = entryDirectory
  paths : (entries.map fun e => u.casefold e.relativePath).Nodup
  parents : kind = kindFolder → ∀ e ∈ entries, parentPosix e.relativePath = ['.'] ∨
    ∃ d ∈ entries, d.isDirectory ∧ d.relativePath = parentPosix e.relativePath
  single : kind = kindFile → ∃ e, entries = [e] ∧ e.isFile

theorem Catalog.plainFolder {u : Unicode} {kind : ℕ} (h : Catalog u kind entries)
    (hkind : kind = kindFolder) (hplain : ∀ e ∈ entries, Plain e.relativePath) :
    PlainFolder entries where
  entryType := h.entryType
  plain := hplain
  nodup := by
    have hnodup := h.paths
    rw [← Function.comp_def u.casefold, ← List.map_map] at hnodup
    exact hnodup.of_map
  parents e he := parent_listed (h.parents hkind e he)

/-- What the deeds below the temporary root leave there. -/
structure Rebuilds (verify : Entry → Bytes → Except PyError Unit) (kind : ℕ) (entries : List Entry)
    (built : List (TreeDeed Text)) : Prop where
  folder : kind = kindFolder → (∀ e ∈ entries, Plain e.relativePath) →
    ((∃ t, FileTree.applyAll built FileTree.emptyDirectory = .ok t) ↔
      Trace.Lawful ListedBefore entries) ∧
    ∀ t, FileTree.applyAll built FileTree.emptyDirectory = .ok t → IsTreeOf verify entries t
  file : kind = kindFile → ∃ e node, entries = [e] ∧ NodeOf verify e node ∧
    FileTree.applyAll built FileTree.emptyFile = .ok (FileTree.emptyFile.set [] node)

/-- What is built for a single file. -/
theorem allItemDeeds_file {e : Entry} {blocks : List Bytes} (hkind : job.kind = kindFile) :
    allItemDeeds job [fileItem job.kind e blocks] = (fileItem job.kind e blocks).fill blocks := by
  have hne : job.kind ≠ kindFolder := by
    rw [hkind]
    decide
  rw [allItemDeeds, lastDeeds, if_neg hne, List.flatMap_singleton, List.append_nil, itemDeeds]
  simp [fileItem, hne]

theorem Catalog.rebuilds {u : Unicode} (h : Catalog u job.kind job.entries)
    (hrestored : Restored job items) :
    Rebuilds job.verify job.kind job.entries (allItemDeeds job items) := by
  refine ⟨fun hkind hplain => ?_, fun hkind => ?_⟩
  · have hfolder := h.plainFolder hkind hplain
    have htree := @folder_tree _ job items hkind hfolder hrestored
    refine ⟨⟨fun ⟨t, ht⟩ => (htree.mp ht).1, fun hlawful => ⟨_, htree.mpr ⟨hlawful, rfl⟩⟩⟩, ?_⟩
    intro t ht
    rw [(htree.mp ht).2]
    exact isTreeOf_ofItems hkind hfolder hrestored
  · obtain ⟨e, hentries, hfile⟩ := h.single hkind
    have hsingle : List.Forall₂ (Restores job) [e] items := by
      rw [← hentries]
      exact hrestored
    obtain ⟨i, rest, hi, hnil, rfl⟩ := List.forall₂_cons_left_iff.mp hsingle
    obtain rfl := List.forall₂_nil_left_iff.mp hnil
    refine ⟨e, i.node, hentries, hi.nodeOf, ?_⟩
    have htype := h.entryType e (by rw [hentries]; exact List.mem_singleton_self e)
    rw [Restores, if_neg ((isFile_iff htype).mp hfile)] at hi
    obtain ⟨blocks, rfl, -⟩ := hi
    have hroot : (fileItem job.kind e blocks).path = [] := if_pos hkind
    rw [allItemDeeds_file hkind, FileTree.applyAll_fill_root hroot]
    rfl

end

end MosaicArchive.Restore
