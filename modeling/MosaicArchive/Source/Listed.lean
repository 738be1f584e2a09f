import MosaicArchive.Restore.FolderTree
import MosaicArchive.Solid.CompactCanonical
import MosaicArchive.Source.Bindings
import MosaicArchive.Source.OwnSource

/-!
A scan hands the parser nothing that it refuses. What a session has captured lies in directories it
has captured, too, and stands after them in the order of the entries; normalizing the paths keeps
that, because it works on each name alone.
-/

namespace MosaicArchive.Source

open Utf8 (Text)
open FixedWidth CallHistory MosaicArchive.Manifest
open MosaicArchive.Restore (Plain ListedBefore posixParts_intercalate)
open FileSystem (ProperName)

/-! ### Normalizing a path -/

/-- What NFC does to a path: a slash neither composes nor comes out of a decomposition, and only the
empty name and the dot become themselves. -/
structure Normalizes (u : Unicode) : Prop where
  nfc_nfc : ∀ text, u.nfc (u.nfc text) = u.nfc text
  nfc_slash : ∀ first second, u.nfc (first ++ '/' :: second) = u.nfc first ++ '/' :: u.nfc second
  slash_mem : ∀ text, '/' ∈ u.nfc text → '/' ∈ text
  eq_nil : ∀ text, u.nfc text = [] → text = []
  eq_dot : ∀ text, u.nfc text = ['.'] → text = ['.']

/-- A name `os.scandir` yields. -/
def ScannedName (name : Text) : Prop := ProperName name ∧ name ≠ ['.']

/-- `os.scandir` yields neither empty names nor paths nor the directory itself. -/
def ScansNames (env : Environment Call Reply) : Prop :=
  ∀ (h : History) (p : Path), ∀ name ∈ Listing.names (env h (.scandir p)), ScannedName name

theorem joined_cons {first : Text} {rest : List Text} (hne : rest ≠ []) :
    joined (first :: rest) = first ++ '/' :: joined rest := by
  cases rest with
  | nil => exact absurd rfl hne
  | cons second rest =>
      rw [joined, List.intercalate_cons_cons, List.append_assoc]
      rfl

section

variable {u : Unicode} (hu : Normalizes u)

include hu

theorem nfc_joined {names : List Text} (hne : names ≠ []) :
    u.nfc (joined names) = joined (names.map u.nfc) := by
  induction names with
  | nil => exact absurd rfl hne
  | cons first rest ih =>
      cases rest with
      | nil =>
          rw [List.map_singleton, joined, joined, List.intercalate_singleton,
            List.intercalate_singleton]
      | cons second rest =>
          have hmapped : joined ((first :: second :: rest).map u.nfc) =
              u.nfc first ++ '/' :: joined ((second :: rest).map u.nfc) :=
            joined_cons (List.cons_ne_nil _ _)
          rw [joined_cons (List.cons_ne_nil second rest), hu.nfc_slash, ih (List.cons_ne_nil _ _),
            hmapped]

theorem ScannedName.nfc {name : Text} (h : ScannedName name) :
    u.nfc name ≠ [] ∧ u.nfc name ≠ ['.'] ∧ '/' ∉ u.nfc name :=
  ⟨fun hnil => h.1.1 (hu.eq_nil name hnil), fun hdot => h.2 (hu.eq_dot name hdot),
    fun hslash => h.1.2 (hu.slash_mem name hslash)⟩

/-- The components of a normalized path are the normalized names. -/
theorem posixParts_nfc_joined {names : List Text} (hnames : ∀ name ∈ names, ScannedName name)
    (hne : names ≠ []) :
    posixParts (u.nfc (joined names)) = names.map u.nfc ∧ Plain (u.nfc (joined names)) := by
  have hparts : ∀ part ∈ names.map u.nfc, part ≠ [] ∧ part ≠ ['.'] ∧ '/' ∉ part := by
    intro part hpart
    obtain ⟨name, hname, rfl⟩ := List.mem_map.mp hpart
    exact ScannedName.nfc hu (hnames name hname)
  have hne' : names.map u.nfc ≠ [] := fun hnil => hne (List.map_eq_nil_iff.mp hnil)
  have hback := posixParts_intercalate hparts hne'
  have hsplit := List.splitOn_intercalate '/' (fun part hpart => (hparts part hpart).2.2) hne'
  rw [nfc_joined hu hne]
  refine ⟨hback, ?_⟩
  rw [Plain, joined, hback, hsplit]

end

/-! ### Where the entries of a session stand -/

/-- The entry lies in the root or in a directory among the entries. -/
structure PlacedAt (source : Path) (entries : List SourceEntry) (names : List Text)
    (e : SourceEntry) : Prop extends EntryAt source names e where
  scanned : ∀ name ∈ names, ScannedName name
  nonempty : names ≠ []
  parent : names.dropLast = [] ∨
    ∃ d ∈ entries, d.isDirectory = true ∧ EntryAt source names.dropLast d

theorem PlacedAt.mono {source : Path} {entries more : List SourceEntry} {names : List Text}
    {e : SourceEntry} (h : PlacedAt source entries names e) (hsub : ∀ d ∈ entries, d ∈ more) :
    PlacedAt source more names e := by
  refine ⟨h.toEntryAt, h.scanned, h.nonempty, ?_⟩
  rcases h.parent with hroot | ⟨d, hd, hdirectory, hat⟩
  · exact .inl hroot
  · exact .inr ⟨d, hsub d hd, hdirectory, hat⟩

def Placed (source : Path) (entries : List SourceEntry) : Prop :=
  ∀ e ∈ entries, ∃ names, PlacedAt source entries names e

/-- A directory whose children are looked for: the root, or one of the entries. -/
def Expands (source : Path) (entries : List SourceEntry) (e : SourceEntry) : Prop :=
  ∃ names, EntryAt source names e ∧ (∀ name ∈ names, ScannedName name) ∧
    (names = [] ∨ (e ∈ entries ∧ e.isDirectory = true))

theorem Expands.mono {source : Path} {entries more : List SourceEntry} {e : SourceEntry}
    (h : Expands source entries e) (hsub : ∀ d ∈ entries, d ∈ more) : Expands source more e := by
  obtain ⟨names, hat, hscanned, hroot | ⟨he, hdirectory⟩⟩ := h
  · exact ⟨names, hat, hscanned, .inl hroot⟩
  · exact ⟨names, hat, hscanned, .inr ⟨hsub e he, hdirectory⟩⟩

section

variable {env : Environment Call Reply} {u : Unicode} {source : Path}

theorem discoverChild_placed {current : SourceEntry} {name : Text} {entries : List SourceEntry}
    (hcurrent : Expands source entries current) (hname : ScannedName name) :
    Returns (discoverChild env current name) fun e _ => ∃ names, PlacedAt source entries names e := by
  obtain ⟨names, hat, hscanned, hplace⟩ := hcurrent
  refine Returns.mono (discoverChild_at hat hname.1) fun e _ he => ?_
  refine ⟨names ++ [name], he, ?_, by simp, ?_⟩
  · intro name' hname'
    rcases List.mem_append.mp hname' with hname' | hname'
    · exact hscanned name' hname'
    · rwa [List.mem_singleton.mp hname']
  · rw [List.dropLast_concat]
    exact hplace.imp id fun h => ⟨current, h.1, h.2, hat⟩

theorem Placed.add {d : Discovered} (h : Placed source d.entries) {names : List Text}
    {e : SourceEntry} (he : PlacedAt source d.entries names e) : Placed source (d.add e).entries := by
  have hsub : ∀ x ∈ d.entries, x ∈ (d.add e).entries := fun x hx => List.mem_append_left _ hx
  intro x hx
  rcases List.mem_append.mp hx with hx | hx
  · obtain ⟨names', hx'⟩ := h x hx
    exact ⟨names', hx'.mono hsub⟩
  · obtain rfl := List.mem_singleton.mp hx
    exact ⟨names, he.mono hsub⟩

/-- A directory adds its children to the entries. -/
theorem scanDirectory_placed (hnames : ScansNames env) {current : SourceEntry} {d : Discovered}
    (hcurrent : Expands source d.entries current) (hd : Placed source d.entries) :
    Returns (scanDirectory env current d) fun d' _ =>
      Placed source d'.entries ∧ ∀ e ∈ d.entries, e ∈ d'.entries := by
  have hlisting : Returns (ask env (.scandir current.path) : Run Listing)
      fun listing _ => ∀ name ∈ listing.names, ScannedName name :=
    fun h => ⟨_, rfl, hnames h current.path⟩
  refine Returns.bind hlisting fun listing _ hscanned => ?_
  have hloop : ∀ (left : List Text), (∀ name ∈ left, ScannedName name) → ∀ t : Discovered,
      Placed source t.entries ∧ (∀ e ∈ d.entries, e ∈ t.entries) →
      Returns (Routine.forEach (fun d name => do
        let e ← discoverChild env current name
        pure (d.add e)) left t) fun t' _ =>
          Placed source t'.entries ∧ ∀ e ∈ d.entries, e ∈ t'.entries := by
    intro left
    induction left with
    | nil => exact fun _ t ht => Returns.pure ht
    | cons name left ih =>
        intro hleft t ht
        rw [List.forall_mem_cons] at hleft
        have hbody : Returns (do
            let e ← discoverChild env current name
            pure (t.add e)) fun t' _ => Placed source t'.entries ∧ ∀ e ∈ d.entries, e ∈ t'.entries := by
          refine Returns.bind (discoverChild_placed (hcurrent.mono ht.2) hleft.1) ?_
          rintro e _ ⟨names, he⟩
          exact Returns.pure ⟨ht.1.add he, fun x hx => List.mem_append_left _ (ht.2 x hx)⟩
        exact Returns.bind hbody fun t' _ ht' => ih hleft.2 t' ht'
  refine Returns.bind (hloop listing.names hscanned d ⟨hd, fun _ he => he⟩) fun d' _ hd' => ?_
  exact Returns.bind_raiseIf fun _ => Returns.pure hd'

theorem discoverDirectory_placed (hnames : ScansNames env) {n : ℕ} {pending : List SourceEntry}
    {d : Discovered} (hpending : ∀ e ∈ pending, Expands source d.entries e)
    (hd : Placed source d.entries) :
    Returns (discoverDirectory env n pending d) fun d' _ => Placed source d'.entries := by
  induction n generalizing pending d with
  | zero => exact Returns.raise
  | succ n ih =>
      cases pending with
      | nil => exact Returns.pure hd
      | cons current pending =>
          rw [List.forall_mem_cons] at hpending
          refine Returns.bind (Returns.onError (scanDirectory_placed hnames hpending.1 hd)
            fun e => Returns.raise) ?_
          rintro d' _ ⟨hd', hsub⟩
          refine Returns.bind requireBinding_returns fun _ _ _ => ih ?_ hd'
          intro e he
          rcases List.mem_append.mp he with he | he
          · obtain ⟨hchild, hdirectory⟩ := List.mem_filter.mp (List.mem_reverse.mp he)
            have hmem := List.mem_of_mem_drop hchild
            obtain ⟨names, hat⟩ := hd' e hmem
            exact ⟨names, hat.toEntryAt, hat.scanned, .inr ⟨hmem, hdirectory⟩⟩
          · exact (hpending.2 e he).mono hsub

/-! ### The order of the entries -/

theorem entryOrder_eq (u : Unicode) (a b : SourceEntry) : entryOrder u a b =
    (compareLex (compareOn fun e : SourceEntry => e.relativePath.count '/')
      (compareLex (compareOn fun e : SourceEntry => u.casefold e.relativePath)
        (compareLex (compareOn fun e : SourceEntry => !e.isDirectory)
          (compareOn SourceEntry.relativePath))) a b).isLE := rfl

theorem isLE_total {α : Type} (cmp : α → α → Ordering) [Std.OrientedCmp cmp] (a b : α) :
    ((cmp a b).isLE || (cmp b a).isLE) = true := by
  have hswap : (cmp a b).isGE = (cmp b a).isLE := Std.OrientedCmp.isGE_eq_isLE
  rw [← hswap]
  cases cmp a b <;> rfl

theorem pairwise_entryOrder (u : Unicode) (entries : List SourceEntry) :
    (entries.mergeSort (entryOrder u)).Pairwise fun a b => entryOrder u a b = true := by
  apply List.pairwise_mergeSort
  · intro a b c hab hbc
    rw [entryOrder_eq] at hab hbc ⊢
    exact Std.TransCmp.isLE_trans hab hbc
  · intro a b
    rw [entryOrder_eq, entryOrder_eq u b a]
    exact isLE_total _ a b

theorem count_le_of_entryOrder {a b : SourceEntry} (h : entryOrder u a b = true) :
    a.relativePath.count '/' ≤ b.relativePath.count '/' := by
  rw [entryOrder] at h
  exact Nat.isLE_compare.mp (Ordering.isLE_left_of_isLE_then h)

/-- What a session holds of a folder. -/
structure SourceSession.Ordered (u : Unicode) (s : SourceSession) : Prop where
  placed : Placed s.source s.entries
  sorted : s.entries.Pairwise fun a b => entryOrder u a b = true

theorem capture_ordered (hnames : ScansNames env) (directories : ℕ) :
    Returns (SourceSession.capture env u directories source) fun s _ =>
      s.source = source ∧ (s.rootIsFile = false → s.Ordered u) := by
  have hinitial : Returns (initialMetadata env source) fun _ _ => True :=
    Returns.bind_ask fun reply => Returns.bind statReply_returns fun m _ _ =>
      Returns.bind_raiseIf fun _ => Returns.pure trivial
  refine Returns.bind hinitial fun m _ _ => Returns.bind_raiseIf fun hkind => ?_
  refine Returns.bind_lift fun identity hidentity => ?_
  by_cases hfile : m.isRegular = true
  · simp only [hfile, if_true]
    exact Returns.pure ⟨rfl, fun h => absurd h Bool.true_eq_false_eq_False⟩
  · have hdirectory : m.isDirectory = true := by
      by_contra hnot
      exact hkind ⟨hfile, hnot⟩
    have hmetadata : identity.metadata = m := by
      rw [SourceIdentity.capture] at hidentity
      split_ifs at hidentity
      rw [← Except.ok.inj hidentity]
    rw [Bool.not_eq_true] at hfile
    simp only [hfile, Bool.not_false, Bool.false_eq_true, if_false]
    have hroot : EntryAt source [] ⟨[], true, identity, source, []⟩ := by
      refine ⟨fun _ h => absurd h List.not_mem_nil, rfl, (List.append_nil source).symm, ?_⟩
      rw [hmetadata, hdirectory]
    have hpending : ∀ e ∈ [(⟨[], true, identity, source, []⟩ : SourceEntry)],
        Expands source [] e := by
      intro e he
      rw [List.mem_singleton.mp he]
      exact ⟨[], hroot, fun _ h => absurd h List.not_mem_nil, .inl rfl⟩
    have hdiscovered : Returns (discoverDirectory env directories
        [⟨[], true, identity, source, []⟩] ⟨[([], ⟨[], true, identity, source, []⟩)], []⟩)
        fun d _ => Placed source d.entries :=
      discoverDirectory_placed hnames hpending fun _ h => absurd h List.not_mem_nil
    refine Returns.bind hdiscovered fun d _ hd => ?_
    refine Returns.pure ⟨rfl, fun _ => ⟨fun e he => ?_, pairwise_entryOrder u _⟩⟩
    obtain ⟨names, hat⟩ := hd e (List.mem_mergeSort.mp he)
    exact ⟨names, hat.mono fun x hx => List.mem_mergeSort.mpr hx⟩

/-! ### What a scan lists -/

/-- What the parser asks of an entry, apart from the widths of its numbers. -/
structure Shaped (u : Unicode) (chunkSize : ℕ) (e : Entry) : Prop where
  entryType : e.entryType = entryFile ∨ e.entryType = entryDirectory
  mode : e.mode ≤ 511
  path : Canonical u e.relativePath
  directory : e.isDirectory → e.size = 0 ∧ e.first = 0 ∧ e.count = 0 ∧ e.digest = zeroHash
  file : e.isFile → HasFrames chunkSize e
  digest : e.digest.length = 32

/-- An entry that is serialized has numbers of the widths. -/
theorem Shaped.listed {chunkSize : ℕ} {e : Entry} (h : Shaped u chunkSize e) {b : Bytes}
    (hb : e.pack = some b) : Listed u (HasFrames chunkSize) e := by
  obtain ⟨fixed, hfixed, -⟩ := Entry.pack_eq_some.mp hb
  have htype : e.entryType ∈ [entryFile, entryDirectory] := by simpa using h.entryType
  have hexact := Solid.exact_of_packEntry hfixed h.digest
  exact ⟨h.entryType, h.mode, h.path, h.directory, h.file,
    (Entry.exact_fixed htype h.mode h.path.length_lt).mp hexact⟩

theorem canonical_of_validated (hu : Normalizes u) {value path : Text}
    (h : validateRelativePath u value = .ok path) : Canonical u path := by
  obtain ⟨rfl, hportable⟩ := validateRelativePath_eq_ok.mp h
  exact validateRelativePath_eq_ok.mpr ⟨(hu.nfc_nfc value).symm, hportable⟩

theorem directoryMetadata_shaped (hu : Normalizes u) {e : SourceEntry} {relative : Text} {path : Path}
    {chunkSize : ℕ} :
    Returns (directoryMetadata u e entryDirectory relative path) fun entry _ =>
      Shaped u chunkSize entry ∧ entry.entryType = entryDirectory := by
  refine Returns.bind_raiseIf fun _ => Returns.bind_lift fun validated hvalidated => Returns.pure ?_
  have hpath := canonical_of_validated hu (ofPython_eq_ok.mp hvalidated)
  refine ⟨⟨.inr rfl, Nat.and_le_right, hpath, fun _ => ⟨rfl, rfl, rfl, rfl⟩, ?_, ?_⟩, rfl⟩
  · intro hfile
    rw [isFile_iff (.inr rfl)] at hfile
    exact absurd rfl hfile
  · exact List.length_replicate

theorem fileMetadata_shaped (hu : Normalizes u) {platform : Platform} {s : SourceSession}
    {e : SourceEntry} {relative : Text} {path : Path} {chunkSize firstFrame : ℕ} {hashFiles : Bool} :
    Returns (fileMetadata u env platform s e entryFile relative path chunkSize firstFrame hashFiles)
      fun entry _ => Shaped u chunkSize entry ∧ entry.entryType = entryFile ∧
        entry.first = firstFrame := by
  have hcontent : Returns (sizeAndDigest env platform s e hashFiles) fun r _ => r.2.length = 32 := by
    cases hashFiles with
    | false => exact Returns.pure List.length_replicate
    | true =>
        refine Returns.mono hashFile_returns fun r _ hr => ?_
        obtain ⟨_, reads, -, -, hdigest⟩ := hr
        rw [hdigest]
        exact sha256_length _
  refine Returns.bind_raiseIf fun _ => Returns.bind hcontent fun r _ hdigest => ?_
  refine Returns.bind_lift fun count hcount => Returns.bind_lift fun validated hvalidated =>
    Returns.pure ?_
  have hpath := canonical_of_validated hu (ofPython_eq_ok.mp hvalidated)
  refine ⟨⟨.inl rfl, Nat.and_le_right, hpath, ?_, ?_, hdigest⟩, rfl, rfl⟩
  · intro hdirectory
    rw [isDirectory_iff] at hdirectory
    cases hdirectory
  · exact fun _ => requiredFrames_eq_ok.mp (ofPython_eq_ok.mp hcount)

theorem entryMetadata_shaped (hu : Normalizes u) {platform : Platform} {s : SourceSession}
    {e : SourceEntry} {entryType : ℕ} {relative : Text} {chunkSize firstFrame : ℕ} {hashFiles : Bool}
    (htype : entryType = entryFile ∨ entryType = entryDirectory) :
    Returns (entryMetadata u env platform s e entryType relative chunkSize firstFrame hashFiles)
      fun entry _ => Shaped u chunkSize entry ∧ entry.entryType = entryType ∧
        (entry.isFile → entry.first = firstFrame) := by
  refine Returns.bind_lift fun path _ => ?_
  rcases htype with rfl | rfl
  · rw [if_neg (by decide)]
    exact Returns.mono (fileMetadata_shaped hu) fun entry _ ⟨hshaped, htype, hfirst⟩ =>
      ⟨hshaped, htype, fun _ => hfirst⟩
  · rw [if_pos rfl]
    refine Returns.mono (directoryMetadata_shaped hu) fun entry _ ⟨hshaped, htype⟩ =>
      ⟨hshaped, htype, fun hfile => ?_⟩
    rw [isFile_iff (.inr htype)] at hfile
    exact absurd htype hfile

/-- The ranges of the files follow one another as the loop counts them. -/
theorem scanEntries_shaped (hu : Normalizes u) {platform : Platform} {s : SourceSession}
    {chunkSize : ℕ} {hashFiles : Bool} {es : List SourceEntry} {t : InputTable} :
    Returns (Routine.forEach (scanEntry u env platform s chunkSize hashFiles) es t) fun t' _ =>
      ∃ new, t'.entries = t.entries ++ new ∧ (∀ e ∈ new, Shaped u chunkSize e) ∧
        Consecutive t.nextFrame (new.filter Entry.isFile)
          (t.nextFrame + ((new.filter Entry.isFile).map Entry.count).sum) := by
  induction es generalizing t with
  | nil => exact Returns.pure ⟨[], (List.append_nil _).symm, fun _ h => absurd h List.not_mem_nil, rfl⟩
  | cons e es ih =>
      have hentry : Returns (scanEntry u env platform s chunkSize hashFiles t e) fun t' _ =>
          ∃ entry, t'.entries = t.entries ++ [entry] ∧ Shaped u chunkSize entry ∧
            (entry.isFile → entry.first = t.nextFrame) ∧
            t'.nextFrame = if entry.isFile then t.nextFrame + entry.count else t.nextFrame := by
        refine Returns.bind_lift fun normalized _ => Returns.bind_raiseIf fun _ => ?_
        have htype : (if e.isDirectory then entryDirectory else entryFile) = entryFile ∨
            (if e.isDirectory then entryDirectory else entryFile) = entryDirectory := by
          cases e.isDirectory with
          | false => exact .inl rfl
          | true => exact .inr rfl
        refine Returns.bind (entryMetadata_shaped hu htype) fun entry _ hmade => Returns.pure ?_
        obtain ⟨hshaped, -, hfirst⟩ := hmade
        refine ⟨entry, rfl, hshaped, hfirst, ?_⟩
        simp only [Entry.isFile, decide_eq_true_eq]
      refine Returns.bind hentry fun t' _ hmade => ?_
      obtain ⟨entry, hentries, hshaped, hfirst, hnext⟩ := hmade
      refine Returns.mono ih fun t'' _ hmade => ?_
      obtain ⟨new, hentries', hnew, hranges⟩ := hmade
      refine ⟨entry :: new, ?_, List.forall_mem_cons.mpr ⟨hshaped, hnew⟩, ?_⟩
      · rw [hentries', hentries, List.append_assoc, List.singleton_append]
      · rw [hnext] at hranges
        by_cases hfile : entry.isFile = true
        · rw [if_pos hfile] at hranges
          rw [List.filter_cons_of_pos hfile, List.map_cons, List.sum_cons, ← Nat.add_assoc]
          exact ⟨hfirst hfile, hranges⟩
        · rw [if_neg hfile] at hranges
          rw [List.filter_cons_of_neg hfile]
          exact hranges

/-- What a scan makes of a session, entry by entry. -/
structure ScanShape (u : Unicode) (s : SourceSession) (chunkSize : ℕ) (m : StreamManifest) : Prop where
  entries : ∀ e ∈ m.entries, Shaped u chunkSize e
  kind : m.kind = kindFile ∨ m.kind = kindFolder
  ranges : Consecutive 1 m.files (1 + (m.files.map Entry.count).sum)
  limit : m.entries.length ≤ maxEntryCount
  rootName : validateRelativePath u (s.source.getLastD []) = .ok m.rootName
  single : m.kind = kindFile →
    ∃ e, m.entries = [e] ∧ e.isFile ∧ e.relativePath = u.nfc m.rootName

theorem scanInput_shaped (hu : Normalizes u) {platform : Platform} {s : SourceSession} {chunkSize : ℕ}
    {hashFiles : Bool} :
    Returns (scanInput u env platform s chunkSize hashFiles) fun m _ => ScanShape u s chunkSize m := by
  refine Returns.bind_lift fun rootName hroot => ?_
  rw [ofPython_eq_ok] at hroot
  by_cases hfile : s.rootIsFile = true
  · rw [if_pos hfile, scanFile]
    cases s.entries with
    | nil => exact Returns.raise
    | cons root rest =>
        refine Returns.bind (Returns.and (entryMetadata_shaped hu (.inl rfl)) entryMetadata_returns)
          fun entry _ hmade => Returns.pure ?_
        obtain ⟨⟨hshaped, htype, hfirst⟩, -, hpath, -⟩ := hmade
        have hisFile : entry.isFile = true := by
          rw [isFile_iff (.inl htype), htype]
          decide
        have hfiles : [entry].filter Entry.isFile = [entry] := List.filter_cons_of_pos hisFile
        refine ⟨List.forall_mem_singleton.mpr hshaped, .inl rfl, ?_, Nat.le_of_ble_eq_true rfl, hroot,
          fun _ => ?_⟩
        · rw [StreamManifest.files, hfiles]
          exact ⟨hfirst hisFile, rfl⟩
        · exact ⟨entry, rfl, hisFile, (validateRelativePath_eq_ok.mp hpath).1⟩
  · rw [if_neg hfile]
    refine Returns.bind (scanEntries_shaped hu) fun t _ hmade => ?_
    obtain ⟨new, hentries, hshaped, hranges⟩ := hmade
    obtain rfl : t.entries = new := hentries
    refine Returns.bind_raiseIf fun hlimit => Returns.pure ?_
    exact ⟨hshaped, .inr rfl, hranges, Nat.not_lt.mp hlimit, hroot, fun hkind => by cases hkind⟩

/-! ### Directories come before what lies in them -/

theorem EntryAt.length_eq {names : List Text} {e : SourceEntry} (h : EntryAt source names e)
    (hne : names ≠ []) : names.length = e.relativePath.count '/' + 1 := by
  rw [← Restore.length_splitOn, h.relative, joined,
    List.splitOn_intercalate '/' (fun name hname => (h.proper name hname).2) hne]

/-- An entry lies in the root or in an entry before it. -/
theorem SourceSession.Ordered.lawful {s : SourceSession} (h : s.Ordered u) :
    Trace.Lawful (fun before e => ∃ names, PlacedAt s.source before names e) s.entries := by
  intro before e after hsplit
  have he : e ∈ s.entries := by
    rw [hsplit]
    exact List.mem_append_right _ List.mem_cons_self
  obtain ⟨names, hat⟩ := h.placed e he
  refine ⟨names, hat.toEntryAt, hat.scanned, hat.nonempty, ?_⟩
  by_cases hroot : names.dropLast = []
  · exact .inl hroot
  · obtain ⟨d, hd, hdirectory, hd'⟩ := hat.parent.resolve_left hroot
    -- the directory lies one level above the entry
    have hlevel : d.relativePath.count '/' < e.relativePath.count '/' := by
      have hdepth := hat.length_eq hat.nonempty
      have hdepth' := hd'.length_eq hroot
      rw [List.length_dropLast] at hdepth'
      omega
    have hsorted := h.sorted
    rw [hsplit] at hd hsorted
    have hafter := (List.pairwise_cons.mp (List.pairwise_append.mp hsorted).2.1).1
    rcases List.mem_append.mp hd with hd | hd
    · exact .inr ⟨d, hd, hdirectory, hd'⟩
    · rcases List.mem_cons.mp hd with rfl | hd
      · exact absurd hlevel (lt_irrefl _)
      · exact absurd hlevel (Nat.not_lt.mpr (count_le_of_entryOrder (hafter d hd)))

theorem Built.relativePath (hu : Normalizes u) {e : SourceEntry} {entry : Entry}
    (h : Built u e entry) : entry.relativePath = u.nfc e.relativePath := by
  obtain ⟨normalized, hnormalized, hpath⟩ := h.path
  rw [(validateRelativePath_eq_ok.mp hpath).1, (validateRelativePath_eq_ok.mp hnormalized).1,
    hu.nfc_nfc]

theorem PlacedAt.parts (hu : Normalizes u) {before : List SourceEntry} {names : List Text}
    {e : SourceEntry} (h : PlacedAt source before names e) {entry : Entry} (hb : Built u e entry) :
    posixParts entry.relativePath = names.map u.nfc ∧ Plain entry.relativePath := by
  rw [hb.relativePath hu, h.relative]
  exact posixParts_nfc_joined hu h.scanned h.nonempty

theorem listedBefore_of_placed (hu : Normalizes u) {before : List SourceEntry}
    {before' : List Entry} {names : List Text} {e : SourceEntry} {entry : Entry}
    (hbefore : List.Forall₂ (Built u) before before') (he : Built u e entry) (h : PlacedAt source before names e) : ListedBefore before' entry := by
  have hparts := (h.parts hu he).1
  rw [ListedBefore, hparts, ← List.map_dropLast]
  rcases h.parent with hroot | ⟨d, hd, hdirectory, hat⟩
  · rw [hroot]
    exact .inl rfl
  · by_cases hroot : names.dropLast = []
    · rw [hroot]
      exact .inl rfl
    · obtain ⟨index, rfl⟩ := List.get_of_mem hd
      have hindex : index.1 < before'.length := by
        rw [← hbefore.length_eq]
        exact index.2
      have hbuilt := (List.forall₂_iff_get.mp hbefore).2 index.1 index.2 hindex
      have hscanned : ∀ name ∈ names.dropLast, ScannedName name :=
        fun name hname => h.scanned name (List.mem_of_mem_dropLast hname)
      refine .inr ⟨before'.get ⟨index.1, hindex⟩, List.get_mem _ _, ?_, ?_⟩
      · rw [isDirectory_iff, hbuilt.entryType, if_pos hdirectory]
      · rw [hbuilt.relativePath hu, hat.relative]
        exact (posixParts_nfc_joined hu hscanned hroot).1

theorem listedBefore_mono {before more : List Entry} {e : Entry} (h : ListedBefore before e)
    (hsub : ∀ d ∈ before, d ∈ more) : ListedBefore more e :=
  h.imp id fun hbefore => hbefore.imp fun _ hd => ⟨hsub _ hd.1, hd.2⟩

/-- The check of the manifest, from the components. -/
theorem parentPosix_listed {entries : List Entry} (hplain : ∀ e ∈ entries, Plain e.relativePath)
    {e : Entry} (h : ListedBefore entries e) : parentPosix e.relativePath = ['.'] ∨
      ∃ d ∈ entries, d.isDirectory ∧ d.relativePath = parentPosix e.relativePath := by
  rw [parentPosix]
  rcases h with hroot | ⟨d, hd, hdirectory, hparts⟩
  · rw [hroot]
    exact .inl rfl
  · have hne := (hplain d hd).parts_ne_nil
    rw [← hparts]
    refine .inr ⟨d, hd, hdirectory, ?_⟩
    cases hcases : posixParts d.relativePath with
    | nil => exact absurd hcases hne
    | cons part parts =>
        rw [← (hplain d hd).intercalate, hcases]

theorem not_slash_getLastD {names : List Text} (h : ∀ name ∈ names, '/' ∉ name) :
    '/' ∉ names.getLastD [] := by
  rcases List.mem_cons.mp (@List.getLastD_mem_cons _ names []) with hnil | hmem
  · rw [hnil]
    exact List.not_mem_nil
  · exact h _ hmem

theorem packs_of_encodeAll {entries : List Entry} {b : FixedWidth.Bytes}
    (h : ByteParser.encodeAll Entry.pack entries = some b) : ∀ e ∈ entries, ∃ b, e.pack = some b := by
  induction entries generalizing b with
  | nil => exact fun _ he => absurd he List.not_mem_nil
  | cons e es ih =>
      obtain ⟨first, rest, hfirst, hrest, -⟩ := ByteParser.encodeAll_cons.mp h
      exact List.forall_mem_cons.mpr ⟨⟨first, hfirst⟩, ih hrest⟩

/-- Every manifest that a scan of a captured tree gives, and that is serialized, is one that the
parser accepts; the entries of a folder are listed after the directories they lie in. -/
theorem scan_parsed (hu : Normalizes u) (hnames : ScansNames env)
    (hsource : ∀ part ∈ source, '/' ∉ part) {directories : ℕ} {h h' : History} {s : SourceSession}
    (hcapture : SourceSession.capture env u directories source h = (.ok s, h'))
    {env' : Environment Call Reply} {platform : Platform} {chunkSize : ℕ} {hashFiles : Bool}
    {g g' : History} {m : StreamManifest}
    (hscan : scanInput u env' platform s chunkSize hashFiles g = (.ok m, g'))
    {payload : FixedWidth.Bytes} (hpayload : serializeManifest m = some payload) {header : Container.Msc2Header}
    (hchunk : header.chunkSize = chunkSize)
    (hcount : header.frameCount = 1 + (m.files.map Entry.count).sum) :
    StreamParsed u header m ∧ (m.kind = kindFolder → (∀ e ∈ m.entries, Plain e.relativePath) ∧
      Trace.Lawful ListedBefore m.entries) := by
  obtain ⟨_, -, hs⟩ := capture_returns.elim hcapture
  obtain ⟨_, -, hsame, hordered⟩ := (capture_ordered hnames directories).elim hcapture
  obtain ⟨_, -, hscanned, -⟩ := (scanInput_returns hs).elim hscan
  obtain ⟨_, -, hshape⟩ := (scanInput_shaped hu).elim hscan
  subst hsame hchunk
  obtain ⟨_, entryBytes, -, hentryBytes, -⟩ := serializeManifest_eq_some.mp hpayload
  have hlisted : ∀ e ∈ m.entries, Listed u (HasFrames header.chunkSize) e := by
    intro e he
    obtain ⟨b, hb⟩ := packs_of_encodeAll hentryBytes e he
    exact (hshape.entries e he).listed hb
  have hcanonical := canonical_of_validated hu hshape.rootName
  have hroot : '/' ∉ m.rootName := by
    intro hslash
    rw [(validateRelativePath_eq_ok.mp hshape.rootName).1] at hslash
    exact not_slash_getLastD hsource (hu.slash_mem _ hslash)
  have hranges : Consecutive 1 m.files header.frameCount := by
    rw [hcount]
    exact hshape.ranges
  by_cases hfile : m.kind = kindFile
  · obtain ⟨e, hentries, hisFile, hpath⟩ := hshape.single hfile
    rw [hcanonical.nfc_eq] at hpath
    have hnodup : (m.entries.map fun e => u.casefold e.relativePath).Nodup := by
      rw [hentries]
      exact List.nodup_singleton _
    have hnotFolder : m.kind ≠ kindFolder := by
      rw [hfile]
      decide
    exact ⟨⟨.inl hfile, hshape.limit, ⟨hcanonical, hroot⟩, hlisted, hnodup, hranges,
      fun _ => ⟨e, hentries, hisFile, hpath⟩, fun hkind => absurd hkind hnotFolder⟩,
      fun hkind => absurd hkind hnotFolder⟩
  · have hfolder : s.rootIsFile = false := by
      rw [← Bool.not_eq_true, ← hscanned.kind]
      exact hfile
    obtain ⟨hbuilt, hkeys⟩ := hscanned.folder hfolder
    have hplaced := (hordered hfolder).lawful
    have hplain : ∀ e ∈ m.entries, Plain e.relativePath := by
      intro entry hentry
      obtain ⟨index, rfl⟩ := List.get_of_mem hentry
      have hindex : index.1 < s.entries.length := by
        rw [hbuilt.length_eq]
        exact index.2
      obtain ⟨names, hat⟩ := (hordered hfolder).placed _ (List.get_mem s.entries ⟨index.1, hindex⟩)
      exact (hat.parts hu ((List.forall₂_iff_get.mp hbuilt).2 index.1 hindex index.2)).2
    have hbefore : Trace.Lawful ListedBefore m.entries := by
      refine hplaced.forall₂ hbuilt ?_
      rintro before before' e entry hbefore he ⟨names, hat⟩
      exact listedBefore_of_placed hu hbefore he hat
    have hmapped : m.entries.map (fun e => u.casefold e.relativePath) =
        s.entries.map (collisionKey u) := by
      rw [← List.forall₂_eq_eq_eq, List.forall₂_map_left_iff, List.forall₂_map_right_iff]
      refine hbuilt.flip.imp fun entry e hb => ?_
      rw [Built.relativePath hu hb, collisionKey]
    refine ⟨⟨hshape.kind, hshape.limit, ⟨hcanonical, hroot⟩, hlisted, ?_, hranges,
      fun hkind => absurd hkind hfile, fun _ e he => ?_⟩, fun _ => ⟨hplain, hbefore⟩⟩
    · rw [hmapped]
      exact hkeys
    · obtain ⟨before, after, hsplit⟩ := List.append_of_mem he
      refine parentPosix_listed hplain (listedBefore_mono (hbefore before e after hsplit) ?_)
      rw [hsplit]
      exact fun d hd => List.mem_append_left _ hd

end

/-! ### The tree of one file -/

theorem normalizes_ascii : Normalizes asciiUnicode :=
  ⟨fun _ => rfl, fun _ _ => rfl, fun _ h => h, fun _ h => h, fun _ h => h⟩

theorem scansNames_oneFile : ScansNames (oneFile ['a']) := by
  intro h p name hname
  obtain rfl := List.mem_singleton.mp hname
  exact ⟨⟨by decide, by decide⟩, by decide⟩

end MosaicArchive.Source
