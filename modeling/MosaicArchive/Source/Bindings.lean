import MosaicArchive.Effects.Worklist
import MosaicArchive.Source.OwnSource

/-!
`SourceSession.verify_bindings` against a tree that stands still. The check walks the
later tree with a stack of its own and compares what it meets with the table that the
discovery built; it returns exactly when the later tree has the paths of the table,
with the same objects at each of them.
-/

namespace MosaicArchive.Source

open Utf8 (Text)
open CallHistory MosaicArchive.Manifest
open Routine (raise raiseIf lift onError forEach)

/-! ### The check -/

def topologyChanged (path : Path) : SourceError :=
  osError ("input source topology changed: " ++ path.text)

/-- The set `seen`, and the directories of the listing so far. -/
structure Verified where
  seen : List Text
  directories : List SourceEntry

section

variable (env : Environment Call Reply) (s : SourceSession)

/-- What the listing of a directory is checked against, one name after the other. -/
def verifyChild (directory : SourceEntry) (v : Verified) (name : Text) : Run Verified := do
  let relative := childRelative directory name
  match s.entriesByPath.find relative with
  | none => raise (topologyChanged directory.path)
  | some expected => do
      raiseIf (relative ∈ v.seen) (topologyChanged directory.path)
      let reply ← ask env (.stat expected.path)
      let m ← statReply (fun _ => systemError "stat") reply
      raiseIf (isLinkOrReparse m ∨ expected.isDirectory ≠ m.isDirectory ∨
        ¬ expected.identity.matchesPath m) (identityChanged expected.path)
      pure ⟨v.seen ++ [relative],
        if expected.isDirectory then v.directories ++ [expected] else v.directories⟩

/-- The body of the `try` statement. -/
def scanVerified (directory : SourceEntry) (seen : List Text) : Run Verified := do
  let listing ← ask env (.scandir directory.path)
  let v ← forEach (verifyChild env s directory) listing.names ⟨seen, []⟩
  raiseIf listing.failed (systemError "scandir")
  pure v

def verifyDirectory (directory : SourceEntry) (seen : List Text) : Run Verified :=
  onError (scanVerified env s directory seen) fun e =>
    raise (if e.isOsError then topologyChanged directory.path else e)

/-- The loop of `verify_bindings`; the top of the stack comes first. -/
def verifyPending : ℕ → List SourceEntry → List Text → Run (List Text)
  | 0, _, _ => raise (.python (.runtime "endless"))
  | _ + 1, [], seen => pure seen
  | n + 1, directory :: pending, seen => do
      let v ← verifyDirectory env s directory seen
      requireBinding env directory.binding
      verifyPending n (v.directories.reverse ++ pending) v.seen

/-- `seen != self._entries_by_path.keys()` -/
def PathTable.differs (t : PathTable) (seen : List Text) : Bool :=
  !(seen.all fun relative => (t.find relative).isSome) || !(t.all fun p => seen.contains p.1)

/-- `verify_bindings`, with a bound on the number of directories visited. -/
def SourceSession.verifyBindings (directories : ℕ) : Run Unit :=
  match s.entriesByPath.find [] with
  | none => raise (.key "")
  | some root => do
      requireBinding env root.binding
      if s.rootIsFile then pure ()
      else do
        let seen ← verifyPending env s directories [root] [[]]
        raiseIf (s.entriesByPath.differs seen) (topologyChanged s.source)

end

/-! ### A tree that stands still -/

/-- What `stat` and `scandir` answer while nothing changes. -/
structure FileSystem where
  stat : Path → Except StatFailure Metadata
  scandir : Path → Listing

namespace FileSystem

/-- A name a directory may list. -/
def ProperName (name : Text) : Prop := name ≠ [] ∧ '/' ∉ name

/-- A directory lists each of its objects once, in some order. -/
structure IsTree (fs : FileSystem) : Prop where
  listed : ∀ p m, fs.stat p = .ok m → m.isDirectory = true → (fs.scandir p).failed = false
  nodup : ∀ p, (fs.scandir p).names.Nodup
  proper : ∀ p, ∀ name ∈ (fs.scandir p).names, ProperName name
  mem_names : ∀ p m, fs.stat p = .ok m → m.isDirectory = true → ∀ name,
    name ∈ (fs.scandir p).names ↔ ∃ m', fs.stat (p ++ [name]) = .ok m'

/-- The environment that only looks at the tree. -/
def still (fs : FileSystem) : Environment Call Reply
  | _, .stat p => fs.stat p
  | _, .scandir p => fs.scandir p
  | _, .openFile _ _ => none
  | _, .fstat _ => none
  | _, .read _ => ⟨.single [], true⟩
  | _, .close _ => none

/-- The objects under a root, by the names that lead to them. -/
inductive InTree (fs : FileSystem) (root : Path) : List Text → Metadata → Prop where
  | root {m : Metadata} (h : fs.stat root = .ok m) : InTree fs root [] m
  | child {names : List Text} {m m' : Metadata} {name : Text} (h : InTree fs root names m)
      (hdirectory : m.isDirectory = true) (hname : name ∈ (fs.scandir (root ++ names)).names)
      (hstat : fs.stat (root ++ (names ++ [name])) = .ok m') : InTree fs root (names ++ [name]) m'

end FileSystem

/-- A relative path with these names. -/
def joined (names : List Text) : Text := List.intercalate ['/'] names

/-- The later tree has the paths of the session, with the captured object at each of them. -/
structure SourceSession.SameTree (s : SourceSession) (fs : FileSystem) : Prop where
  paths : ∀ relative, (∃ e, s.entriesByPath.find relative = some e) ↔
    ∃ names m, fs.InTree s.source names m ∧ relative = joined names
  objects : ∀ names m e, fs.InTree s.source names m → s.entriesByPath.find (joined names) = some e →
    e.isDirectory = m.isDirectory ∧ isLinkOrReparse m = false ∧ e.identity.matchesPath m = true

/-! ### Relative paths -/

open FileSystem (ProperName)

@[simp] theorem joined_nil : joined [] = [] := rfl

theorem joined_concat (names : List Text) (name : Text) :
    joined (names ++ [name]) = if names = [] then name else joined names ++ '/' :: name := by
  induction names with
  | nil => exact List.intercalate_singleton
  | cons first rest ih =>
      rw [if_neg (List.cons_ne_nil first rest)]
      cases rest with
      | nil =>
          rw [List.singleton_append, joined, joined, List.intercalate_cons_cons,
            List.intercalate_singleton, List.intercalate_singleton]
          simp
      | cons second rest =>
          rw [if_neg (List.cons_ne_nil second rest)] at ih
          rw [joined, List.cons_append, List.cons_append, List.intercalate_cons_cons, joined,
            List.intercalate_cons_cons, List.append_assoc _ _ ('/' :: name)]
          exact congrArg _ ih

/-- The names are read back from the path. -/
theorem splitOn_joined {names : List Text} (hproper : ∀ name ∈ names, ProperName name)
    (hne : names ≠ []) : (joined names).splitOn '/' = names :=
  List.splitOn_intercalate '/' (fun name hname => (hproper name hname).2) hne

theorem joined_eq_nil {names : List Text} (hproper : ∀ name ∈ names, ProperName name)
    (h : joined names = []) : names = [] := by
  by_contra hne
  have hsplit := splitOn_joined hproper hne
  rw [h] at hsplit
  have hempty : [] ∈ names := by
    rw [← hsplit]
    exact List.mem_singleton_self []
  exact (hproper [] hempty).1 rfl

theorem joined_inj {names names' : List Text} (hproper : ∀ name ∈ names, ProperName name)
    (hproper' : ∀ name ∈ names', ProperName name) (h : joined names = joined names') :
    names = names' := by
  by_cases hne : names = []
  · subst hne
    exact (joined_eq_nil hproper' h.symm).symm
  · have hne' : names' ≠ [] := by
      rintro rfl
      exact hne (joined_eq_nil hproper h)
    rw [← splitOn_joined hproper hne, h, splitOn_joined hproper' hne']

/-- The path of a child is joined from one name more. -/
theorem childRelative_eq {current : SourceEntry} {names : List Text}
    (hproper : ∀ name ∈ names, ProperName name) (h : current.relativePath = joined names)
    (name : Text) : childRelative current name = joined (names ++ [name]) := by
  rw [childRelative, joined_concat, h]
  refine if_congr ⟨joined_eq_nil hproper, ?_⟩ rfl rfl
  rintro rfl
  rfl

/-! ### What the discovery leaves -/

/-- The entry stands where its names lead, and says of itself what it was captured as. -/
structure EntryAt (source : Path) (names : List Text) (e : SourceEntry) : Prop where
  proper : ∀ name ∈ names, ProperName name
  relative : e.relativePath = joined names
  path : e.path = source ++ names
  kind : e.isDirectory = e.identity.metadata.isDirectory

/-- Directories list proper names. -/
def ListsProperNames (env : Environment Call Reply) : Prop :=
  ∀ (h : History) (p : Path), ∀ name ∈ Listing.names (env h (.scandir p)), ProperName name

structure Discovered.Anchored (source : Path) (root : SourceEntry) (d : Discovered) : Prop where
  root : d.table.find [] = some root
  table : ∀ relative e, d.table.find relative = some e → ∃ names, EntryAt source names e ∧
    relative = joined names
  entries : ∀ e ∈ d.entries, ∃ names, EntryAt source names e

theorem Discovered.Anchored.add {source : Path} {root e : SourceEntry} {d : Discovered}
    (h : d.Anchored source root) {names : List Text} (he : EntryAt source names e) (hne : names ≠ []) :
    (d.add e).Anchored source root := by
  refine ⟨?_, ?_, ?_⟩
  · rw [Discovered.add, PathTable.find_cons, if_neg, h.root]
    rw [he.relative]
    exact fun hempty => hne (joined_eq_nil he.proper hempty)
  · intro relative e' hfind
    rw [Discovered.add, PathTable.find_cons] at hfind
    split_ifs at hfind with hp
    · obtain rfl := Option.some.inj hfind
      exact ⟨names, he, hp.symm.trans he.relative⟩
    · exact h.table relative e' hfind
  · intro e' he'
    rcases List.mem_append.mp he' with hmem | hmem
    · exact h.entries e' hmem
    · rw [List.mem_singleton.mp hmem]
      exact ⟨names, he⟩

/-- What a session holds after it has captured a tree. -/
structure SourceSession.Anchored (s : SourceSession) : Prop where
  root : ∃ root, s.entriesByPath.find [] = some root ∧ s.rootIsFile = !root.isDirectory
  table : ∀ relative e, s.entriesByPath.find relative = some e → ∃ names, EntryAt s.source names e ∧
    relative = joined names
  file : s.rootIsFile = true → ∀ relative e, s.entriesByPath.find relative = some e → relative = []

section

variable {env : Environment Call Reply} {u : Unicode} {source : Path} {root : SourceEntry}

theorem discoverChild_at {current : SourceEntry} {names : List Text} {name : Text}
    (hcurrent : EntryAt source names current) (hname : ProperName name) :
    Returns (discoverChild env current name) fun e _ => EntryAt source (names ++ [name]) e := by
  refine Returns.bind_ask fun reply => Returns.bind statReply_returns fun m _ _ => ?_
  refine Returns.bind_raiseIf fun _ => Returns.bind_raiseIf fun _ => Returns.bind_lift fun identity h => ?_
  refine Returns.pure ⟨?_, childRelative_eq hcurrent.proper hcurrent.relative name, ?_, ?_⟩
  · intro name' hname'
    rcases List.mem_append.mp hname' with hname' | hname'
    · exact hcurrent.proper name' hname'
    · rwa [List.mem_singleton.mp hname']
  · show current.path ++ [name] = _
    rw [hcurrent.path, List.append_assoc]
  · show m.isDirectory = identity.metadata.isDirectory
    rw [SourceIdentity.capture] at h
    split_ifs at h
    rw [← Except.ok.inj h]

theorem scanDirectory_anchored (hnames : ListsProperNames env) {current : SourceEntry}
    {names : List Text} (hcurrent : EntryAt source names current) {d : Discovered}
    (hd : d.Anchored source root) :
    Returns (scanDirectory env current d) fun d' _ => d'.Anchored source root := by
  have hlisting : Returns (ask env (.scandir current.path) : Run Listing)
      fun listing _ => ∀ name ∈ listing.names, ProperName name :=
    fun h => ⟨_, rfl, hnames h current.path⟩
  refine Returns.bind hlisting fun listing _ hproper => ?_
  have hloop : ∀ (left : List Text), (∀ name ∈ left, ProperName name) → ∀ t : Discovered,
      t.Anchored source root → Returns (forEach (fun d name => do
        let e ← discoverChild env current name
        pure (d.add e)) left t) fun d' _ => d'.Anchored source root := by
    intro left
    induction left with
    | nil => exact fun _ t ht => Returns.pure ht
    | cons name left ih =>
        intro hleft t ht
        rw [List.forall_mem_cons] at hleft
        have hbody : Returns (do
            let e ← discoverChild env current name
            pure (t.add e)) fun t' _ => t'.Anchored source root :=
          Returns.bind (discoverChild_at hcurrent hleft.1) fun e _ he =>
            Returns.pure (ht.add he (by simp))
        exact Returns.bind hbody fun t' _ ht' => ih hleft.2 t' ht'
  refine Returns.bind (hloop listing.names hproper d hd) fun d' _ hd' => ?_
  exact Returns.bind_raiseIf fun _ => Returns.pure hd'

theorem discoverDirectory_anchored (hnames : ListsProperNames env) {n : ℕ} {pending : List SourceEntry}
    (hpending : ∀ e ∈ pending, ∃ names, EntryAt source names e) {d : Discovered}
    (hd : d.Anchored source root) :
    Returns (discoverDirectory env n pending d) fun d' _ => d'.Anchored source root := by
  induction n generalizing pending d with
  | zero => exact Returns.raise
  | succ n ih =>
      cases pending with
      | nil => exact Returns.pure hd
      | cons current pending =>
          rw [List.forall_mem_cons] at hpending
          obtain ⟨⟨names, hcurrent⟩, hpending⟩ := hpending
          refine Returns.bind (Returns.onError (scanDirectory_anchored hnames hcurrent hd)
            fun e => Returns.raise) fun d' _ hd' => ?_
          refine Returns.bind requireBinding_returns fun _ _ _ => ih ?_ hd'
          intro e he
          rcases List.mem_append.mp he with he | he
          · have hchild := List.mem_of_mem_filter (List.mem_reverse.mp he)
            exact hd'.entries e (List.mem_of_mem_drop hchild)
          · exact hpending e he

theorem capture_anchored (hnames : ListsProperNames env) (directories : ℕ) (source : Path) :
    Returns (SourceSession.capture env u directories source)
      fun s _ => s.Anchored ∧ s.source = source := by
  have hinitial : Returns (initialMetadata env source) fun _ _ => True :=
    Returns.bind_ask fun reply => Returns.bind statReply_returns fun m _ _ =>
      Returns.bind_raiseIf fun _ => Returns.pure trivial
  refine Returns.bind hinitial fun m _ _ => Returns.bind_raiseIf fun hkind => ?_
  refine Returns.bind_lift fun identity hidentity => ?_
  have hmetadata : identity.metadata = m := by
    rw [SourceIdentity.capture] at hidentity
    split_ifs at hidentity
    rw [← Except.ok.inj hidentity]
  have hdirectory : (!m.isRegular) = m.isDirectory := by
    cases hregular : m.isRegular with
    | true =>
        have hnot : m.isDirectory = false := by
          rw [Metadata.isRegular, decide_eq_true_eq] at hregular
          rw [Metadata.isDirectory, hregular]
          decide
        rw [hnot, Bool.not_true]
    | false => simpa [hregular] using hkind
  have hroot : EntryAt source [] ⟨[], !m.isRegular, identity, source, []⟩ := by
    refine ⟨fun _ h => (nomatch h), rfl, (List.append_nil source).symm, ?_⟩
    rw [hmetadata]
    exact hdirectory
  have htable : ∀ relative e, PathTable.find [([], ⟨[], !m.isRegular, identity, source, []⟩)] relative =
      some e → ∃ names, EntryAt source names e ∧ relative = joined names := by
    intro relative e hfind
    obtain ⟨rfl, rfl⟩ := find_root hfind
    exact ⟨[], hroot, rfl⟩
  by_cases hfile : m.isRegular = true
  · simp only [hfile, if_true, Bool.not_true] at htable ⊢
    refine Returns.pure ⟨⟨⟨_, rfl, rfl⟩, htable, ?_⟩, rfl⟩
    exact fun _ relative e hfind => (find_root hfind).1
  · simp only [hfile, Bool.not_false] at hroot htable ⊢
    have hstart : Discovered.Anchored source ⟨[], true, identity, source, []⟩
        ⟨[([], ⟨[], true, identity, source, []⟩)], []⟩ := ⟨rfl, htable, fun _ h => nomatch h⟩
    refine Returns.bind (discoverDirectory_anchored hnames ?_ hstart) fun d _ hd => ?_
    · intro e he
      rw [List.mem_singleton.mp he]
      exact ⟨[], hroot⟩
    · exact Returns.pure ⟨⟨⟨_, hd.root, rfl⟩, hd.table, fun h => nomatch h⟩, rfl⟩

end

/-! ### One directory -/

/-- The object is neither a link nor of another kind, and is the captured one. -/
structure Passes (e : SourceEntry) (m : Metadata) : Prop where
  noLink : isLinkOrReparse m = false
  kind : e.isDirectory = m.isDirectory
  identity : e.identity.matchesPath m = true

namespace SourceSession

variable (s : SourceSession) (fs : FileSystem)

/-- The table leads to this entry by these names. -/
structure Stands (e : SourceEntry) (names : List Text) : Prop extends EntryAt s.source names e where
  find : s.entriesByPath.find (joined names) = some e

/-- The later tree has the captured object at these names. -/
def Good (names : List Text) : Prop :=
  ∃ e m, s.Stands e names ∧ fs.stat (s.source ++ names) = .ok m ∧ Passes e m

def isDirectoryAt (names : List Text) : Bool :=
  match fs.stat (s.source ++ names) with
  | .ok m => m.isDirectory
  | .error _ => false

/-- What the later tree has under these names. -/
def childrenAt (names : List Text) : List (List Text) :=
  if s.isDirectoryAt fs names then (fs.scandir (s.source ++ names)).names.map fun name => names ++ [name]
  else []

variable {s fs} {names : List Text} {e : SourceEntry}

theorem Anchored.stands (hs : s.Anchored) (hproper : ∀ name ∈ names, ProperName name)
    (hfind : s.entriesByPath.find (joined names) = some e) : s.Stands e names := by
  obtain ⟨names', hat, hsame⟩ := hs.table _ _ hfind
  rw [← joined_inj hproper hat.proper hsame] at hat
  exact ⟨hat, hfind⟩

theorem Stands.unique {e' : SourceEntry} (h : s.Stands e names) (h' : s.Stands e' names) : e = e' :=
  Option.some.inj (h.find.symm.trans h'.find)

theorem Good.isDirectoryAt (h : s.Good fs names) (hstands : s.Stands e names) :
    s.isDirectoryAt fs names = e.isDirectory := by
  obtain ⟨e', m, hstands', hstat, hpasses⟩ := h
  rw [SourceSession.isDirectoryAt, hstat, hstands.unique hstands', hpasses.kind]

theorem mem_childrenAt {c : List Text} : c ∈ s.childrenAt fs names ↔
    s.isDirectoryAt fs names = true ∧
      ∃ name ∈ (fs.scandir (s.source ++ names)).names, names ++ [name] = c := by
  rw [childrenAt]
  split
  · rename_i h
    simp [h]
  · rename_i h
    simp [h]

theorem childrenAt_isTree (hfs : fs.IsTree) : Worklist.IsTree (s.childrenAt fs) [] := by
  refine ⟨?_, ?_, ?_⟩
  · intro names
    rw [childrenAt]
    split
    · refine (hfs.nodup _).map ?_
      intro name name' hsame
      simpa using hsame
    · exact List.nodup_nil
  · intro names names' c hc hc'
    obtain ⟨-, name, -, rfl⟩ := mem_childrenAt.mp hc
    obtain ⟨-, name', -, hsame⟩ := mem_childrenAt.mp hc'
    exact (List.append_inj_left' hsame rfl).symm
  · intro names hc
    obtain ⟨-, name, -, hsame⟩ := mem_childrenAt.mp hc
    simp at hsame

variable {directory : SourceEntry} {name : Text} {v : Verified}

theorem verifyChild_good (hdirectory : EntryAt s.source names directory) (hstands : s.Stands e (names ++ [name]))
    (hgood : s.Good fs (names ++ [name])) (hfresh : joined (names ++ [name]) ∉ v.seen) :
    Settles (verifyChild fs.still s directory v name)
      (.ok ⟨v.seen ++ [joined (names ++ [name])],
        v.directories ++ if s.isDirectoryAt fs (names ++ [name]) then [e] else []⟩) := by
  obtain ⟨e', m, hstands', hstat, hpasses⟩ := hgood
  obtain rfl := hstands.unique hstands'
  have hkind : s.isDirectoryAt fs (names ++ [name]) = e.isDirectory := by
    rw [SourceSession.isDirectoryAt, hstat, hpasses.kind]
  have hpass : ¬ (isLinkOrReparse m = true ∨ e.isDirectory ≠ m.isDirectory ∨
      ¬ e.identity.matchesPath m = true) := by
    rw [hpasses.noLink, hpasses.kind, hpasses.identity]
    simp
  rw [← hstands.path] at hstat
  rw [verifyChild, childRelative_eq hdirectory.proper hdirectory.relative, hstands.find, hkind]
  refine (Settles.raiseIf_neg hfresh).bind ?_
  refine (Settles.ask (r := .ok m) fun _ => hstat).bind ?_
  refine Settles.bind (a := m) Settles.pure ((Settles.raiseIf_neg hpass).bind ?_)
  cases e.isDirectory with
  | true => exact Settles.pure
  | false =>
      rw [if_neg Bool.false_ne_true, if_neg Bool.false_ne_true, List.append_nil]
      exact Settles.pure

theorem verifyChild_bad (hs : s.Anchored) (hdirectory : EntryAt s.source names directory)
    (hname : ProperName name) (hbad : ¬ s.Good fs (names ++ [name])) :
    Fails (verifyChild fs.still s directory v name) := by
  have hproper : ∀ name' ∈ names ++ [name], ProperName name' := by
    intro name' hname'
    rcases List.mem_append.mp hname' with hname' | hname'
    · exact hdirectory.proper name' hname'
    · rwa [List.mem_singleton.mp hname']
  rw [verifyChild, childRelative_eq hdirectory.proper hdirectory.relative]
  cases hfind : s.entriesByPath.find (joined (names ++ [name])) with
  | none => exact Fails.raise
  | some e =>
      have hstands := hs.stands hproper hfind
      by_cases hseen : joined (names ++ [name]) ∈ v.seen
      · exact Fails.bind ⟨_, Settles.raiseIf_pos hseen⟩
      · refine Fails.bind_right (Settles.raiseIf_neg hseen) ?_
        refine Fails.bind_right (Settles.ask (r := fs.stat e.path) fun _ => rfl) ?_
        rw [hstands.path]
        cases hstat : fs.stat (s.source ++ (names ++ [name])) with
        | error failure => exact Fails.bind Fails.raise
        | ok m =>
            refine Fails.bind_right (a := m) Settles.pure (Fails.bind ⟨_, Settles.raiseIf_pos ?_⟩)
            by_contra hpass
            rw [not_or, not_or, Bool.not_eq_true, not_not, not_not] at hpass
            exact hbad ⟨e, m, hstands, hstat, hpass.1, hpass.2.1, hpass.2.2⟩

/-- The listing is accepted when every name leads to a good object. -/
theorem verifyChildren (hs : s.Anchored) (hdirectory : EntryAt s.source names directory)
    {left : List Text} (hproper : ∀ name ∈ left, ProperName name) (hnodup : left.Nodup)
    (hfresh : ∀ name ∈ left, joined (names ++ [name]) ∉ v.seen) :
    (∃ name ∈ left, ¬ s.Good fs (names ++ [name])) ∧
        Fails (forEach (verifyChild fs.still s directory) left v) ∨
      (∀ name ∈ left, s.Good fs (names ++ [name])) ∧ ∃ found,
        Settles (forEach (verifyChild fs.still s directory) left v)
          (.ok ⟨v.seen ++ (left.map fun name => names ++ [name]).map joined, v.directories ++ found⟩) ∧
        List.Forall₂ s.Stands found
          ((left.map fun name => names ++ [name]).filter (s.isDirectoryAt fs)) := by
  induction left generalizing v with
  | nil =>
      refine Or.inr ⟨fun _ h => (nomatch h), [], ?_, .nil⟩
      rw [List.map_nil, List.map_nil, List.append_nil, List.append_nil]
      exact Settles.pure
  | cons name left ih =>
      rw [List.forall_mem_cons] at hproper hfresh
      obtain ⟨hnotin, hnodup⟩ := List.nodup_cons.mp hnodup
      by_cases hgood : s.Good fs (names ++ [name])
      · obtain ⟨e, hstands⟩ : ∃ e, s.Stands e (names ++ [name]) := by
          obtain ⟨e, -, hstands, -⟩ := hgood
          exact ⟨e, hstands⟩
        have hchild := verifyChild_good hdirectory hstands hgood hfresh.1
        have hfreshNext : ∀ name' ∈ left,
            joined (names ++ [name']) ∉ v.seen ++ [joined (names ++ [name])] := by
          intro name' hname' hmem
          rcases List.mem_append.mp hmem with hmem | hmem
          · exact hfresh.2 name' hname' hmem
          · have hproper' : ∀ n ∈ names ++ [name'], ProperName n := by
              intro n hn
              rcases List.mem_append.mp hn with hn | hn
              · exact hdirectory.proper n hn
              · rw [List.mem_singleton.mp hn]
                exact hproper.2 name' hname'
            have hsame := joined_inj hproper' hstands.proper (List.mem_singleton.mp hmem)
            have hname : name' = name := by simpa using hsame
            exact hnotin (hname ▸ hname')
        have hnext := ih (v := ⟨v.seen ++ [joined (names ++ [name])],
          v.directories ++ if s.isDirectoryAt fs (names ++ [name]) then [e] else []⟩)
          hproper.2 hnodup hfreshNext
        rcases hnext with ⟨⟨bad, hbad, hnot⟩, hfails⟩ | ⟨hall, found, hsettles, hfound⟩
        · exact Or.inl ⟨⟨bad, List.mem_cons_of_mem name hbad, hnot⟩, Fails.bind_right hchild hfails⟩
        · refine Or.inr ⟨List.forall_mem_cons.mpr ⟨hgood, hall⟩,
            (if s.isDirectoryAt fs (names ++ [name]) then [e] else []) ++ found, ?_, ?_⟩
          · rw [List.map_cons, List.map_cons, List.append_cons, ← List.append_assoc v.directories]
            exact hchild.bind hsettles
          · rw [List.map_cons, List.filter_cons]
            split
            · exact .cons hstands hfound
            · exact hfound
      · exact Or.inl ⟨⟨name, List.mem_cons_self, hgood⟩,
          Fails.bind (verifyChild_bad hs hdirectory hproper.1 hgood)⟩

/-! ### The loop -/

theorem Good.proper (h : s.Good fs names) : ∀ name ∈ names, ProperName name := by
  obtain ⟨e, -, hstands, -⟩ := h
  exact hstands.proper

theorem joined_mem_iff {seen : List (List Text)} (hgood : ∀ c ∈ seen, s.Good fs c)
    (hproper : ∀ name ∈ names, ProperName name) : joined names ∈ seen.map joined ↔ names ∈ seen := by
  constructor
  · intro hmem
    obtain ⟨c, hc, hsame⟩ := List.mem_map.mp hmem
    rwa [← joined_inj (hgood c hc).proper hproper hsame]
  · exact fun hmem => List.mem_map_of_mem hmem

/-- Nothing is seen that the table does not have. -/
theorem seen_length_le {seen : List (List Text)} (hgood : ∀ c ∈ seen, s.Good fs c) (hnodup : seen.Nodup) :
    seen.length ≤ s.entriesByPath.length := by
  have hkeys : (seen.map joined).Subperm (s.entriesByPath.map Prod.fst) := by
    refine List.Nodup.subperm ?_ ?_
    · refine List.Nodup.map_on ?_ hnodup
      exact fun c hc c' hc' hsame => joined_inj (hgood c hc).proper (hgood c' hc').proper hsame
    · intro relative hmem
      obtain ⟨c, hc, rfl⟩ := List.mem_map.mp hmem
      obtain ⟨e, -, hstands, -⟩ := hgood c hc
      obtain ⟨p, hp, -⟩ := Option.map_eq_some_iff.mp hstands.find
      have hkey : p.1 = joined c := by simpa using List.find?_some hp
      exact List.mem_map.mpr ⟨p, List.mem_of_find?_eq_some hp, hkey⟩
  simpa using hkeys.length_le

/-- A directory that was good stays good. -/
theorem requireBinding_good {directory : SourceEntry} (hstands : s.Stands directory names)
    (hgood : s.Good fs names) : Settles (requireBinding fs.still directory.binding) (.ok ()) := by
  obtain ⟨e, m, hstands', hstat, hpasses⟩ := hgood
  obtain rfl := hstands.unique hstands'
  rw [← hstands.path] at hstat
  refine (Settles.ask (r := .ok m) fun _ => hstat).bind ?_
  refine Settles.bind (a := m) Settles.pure (Settles.raiseIf_neg ?_)
  rw [hpasses.noLink, show directory.binding.identity = directory.identity from rfl, hpasses.identity]
  simp

/-- One directory: the scan fails at an object that is not good, or all its objects are good. -/
theorem verifyDirectory_settles (hs : s.Anchored) (hfs : fs.IsTree) {directory : SourceEntry}
    (hstands : s.Stands directory names) (hdirectory : s.isDirectoryAt fs names = true)
    {seen : List (List Text)} (hgood : ∀ c ∈ seen, s.Good fs c)
    (hfresh : ∀ c ∈ s.childrenAt fs names, c ∉ seen) :
    (∃ c ∈ s.childrenAt fs names, ¬ s.Good fs c) ∧
        Fails (verifyDirectory fs.still s directory (seen.map joined)) ∨
      (∀ c ∈ s.childrenAt fs names, s.Good fs c) ∧ ∃ found,
        Settles (verifyDirectory fs.still s directory (seen.map joined))
          (.ok ⟨(seen ++ s.childrenAt fs names).map joined, found⟩) ∧
        List.Forall₂ s.Stands found ((s.childrenAt fs names).filter (s.isDirectoryAt fs)) := by
  have hchildren : s.childrenAt fs names =
      (fs.scandir (s.source ++ names)).names.map fun name => names ++ [name] := if_pos hdirectory
  have hlisted : (fs.scandir (s.source ++ names)).failed = false := by
    rw [isDirectoryAt] at hdirectory
    split at hdirectory
    · rename_i m hstat
      exact hfs.listed _ m hstat hdirectory
    · cases hdirectory
  have hproper := hfs.proper (s.source ++ names)
  have hfreshNames : ∀ name ∈ (fs.scandir (s.source ++ names)).names,
      joined (names ++ [name]) ∉ seen.map joined := by
    intro name hname
    rw [joined_mem_iff hgood]
    · refine hfresh _ ?_
      rw [hchildren]
      exact List.mem_map_of_mem hname
    · intro n hn
      rcases List.mem_append.mp hn with hn | hn
      · exact hstands.proper n hn
      · rw [List.mem_singleton.mp hn]
        exact hproper name hname
  have hlisting : Settles (ask fs.still (.scandir directory.path) : Run Listing)
      (.ok (fs.scandir (s.source ++ names))) := by
    rw [hstands.path]
    exact Settles.ask fun _ => rfl
  rcases verifyChildren (v := ⟨seen.map joined, []⟩) hs hstands.toEntryAt hproper (hfs.nodup _)
    hfreshNames with ⟨⟨name, hname, hbad⟩, hfails⟩ | ⟨hall, found, hsettles, hfound⟩
  · refine Or.inl ⟨⟨_, hchildren ▸ List.mem_map_of_mem hname, hbad⟩, ?_⟩
    exact Fails.onError (Fails.bind_right hlisting (Fails.bind hfails))
  · refine Or.inr ⟨?_, found, ?_, ?_⟩
    · intro c hc
      rw [hchildren] at hc
      obtain ⟨name, hname, rfl⟩ := List.mem_map.mp hc
      exact hall name hname
    · rw [hchildren, List.map_append]
      refine Settles.onError (hlisting.bind (hsettles.bind ?_))
      exact (Settles.raiseIf_neg (by rw [hlisted]; decide)).bind Settles.pure
    · rwa [hchildren]

/-- The walk fails at an object that is not good, or ends with all it can reach seen and good. -/
theorem verifyPending_settles (hs : s.Anchored) (hfs : fs.IsTree) {n : ℕ} {pending : List SourceEntry}
    {waiting seen : List (List Text)}
    (ht : Worklist.Traversed (s.childrenAt fs) [] waiting seen)
    (hstands : List.Forall₂ s.Stands pending waiting)
    (hdirectories : ∀ c ∈ waiting, s.isDirectoryAt fs c = true) (hgood : ∀ c ∈ seen, s.Good fs c)
    (hfuel : waiting.length + s.entriesByPath.length < n + seen.length) :
    (∃ c, Worklist.Reachable (s.childrenAt fs) [] c ∧ ¬ s.Good fs c) ∧
        Fails (verifyPending fs.still s n pending (seen.map joined)) ∨
      ∃ final, Settles (verifyPending fs.still s n pending (seen.map joined)) (.ok (final.map joined)) ∧
        Worklist.Traversed (s.childrenAt fs) [] [] final ∧ ∀ c ∈ final, s.Good fs c := by
  induction n generalizing pending waiting seen with
  | zero =>
      have hle := seen_length_le hgood ht.seen_nodup
      omega
  | succ n ih =>
      cases hstands with
      | nil => exact Or.inr ⟨seen, Settles.pure, ht, hgood⟩
      | @cons directory names pending waiting hdirectory hrest =>
          rw [List.forall_mem_cons] at hdirectories
          have hseen := ht.pending_seen names List.mem_cons_self
          rcases verifyDirectory_settles hs hfs hdirectory hdirectories.1 hgood ht.fresh with
            ⟨⟨c, hc, hbad⟩, hfails⟩ | ⟨hall, found, hsettles, hfound⟩
          · exact Or.inl ⟨⟨c, (ht.reachable names hseen).child hc, hbad⟩, Fails.bind hfails⟩
          · -- The directories of the listing go on the stack, the last of them on top.
            have hnext : Worklist.Traversed (s.childrenAt fs) []
                (((s.childrenAt fs names).filter (s.isDirectoryAt fs)).reverse ++ waiting)
                (seen ++ s.childrenAt fs names) := by
              refine ht.step (childrenAt_isTree hfs) ?_ ?_ ?_
              · exact fun c hc => List.mem_of_mem_filter (List.mem_reverse.mp hc)
              · intro c hc hskipped
                rw [childrenAt, if_neg]
                intro hdir
                exact hskipped (List.mem_reverse.mpr (List.mem_filter.mpr ⟨hc, hdir⟩))
              · exact List.nodup_reverse.mpr (((childrenAt_isTree hfs).nodup names).filter _)
            have hgoodNext : ∀ c ∈ seen ++ s.childrenAt fs names, s.Good fs c := by
              intro c hc
              rcases List.mem_append.mp hc with hc | hc
              · exact hgood c hc
              · exact hall c hc
            have hdirectoriesNext : ∀ c ∈ ((s.childrenAt fs names).filter
                (s.isDirectoryAt fs)).reverse ++ waiting, s.isDirectoryAt fs c = true := by
              intro c hc
              rcases List.mem_append.mp hc with hc | hc
              · exact List.of_mem_filter (List.mem_reverse.mp hc)
              · exact hdirectories.2 c hc
            have hbinding := requireBinding_good hdirectory (hgood names hseen)
            have hstandsNext := List.rel_append (List.forall₂_reverse_iff.mpr hfound) hrest
            have hpushed := List.length_filter_le (s.isDirectoryAt fs) (s.childrenAt fs names)
            have hfuelNext : (((s.childrenAt fs names).filter (s.isDirectoryAt fs)).reverse ++
                waiting).length + s.entriesByPath.length < n + (seen ++ s.childrenAt fs names).length := by
              simp only [List.length_cons, List.length_append, List.length_reverse] at hfuel ⊢
              omega
            rcases ih hnext hstandsNext hdirectoriesNext hgoodNext hfuelNext with
              ⟨hbad, hfails⟩ | ⟨final, hfinal, hdone⟩
            · exact Or.inl ⟨hbad, Fails.bind_right hsettles (Fails.bind_right hbinding hfails)⟩
            · exact Or.inr ⟨final, hsettles.bind (hbinding.bind hfinal), hdone⟩

/-! ### The later tree -/

theorem inTree_iff {m : Metadata} : fs.InTree s.source names m ↔
    Worklist.Reachable (s.childrenAt fs) [] names ∧ fs.stat (s.source ++ names) = .ok m := by
  constructor
  · intro htree
    induction htree with
    | root h =>
        refine ⟨.root, ?_⟩
        rwa [List.append_nil]
    | @child names m _ name _ hdirectory hname hstat ih =>
        refine ⟨ih.1.child (mem_childrenAt.mpr ⟨?_, name, hname, rfl⟩), hstat⟩
        rw [SourceSession.isDirectoryAt, ih.2]
        exact hdirectory
  · rintro ⟨hreach, hstat⟩
    induction hreach generalizing m with
    | root =>
        rw [List.append_nil] at hstat
        exact .root hstat
    | @child n c _ hc ih =>
        obtain ⟨hdirectory, name, hname, rfl⟩ := mem_childrenAt.mp hc
        rw [SourceSession.isDirectoryAt] at hdirectory
        cases hparent : fs.stat (s.source ++ n) with
        | error failure =>
            rw [hparent] at hdirectory
            cases hdirectory
        | ok parent =>
            rw [hparent] at hdirectory
            exact .child (ih hparent) hdirectory hname hstat

/-- What the walk can reach is there, by proper names. -/
theorem reachable_stat (hfs : fs.IsTree) (hroot : ∃ m, fs.stat s.source = .ok m)
    (hreach : Worklist.Reachable (s.childrenAt fs) [] names) :
    (∀ name ∈ names, ProperName name) ∧ ∃ m, fs.stat (s.source ++ names) = .ok m := by
  induction hreach with
  | root =>
      rw [List.append_nil]
      exact ⟨fun _ h => (nomatch h), hroot⟩
  | @child n c _ hc ih =>
      obtain ⟨hdirectory, name, hname, rfl⟩ := mem_childrenAt.mp hc
      obtain ⟨hproper, m, hstat⟩ := ih
      rw [SourceSession.isDirectoryAt, hstat] at hdirectory
      rw [← List.append_assoc]
      refine ⟨?_, (hfs.mem_names _ m hstat hdirectory name).mp hname⟩
      intro name' hname'
      rcases List.mem_append.mp hname' with hname' | hname'
      · exact hproper name' hname'
      · rw [List.mem_singleton.mp hname']
        exact hfs.proper _ name hname

/-- The trees agree when all that can be reached is good, and the table has nothing else. -/
theorem sameTree_iff (hs : s.Anchored) (hfs : fs.IsTree) (hroot : ∃ m, fs.stat s.source = .ok m) :
    s.SameTree fs ↔ (∀ c, Worklist.Reachable (s.childrenAt fs) [] c → s.Good fs c) ∧
      ∀ relative e, s.entriesByPath.find relative = some e →
        ∃ c, Worklist.Reachable (s.childrenAt fs) [] c ∧ relative = joined c := by
  constructor
  · intro hsame
    refine ⟨?_, ?_⟩
    · intro c hc
      obtain ⟨hproper, m, hstat⟩ := reachable_stat hfs hroot hc
      have htree := inTree_iff.mpr ⟨hc, hstat⟩
      obtain ⟨e, hfind⟩ := (hsame.paths (joined c)).mpr ⟨c, m, htree, rfl⟩
      obtain ⟨hkind, hlink, hidentity⟩ := hsame.objects c m e htree hfind
      exact ⟨e, m, hs.stands hproper hfind, hstat, hlink, hkind, hidentity⟩
    · intro relative e hfind
      obtain ⟨c, m, htree, rfl⟩ := (hsame.paths relative).mp ⟨e, hfind⟩
      exact ⟨c, (inTree_iff.mp htree).1, rfl⟩
  · rintro ⟨hgood, htable⟩
    refine ⟨?_, ?_⟩
    · intro relative
      constructor
      · rintro ⟨e, hfind⟩
        obtain ⟨c, hc, rfl⟩ := htable relative e hfind
        obtain ⟨-, m, hstat⟩ := reachable_stat hfs hroot hc
        exact ⟨c, m, inTree_iff.mpr ⟨hc, hstat⟩, rfl⟩
      · rintro ⟨c, m, htree, rfl⟩
        obtain ⟨e, -, hstands, -⟩ := hgood c (inTree_iff.mp htree).1
        exact ⟨e, hstands.find⟩
    · intro c m e htree hfind
      obtain ⟨hc, hstat⟩ := inTree_iff.mp htree
      obtain ⟨e', m', hstands, hstat', hpasses⟩ := hgood c hc
      obtain rfl := Option.some.inj (hstands.find.symm.trans hfind)
      obtain rfl := Except.ok.inj (hstat'.symm.trans hstat)
      exact ⟨hpasses.kind, hpasses.noLink, hpasses.identity⟩

theorem differs_eq_false_iff {final : List (List Text)} (hgood : ∀ c ∈ final, s.Good fs c) :
    s.entriesByPath.differs (final.map joined) = false ↔
      ∀ relative e, s.entriesByPath.find relative = some e → ∃ c ∈ final, relative = joined c := by
  have hfound : ((final.map joined).all fun relative => (s.entriesByPath.find relative).isSome) = true := by
    rw [List.all_eq_true]
    intro relative hmem
    obtain ⟨c, hc, rfl⟩ := List.mem_map.mp hmem
    obtain ⟨e, -, hstands, -⟩ := hgood c hc
    rw [hstands.find, Option.isSome_some]
  rw [PathTable.differs, hfound, Bool.not_true, Bool.false_or, Bool.not_eq_false', List.all_eq_true]
  constructor
  · intro hall relative e hfind
    obtain ⟨p, hp, -⟩ := Option.map_eq_some_iff.mp hfind
    have hkey : p.1 = relative := by simpa using List.find?_some hp
    have hmem := hall p (List.mem_of_find?_eq_some hp)
    rw [List.contains_iff_mem, hkey] at hmem
    obtain ⟨c, hc, hsame⟩ := List.mem_map.mp hmem
    exact ⟨c, hc, hsame.symm⟩
  · intro htable p hp
    have hsome : (List.find? (fun q => decide (q.1 = p.1)) s.entriesByPath).isSome = true := by
      rw [List.find?_isSome]
      exact ⟨p, hp, decide_eq_true rfl⟩
    obtain ⟨q, hq⟩ := Option.isSome_iff_exists.mp hsome
    obtain ⟨c, hc, hsame⟩ := htable p.1 q.2 (by rw [PathTable.find, hq, Option.map_some])
    rw [List.contains_iff_mem, hsame]
    exact List.mem_map_of_mem hc

/-- The identity of an object tells its kind. -/
theorem isDirectory_of_matchesPath {identity : SourceIdentity} {m : Metadata}
    (h : identity.matchesPath m = true) : identity.metadata.isDirectory = m.isDirectory := by
  rw [SourceIdentity.matchesPath, decide_eq_true_eq, SourceIdentity.matchesCommon,
    decide_eq_true_eq] at h
  rw [Metadata.isDirectory, Metadata.isDirectory, h.1.2.2.1]

theorem requireBinding_bad {root : SourceEntry} (hstands : s.Stands root []) (hbad : ¬ s.Good fs []) :
    Fails (requireBinding fs.still root.binding) := by
  have hpath : root.binding.path = s.source ++ [] := hstands.path
  refine Fails.bind_right (Settles.ask (r := fs.stat root.binding.path) fun _ => rfl) ?_
  rw [hpath]
  cases hstat : fs.stat (s.source ++ []) with
  | error failure => exact Fails.bind Fails.raise
  | ok m =>
      refine Fails.bind_right (a := m) Settles.pure ⟨_, Settles.raiseIf_pos ?_⟩
      by_contra hpass
      rw [not_or, Bool.not_eq_true, not_not] at hpass
      refine hbad ⟨root, m, hstands, hstat, hpass.1, ?_, hpass.2⟩
      rw [hstands.kind]
      exact isDirectory_of_matchesPath hpass.2

/-- A root that is no directory has nothing under it. -/
theorem reachable_file (hfile : s.isDirectoryAt fs [] = false)
    (hreach : Worklist.Reachable (s.childrenAt fs) [] names) : names = [] := by
  induction hreach with
  | root => rfl
  | @child n c _ hc ih =>
      obtain ⟨hdirectory, -⟩ := mem_childrenAt.mp hc
      rw [ih, hfile] at hdirectory
      cases hdirectory

/-- The check is decided by the two trees alone. -/
theorem verifyBindings_settles (hs : s.Anchored) (hfs : fs.IsTree) {directories : ℕ}
    (hfuel : s.entriesByPath.length < directories) :
    (s.SameTree fs ∧ Settles (s.verifyBindings fs.still directories) (.ok ())) ∨
      (¬ s.SameTree fs ∧ Fails (s.verifyBindings fs.still directories)) := by
  obtain ⟨root, hfind, hrootIsFile⟩ := hs.root
  have hstands : s.Stands root [] := hs.stands (fun _ h => nomatch h) hfind
  rw [verifyBindings, hfind]
  by_cases hgood : s.Good fs []
  · have hroot : ∃ m, fs.stat s.source = .ok m := by
      obtain ⟨-, m, -, hstat, -⟩ := hgood
      rw [List.append_nil] at hstat
      exact ⟨m, hstat⟩
    have hbinding := requireBinding_good hstands hgood
    have hkind := hgood.isDirectoryAt hstands
    rw [sameTree_iff hs hfs hroot, hrootIsFile]
    cases hdirectory : root.isDirectory with
    | false =>
        rw [hdirectory] at hkind hrootIsFile
        refine Or.inl ⟨⟨?_, ?_⟩, hbinding.bind Settles.pure⟩
        · intro c hc
          rwa [reachable_file hkind hc]
        · intro relative e hfind'
          exact ⟨[], .root, hs.file hrootIsFile relative e hfind'⟩
    | true =>
        rw [hdirectory] at hkind
        have hwalk := verifyPending_settles (n := directories) hs hfs
          (Worklist.traversed_start (childrenAt_isTree hfs)) (.cons hstands .nil)
          (by simpa using hkind) (by simpa using hgood) (by simp; omega)
        rcases hwalk with ⟨⟨c, hc, hbad⟩, hfails⟩ | ⟨final, hsettles, hdone, hfinal⟩
        · exact Or.inr ⟨fun h => hbad (h.1 c hc), Fails.bind_right hbinding (Fails.bind hfails)⟩
        · -- All that can be reached was seen, and is good; only the table may have more.
          have hreached : ∀ c, Worklist.Reachable (s.childrenAt fs) [] c → s.Good fs c :=
            fun c hc => hfinal c (hdone.mem_iff.mpr hc)
          have hdiffers := differs_eq_false_iff hfinal
          simp only [hdone.mem_iff] at hdiffers
          cases h : s.entriesByPath.differs (final.map joined) with
          | false =>
              refine Or.inl ⟨⟨hreached, hdiffers.mp h⟩, hbinding.bind (hsettles.bind ?_)⟩
              exact Settles.raiseIf_neg (by rw [h]; exact Bool.false_ne_true)
          | true =>
              refine Or.inr ⟨?_, Fails.bind_right hbinding (Fails.bind_right hsettles ?_)⟩
              · intro hsame
                rw [hdiffers.mpr hsame.2] at h
                cases h
              · exact ⟨_, Settles.raiseIf_pos h⟩
  · refine Or.inr ⟨?_, Fails.bind (requireBinding_bad hstands hgood)⟩
    intro hsame
    obtain ⟨names, m, htree, hnil⟩ := (hsame.paths []).mp ⟨root, hfind⟩
    obtain ⟨hreach, -⟩ := inTree_iff.mp htree
    have hroot : ∃ m, fs.stat s.source = .ok m := by
      clear hreach hnil
      induction htree with
      | root h => exact ⟨_, h⟩
      | child _ _ _ _ ih => exact ih
    exact hgood (((sameTree_iff hs hfs hroot).mp hsame).1 [] .root)

end SourceSession

/-- The tree in which `capture_oneFile` captures its session. -/
def oneFileSystem : FileSystem where
  stat p := if p = [['d']] then .ok directoryStat else
    if p = [['d'], ['a']] then .ok fileStat else .error .notFound
  scandir p := if p = [['d']] then ⟨[['a']], false⟩ else ⟨[], false⟩

theorem oneFileSystem_isTree : oneFileSystem.IsTree := by
  have hroot : ∀ p m, oneFileSystem.stat p = .ok m → m.isDirectory = true → p = [['d']] := by
    intro p m hstat hdirectory
    simp only [oneFileSystem] at hstat
    split_ifs at hstat with hd ha
    · exact hd
    · rw [← Except.ok.inj hstat] at hdirectory
      cases hdirectory
  refine ⟨?_, ?_, ?_, ?_⟩
  · intro p m hstat hdirectory
    rw [hroot p m hstat hdirectory]
    rfl
  · intro p
    simp only [oneFileSystem]
    split_ifs
    · exact List.nodup_singleton _
    · exact List.nodup_nil
  · intro p name hname
    simp only [oneFileSystem] at hname
    split_ifs at hname
    · rw [List.mem_singleton.mp hname]
      exact ⟨by decide, by decide⟩
    · cases hname
  · intro p m hstat hdirectory name
    obtain rfl := hroot p m hstat hdirectory
    by_cases hname : name = ['a']
    · subst hname
      exact iff_of_true (List.mem_singleton_self _) ⟨fileStat, rfl⟩
    · refine iff_of_false (fun h => hname (List.mem_singleton.mp h)) ?_
      rintro ⟨m', hstat'⟩
      simp [oneFileSystem, hname] at hstat'

end MosaicArchive.Source
