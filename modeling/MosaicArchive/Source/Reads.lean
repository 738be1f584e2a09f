import MosaicArchive.Chunking.Refinement
import MosaicArchive.Source.Scan

/-!
What the loops over a captured tree read. A session's table leads to entries by
their path; opening a file reads from the entry the lookup leads to, while its
handle matches what was captured; and as far as the lookups lead to the right
entries, each loop returns exactly what was read from these, file by file.
-/

namespace MosaicArchive.Source

open Utf8 (Text)
open FixedWidth CallHistory MosaicArchive.Manifest MosaicArchive.Gear
open Routine (raiseIf)

/-! ### What a session captures -/

theorem PathTable.find_cons (t : PathTable) (p q : Text) (e : SourceEntry) :
    PathTable.find ((p, e) :: t) q = if p = q then some e else t.find q := by
  unfold PathTable.find
  by_cases h : p = q
  · simp [h]
  · simp [h]

/-- The table leads to entries by their path, and to every path that was found. -/
structure Discovered.Consistent (d : Discovered) : Prop where
  find_path : ∀ p e, d.table.find p = some e → e.relativePath = p
  find_mem : ∀ p e, d.table.find p = some e →
    e ∈ d.entries ∨ p = [] ∧ ∀ e ∈ d.entries, e.relativePath ≠ []
  find_some : ∀ e ∈ d.entries, ∃ e', d.table.find e.relativePath = some e'

theorem Discovered.Consistent.add {d : Discovered} (h : d.Consistent) (e : SourceEntry) :
    (d.add e).Consistent := by
  refine ⟨fun p e' hfind => ?_, fun p e' hfind => ?_, fun e' he' => ?_⟩
  · rw [Discovered.add, PathTable.find_cons] at hfind
    split_ifs at hfind with hp
    · obtain rfl := Option.some.inj hfind
      exact hp
    · exact h.find_path p e' hfind
  · rw [Discovered.add, PathTable.find_cons] at hfind
    split_ifs at hfind with hp
    · obtain rfl := Option.some.inj hfind
      exact .inl (by simp [Discovered.add])
    · refine (h.find_mem p e' hfind).imp (fun hmem => by simp [Discovered.add, hmem]) ?_
      rintro ⟨rfl, hnonempty⟩
      refine ⟨rfl, fun e'' he'' => ?_⟩
      rcases List.mem_append.mp he'' with hmem | hmem
      · exact hnonempty e'' hmem
      · obtain rfl := List.mem_singleton.mp hmem
        exact hp
  · rw [Discovered.add, PathTable.find_cons]
    split_ifs with hp
    · exact ⟨e, rfl⟩
    · rcases List.mem_append.mp he' with hmem | hmem
      · exact h.find_some e' hmem
      · obtain rfl := List.mem_singleton.mp hmem
        exact absurd rfl hp

theorem find_root {root e : SourceEntry} {p : Text} (h : PathTable.find [([], root)] p = some e) :
    p = [] ∧ e = root := by
  rw [PathTable.find_cons] at h
  split_ifs at h with hp
  · exact ⟨hp.symm, (Option.some.inj h).symm⟩
  · cases h

structure SourceSession.Consistent (s : SourceSession) : Prop where
  find_path : ∀ p e, s.entriesByPath.find p = some e → e.relativePath = p
  find_mem : ∀ p e, s.entriesByPath.find p = some e →
    e ∈ s.entries ∨ p = [] ∧ ∀ e ∈ s.entries, e.relativePath ≠ []
  find_some : ∀ e ∈ s.entries, ∃ e', s.entriesByPath.find e.relativePath = some e'
  root : s.rootIsFile = true → ∃ root, s.entries = [root] ∧ root.isDirectory = false ∧
    s.entriesByPath.find [] = some root

section

variable {u : Unicode} {env : Environment Call Reply} {platform : Platform}

theorem statReply_returns {onFailure : StatFailure → SourceError} {reply : Except StatFailure Metadata} :
    Returns (statReply onFailure reply) fun m made => reply = .ok m ∧ made = [] := by
  cases reply with
  | error e => exact Returns.raise
  | ok m => exact Returns.pure ⟨rfl, rfl⟩

theorem bind_orRaise {α β : Type} {e : SourceError} {x : Option α} {f : α → Run β}
    {R : β → History → Prop} (h : ∀ a, x = some a → Returns (f a) R) :
    Returns (orRaise e x >>= f) R := by
  cases x with
  | none => exact Returns.bind_raise
  | some a => exact h a rfl

theorem orRaise_returns {α : Type} {e : SourceError} {x : Option α} :
    Returns (orRaise e x) fun a made => x = some a ∧ made = [] := by
  cases x with
  | none => exact Returns.raise
  | some a => exact Returns.pure ⟨rfl, rfl⟩

theorem discoverChild_returns {current : SourceEntry} {name : Text} :
    Returns (discoverChild env current name) fun _ _ => True := by
  refine Returns.bind_ask fun reply => Returns.bind statReply_returns fun m _ _ => ?_
  exact Returns.bind_raiseIf fun _ => Returns.bind_raiseIf fun _ => Returns.bind_lift fun _ _ =>
    Returns.pure trivial

theorem requireBinding_returns {b : Binding} :
    Returns (requireBinding env b) fun _ _ => True := by
  exact Returns.bind_ask fun reply => Returns.bind statReply_returns fun m _ _ =>
    Returns.raiseIf fun _ => trivial

theorem scanDirectory_returns {current : SourceEntry} {d : Discovered} (hd : d.Consistent) :
    Returns (scanDirectory env current d) fun d' _ => d'.Consistent := by
  refine Returns.bind_ask fun listing => Returns.bind (Returns.forEach (I := Discovered.Consistent) ?_ hd) fun d' _ hd' => ?_
  · intro t name ht
    exact Returns.bind discoverChild_returns fun e _ _ => Returns.pure (ht.add e)
  · exact Returns.bind_raiseIf fun _ => Returns.pure hd'

theorem discoverDirectory_returns {n : ℕ} {pending : List SourceEntry} {d : Discovered}
    (hd : d.Consistent) :
    Returns (discoverDirectory env n pending d) fun d' _ => d'.Consistent := by
  induction n generalizing pending d with
  | zero => exact Returns.raise
  | succ n ih =>
      cases pending with
      | nil => exact Returns.pure hd
      | cons current pending =>
          have hscan : Returns (Routine.onError (scanDirectory env current d) fun e => Routine.raise
              (if e.isOsError then changedWhileDiscovered current.path else e))
              fun d' _ => d'.Consistent :=
            Returns.onError (scanDirectory_returns hd) fun e => Returns.raise
          refine Returns.bind hscan fun d' _ hd' => ?_
          exact Returns.bind requireBinding_returns fun _ _ _ => ih hd'

theorem capture_returns {directories : ℕ} {source : Path} :
    Returns (SourceSession.capture env u directories source) fun s _ => s.Consistent := by
  refine Returns.bind (Q := fun _ _ => True) ?_ fun m _ _ => ?_
  · exact Returns.bind_ask fun reply => Returns.bind statReply_returns fun m _ _ =>
      Returns.bind_raiseIf fun _ => Returns.pure trivial
  refine Returns.bind_raiseIf fun _ => Returns.bind_lift fun identity _ => ?_
  by_cases hfile : m.isRegular = true
  · simp only [hfile, if_true, Bool.not_true]
    refine Returns.pure ⟨fun p e hfind => (find_root hfind).2 ▸ (find_root hfind).1.symm,
      fun p e hfind => .inl (List.mem_singleton.mpr (find_root hfind).2), ?_,
      fun _ => ⟨_, rfl, rfl, rfl⟩⟩
    intro e he
    obtain rfl := List.mem_singleton.mp he
    exact ⟨_, rfl⟩
  · simp only [hfile]
    refine Returns.bind (discoverDirectory_returns ?_) fun d _ hd => Returns.pure ?_
    · exact ⟨fun p e hfind => (find_root hfind).2 ▸ (find_root hfind).1.symm,
        fun p e hfind => .inr ⟨(find_root hfind).1, by simp⟩, by simp⟩
    · have hperm := List.mergeSort_perm d.entries (entryOrder u)
      refine ⟨hd.find_path, fun p e hfind => ?_, fun e he => hd.find_some e (hperm.mem_iff.mp he),
        by simp⟩
      exact (hd.find_mem p e hfind).imp hperm.mem_iff.mpr fun hroot =>
        ⟨hroot.1, fun e he => hroot.2 e (hperm.mem_iff.mp he)⟩

/-! ### Reading a file -/

/-- Among the events the source object is opened by its path, its handle is found to match what was
captured, all of it is read, and the handle still matches before it is closed. -/
def ReadFrom (platform : Platform) (events : History) (e : SourceEntry) (reads : Reads) : Prop :=
  ∃ before after descriptor opened closing,
    events = before ++ [⟨.openFile e.path platform.noFollow, some descriptor⟩,
      ⟨.fstat descriptor, some opened⟩, ⟨.read descriptor, (⟨reads, false⟩ : Content)⟩,
      ⟨.fstat descriptor, some closing⟩, ⟨.close descriptor, some ()⟩] ++ after ∧
    isLinkOrReparse opened = false ∧ e.identity.matchesHandle platform opened = true ∧
    e.identity.matchesHandle platform closing = true

theorem ReadFrom.append_left {events : History} {e : SourceEntry} {reads : Reads}
    (h : ReadFrom platform events e reads) (earlier : History) :
    ReadFrom platform (earlier ++ events) e reads := by
  obtain ⟨before, after, descriptor, opened, closing, rfl, hmatch⟩ := h
  exact ⟨earlier ++ before, after, descriptor, opened, closing, by simp, hmatch⟩

theorem ReadFrom.append_right {events : History} {e : SourceEntry} {reads : Reads}
    (h : ReadFrom platform events e reads) (later : History) :
    ReadFrom platform (events ++ later) e reads := by
  obtain ⟨before, after, descriptor, opened, closing, rfl, hmatch⟩ := h
  exact ⟨before, after ++ later, descriptor, opened, closing, by simp, hmatch⟩

/-- The body of a `with` block that reads the file to its end and makes no other calls. -/
def ReadsOnce {α : Type} (body : ℕ → Run α) (Q : α → Reads → Prop) : Prop :=
  ∀ descriptor, Returns (body descriptor) fun a made => ∃ reads : Reads,
    made = [⟨.read descriptor, (⟨reads, false⟩ : Content)⟩] ∧ Q a reads

theorem readAll_readsOnce : ReadsOnce (readAll env) fun a reads => a = reads := by
  intro descriptor
  refine Returns.bind_ask fun content => Returns.bind_raiseIf fun hfailed =>
    Returns.pure ⟨(content : Content).reads, ?_, rfl⟩
  obtain ⟨reads, failed⟩ := (content : Content)
  obtain rfl : failed = false := by simpa using hfailed
  rfl

/-- What follows the reads makes no calls. -/
theorem ReadsOnce.bind {α : Type} {g : Reads → Run α} {Q : α → Reads → Prop}
    (h : ∀ reads, Returns (g reads) fun a made => made = [] ∧ Q a reads) :
    ReadsOnce (fun descriptor => readAll env descriptor >>= g) Q := by
  intro descriptor
  refine Returns.bind (readAll_readsOnce descriptor) fun reads made hmade => ?_
  obtain ⟨_, rfl, rfl⟩ := hmade
  refine Returns.mono (h reads) fun a made hmade => ?_
  obtain ⟨rfl, hQ⟩ := hmade
  exact ⟨reads, rfl, hQ⟩

theorem requireAncestorBindings_returns {e : SourceEntry} :
    Returns (requireAncestorBindings env e) fun _ _ => True :=
  Returns.forEach (I := fun _ => True) (fun _ _ _ => requireBinding_returns) trivial

theorem lookup_eq_ok {s : SourceSession} {relative : Text} {e : SourceEntry} :
    s.lookup relative = .ok e ↔ s.entriesByPath.find relative = some e := by
  unfold SourceSession.lookup
  cases s.entriesByPath.find relative <;> simp

/-- Opening a file reads from the entry that the lookup leads to. -/
theorem openFile_returns {α : Type} {s : SourceSession} {relative : Text} {body : ℕ → Run α}
    {Q : α → Reads → Prop} (hbody : ReadsOnce body Q) :
    Returns (s.openFile env platform relative body) fun a made => ∃ e reads,
      s.lookup relative = .ok e ∧ ReadFrom platform made e reads ∧ Q a reads := by
  refine Returns.bind_lift fun e he => Returns.bind_raiseIf fun _ => ?_
  refine Returns.bind requireAncestorBindings_returns fun _ before _ => ?_
  refine Returns.bind_ask fun opened => bind_orRaise fun descriptor hopened => ?_
  subst hopened
  have hclose : Returns (ask env (.close descriptor) >>= orRaise (systemError "close"))
      fun _ made => made = [⟨.close descriptor, some ()⟩] := by
    refine Returns.bind_ask fun reply => Returns.mono orRaise_returns fun _ made hmade => ?_
    obtain ⟨rfl, rfl⟩ := hmade
    rfl
  have hinside : Returns (do
      let reply ← ask env (.fstat descriptor)
      let m ← orRaise (systemError "fstat") reply
      raiseIf (isLinkOrReparse m ∨ ¬ e.identity.matchesHandle platform m) (identityChanged e.path)
      let a ← body descriptor
      requireHandle env platform e descriptor
        (osError ("input changed while it was read: " ++ e.path.text))
      pure a) fun a made => ∃ (reads : Reads) (first last : Metadata),
        made = [⟨.fstat descriptor, some first⟩, ⟨.read descriptor, (⟨reads, false⟩ : Content)⟩,
          ⟨.fstat descriptor, some last⟩] ∧
        isLinkOrReparse first = false ∧ e.identity.matchesHandle platform first = true ∧
        e.identity.matchesHandle platform last = true ∧ Q a reads := by
    refine Returns.bind_ask fun reply => bind_orRaise fun first hfirst => ?_
    subst hfirst
    refine Returns.bind_raiseIf fun hmatch => Returns.bind (hbody descriptor) fun a made hmade => ?_
    obtain ⟨reads, rfl, hQ⟩ := hmade
    refine Returns.bind (Q := fun _ made => ∃ last : Metadata,
      made = [⟨.fstat descriptor, some last⟩] ∧ e.identity.matchesHandle platform last = true) ?_
      fun _ made hmade => Returns.pure ?_
    · refine Returns.bind_ask fun reply => bind_orRaise fun last hlast => Returns.raiseIf fun hsame => ?_
      subst hlast
      exact ⟨last, rfl, by simpa using hsame⟩
    · obtain ⟨last, rfl, hlast⟩ := hmade
      have hfirst : isLinkOrReparse first = false ∧
          e.identity.matchesHandle platform first = true := by simpa using hmatch
      exact ⟨reads, first, last, rfl, hfirst.1, hfirst.2, hlast, hQ⟩
  refine Returns.mono (Returns.finally' hinside hclose) fun a made hmade => ?_
  obtain ⟨_, _, rfl, ⟨reads, first, last, rfl, hlink, hfirst, hlast, hQ⟩, rfl⟩ := hmade
  exact ⟨e, reads, he, ⟨before, [], descriptor, first, last, by simp, hlink, hfirst, hlast⟩, hQ⟩

/-! ### What the loops read -/

/-- The path under which later loops look up the source of an entry of the manifest. -/
def SourceSession.key (s : SourceSession) (entry : Entry) : Text :=
  if s.rootIsFile then [] else entry.relativePath

/-- A lookup of the entry leads to the source entry or fails. -/
def LeadsTo (s : SourceSession) (e : SourceEntry) (entry : Entry) : Prop :=
  ∀ x, s.lookup (s.key entry) = .ok x → x = e

/-- The file entries of a manifest with the source entries they were built from, numbered. -/
def fileItems (es : List SourceEntry) (ms : List Entry) (start : ℕ) :
    List ((SourceEntry × Entry) × ℕ) :=
  ((es.zip ms).zipIdx start).filter fun item => item.1.2.isFile

/-- Each of the contents, numbered by its entry, is read from the source entry it belongs to, and
its digest is that of the entry of the manifest. -/
def Supplies (platform : Platform) (made : History) (es : List SourceEntry) (ms : List Entry)
    (start : ℕ) (contents : List (ℕ × Reads)) : Prop :=
  List.Forall₂ (fun item content => content.1 = item.2 ∧ ReadFrom platform made item.1.1 content.2 ∧
    item.1.2.digest = sha256 content.2.data) (fileItems es ms start) contents

theorem Supplies.append_left {made : History} {es : List SourceEntry} {ms : List Entry} {start : ℕ}
    {contents : List (ℕ × Reads)} (h : Supplies platform made es ms start contents)
    (earlier : History) : Supplies platform (earlier ++ made) es ms start contents :=
  List.Forall₂.imp (fun _ _ hitem => ⟨hitem.1, hitem.2.1.append_left earlier, hitem.2.2⟩) h

theorem supplies_nil {made : History} {start : ℕ} : Supplies platform made [] [] start [] := .nil

theorem Supplies.skip {made : History} {es : List SourceEntry} {ms : List Entry} {start : ℕ}
    {contents : List (ℕ × Reads)} {e : SourceEntry} {entry : Entry}
    (h : Supplies platform made es ms (start + 1) contents) (hfile : entry.isFile = false) :
    Supplies platform made (e :: es) (entry :: ms) start contents := by
  have hitems : fileItems (e :: es) (entry :: ms) start = fileItems es ms (start + 1) := by
    simp [fileItems, hfile]
  rw [Supplies, hitems]
  exact h

theorem Supplies.cons {made later : History} {es : List SourceEntry} {ms : List Entry} {start : ℕ}
    {contents : List (ℕ × Reads)} {e : SourceEntry} {entry : Entry} {reads : Reads}
    (h : Supplies platform later es ms (start + 1) contents) (hfile : entry.isFile = true)
    (hread : ReadFrom platform made e reads) (hdigest : entry.digest = sha256 reads.data) :
    Supplies platform (made ++ later) (e :: es) (entry :: ms) start ((start, reads) :: contents) := by
  have hitems : fileItems (e :: es) (entry :: ms) start =
      ((e, entry), start) :: fileItems es ms (start + 1) := by
    simp [fileItems, hfile]
  rw [Supplies, hitems]
  exact .cons ⟨rfl, hread.append_right later, hdigest⟩ (h.append_left made)

/-- The data frames of the contents: every block with the index of its entry. -/
def streamFrames (contents : List (ℕ × Reads)) : List (ℕ × Bytes) :=
  contents.flatMap fun content => content.2.blocks.map fun block => (content.1, block)

theorem encodeStream_returns {s : SourceSession} {kind : ℕ} {es : List SourceEntry} {ms : List Entry}
    (hkind : kind = kindFile ↔ s.rootIsFile = true) (hleads : List.Forall₂ (LeadsTo s) es ms)
    {start : ℕ} {frames : List (ℕ × Bytes)} :
    Returns (Routine.forEach (encodeStreamEntry env platform s kind) (ms.zipIdx start) frames)
      fun out made => ∃ contents, Supplies platform made es ms start contents ∧
        out = frames ++ streamFrames contents := by
  induction hleads generalizing start frames with
  | nil => exact Returns.pure ⟨[], supplies_nil, by simp [streamFrames]⟩
  | @cons e entry es ms hown _ ih =>
      rw [List.zipIdx_cons, Routine.forEach]
      by_cases hfile : entry.entryType = entryFile
      · have hkey : (if kind = kindFile then [] else entry.relativePath) = s.key entry := by
          rw [SourceSession.key]
          exact if_congr hkind rfl rfl
        have hentry : Returns (encodeStreamEntry env platform s kind frames (entry, start))
            fun out made => ∃ reads, ReadFrom platform made e reads ∧
              entry.digest = sha256 reads.data ∧
              out = frames ++ reads.blocks.map fun block => (start, block) := by
          rw [encodeStreamEntry, if_neg (not_not.mpr hfile)]
          simp only [hkey]
          refine Returns.bind_lift fun path _ => ?_
          refine Returns.bind (openFile_returns readAll_readsOnce) fun reads made hmade => ?_
          obtain ⟨x, _, hlookup, hread, rfl⟩ := hmade
          obtain rfl := hown x hlookup
          refine Returns.bind_raiseIf fun hsame => Returns.pure ?_
          push Not at hsame
          exact ⟨reads, by simpa using hread, hsame.2.symm, rfl⟩
        refine Returns.bind hentry fun out made hmade => ?_
        obtain ⟨reads, hread, hdigest, rfl⟩ := hmade
        refine Returns.mono ih fun out later hlater => ?_
        obtain ⟨contents, hsupplies, rfl⟩ := hlater
        exact ⟨_, hsupplies.cons (by simpa [Entry.isFile] using hfile) hread hdigest,
          by simp [streamFrames]⟩
      · have hskip : encodeStreamEntry env platform s kind frames (entry, start) = pure frames := by
          rw [encodeStreamEntry, if_pos hfile]
        rw [hskip]
        refine Returns.bind_pure (Returns.mono ih fun out later hlater => ?_)
        obtain ⟨contents, hsupplies, rfl⟩ := hlater
        exact ⟨contents, hsupplies.skip (by simpa [Entry.isFile] using hfile), rfl⟩

/-- The chunks of the contents, in order. -/
def chunksOf (config : ChunkingConfig) (contents : List (ℕ × Reads)) : List Bytes :=
  contents.flatMap fun content => iterContentDefinedChunks config content.2

/-- The digest and the size a chunk is recorded with. -/
def identityOf (chunk : Bytes) : Bytes × ℕ := (sha256 chunk, chunk.length)

def ChunkRecord.identity (c : ChunkRecord) : Bytes × ℕ := (c.digest, c.size)

theorem iterContentDefinedChunks_flatten (config : ChunkingConfig) (reads : Reads) :
    (iterContentDefinedChunks config reads).flatten = reads.data := by
  rw [iterContentDefinedChunks_eq, ChunkRule.chunks_flatten]

theorem foldl_push {index : ℕ} {t : ChunkScan} {chunks : List Bytes} :
    (chunks.foldl (ChunkScan.push index) t).entries = t.entries ∧
      (chunks.foldl (ChunkScan.push index) t).chunks.map ChunkRecord.identity =
        t.chunks.map ChunkRecord.identity ++ chunks.map identityOf := by
  induction chunks generalizing t with
  | nil => simp
  | cons chunk chunks ih =>
      rw [List.foldl_cons, ih.1, ih.2]
      simp [ChunkScan.push, ChunkRecord.identity, identityOf]

/-- The entry leads to its source entry, and is of its type. -/
structure Owns (s : SourceSession) (e : SourceEntry) (entry : Entry) : Prop where
  leadsTo : LeadsTo s e entry
  entryType : entry.entryType = if e.isDirectory then entryDirectory else entryFile

/-- The entries of two manifests that name the same thing. -/
def SameName (entry entry' : Entry) : Prop :=
  entry'.entryType = entry.entryType ∧ entry'.relativePath = entry.relativePath

theorem scanChunks_returns {config : ChunkingConfig} {s : SourceSession} {es : List SourceEntry}
    {ms : List Entry} (howns : List.Forall₂ (Owns s) es ms) {start : ℕ} {t : ChunkScan} :
    Returns (Routine.forEach (scanChunksOf env platform config s) (ms.zipIdx start) t)
      fun t' made => ∃ new contents, t'.entries = t.entries ++ new ∧ List.Forall₂ SameName ms new ∧
        Supplies platform made es new start contents ∧
        t'.chunks.map ChunkRecord.identity =
          t.chunks.map ChunkRecord.identity ++ (chunksOf config contents).map identityOf := by
  induction howns generalizing start t with
  | nil => exact Returns.pure ⟨[], [], by simp, .nil, supplies_nil, by simp [chunksOf]⟩
  | @cons e entry es ms hown _ ih =>
      rw [List.zipIdx_cons, Routine.forEach]
      by_cases hdir : entry.entryType = entryDirectory
      · have hskip : scanChunksOf env platform config s t (entry, start) =
            pure { t with entries := t.entries ++ [directoryEntry entry] } := by
          rw [scanChunksOf, if_pos hdir]
        rw [hskip]
        refine Returns.bind_pure (Returns.mono ih fun t' later hlater => ?_)
        obtain ⟨new, contents, hentries, hsame, hsupplies, hchunks⟩ := hlater
        have hfile : (directoryEntry entry).isFile = false := by
          simp [directoryEntry, Entry.isFile, hdir, entryDirectory, entryFile]
        exact ⟨directoryEntry entry :: new, contents, by simp [hentries], .cons ⟨rfl, rfl⟩ hsame,
          hsupplies.skip hfile, hchunks⟩
      · have hentry : Returns (scanChunksOf env platform config s t (entry, start)) fun t' made =>
            ∃ reads entry', ReadFrom platform made e reads ∧ entry'.digest = sha256 reads.data ∧
              SameName entry entry' ∧ t'.entries = t.entries ++ [entry'] ∧
              t'.chunks.map ChunkRecord.identity = t.chunks.map ChunkRecord.identity ++
                (iterContentDefinedChunks config reads).map identityOf := by
          rw [scanChunksOf, if_neg hdir]
          refine Returns.bind_lift fun path _ => ?_
          refine Returns.bind (openFile_returns (ReadsOnce.bind
            (Q := fun a reads => a = ((iterContentDefinedChunks config reads).foldl
              (ChunkScan.push start) t, sha256 reads.data, reads.data.length))
            fun reads => Returns.pure ⟨rfl, by rw [iterContentDefinedChunks_flatten]⟩))
            fun a made hmade => ?_
          obtain ⟨x, reads, hlookup, hread, rfl⟩ := hmade
          obtain rfl := hown.leadsTo x hlookup
          refine Returns.bind_raiseIf fun _ => Returns.pure ?_
          let scanned := (iterContentDefinedChunks config reads).foldl (ChunkScan.push start) t
          let entry' : Entry := ⟨entry.entryType, entry.relativePath, entry.mode, entry.mtimeNs,
            entry.size, t.chunks.length, scanned.chunks.length - t.chunks.length, sha256 reads.data⟩
          have hentries : scanned.entries ++ [entry'] = t.entries ++ [entry'] := by
            rw [foldl_push.1]
          exact ⟨reads, entry', by simpa using hread, rfl, ⟨rfl, rfl⟩, hentries, foldl_push.2⟩
        refine Returns.bind hentry fun t' made hmade => ?_
        obtain ⟨reads, entry', hread, hdigest, hname, hentries, hchunks⟩ := hmade
        refine Returns.mono ih fun t'' later hlater => ?_
        obtain ⟨new, contents, hentries', hsame, hsupplies, hchunks'⟩ := hlater
        have hfile : entry'.isFile = true := by
          have htype := hown.entryType
          simp only [Entry.isFile, hname.1, decide_eq_true_eq]
          by_cases hsource : e.isDirectory = true
          · exact absurd (by simpa [hsource] using htype) hdir
          · simpa [hsource] using htype
        exact ⟨entry' :: new, _, by simp [hentries', hentries], .cons hname hsame,
          hsupplies.cons hfile hread hdigest, by simp [hchunks', hchunks, chunksOf]⟩

/-- The chunks that are their own source, each with its number. -/
def uniqueFrames (m : DedupManifest) (chunks : List Bytes) (start : ℕ) : List (ℕ × Bytes) :=
  ((chunks.zipIdx start).filter fun item =>
    (m.chunks[item.2]?.map ChunkRecord.sourceIndex) = some item.2).map Prod.swap

theorem uniqueFrames_append (m : DedupManifest) (first second : List Bytes) (start : ℕ) :
    uniqueFrames m (first ++ second) start =
      uniqueFrames m first start ++ uniqueFrames m second (start + first.length) := by
  simp [uniqueFrames, List.zipIdx_append]

/-- The frames added for the chunks of one file. -/
theorem encodeChunks_returns {m : DedupManifest} {path : Path} {chunks : List Bytes} {t : ChunkFrames} :
    Returns (Routine.forEach (encodeChunk m path) chunks t) fun t' made => made = [] ∧
      t'.occurrence = t.occurrence + chunks.length ∧
      t'.frames = t.frames ++ uniqueFrames m chunks t.occurrence := by
  induction chunks generalizing t with
  | nil => exact Returns.pure ⟨rfl, rfl, by simp [uniqueFrames]⟩
  | cons chunk chunks ih =>
      rw [Routine.forEach]
      rcases hrecord : m.chunks[t.occurrence]? with _ | record
      · have hraise : encodeChunk m path t chunk =
            Routine.raise (.python (.runtime "tuple index out of range")) := by
          rw [encodeChunk, hrecord]
        rw [hraise]
        exact Returns.bind_raise
      · have hchunk : Returns (encodeChunk m path t chunk) fun t' made => made = [] ∧
            t'.occurrence = t.occurrence + 1 ∧
            t'.frames = t.frames ++ uniqueFrames m [chunk] t.occurrence := by
          rw [encodeChunk, hrecord]
          refine Returns.bind_raiseIf fun _ => Returns.pure ⟨rfl, rfl, ?_⟩
          by_cases hsource : record.sourceIndex = t.occurrence
          · simp [uniqueFrames, hrecord, hsource]
          · simp [uniqueFrames, hrecord, hsource]
        refine Returns.bind hchunk fun t' made hmade => ?_
        obtain ⟨rfl, hoccurrence, hframes⟩ := hmade
        refine Returns.mono ih fun t'' later hlater => ?_
        obtain ⟨rfl, hoccurrence', hframes'⟩ := hlater
        refine ⟨rfl, by simp [hoccurrence', hoccurrence]; omega, ?_⟩
        have hsplit := uniqueFrames_append m [chunk] chunks t.occurrence
        rw [List.singleton_append, List.length_singleton] at hsplit
        rw [hframes', hframes, hoccurrence, hsplit, List.append_assoc]

theorem encodeDedup_returns {config : ChunkingConfig} {s : SourceSession} {m : DedupManifest}
    {es : List SourceEntry} {ms : List Entry} (hleads : List.Forall₂ (LeadsTo s) es ms) (start : ℕ)
    {t : ChunkFrames} :
    Returns (Routine.forEach (encodeDedupEntry env platform config s m) ms t)
      fun t' made => ∃ contents, Supplies platform made es ms start contents ∧
        t'.frames = t.frames ++ uniqueFrames m (chunksOf config contents) t.occurrence := by
  induction hleads generalizing start t with
  | nil => exact Returns.pure ⟨[], supplies_nil, by simp [chunksOf, uniqueFrames]⟩
  | @cons e entry es ms hown _ ih =>
      rw [Routine.forEach]
      by_cases hfile : entry.entryType = entryFile
      · have hentry : Returns (encodeDedupEntry env platform config s m t entry) fun t' made =>
            ∃ reads, ReadFrom platform made e reads ∧ entry.digest = sha256 reads.data ∧
              t'.occurrence = t.occurrence + (iterContentDefinedChunks config reads).length ∧
              t'.frames = t.frames ++
                uniqueFrames m (iterContentDefinedChunks config reads) t.occurrence := by
          rw [encodeDedupEntry, if_neg (not_not.mpr hfile)]
          refine Returns.bind_lift fun path _ => ?_
          refine Returns.bind (openFile_returns (ReadsOnce.bind
            (Q := fun a reads => a.2 = sha256 reads.data ∧
              a.1.occurrence = t.occurrence + (iterContentDefinedChunks config reads).length ∧
              a.1.frames = t.frames ++
                uniqueFrames m (iterContentDefinedChunks config reads) t.occurrence)
            fun reads => Returns.bind encodeChunks_returns fun t' made hmade => Returns.pure ?_))
            fun a made hmade => ?_
          · obtain ⟨rfl, hoccurrence, hframes⟩ := hmade
            exact ⟨rfl, by rw [iterContentDefinedChunks_flatten], hoccurrence, hframes⟩
          · obtain ⟨x, reads, hlookup, hread, hdigest, hoccurrence, hframes⟩ := hmade
            obtain rfl := hown x hlookup
            refine Returns.bind_raiseIf fun hsame => Returns.pure ?_
            rw [not_not, hdigest] at hsame
            exact ⟨reads, by simpa using hread, hsame.symm, hoccurrence, hframes⟩
        refine Returns.bind hentry fun t' made hmade => ?_
        obtain ⟨reads, hread, hdigest, hoccurrence, hframes⟩ := hmade
        refine Returns.mono (ih (start + 1)) fun t'' later hlater => ?_
        obtain ⟨contents, hsupplies, hframes'⟩ := hlater
        refine ⟨_, hsupplies.cons (by simpa [Entry.isFile] using hfile) hread hdigest, ?_⟩
        rw [hframes', hframes, hoccurrence, List.append_assoc, ← uniqueFrames_append]
        rfl
      · have hskip : encodeDedupEntry env platform config s m t entry = pure t := by
          rw [encodeDedupEntry, if_pos hfile]
        rw [hskip]
        refine Returns.bind_pure (Returns.mono (ih (start + 1)) fun t'' later hlater => ?_)
        obtain ⟨contents, hsupplies, hframes⟩ := hlater
        exact ⟨contents, hsupplies.skip (by simpa [Entry.isFile] using hfile), hframes⟩

end

end MosaicArchive.Source
