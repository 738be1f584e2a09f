import MosaicArchive.Source.Reads

/-!
Which source object the bytes of an archive come from. The session knows an
entry by the spelling on disk, the manifest by the normalized path; a lookup by
the normalized path never leads to another entry, but it fails for every entry
that is spelled differently on disk.
-/

namespace MosaicArchive.Source

open Utf8 (Text)
open FixedWidth CallHistory MosaicArchive.Manifest MosaicArchive.Gear
open Routine (raiseIf)

section

variable {u : Unicode} {env : Environment Call Reply} {platform : Platform}

/-! ### What a scan establishes -/

/-- The key of the check for collisions. -/
def collisionKey (u : Unicode) (e : SourceEntry) : Text := u.casefold (u.nfc e.relativePath)

/-- The entry is of the type of its source entry and has its path, normalized. -/
structure Built (u : Unicode) (e : SourceEntry) (entry : Entry) : Prop where
  entryType : entry.entryType = if e.isDirectory then entryDirectory else entryFile
  path : ∃ normalized, validateRelativePath u e.relativePath = .ok normalized ∧
    validateRelativePath u normalized = .ok entry.relativePath

theorem ofPython_eq_ok {α : Type} {x : Except PyError α} {a : α} :
    ofPython x = .ok a ↔ x = .ok a := by
  cases x <;> simp [ofPython, Except.mapError]

theorem hashFile_returns {s : SourceSession} {relative : Text} :
    Returns (hashFile env platform s relative) fun result made => ∃ e reads,
      s.lookup relative = .ok e ∧ ReadFrom platform made e reads ∧ result.2 = sha256 reads.data := by
  refine Returns.bind (openFile_returns readAll_readsOnce) fun reads made hmade => ?_
  obtain ⟨e, _, hlookup, hread, rfl⟩ := hmade
  refine Returns.bind_lift fun identity _ => Returns.bind_lift fun path _ => ?_
  exact Returns.bind_raiseIf fun _ => Returns.pure ⟨e, reads, hlookup, by simpa using hread, rfl⟩

theorem entryMetadata_returns {s : SourceSession} {e : SourceEntry} {entryType : ℕ} {relative : Text}
    {chunkSize firstFrame : ℕ} {hashFiles : Bool} :
    Returns (entryMetadata u env platform s e entryType relative chunkSize firstFrame hashFiles)
      fun entry made => entry.entryType = entryType ∧
        validateRelativePath u relative = .ok entry.relativePath ∧
        (entryType ≠ entryDirectory → hashFiles = true → ∃ x reads,
          s.lookup e.relativePath = .ok x ∧ ReadFrom platform made x reads ∧
          entry.digest = sha256 reads.data) := by
  refine Returns.bind_lift fun path _ => ?_
  by_cases hdir : entryType = entryDirectory
  · rw [if_pos hdir]
    refine Returns.bind_raiseIf fun _ => Returns.bind_lift fun validated hvalidated =>
      Returns.pure ⟨rfl, ofPython_eq_ok.mp hvalidated, fun hfile => absurd hdir hfile⟩
  · rw [if_neg hdir]
    refine Returns.bind_raiseIf fun _ => ?_
    have hcontent : Returns (sizeAndDigest env platform s e hashFiles) fun result made =>
        hashFiles = true → ∃ x reads, s.lookup e.relativePath = .ok x ∧
          ReadFrom platform made x reads ∧ result.2 = sha256 reads.data := by
      cases hashFiles with
      | true => exact Returns.mono hashFile_returns fun _ _ h _ => h
      | false => exact Returns.pure fun h => by cases h
    refine Returns.bind hcontent fun result made hmade => ?_
    refine Returns.bind_lift fun count _ => Returns.bind_lift fun validated hvalidated =>
      Returns.pure ⟨rfl, ofPython_eq_ok.mp hvalidated, fun _ hhash => ?_⟩
    obtain ⟨x, reads, hlookup, hread, hdigest⟩ := hmade hhash
    exact ⟨x, reads, hlookup, by simpa using hread, hdigest⟩

/-- A lookup by the spelling on disk leads to the entry itself. -/
def FindsItself (s : SourceSession) (e : SourceEntry) : Prop :=
  ∀ x, s.lookup e.relativePath = .ok x → x = e

theorem scanEntries_returns {s : SourceSession} {chunkSize : ℕ} {hashFiles : Bool}
    {es : List SourceEntry} {t : InputTable} (start : ℕ) :
    Returns (Routine.forEach (scanEntry u env platform s chunkSize hashFiles) es t)
      fun t' made => ∃ new, t'.entries = t.entries ++ new ∧ List.Forall₂ (Built u) es new ∧
        (es.map (collisionKey u)).Nodup ∧ (∀ e ∈ es, collisionKey u e ∉ t.casefolded) ∧
        (hashFiles = true → (∀ e ∈ es, FindsItself s e) →
          ∃ contents, Supplies platform made es new start contents) := by
  induction es generalizing t start with
  | nil => exact Returns.pure ⟨[], by simp, .nil, by simp, by simp, fun _ _ => ⟨[], supplies_nil⟩⟩
  | cons e es ih =>
      rw [Routine.forEach]
      have hentry : Returns (scanEntry u env platform s chunkSize hashFiles t e) fun t' made =>
          ∃ entry, t'.entries = t.entries ++ [entry] ∧
            t'.casefolded = collisionKey u e :: t.casefolded ∧
            collisionKey u e ∉ t.casefolded ∧ Built u e entry ∧
            (e.isDirectory = false → hashFiles = true → FindsItself s e → ∃ reads,
              ReadFrom platform made e reads ∧ entry.digest = sha256 reads.data) := by
        refine Returns.bind_lift fun normalized hnormalized => ?_
        rw [ofPython_eq_ok] at hnormalized
        have hkey : u.casefold normalized = collisionKey u e := by
          rw [collisionKey, (validateRelativePath_eq_ok.mp hnormalized).1]
        refine Returns.bind_raiseIf fun hfresh => ?_
        rw [hkey] at hfresh
        refine Returns.bind entryMetadata_returns fun entry made hmade => Returns.pure ?_
        obtain ⟨htype, hpath, hread⟩ := hmade
        refine ⟨entry, rfl, by rw [hkey], hfresh, ⟨htype, normalized, hnormalized, hpath⟩, ?_⟩
        intro hfile hhash hitself
        have hnotDirectory : (if e.isDirectory = true then entryDirectory else entryFile) ≠
            entryDirectory := by
          simp [hfile, entryDirectory, entryFile]
        obtain ⟨x, reads, hlookup, hfrom, hdigest⟩ := hread hnotDirectory hhash
        obtain rfl := hitself x hlookup
        exact ⟨reads, by simpa using hfrom, hdigest⟩
      refine Returns.bind hentry fun t' made hmade => ?_
      obtain ⟨entry, hentries, hcasefolded, hfresh, hbuilt, hread⟩ := hmade
      refine Returns.mono (ih (start + 1)) fun t'' later hlater => ?_
      obtain ⟨new, hentries', hbuilt', hnodup, hdistinct, hsupplies⟩ := hlater
      rw [hcasefolded] at hdistinct
      refine ⟨entry :: new, by simp [hentries', hentries], .cons hbuilt hbuilt', ?_, ?_, ?_⟩
      · rw [List.map_cons, List.nodup_cons]
        refine ⟨fun hmem => ?_, hnodup⟩
        obtain ⟨e', he', hsame⟩ := List.mem_map.mp hmem
        exact hdistinct e' he' (by simp [hsame])
      · rw [List.forall_mem_cons]
        exact ⟨hfresh, fun e' he' hmem => hdistinct e' he' (List.mem_cons_of_mem _ hmem)⟩
      · intro hhash hitself
        rw [List.forall_mem_cons] at hitself
        obtain ⟨contents, hcontents⟩ := hsupplies hhash hitself.2
        by_cases hdir : e.isDirectory = true
        · have hfile : entry.isFile = false := by
            simp [Entry.isFile, hbuilt.entryType, hdir, entryDirectory, entryFile]
          exact ⟨contents, (hcontents.append_left made).skip hfile⟩
        · have hfile : entry.isFile = true := by
            simp [Entry.isFile, hbuilt.entryType, hdir]
          obtain ⟨reads, hreads, hdigest⟩ := hread (by simpa using hdir) hhash hitself.1
          exact ⟨_, hcontents.cons hfile hreads hdigest⟩

/-- What the entries of a manifest and those of the session have in common after a scan. -/
structure Scanned (u : Unicode) (s : SourceSession) (kind : ℕ) (ms : List Entry) : Prop where
  kind : kind = kindFile ↔ s.rootIsFile = true
  types : List.Forall₂ (fun (e : SourceEntry) (entry : Entry) =>
    entry.entryType = if e.isDirectory then entryDirectory else entryFile) s.entries ms
  folder : s.rootIsFile = false →
    List.Forall₂ (Built u) s.entries ms ∧ (s.entries.map (collisionKey u)).Nodup

theorem scanInput_returns {s : SourceSession} (hs : s.Consistent) {chunkSize : ℕ} {hashFiles : Bool} :
    Returns (scanInput u env platform s chunkSize hashFiles) fun m made =>
      Scanned u s m.kind m.entries ∧
        (hashFiles = true → (∀ e ∈ s.entries, FindsItself s e) →
          ∃ contents, Supplies platform made s.entries m.entries 0 contents) := by
  refine Returns.bind_lift fun rootName _ => ?_
  by_cases hroot : s.rootIsFile = true
  · obtain ⟨root, hentries, hfile, -⟩ := hs.root hroot
    rw [if_pos hroot, scanFile, hentries]
    refine Returns.bind entryMetadata_returns fun entry made hmade => Returns.pure ?_
    obtain ⟨htype, -, hread⟩ := hmade
    have htypes : entry.entryType = if root.isDirectory = true then entryDirectory else entryFile := by
      simp [htype, hfile]
    refine ⟨⟨by simp [hroot], by rw [hentries]; exact .cons htypes .nil, by simp [hroot]⟩, ?_⟩
    intro hhash hitself
    obtain ⟨x, reads, hlookup, hfrom, hdigest⟩ := hread (by decide) hhash
    obtain rfl := hitself root (by simp) x hlookup
    have hentryFile : entry.isFile = true := by simp [Entry.isFile, htype]
    exact ⟨_, Supplies.cons supplies_nil hentryFile hfrom hdigest⟩
  · rw [if_neg hroot]
    refine Returns.bind (scanEntries_returns 0) fun t made hmade => ?_
    obtain ⟨new, hentries, hbuilt, hnodup, -, hsupplies⟩ := hmade
    obtain rfl : t.entries = new := by simpa using hentries
    refine Returns.bind_raiseIf fun _ => Returns.pure ⟨⟨?_, ?_, fun _ => ⟨hbuilt, hnodup⟩⟩, ?_⟩
    · simp [hroot, kindFolder, kindFile]
    · exact hbuilt.imp fun _ _ h => h.entryType
    · simpa using hsupplies

/-- Two entries of one session have different collision keys. -/
theorem Scanned.eq_of_key {s : SourceSession} {kind : ℕ} {ms : List Entry}
    (h : Scanned u s kind ms) (hroot : s.rootIsFile = false) {e e' : SourceEntry} (he : e ∈ s.entries)
    (he' : e' ∈ s.entries) (hkey : collisionKey u e = collisionKey u e') : e = e' :=
  List.inj_on_of_nodup_map (h.folder hroot).2 he he' hkey

theorem Scanned.findsItself {s : SourceSession} (hs : s.Consistent) {kind : ℕ} {ms : List Entry}
    (h : Scanned u s kind ms) : ∀ e ∈ s.entries, FindsItself s e := by
  intro e he x hlookup
  rw [lookup_eq_ok] at hlookup
  rcases hs.find_mem _ x hlookup with hx | ⟨hempty, hnonempty⟩
  · by_cases hroot : s.rootIsFile = true
    · obtain ⟨root, hentries, -, -⟩ := hs.root hroot
      rw [hentries, List.mem_singleton] at he hx
      rw [he, hx]
    · apply h.eq_of_key (by simpa using hroot) hx he
      rw [collisionKey, collisionKey, hs.find_path _ x hlookup]
  · exact absurd hempty (hnonempty e he)

/-- Where normalizing twice is normalizing once, no entry leads to another one. -/
theorem Scanned.owns (hnfc : ∀ text, u.nfc (u.nfc text) = u.nfc text) {s : SourceSession}
    (hs : s.Consistent) {kind : ℕ} {ms : List Entry} (h : Scanned u s kind ms) :
    List.Forall₂ (Owns s) s.entries ms := by
  have hleads : List.Forall₂ (LeadsTo s) s.entries ms := by
    by_cases hroot : s.rootIsFile = true
    · obtain ⟨root, hentries, -, hfind⟩ := hs.root hroot
      have htypes := h.types
      rw [hentries] at htypes ⊢
      obtain ⟨entry, _, -, hnil, rfl⟩ := List.forall₂_cons_left_iff.mp htypes
      obtain rfl := List.forall₂_nil_left_iff.mp hnil
      refine .cons (fun x hlookup => ?_) .nil
      rw [lookup_eq_ok, SourceSession.key, if_pos hroot, hfind] at hlookup
      exact (Option.some.inj hlookup).symm
    · have hfolder : s.rootIsFile = false := by simpa using hroot
      refine (List.forall₂_iff_zip.mpr ⟨(h.folder hfolder).1.length_eq, fun {e entry} hmem => ?_⟩)
      have he : e ∈ s.entries := (List.of_mem_zip hmem).1
      obtain ⟨normalized, hnormalized, hpath⟩ :=
        ((List.forall₂_iff_zip.mp (h.folder hfolder).1).2 hmem).path
      obtain ⟨rfl, -⟩ := validateRelativePath_eq_ok.mp hnormalized
      obtain ⟨hentry, hportable⟩ := validateRelativePath_eq_ok.mp hpath
      intro x hlookup
      rw [lookup_eq_ok, SourceSession.key, if_neg hroot] at hlookup
      rcases hs.find_mem _ x hlookup with hx | ⟨hempty, -⟩
      · apply h.eq_of_key hfolder hx he
        rw [collisionKey, collisionKey, hs.find_path _ x hlookup, hentry, hnfc, hnfc]
      · exact absurd hempty hportable.nonempty
  rw [List.forall₂_iff_zip]
  refine ⟨hleads.length_eq, fun hmem => ?_⟩
  exact ⟨(List.forall₂_iff_zip.mp hleads).2 hmem, (List.forall₂_iff_zip.mp h.types).2 hmem⟩

theorem Owns.sameName {s : SourceSession} {es : List SourceEntry} {ms ms' : List Entry}
    (h : List.Forall₂ (Owns s) es ms) (hsame : List.Forall₂ SameName ms ms') :
    List.Forall₂ (Owns s) es ms' := by
  induction h generalizing ms' with
  | nil =>
      cases hsame
      exact .nil
  | cons hown _ ih =>
      cases hsame with
      | cons hname hrest =>
          refine .cons ⟨fun x hlookup => ?_, hname.1.trans hown.entryType⟩ (ih hrest)
          rw [SourceSession.key, hname.2] at hlookup
          exact hown.leadsTo x hlookup

theorem scanManifest_returns (hnfc : ∀ text, u.nfc (u.nfc text) = u.nfc text) {s : SourceSession}
    (hs : s.Consistent) {config : ChunkingConfig} :
    Returns (scanManifest u env platform config s) fun result made =>
      List.Forall₂ (Owns s) s.entries result.1.entries ∧
        ∃ contents, Supplies platform made s.entries result.1.entries 0 contents ∧
          result.1.chunks.map ChunkRecord.identity = (chunksOf config contents).map identityOf := by
  refine Returns.bind (scanInput_returns hs) fun base made hmade => ?_
  have howns := hmade.1.owns hnfc hs
  refine Returns.bind (scanChunks_returns howns) fun t later hlater => Returns.pure ?_
  obtain ⟨new, contents, hentries, hsame, hsupplies, hchunks⟩ := hlater
  obtain rfl : t.entries = new := by simpa using hentries
  refine ⟨Owns.sameName howns hsame, contents, ?_, by simpa using hchunks⟩
  rw [List.append_nil]
  exact hsupplies.append_left made

end

/-! ### The main result -/

/-- Every entry of a manifest is found in the session, as the source entry it was built from. -/
def Resolves (s : SourceSession) (m : StreamManifest) : Prop :=
  List.Forall₂ (fun e entry => s.lookup (s.key entry) = .ok e) s.entries m.entries

/-- In every run that returns, the bytes hashed and encoded for an entry are read from its own
source entry. -/
structure ReadsOwnSources (u : Unicode) (env : Environment Call Reply) (platform : Platform)
    (s : SourceSession) : Prop where
  hashed : ∀ chunkSize h h' m, scanInput u env platform s chunkSize true h = (.ok m, h') →
    ∃ made contents, h' = h ++ made ∧ Supplies platform made s.entries m.entries 0 contents
  streamed : ∀ chunkSize hashFiles h h' m g g' frames,
    scanInput u env platform s chunkSize hashFiles h = (.ok m, h') →
    encodeStreamFrames env platform s m g = (.ok frames, g') →
    ∃ made contents, g' = g ++ made ∧ Supplies platform made s.entries m.entries 0 contents ∧
      frames = streamFrames contents
  chunked : ∀ config h h' m owners, scanManifest u env platform config s h = (.ok (m, owners), h') →
    ∃ made contents, h' = h ++ made ∧ Supplies platform made s.entries m.entries 0 contents ∧
      m.chunks.map ChunkRecord.identity = (chunksOf config contents).map identityOf
  deduplicated : ∀ config h h' m owners g g' frames,
    scanManifest u env platform config s h = (.ok (m, owners), h') →
    encodeDedupFrames env platform config s m g = (.ok frames, g') →
    ∃ made contents, g' = g ++ made ∧ Supplies platform made s.entries m.entries 0 contents ∧
      frames = uniqueFrames m (chunksOf config contents) 0

theorem readsOwnSources {u : Unicode} (hnfc : ∀ text, u.nfc (u.nfc text) = u.nfc text)
    (env : Environment Call Reply) (platform : Platform) {s : SourceSession} (hs : s.Consistent) :
    ReadsOwnSources u env platform s := by
  refine ⟨fun chunkSize h h' m hscan => ?_, fun chunkSize hashFiles h h' m g g' frames hscan hencode => ?_,
    fun config h h' m owners hscan => ?_, fun config h h' m owners g g' frames hscan hencode => ?_⟩
  · obtain ⟨made, hmade, hscanned, hsupplies⟩ := (scanInput_returns hs).elim hscan
    obtain ⟨contents, hcontents⟩ := hsupplies rfl (hscanned.findsItself hs)
    exact ⟨made, contents, hmade, hcontents⟩
  · obtain ⟨_, -, hscanned, -⟩ := (scanInput_returns hs).elim hscan
    have hleads : List.Forall₂ (LeadsTo s) s.entries m.entries :=
      (hscanned.owns hnfc hs).imp fun _ _ hown => hown.leadsTo
    obtain ⟨made, hmade, contents, hsupplies, hframes⟩ :=
      (encodeStream_returns hscanned.kind hleads).elim hencode
    exact ⟨made, contents, hmade, hsupplies, by simpa using hframes⟩
  · obtain ⟨made, hmade, -, contents, hsupplies, hchunks⟩ := (scanManifest_returns hnfc hs).elim hscan
    exact ⟨made, contents, hmade, hsupplies, hchunks⟩
  · obtain ⟨_, -, howns, -⟩ := (scanManifest_returns hnfc hs).elim hscan
    have hleads : List.Forall₂ (LeadsTo s) s.entries m.entries :=
      howns.imp fun _ _ hown => hown.leadsTo
    have hrun : Returns (encodeDedupFrames env platform config s m) fun frames made =>
        ∃ contents, Supplies platform made s.entries m.entries 0 contents ∧
          frames = uniqueFrames m (chunksOf config contents) 0 := by
      refine Returns.bind (encodeDedup_returns hleads 0) fun t made hmade => Returns.pure ?_
      obtain ⟨contents, hsupplies, hframes⟩ := hmade
      exact ⟨contents, by simpa using hsupplies, by simpa using hframes⟩
    obtain ⟨made, hmade, contents, hsupplies, hframes⟩ := hrun.elim hencode
    exact ⟨made, contents, hmade, hsupplies, hframes⟩

/-- The entries of a manifest are found in the session exactly if every path below the root is
spelled in its normal form on disk. -/
theorem resolves_iff {u : Unicode} (hnfc : ∀ text, u.nfc (u.nfc text) = u.nfc text)
    {s : SourceSession} (hs : s.Consistent) {m : StreamManifest}
    (hscanned : Scanned u s m.kind m.entries) :
    Resolves s m ↔ (s.rootIsFile = false → ∀ e ∈ s.entries, u.nfc e.relativePath = e.relativePath) := by
  have howns := hscanned.owns hnfc hs
  by_cases hroot : s.rootIsFile = true
  · refine ⟨fun _ hfolder => by simp [hroot] at hfolder, fun _ => ?_⟩
    obtain ⟨root, hentries, -, hfind⟩ := hs.root hroot
    refine howns.imp fun e entry hown => ?_
    have hlookup : s.lookup (s.key entry) = .ok root := by
      rw [lookup_eq_ok, SourceSession.key, if_pos hroot, hfind]
    rw [hlookup, hown.leadsTo root hlookup]
  · have hfolder : s.rootIsFile = false := by simpa using hroot
    have hbuilt := (hscanned.folder hfolder).1
    have hkey : ∀ e entry, Built u e entry → s.key entry = u.nfc e.relativePath := by
      intro e entry hb
      obtain ⟨normalized, hnormalized, hpath⟩ := hb.path
      rw [SourceSession.key, if_neg hroot, (validateRelativePath_eq_ok.mp hpath).1,
        (validateRelativePath_eq_ok.mp hnormalized).1, hnfc]
    constructor
    · intro hresolves _
      have hspelled : List.Forall₂ (fun e entry => u.nfc e.relativePath = e.relativePath ∧
          Built u e entry) s.entries m.entries := by
        rw [List.forall₂_iff_zip]
        refine ⟨hbuilt.length_eq, fun {e entry} hmem => ?_⟩
        have hb := (List.forall₂_iff_zip.mp hbuilt).2 hmem
        have hfind := lookup_eq_ok.mp ((List.forall₂_iff_zip.mp hresolves).2 hmem)
        exact ⟨(hkey e entry hb).symm.trans (hs.find_path _ e hfind).symm, hb⟩
      exact ((List.forall₂_and_left _ _).mp hspelled).1
    · intro hspelled
      rw [Resolves, List.forall₂_iff_zip]
      refine ⟨hbuilt.length_eq, fun {e entry} hmem => ?_⟩
      have he : e ∈ s.entries := (List.of_mem_zip hmem).1
      obtain ⟨x, hfind⟩ := hs.find_some e he
      have hlookup : s.lookup (s.key entry) = .ok x := by
        rw [lookup_eq_ok, hkey e entry ((List.forall₂_iff_zip.mp hbuilt).2 hmem), hspelled hfolder e he]
        exact hfind
      rw [hlookup, ((List.forall₂_iff_zip.mp howns).2 hmem).leadsTo x hlookup]

/-- For every captured tree and every manifest scanned from it: each entry is found in the session
and its bytes are read from its own source entry, exactly if every path below the root is spelled
in its normal form on disk. -/
theorem entries_from_own_source_iff {u : Unicode} (hnfc : ∀ text, u.nfc (u.nfc text) = u.nfc text)
    (env : Environment Call Reply) (platform : Platform) {directories : ℕ} {source : Path}
    {h h' : History} {s : SourceSession}
    (hcapture : SourceSession.capture env u directories source h = (.ok s, h')) {chunkSize : ℕ}
    {hashFiles : Bool} {g g' : History} {m : StreamManifest}
    (hscan : scanInput u env platform s chunkSize hashFiles g = (.ok m, g')) :
    Resolves s m ∧ ReadsOwnSources u env platform s ↔
      (s.rootIsFile = false → ∀ e ∈ s.entries, u.nfc e.relativePath = e.relativePath) := by
  obtain ⟨_, -, hs⟩ := capture_returns.elim hcapture
  obtain ⟨_, -, hscanned, -⟩ := (scanInput_returns hs).elim hscan
  rw [← resolves_iff hnfc hs hscanned]
  exact and_iff_left (readsOwnSources hnfc env platform hs)

/-! ### Two trees of one file -/

/-- Puts a character before a text, an `e` before an acute accent as one letter. -/
def composeChar (c : Char) (rest : Text) : Text :=
  if c = 'e' ∧ rest.head? = some '\u0301' then 'é' :: rest.tail else c :: rest

/-- NFC on texts in which the acute accent is the only combining mark, and only on an `e`. -/
def composeAcute (text : Text) : Text := text.foldr composeChar []

def acuteUnicode : Unicode := { asciiUnicode with nfc := composeAcute }

theorem composeAcute_composeAcute (text : Text) :
    composeAcute (composeAcute text) = composeAcute text := by
  induction text with
  | nil => rfl
  | cons c rest ih =>
      have hcons : ∀ d tail, composeAcute (d :: tail) = composeChar d (composeAcute tail) :=
        fun _ _ => rfl
      rw [hcons]
      by_cases hpair : c = 'e' ∧ (composeAcute rest).head? = some '\u0301'
      · -- the accent is dropped, and what follows it is composed already
        obtain ⟨tail, htail⟩ := List.head?_eq_some_iff.mp hpair.2
        have hletter : ∀ d tail, d ≠ 'e' → composeAcute (d :: tail) = d :: composeAcute tail := by
          intro d tail hd
          rw [hcons, composeChar, if_neg fun hboth => hd hboth.1]
        rw [htail, hletter _ _ (by decide)] at ih
        rw [composeChar, if_pos hpair, htail, List.tail_cons, hletter _ _ (by decide),
          (List.cons.inj ih).2]
      · rw [composeChar, if_neg hpair, hcons, ih, composeChar, if_neg hpair]

/-- The tree of a directory with one file of one byte. -/
def directoryStat : Metadata := ⟨1, 10, 0o040755, 4096, 0, 0, none, 0⟩
def fileStat : Metadata := ⟨1, 11, 0o100644, 1, 0, 0, none, 0⟩

def oneFile (name : Text) : Environment Call Reply := fun _ c =>
  match c with
  | .stat [_] => .ok directoryStat
  | .stat _ => .ok fileStat
  | .scandir _ => (⟨[name], false⟩ : Listing)
  | .openFile _ _ => some 3
  | .fstat _ => some fileStat
  | .read _ => (⟨Reads.single [7], false⟩ : Content)
  | .close _ => some ()

def directoryBinding : Binding := ⟨[['d']], directoryStat, by decide⟩

def fileEntry (name : Text) : SourceEntry :=
  ⟨name, false, ⟨fileStat, by decide⟩, [['d'], name], [directoryBinding]⟩

def rootEntry : SourceEntry := ⟨[], true, directoryBinding.identity, [['d']], []⟩

def oneFileSession (name : Text) : SourceSession :=
  ⟨[['d']], false, [(name, fileEntry name), ([], rootEntry)], [fileEntry name]⟩

theorem capture_oneFile (u : Unicode) (name : Text) :
    ∃ h, SourceSession.capture (oneFile name) u 2 [['d']] [] = (.ok (oneFileSession name), h) := by
  have hrun : ∃ h, SourceSession.capture (oneFile name) u 2 [['d']] [] =
      (.ok ⟨[['d']], false, [(name, fileEntry name), ([], rootEntry)],
        [fileEntry name].mergeSort (entryOrder u)⟩, h) := ⟨_, rfl⟩
  rwa [List.mergeSort_singleton] at hrun

def posix : Platform := ⟨false, true⟩

/-- The manifest of the tree; it names the file by the composed spelling. -/
def oneFileManifest (relative : Text) : StreamManifest :=
  ⟨kindFolder, ['d'], [⟨entryFile, relative, 0o644, 0, 1, 1, 1, zeroHash⟩]⟩

theorem entries_from_own_source_iff_ascii :
    (∀ text, acuteUnicode.nfc (acuteUnicode.nfc text) = acuteUnicode.nfc text) ∧
      (Resolves (oneFileSession ['a']) (oneFileManifest ['a']) ∧
        ReadsOwnSources acuteUnicode (oneFile ['a']) posix (oneFileSession ['a']) ↔
        (false = false → ∀ e ∈ [fileEntry ['a']], composeAcute e.relativePath = e.relativePath)) := by
  obtain ⟨h, hcapture⟩ := capture_oneFile acuteUnicode ['a']
  have hscan : scanInput acuteUnicode (oneFile ['a']) posix (oneFileSession ['a']) 64 false [] =
      (.ok (oneFileManifest ['a']), []) := by
    rfl
  exact ⟨composeAcute_composeAcute, entries_from_own_source_iff composeAcute_composeAcute
    (oneFile ['a']) posix hcapture hscan⟩

/-- A file named with the letter and the accent apart is captured and scanned, but the session does
not find it by the path of the manifest, and the second scan raises. -/
theorem entries_from_own_source_not_found :
    (∃ h, SourceSession.capture (oneFile ['e', '\u0301']) acuteUnicode 2 [['d']] [] =
      (.ok (oneFileSession ['e', '\u0301']), h)) ∧
    scanInput acuteUnicode (oneFile ['e', '\u0301']) posix (oneFileSession ['e', '\u0301']) 64 false
      [] = (.ok (oneFileManifest ['é']), []) ∧
    ¬ Resolves (oneFileSession ['e', '\u0301']) (oneFileManifest ['é']) ∧
    scanManifest acuteUnicode (oneFile ['e', '\u0301']) posix defaultChunking
      (oneFileSession ['e', '\u0301']) [] = (.error (notDiscovered ['é']), []) := by
  refine ⟨capture_oneFile _ _, by rfl, ?_, by rfl⟩
  intro hresolves
  have hlookup : (oneFileSession ['e', '\u0301']).lookup ['é'] = .error (notDiscovered ['é']) := by
    rfl
  cases hresolves with
  | cons hfirst _ => cases hlookup.symm.trans hfirst

end MosaicArchive.Source
