import MosaicArchive.Effects.Interleaving
import MosaicArchive.Publication.Outcome

/-!
The reports of `prepare_local_source` in a world of directory entries that other
processes change too. Between two calls the entries may become anything; what the
function reports of its publication is so whatever they do.
-/

namespace MosaicArchive.Publication

open Utf8 (Text)
open FixedWidth CallHistory Resources

/-! ### The world -/

/-- The directory entries of the file system, and the files of the open descriptors. -/
structure World where
  entries : Inode → Text → Option Inode
  files : ℕ → Option Inode

/-- Some directory entry denotes the inode. -/
def World.Named (w : World) (i : Inode) : Prop := ∃ directory name, w.entries directory name = some i

def World.link (w : World) (directory : Inode) (name : Text) (i : Inode) : Inode → Text → Option Inode :=
  fun d n => if d = directory ∧ n = name then some i else w.entries d n

/-- What a call does to the world, and what its reply says of the world. -/
structure Acts (w : World) (e : Event) (w' : World) : Prop where
  /-- `linkat` adds an entry that did not exist. -/
  links : ∀ t p name, created e = some (t, p, name) → ∃ i directory, w.files t = some i ∧
    w.files p = some directory ∧ w.entries directory name = none ∧
    w'.entries = w.link directory name i
  keeps : created e = none → w'.entries = w.entries
  neutral : descriptorEffect e = .neutral → w'.files = w.files
  opens : ∀ d, descriptorEffect e = .acquires d → w.files d = none ∧ ∀ d' ≠ d, w'.files d' = w.files d'
  closes : ∀ d, descriptorEffect e = .releases d → w'.files d = none ∧ ∀ d' ≠ d, w'.files d' = w.files d'
  /-- `fstat` looks at the file of its descriptor and counts its entries. -/
  describes : ∀ d m, e = ⟨.fstat d, .ok m⟩ → w.files d = some m.inode ∧
    (m.nlink = 0 ↔ ¬ w.Named m.inode)
  /-- `fstatat` looks at the file its entry denotes. -/
  denotes : ∀ p name m, e = ⟨.statAt p name, .ok m⟩ → ∃ directory, w.files p = some directory ∧
    w.entries directory name = some m.inode

/-- What other processes do: the entries change, the descriptors do not. -/
def Others (w w' : World) : Prop := w'.files = w.files

/-- Others that link no file they cannot name: no entry is made for an open file without one. -/
def OthersByName (w w' : World) : Prop :=
  w'.files = w.files ∧ ∀ d i, w.files d = some i → ¬ w.Named i → ¬ w'.Named i

/-- The calls of one run, while other processes act. -/
abbrev Timeline (others : World → World → Prop) := Interleaved Acts others

theorem named_of_links {w w' : World} {directory : Inode} {name : Text} {i : Inode}
    (h : w'.entries = w.link directory name i) : w'.entries directory name = some i := by
  rw [h, World.link, if_pos ⟨rfl, rfl⟩]

/-- No call overwrites or removes an entry. -/
theorem Acts.entry {w w' : World} {e : Event} (h : Acts w e w') {directory : Inode} {name : Text}
    {i : Inode} (hentry : w.entries directory name = some i) : w'.entries directory name = some i := by
  cases hcreated : created e with
  | none =>
      rw [h.keeps hcreated]
      exact hentry
  | some c =>
      obtain ⟨t, p, n⟩ := c
      obtain ⟨j, parent, -, -, hnone, hentries⟩ := h.links t p n hcreated
      rw [hentries, World.link, if_neg, hentry]
      rintro ⟨rfl, rfl⟩
      rw [hentry] at hnone
      cases hnone

/-- A descriptor that no call opens or closes keeps its file. -/
theorem files_of_untouched {others : World → World → Prop} {w w' : World} {made : History}
    (h : Timeline others w made w') (hothers : ∀ u v, others u v → v.files = u.files)
    (hmade : Untouched made) : w'.files = w.files := by
  refine h.preserves (P := fun u => u.files = w.files) ?_ ?_ rfl
  · intro u v huv hu
    rw [hothers u v huv, hu]
  · intro e he u v huv hu
    rw [huv.neutral (hmade e he), hu]

/-! ### What the reports say of the world -/

/-- An entry for the inode came into existence, which had none. -/
def CameToBeNamed (i : Inode) (made : History) (others : World → World → Prop) (w w' : World) : Prop :=
  ∃ before middle after u v, made = before ++ middle ++ after ∧ Timeline others w before u ∧
    Timeline others u middle v ∧ Timeline others v after w' ∧ ¬ u.Named i ∧ v.Named i

/-- One of the calls made an entry for the inode. -/
def LinkedByOwnCall (i : Inode) (made : History) (others : World → World → Prop) (w w' : World) : Prop :=
  ∃ before link after u v directory name, made = before ++ link :: after ∧
    Timeline others w before u ∧ Acts u link v ∧ Timeline others v after w' ∧
    u.entries directory name = none ∧ v.entries directory name = some i

/-- A call linked the inode; after that its whole content was read and found as planned, the
directory was fsynced, and the entry denoted the inode. -/
def NamedDurably (bytes : ℕ) (digest : Text) (i : Inode) (made : History)
    (others : World → World → Prop) (w w' : World) : Prop :=
  ∃ d p name directory before link seen m after named rest u v x y z,
    made = before ++ link :: (seen ++ ⟨.fsync p, .ok ()⟩ :: ⟨.statAt p name, .ok named⟩ :: rest) ∧
    Timeline others w before u ∧ Acts u link v ∧ u.entries directory name = none ∧
    v.entries directory name = some i ∧
    Timeline others v seen x ∧ Observed d bytes digest m after seen ∧ x.files d = some i ∧
    x.files p = some directory ∧
    Timeline others x [⟨.fsync p, .ok ()⟩] y ∧ y.entries directory name = some i ∧
    named.inode = i ∧ named.size = bytes ∧ metadataChanged after named = false ∧
    Acts y ⟨.statAt p name, .ok named⟩ z ∧ Timeline others z rest w'

variable {others : World → World → Prop} {w w' : World} {d bytes : ℕ} {digest : Text} {i : Inode}
  {made : History}

/-- The file of a descriptor was verified at a time when no entry denoted it. -/
theorem VerifiedUnlinked.unnamed (hverified : VerifiedUnlinked d bytes digest i made)
    (h : Timeline others w made w') :
    ∃ before after u, made = before ++ after ∧ Timeline others w before u ∧
      Timeline others u after w' ∧ ¬ u.Named i ∧ u.files d = some i ∧ Untouched after := by
  obtain ⟨earlier, seen, later, m, m', rfl, hobserved, hunlinked, rfl, hlater⟩ := hverified
  obtain ⟨data, reads, rfl, -⟩ := hobserved.reads
  have hsame := hobserved.unchanged
  simp only [metadataChanged, decide_eq_false_iff_not, not_or, not_not] at hsame
  have hsplit : earlier ++ (⟨.fstat d, .ok m⟩ :: (reads ++ [⟨.fstat d, .ok m'⟩]) ++ later) =
      (earlier ++ ⟨.fstat d, .ok m⟩ :: reads) ++ (⟨.fstat d, .ok m'⟩ : Event) :: later := by
    simp
  rw [hsplit] at h ⊢
  -- The second look is the one the descriptor is followed from.
  obtain ⟨u, v, hbefore, hcall, hafter⟩ := h.split_at
  obtain ⟨hfile, hcount⟩ := hcall.describes d m' rfl
  have hinode : m'.inode = m.inode := (inode_eq_of_unchanged hobserved.unchanged).symm
  rw [hinode] at hfile hcount
  refine ⟨_, _, u, rfl, hbefore, .call hcall hafter, ?_, hfile, ?_⟩
  · exact hcount.mp (hsame.2.2.2.1 ▸ hunlinked)
  · have hlook : Untouched [(⟨.fstat d, .ok m'⟩ : Event)] := by
      simp [Untouched, descriptorEffect]
    exact hlook.append hlater

/-- A link by a call names the file of its descriptor. -/
theorem links_file {u v : World} {link : Event} {p : ℕ} {name : Text} (h : Acts u link v)
    (hcreated : created link = some (d, p, name)) (hfile : u.files d = some i) :
    ∃ directory, u.files p = some directory ∧ u.entries directory name = none ∧
      v.entries directory name = some i := by
  obtain ⟨j, directory, hj, hp, hnone, hentries⟩ := h.links d p name hcreated
  rw [hfile] at hj
  obtain rfl := Option.some.inj hj
  exact ⟨directory, hp, hnone, named_of_links hentries⟩

theorem LinkedByCall.timeline (hlinked : LinkedByCall bytes digest i made)
    (hothers : ∀ u v, others u v → v.files = u.files) (h : Timeline others w made w') :
    CameToBeNamed i made others w w' ∧ LinkedByOwnCall i made others w w' := by
  obtain ⟨d, before, link, after, rfl, hverified, p, name, hcreated⟩ := hlinked
  obtain ⟨u, v, hbefore, hlink, hafter⟩ := h.split_at
  obtain ⟨first, second, x, rfl, hfirst, hsecond, hunnamed, hfile, huntouched⟩ :=
    hverified.unnamed hbefore
  have hfiles : u.files d = some i := by
    rw [files_of_untouched hsecond hothers huntouched, hfile]
  obtain ⟨directory, -, hnone, hentry⟩ := links_file hlink hcreated hfiles
  constructor
  · refine ⟨first, second ++ [link], after, x, v, by simp, hfirst, ?_, hafter, hunnamed, directory,
      name, hentry⟩
    exact hsecond.append (.call hlink (.done v))
  · exact ⟨first ++ second, link, after, u, v, directory, name, rfl, hbefore, hlink, hafter, hnone,
      hentry⟩

theorem SeenLinked.cameToBeNamed (hseen : SeenLinked bytes digest i made)
    (h : Timeline others w made w') :
    CameToBeNamed i made others w w' := by
  obtain ⟨d, before, m, after, rfl, hverified, -, hlinks, rfl⟩ := hseen
  obtain ⟨u, v, hbefore, hlook, hafter⟩ := h.split_at
  obtain ⟨first, second, x, rfl, hfirst, hsecond, hunnamed, -, -⟩ :=
    hverified.unnamed hbefore
  refine ⟨first, second, _, x, u, rfl, hfirst, hsecond, .call hlook hafter, hunnamed, ?_⟩
  obtain ⟨-, hcount⟩ := hlook.describes d m rfl
  by_contra hnot
  have hzero : m.nlink = 0 := hcount.mpr hnot
  omega

/-- When the others link nothing they cannot name, the entry was made by the call itself. -/
theorem SeenLinked.linkedByOwnCall (hseen : SeenLinked bytes digest i made)
    (h : Timeline OthersByName w made w') : LinkedByOwnCall i made OthersByName w w' := by
  have hothers : ∀ u v, OthersByName u v → v.files = u.files := fun u v huv => huv.1
  obtain ⟨d, before, m, after, rfl, hverified, -, hlinks, rfl⟩ := hseen
  obtain ⟨u, v, hbefore, hlook, hafter⟩ := h.split_at
  obtain ⟨first, second, x, rfl, hfirst, hsecond, hunnamed, hfile, huntouched⟩ :=
    hverified.unnamed hbefore
  have hnamed : u.Named m.inode := by
    obtain ⟨-, hcount⟩ := hlook.describes d m rfl
    by_contra hnot
    have hzero : m.nlink = 0 := hcount.mpr hnot
    omega
  obtain ⟨b, e, a, y, z, rfl, hb, he, ha, ⟨hy, hunnamed'⟩, hbroken⟩ := hsecond.broken_by_call
    (P := fun y => y.files d = some m.inode ∧ ¬ y.Named m.inode)
    (fun s t hst hs => ⟨(hothers s t hst).symm ▸ hs.1, hst.2 d m.inode hs.1 hs.2⟩)
    ⟨hfile, hunnamed⟩ (fun hu => hu.2 hnamed)
  have hneutral : descriptorEffect e = .neutral :=
    huntouched e (List.mem_append_right _ List.mem_cons_self)
  have hz : z.Named m.inode := by
    by_contra hnot
    exact hbroken ⟨(he.neutral hneutral).symm ▸ hy, hnot⟩
  obtain ⟨directory, name, hentry⟩ := hz
  refine ⟨first ++ b, e, a ++ ⟨.fstat d, .ok m⟩ :: after, y, z, directory, name, by simp,
    hfirst.append hb, he, ha.append (.call hlook hafter), ?_, hentry⟩
  -- The entry is new, so it did not exist before.
  cases hcreated : created e with
  | none =>
      rw [he.keeps hcreated] at hentry
      exact absurd ⟨directory, name, hentry⟩ hunnamed'
  | some c =>
      obtain ⟨t, p, n⟩ := c
      obtain ⟨j, parent, -, -, hnone, hentries⟩ := he.links t p n hcreated
      rw [hentries, World.link] at hentry
      split at hentry
      · rename_i hsame
        rw [hsame.1, hsame.2]
        exact hnone
      · exact absurd ⟨directory, name, hentry⟩ hunnamed'

theorem Confirmed.namedDurably (hconfirmed : Confirmed bytes digest i made)
    (hothers : ∀ u v, others u v → v.files = u.files) (h : Timeline others w made w') :
    NamedDurably bytes digest i made others w w' := by
  obtain ⟨d, p, name, before, link, seen, m, after, named, rest, rfl, hverified, hcreated, hneutral,
    hsteady, hobserved, rfl, hinode, hsize, -, hunchanged⟩ := hconfirmed
  obtain ⟨u, v, hbefore, hlink, hafter⟩ := h.split_at
  obtain ⟨first, second, z, rfl, hfirst, hsecond, -, hfile, huntouched⟩ := hverified.unnamed hbefore
  have hu : u.files d = some m.inode := by
    rw [files_of_untouched hsecond hothers huntouched, hfile]
  obtain ⟨directory, hp, hnone, hentry⟩ := links_file hlink hcreated hu
  -- The descriptors keep their files from the link to the last look.
  obtain ⟨x, hseen, hrest⟩ := hafter.split
  have hxu : x.files = u.files := by
    rw [files_of_untouched hseen hothers hsteady.untouched, hlink.neutral hneutral]
  have hjoined : Timeline others x
      ([(⟨.fsync p, .ok ()⟩ : Event)] ++ ⟨.statAt p name, .ok named⟩ :: rest) w' := hrest
  obtain ⟨y, z, hsync, hlook, hrest⟩ := hjoined.split_at
  have hyx : y.files = x.files :=
    files_of_untouched hsync hothers (by simp [Untouched, descriptorEffect])
  have hfound : y.entries directory name = some m.inode := by
    obtain ⟨found, hfound, hdenoted⟩ := hlook.denotes p name named rfl
    rw [hyx, hxu, hp] at hfound
    obtain rfl := Option.some.inj hfound
    rw [hdenoted, hinode]
  refine ⟨d, p, name, directory, first ++ second, link, seen, m, after, named, rest, u, v, x, y, z,
    rfl, hbefore, hlink, hnone, hentry, hseen, hobserved, ?_, ?_, hsync, hfound, hinode, hsize,
    hunchanged, hlook, hrest⟩
  · rw [hxu, hu]
  · rw [hxu, hp]

/-! ### Every run -/

/-- The reports of a run are true, whatever other processes do to the directory entries. -/
structure Truthful (platform : Platform) (corpusId : Text)
    (outcome : Except PrepError PreparedLocalCorpus) (made : History) : Prop where
  /-- Every descriptor opened is closed exactly once, and nothing else is closed. -/
  closed : Settles descriptorEffect 0 made 0
  /-- No entry is overwritten or removed by a call. -/
  entries : ∀ a ∈ made, ∀ w w', Acts w a w' → ∀ directory name i,
    w.entries directory name = some i → w'.entries directory name = some i
  /-- A record that is returned is of a durable publication of the planned bytes. -/
  returned : ∀ r, outcome = .ok r → r.publicationState = .durable ∧
    ∃ operation, Planned platform corpusId r.planSha256 operation ∧
      r.bytes = operation.expectedBytes ∧ r.sha256 = operation.expectedSha256 ∧
      ∀ w w', Timeline Others w made w' →
        NamedDurably operation.expectedBytes operation.expectedSha256 r.identity.file made Others w w'
  /-- The record of an exception is in the state of the exception. -/
  record : ∀ e, outcome = .error e → ∀ r, e.record = some r → r.publicationState = e.state
  /-- After a publication reported as not committed no call has made an entry. -/
  notCommitted : ∀ e, outcome = .error e → e.state = .notCommitted →
    ∀ a ∈ made, ∀ w w', Acts w a w' → w'.entries = w.entries
  /-- After one reported as committed the verified inode has been linked; by the function's own call,
  unless others could link a file that no entry denotes. -/
  committed : ∀ e, outcome = .error e →
    e.state = .committedNotDurable ∨ e.state = .committedNameUnavailable →
    ∃ planSha256 operation i, Planned platform corpusId planSha256 operation ∧
      (∀ r, e.record = some r → r.identity.file = i) ∧
      (∃ d before after, made = before ++ after ∧
        VerifiedUnlinked d operation.expectedBytes operation.expectedSha256 i before) ∧
      (∀ w w', Timeline Others w made w' → CameToBeNamed i made Others w w') ∧
      ∀ w w', Timeline OthersByName w made w' → LinkedByOwnCall i made OthersByName w w'

theorem Linked.verified (h : Linked bytes digest i made) :
    ∃ d before after, made = before ++ after ∧ VerifiedUnlinked d bytes digest i before := by
  rcases h with ⟨d, before, link, after, rfl, hverified, -⟩ |
    ⟨d, before, m, after, rfl, hverified, -⟩
  · exact ⟨d, before, _, rfl, hverified⟩
  · exact ⟨d, before, _, rfl, hverified⟩

theorem Linked.cameToBeNamed (hlinked : Linked bytes digest i made) (h : Timeline Others w made w') :
    CameToBeNamed i made Others w w' := by
  rcases hlinked with hlinked | hseen
  · exact (hlinked.timeline (fun _ _ h => h) h).1
  · exact hseen.cameToBeNamed h

theorem Linked.linkedByOwnCall (hlinked : Linked bytes digest i made)
    (h : Timeline OthersByName w made w') : LinkedByOwnCall i made OthersByName w w' := by
  rcases hlinked with hlinked | hseen
  · exact (hlinked.timeline (fun _ _ h => h.1) h).2
  · exact hseen.linkedByOwnCall h

/-- For every pattern of success and failure of the calls. -/
theorem prepareLocalSource_truthful (env : Environment Call Reply) (platform : Platform)
    (planPath corpusId sourcePath destinationPath : Text) (maxBytes : ℕ) (h : History) :
    ∃ made,
      (prepareLocalSource env platform planPath corpusId sourcePath destinationPath maxBytes h).2 =
        h ++ made ∧
      Truthful platform corpusId
        (prepareLocalSource env platform planPath corpusId sourcePath destinationPath maxBytes h).1
        made := by
  have hdoes : Does (prepareLocalSource env platform planPath corpusId sourcePath destinationPath
      maxBytes) _ _ :=
    prepareLocalSource_does planPath corpusId sourcePath destinationPath maxBytes
  obtain ⟨made, hmade, hreturns, hraises⟩ := hdoes.outcome h
  refine ⟨made, hmade, ?_, fun a _ w w' hacts directory name i => hacts.entry, ?_, ?_, ?_, ?_⟩
  · cases hend : (prepareLocalSource env platform planPath corpusId sourcePath destinationPath
      maxBytes h).1 with
    | ok r => exact (hreturns r hend).1
    | error e => exact (hraises e hend).1
  · intro r hr
    obtain ⟨-, hdurable⟩ := hreturns r hr
    obtain ⟨operation, hplanned, hbytes, hdigest, hconfirmed⟩ := hdurable.confirmed
    exact ⟨hdurable.state, operation, hplanned, hbytes, hdigest,
      fun w w' htimeline => hconfirmed.namedDurably (fun _ _ h => h) htimeline⟩
  · intro e he
    exact (hraises e he).2.record
  · intro e he hstate a ha w w' hacts
    exact hacts.keeps ((hraises e he).2.uncreated hstate a ha)
  · intro e he hstate
    obtain ⟨planSha256, operation, i, hplanned, hlinked, hrecord⟩ := (hraises e he).2.linked hstate
    exact ⟨planSha256, operation, i, hplanned, hrecord, hlinked.verified,
      fun w w' => hlinked.cameToBeNamed, fun w w' => hlinked.linkedByOwnCall⟩

end MosaicArchive.Publication
