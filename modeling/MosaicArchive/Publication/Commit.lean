import MosaicArchive.Publication.Opening

/-!
The stages around the commit point. Before it the anonymous file has been read
as a whole while it had no link; after it the same inode has been read again, its
directory was fsynced and the name led to it. A failure leaves with local
variables that say how far this went.
-/

namespace MosaicArchive.Publication

open Utf8 (Text)
open FixedWidth CallHistory Resources
open MosaicArchive.Report (hexDigest)
open Routine (raise raiseIf lift attempt)

variable {env : Environment Call Reply} {platform : Platform}

/-! ### Observations of one file -/

/-- Through the descriptor the whole file was read between two looks at the same metadata, and it
holds the planned bytes. -/
structure Observed (d bytes : ℕ) (digest : Text) (m m' : StatResult) (made : History) : Prop where
  reads : ∃ data reads, made = ⟨.fstat d, .ok m⟩ :: (reads ++ [⟨.fstat d, .ok m'⟩]) ∧
    ReadsWhole d data reads ∧ data.length = bytes ∧ hexDigest (sha256 data) = digest
  unchanged : metadataChanged m m' = false

theorem inode_eq_of_unchanged {m m' : StatResult} (h : metadataChanged m m' = false) :
    m.inode = m'.inode := by
  simp only [metadataChanged, decide_eq_false_iff_not, not_or, not_not] at h
  simp [StatResult.inode, h.1, h.2.1]

theorem inode_eq_of_matches {m : StatResult} {i : LocalFileIdentity}
    (h : identityMatches m i.fileDevice i.fileInode = true) : m.inode = i.file := by
  simp only [identityMatches, decide_eq_true_eq] at h
  simp [StatResult.inode, LocalFileIdentity.file, h.1, h.2]

/-- The copy is verified by the events at the end, when its file has no link. -/
structure CopyVerified (d bytes : ℕ) (digest : Text) (copy : VerifiedCopy) (made : History) : Prop where
  observed : ∃ earlier seen, made = earlier ++ seen ∧
    Observed d bytes digest copy.output copy.afterHash seen
  unlinked : copy.output.nlink = 0
  copied : copy.copiedBytes = bytes
  source : copy.sourceSha256 = digest
  prepared : copy.preparedSha256 = digest

theorem verifyCopy_steadily (source : OpenedRegular) (temporary bytes : ℕ) (digest : Text) :
    Steadily (verifyCopy env source temporary bytes digest) fun copy made =>
      CopyVerified temporary bytes digest copy made := by
  refine Steadily.bind (copySourceToFd_steadily source.fileDescriptor temporary bytes) ?_
  intro copied first hcopied
  refine Steadily.bind (fstat_steadily _) ?_
  rintro sourceAfter second -
  refine Steadily.guard (plain_preparation _ _) fun _ => ?_
  refine Steadily.guard (plain_preparation _ _) fun hsource => ?_
  refine Steadily.bind (fsync_steadily temporary) ?_
  rintro ⟨⟩ third -
  refine Steadily.bind (fstat_steadily temporary) ?_
  rintro output made rfl
  refine Steadily.guard (plain_preparation _ _) fun houtput => ?_
  refine Steadily.bind (hashFdExact_steadily temporary bytes) ?_
  rintro hashed reads ⟨data, hreads, hlength, rfl⟩
  refine Steadily.bind (fstat_steadily temporary) ?_
  rintro afterHash made rfl
  refine Steadily.guard (plain_preparation _ _) fun hunchanged => ?_
  refine Steadily.guard (plain_preparation _ _) fun hdigest => Steadily.pure ?_
  simp only [not_or, not_not, Bool.not_eq_true] at hsource houtput hunchanged hdigest
  refine ⟨⟨first ++ (second ++ third), ⟨.fstat temporary, .ok output⟩ ::
    (reads ++ [⟨.fstat temporary, .ok afterHash⟩]), by simp, ?_, hunchanged⟩, houtput.2.1, hcopied,
    hsource, hdigest.1⟩
  exact ⟨data, reads, rfl, hreads, hlength, hdigest.1⟩

/-! ### The commit -/

/-- A call of the commit that an exception cut off. -/
def CutOff (made : History) : Prop :=
  ∃ e ∈ made, (∃ failure, failure.isOsError = false ∧ e = ⟨.loadLibrary, .error failure⟩) ∨
    (∃ t p n failure hadLinked, e = ⟨.linkEmptyPath t p n, .cutOff failure hadLinked⟩) ∨
    ∃ t p n failure hadLinked, e = ⟨.linkDescriptorPath t p n, .cutOff failure hadLinked⟩

theorem CutOff.append_left {made : History} (h : CutOff made) (later : History) :
    CutOff (made ++ later) := by
  obtain ⟨e, he, hcut⟩ := h
  exact ⟨e, List.mem_append_left _ he, hcut⟩

theorem CutOff.append_right {made : History} (h : CutOff made) (earlier : History) :
    CutOff (earlier ++ made) := by
  obtain ⟨e, he, hcut⟩ := h
  exact ⟨e, List.mem_append_right _ he, hcut⟩

/-- An exception of the commit: either nothing was linked, or a call was cut off. -/
structure CommitFailure (e : PrepError) (made : History) : Prop where
  state : e.state = .notCommitted
  record : e.record = none
  nameUnavailable : e.isNameUnavailable = false
  uncreated : e.isNotCommitted = true → Uncreated made
  cutOff : e.isNotCommitted = false → CutOff made

theorem commitFailure_linkFailure {errno : ℕ} {made : History} (h : Uncreated made) :
    CommitFailure (linkFailure errno) made := by
  unfold linkFailure
  split
  · exact ⟨rfl, rfl, rfl, fun _ => h, (fun hfalse => nomatch hfalse)⟩
  · exact ⟨rfl, rfl, rfl, fun _ => h, (fun hfalse => nomatch hfalse)⟩

theorem commitFailure_system {failure : SystemError} {made : History} (h : CutOff made) :
    CommitFailure (.system failure) made :=
  ⟨rfl, rfl, rfl, (fun hfalse => nomatch hfalse), fun _ => h⟩

theorem linkReply_does {e : Event} {t p : ℕ} {n : Text} {reply : LinkReply} {b : History}
    (huntouched : Untouched (b ++ [e])) (htries : Uncreated b)
    (hcreated : created e = if reply.hasLinked then some (t, p, n) else none)
    (hcut : ∀ failure hadLinked, reply = .cutOff failure hadLinked → CutOff [e]) :
    Does (lift (linkReply reply) : Run Unit)
      (fun _ later => ∃ tries' link, b ++ [e] ++ later = tries' ++ [link] ∧
        Untouched (b ++ [e] ++ later) ∧ Uncreated tries' ∧ created link = some (t, p, n))
      fun error later => Untouched (b ++ [e] ++ later) ∧
        CommitFailure error (b ++ [e] ++ later) := by
  refine Does.lift ?_ ?_
  · rintro ⟨⟩ hok
    cases reply with
    | linked => exact ⟨b, e, by simp, by simpa using huntouched, htries, hcreated⟩
    | failed errno => cases hok
    | cutOff failure hadLinked => cases hok
  · intro error herror
    rw [List.append_nil]
    refine ⟨huntouched, ?_⟩
    cases reply with
    | linked => cases herror
    | failed errno =>
        cases herror
        refine commitFailure_linkFailure (htries.append ?_)
        intro e' he'
        rw [List.mem_singleton.mp he']
        exact hcreated
    | cutOff failure hadLinked =>
        cases herror
        exact commitFailure_system ((hcut failure hadLinked rfl).append_right b)

theorem libraryReply_does (reply : Except SystemError Unit) :
    Does (lift (libraryReply reply) : Run Unit) (fun _ later => later = [])
      fun error later => later = [] ∧ CommitFailure error [⟨.loadLibrary, reply⟩] := by
  refine Does.lift (fun _ _ => rfl) ?_
  intro error herror
  refine ⟨rfl, ?_⟩
  cases reply with
  | ok u => cases herror
  | error failure =>
      rw [libraryReply] at herror
      split at herror
      · cases herror
        refine ⟨rfl, rfl, rfl, fun _ => ?_, (fun hfalse => nomatch hfalse)⟩
        simp [Uncreated, created]
      · rename_i hneither
        cases herror
        refine commitFailure_system ⟨_, List.mem_singleton_self _, Or.inl ⟨failure, ?_, rfl⟩⟩
        simpa using fun hos => hneither (Or.inl hos)

/-- The commit returns when its last call has linked. -/
theorem publishAnonymousNoReplace_does (temporary parent : ℕ) (name : Text) :
    Does (publishAnonymousNoReplace env temporary parent name)
      (fun _ made => ∃ tries link, made = tries ++ [link] ∧ Untouched made ∧ Uncreated tries ∧
        created link = some (temporary, parent, name))
      fun e made => Untouched made ∧ CommitFailure e made := by
  refine Does.bind (Does.ask (Q := fun r made => made = [⟨.loadLibrary, r⟩]) fun _ => rfl)
    (E := fun _ _ => False) ?_ fun _ _ h => h.elim
  rintro loaded made rfl
  have hloaded : Steady [(⟨.loadLibrary, loaded⟩ : Event)] := steady_singleton rfl rfl
  refine Does.bind (libraryReply_does loaded) ?_ ?_
  · rintro ⟨⟩ made rfl
    refine Does.bind (Does.ask (Q := fun r made => made = [⟨.linkEmptyPath temporary parent name, r⟩])
      fun _ => rfl) (E := fun _ _ => False) ?_ fun _ _ h => h.elim
    rintro reply made rfl
    have hfirst : Untouched
        ([(⟨.loadLibrary, loaded⟩ : Event)] ++ [⟨.linkEmptyPath temporary parent name, reply⟩]) :=
      hloaded.untouched.append (by simp [Untouched, descriptorEffect])
    have hlast : Does (lift (linkReply reply) : Run Unit) _ _ :=
      linkReply_does (t := temporary) (p := parent) (n := name) hfirst hloaded.uncreated rfl
        fun failure hadLinked hreply => ⟨_, List.mem_singleton_self _,
          Or.inr (Or.inl ⟨temporary, parent, name, failure, hadLinked, by rw [hreply]⟩)⟩
    cases reply with
    | linked => exact hlast
    | cutOff failure hadLinked => exact hlast
    | failed errno =>
        by_cases hretry : retriesLink errno = true
        · simp only [hretry, if_true]
          refine Does.bind (Does.ask (Q := fun r made =>
            made = [⟨Call.linkDescriptorPath temporary parent name, r⟩]) fun _ => rfl)
            (E := fun _ _ => False) ?_ fun _ _ h => h.elim
          rintro again made rfl
          exact linkReply_does
            (b := [⟨.loadLibrary, loaded⟩, ⟨.linkEmptyPath temporary parent name, .failed errno⟩])
            (t := temporary) (p := parent) (n := name)
            (hfirst.append (by simp [Untouched, descriptorEffect]))
            (hloaded.uncreated.append (by simp [Uncreated, created, LinkReply.hasLinked])) rfl
            fun failure hadLinked hreply => ⟨_, List.mem_singleton_self _,
              Or.inr (Or.inr ⟨temporary, parent, name, failure, hadLinked, by rw [hreply]⟩)⟩
        · simp only [hretry]
          exact hlast
  · rintro error made ⟨rfl, hfailure⟩
    exact ⟨hloaded.untouched, hfailure⟩

/-! ### After the commit -/

theorem verifyPublished_steadily (temporary bytes : ℕ) (digest : Text) (copy : VerifiedCopy)
    (candidate : PreparedLocalCorpus) :
    Steadily (verifyPublished env temporary bytes digest copy candidate) fun after made =>
      ∃ m, Observed temporary bytes digest m after made ∧ m.inode = candidate.identity.file := by
  refine Steadily.bind (fstat_steadily temporary) ?_
  rintro published made rfl
  refine Steadily.guard (plain_preparation _ _) fun hpublished => ?_
  refine Steadily.bind (hashFdExact_steadily temporary bytes) ?_
  rintro hashed reads ⟨data, hreads, hlength, rfl⟩
  refine Steadily.bind (fstat_steadily temporary) ?_
  rintro after made rfl
  refine Steadily.guard (plain_preparation _ _) fun hunchanged => ?_
  refine Steadily.guard (plain_preparation _ _) fun hdigest => Steadily.pure ?_
  simp only [not_or, not_not, Bool.not_eq_true, Bool.not_eq_false] at hpublished hunchanged hdigest
  exact ⟨published, ⟨⟨data, reads, by simp, hreads, hlength, hdigest.1⟩, hunchanged⟩,
    inode_eq_of_matches hpublished.2.2.2.2⟩

/-- The name was found to lead to the inode of the record, with the metadata seen last. -/
structure NameConfirmed (parent : ℕ) (name : Text) (bytes : ℕ) (after : StatResult)
    (prepared : PreparedLocalCorpus) (m : StatResult) (made : History) : Prop where
  event : made = [⟨.statAt parent name, .ok m⟩]
  regular : m.isRegular = true
  nlink : m.nlink = 1
  size : m.size = bytes
  unchanged : metadataChanged after m = false
  inode : m.inode = prepared.identity.file

/-- An exception after the commit. -/
def AfterCommit (state : PublicationState) (prepared : PreparedLocalCorpus) (e : PrepError) : Prop :=
  e.Plain ∨ state = .committedNameUnavailable ∧
    ∃ message cause, e = .nameUnavailable message prepared cause

theorem confirmName_does (parent : ℕ) (name : Text) (bytes : ℕ) (after : StatResult)
    (prepared : PreparedLocalCorpus) :
    Does (confirmName env parent name bytes after prepared)
      (fun _ made => ∃ m, NameConfirmed parent name bytes after prepared m made)
      fun e made => Steady made ∧ AfterCommit .committedNameUnavailable prepared e := by
  refine Does.bind (Does.ask (Q := fun r made => made = [⟨.statAt parent name, r⟩]) fun _ => rfl)
    (E := fun _ _ => False) ?_ fun _ _ h => h.elim
  rintro reply made rfl
  have hsteady : Steady [(⟨.statAt parent name, reply⟩ : Event)] := steady_singleton rfl rfl
  refine Does.bind (Does.lift (Q := fun m made => reply = .ok m ∧ made = []) ?_ ?_
    (E := fun e made => made = [] ∧ AfterCommit .committedNameUnavailable prepared e)) ?_ ?_
  · intro m hm
    cases reply with
    | ok found =>
        cases hm
        exact ⟨rfl, rfl⟩
    | error failure =>
        rw [namedMetadata] at hm
        split at hm <;> cases hm
  · intro e he
    refine ⟨rfl, ?_⟩
    cases reply with
    | ok found => cases he
    | error failure =>
        rw [namedMetadata] at he
        split at he
        · cases he
          exact Or.inr ⟨rfl, _, _, rfl⟩
        · cases he
          exact Or.inl (plain_system _)
  · rintro m made ⟨rfl, rfl⟩
    refine Does.raiseIf ?_ ?_
    · intro _
      exact ⟨hsteady, Or.inr ⟨rfl, _, _, rfl⟩⟩
    · intro hnamed
      simp only [not_or, not_not, Bool.not_eq_true, Bool.not_eq_false] at hnamed
      obtain ⟨hregular, hnlink, hsize, hunchanged, hmatches⟩ := hnamed
      exact ⟨m, rfl, hregular, hnlink, hsize, hunchanged, inode_eq_of_matches hmatches⟩
  · rintro e made ⟨rfl, he⟩
    exact ⟨hsteady, he⟩

/-! ### Up to the anonymous file -/

/-- Nothing was published yet. -/
structure Locals.Unattempted (l : Locals) : Prop where
  attempted : l.attempted = false
  state : l.publicationState = .notCommitted
  prepared : l.prepared = none

/-- The `try` block before the commit: an exception leaves with the descriptors of its locals
open. -/
def CalmTry {α : Type} (held : Multiset ℕ) (p : Try α) (left : α → Multiset ℕ) : Prop :=
  Does p (fun a made => Calm held made (left a)) fun failure made =>
    Calm held made (heldBy failure.1.descriptors) ∧ failure.1.Unattempted ∧ failure.2.Plain

theorem CalmTry.within {α : Type} {l : Locals} {p : Run α} {held : Multiset ℕ}
    {L : α → Multiset ℕ} {P : α → Prop} (h : Calmly held p L (heldBy l.descriptors) P)
    (hl : l.Unattempted) : CalmTry held (within l p) L := by
  refine Does.mapError (Does.mono h (fun _ _ h => h.1) ?_)
  rintro e made ⟨hcalm, he⟩
  exact ⟨hcalm, hl, he⟩

theorem CalmTry.bind {α β : Type} {p : Try α} {f : α → Try β} {held : Multiset ℕ}
    {left : α → Multiset ℕ} {left' : β → Multiset ℕ} (hp : CalmTry held p left)
    (hf : ∀ a, CalmTry (left a) (f a) left') : CalmTry held (p >>= f) left' := by
  refine Does.bind hp ?_ fun _ _ h => h
  intro a made hmade
  refine Does.mono (hf a) ?_ ?_
  · intro b later hlater
    exact hmade.append hlater
  · rintro failure later ⟨hlater, hrest⟩
    exact ⟨hmade.append hlater, hrest⟩

theorem validateSourceMetadata_plain {m : StatResult} {bytes : ℕ} {e : PrepError}
    (h : validateSourceMetadata m bytes = .error e) : e.Plain := by
  refine plain_of_raiseIf (plain_preparation _ _) (fun _ h => ?_) h
  refine plain_of_raiseIf (plain_preparation _ _) (fun _ h => ?_) h
  unfold Except.raiseIf at h
  split at h
  · cases h
    exact plain_preparation _ _
  · cases h

theorem openAll_calm (sourcePath destinationPath : Text) (bytes : ℕ) :
    CalmTry 0 (openAll env platform sourcePath destinationPath bytes)
      fun files => heldBy files.locals.descriptors := by
  refine CalmTry.bind (CalmTry.within (openRegularPath_calmly sourcePath _) ⟨rfl, rfl, rfl⟩)
    fun source => ?_
  refine CalmTry.bind (CalmTry.within (L := fun _ => source.descriptors)
    (Calmly.lift (P := fun _ => True) (fun _ _ => trivial) fun _ => validateSourceMetadata_plain)
    ⟨rfl, rfl, rfl⟩) fun _ => ?_
  have hparent : Calmly _ (openDestinationParent env platform destinationPath) _ _ _ :=
    (openDestinationParent_calmly destinationPath).frame source.descriptors
  rw [zero_add] at hparent
  refine CalmTry.bind (CalmTry.within hparent ⟨rfl, rfl, rfl⟩) fun parent => ?_
  refine CalmTry.bind (CalmTry.within ((destinationExists_steadily parent.descriptor
    parent.name).calmly (R := fun _ => True) (fun _ _ h => h) _) ⟨rfl, rfl, rfl⟩) fun taken => ?_
  refine CalmTry.bind (CalmTry.within ((Steadily.raiseIf (P := fun _ _ => True)
    (plain_preparation _ _) fun _ => trivial).calmly (R := fun _ => True) (fun _ _ h => h) _)
    ⟨rfl, rfl, rfl⟩) fun _ => ?_
  have htemporary : Calmly _ (createTemporaryOutput env parent.descriptor) _ _ _ :=
    (createTemporaryOutput_calmly parent.descriptor).frame ({parent.descriptor} + source.descriptors)
  rw [zero_add] at htemporary
  refine CalmTry.bind (CalmTry.within htemporary ⟨rfl, rfl, rfl⟩) fun temporary => ?_
  exact Does.pure (calm_nil _)

end MosaicArchive.Publication
