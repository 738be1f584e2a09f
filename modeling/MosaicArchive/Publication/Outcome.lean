import MosaicArchive.Publication.Commit

/-!
How `prepare_local_source` ends. The `try` block returns with a confirmed
publication, or fails before the commit, in the commit, or after it; the handler
reports each case, and the descriptors are closed in all of them.
-/

namespace MosaicArchive.Publication

open Utf8 (Text)
open FixedWidth CallHistory Resources
open MosaicArchive.Report (hexDigest)
open Routine (raise raiseIf lift attempt)

variable {env : Environment Call Reply} {platform : Platform}

/-! ### Facts about the calls made -/

/-- The inode of the descriptor was verified while it had no link, and the descriptor is still
open. -/
def VerifiedUnlinked (d bytes : ℕ) (digest : Text) (i : Inode) (made : History) : Prop :=
  ∃ earlier seen later m m', made = earlier ++ (seen ++ later) ∧ Observed d bytes digest m m' seen ∧
    m.nlink = 0 ∧ m.inode = i ∧ Untouched later

theorem VerifiedUnlinked.append {d bytes : ℕ} {digest : Text} {i : Inode} {made later : History}
    (h : VerifiedUnlinked d bytes digest i made) (hlater : Untouched later) :
    VerifiedUnlinked d bytes digest i (made ++ later) := by
  obtain ⟨earlier, seen, rest, m, m', rfl, hobserved, hlinks, hinode, hrest⟩ := h
  exact ⟨earlier, seen, rest ++ later, m, m', by simp, hobserved, hlinks, hinode,
    hrest.append hlater⟩

theorem VerifiedUnlinked.append_right {d bytes : ℕ} {digest : Text} {i : Inode}
    {made : History} (h : VerifiedUnlinked d bytes digest i made) (earlier : History) :
    VerifiedUnlinked d bytes digest i (earlier ++ made) := by
  obtain ⟨before, seen, rest, m, m', rfl, hobserved, hlinks, hinode, hrest⟩ := h
  exact ⟨earlier ++ before, seen, rest, m, m', by simp, hobserved, hlinks, hinode, hrest⟩

/-- A verified inode was linked by one of the calls. -/
def LinkedByCall (bytes : ℕ) (digest : Text) (i : Inode) (made : History) : Prop :=
  ∃ d before link after, made = before ++ link :: after ∧ VerifiedUnlinked d bytes digest i before ∧
    ∃ directory name, created link = some (d, directory, name)

/-- A verified inode was seen with a link, after a call of the commit was cut off. -/
def SeenLinked (bytes : ℕ) (digest : Text) (i : Inode) (made : History) : Prop :=
  ∃ d before m after, made = before ++ ⟨.fstat d, .ok m⟩ :: after ∧
    VerifiedUnlinked d bytes digest i before ∧ CutOff before ∧ 1 ≤ m.nlink ∧ m.inode = i

def Linked (bytes : ℕ) (digest : Text) (i : Inode) (made : History) : Prop :=
  LinkedByCall bytes digest i made ∨ SeenLinked bytes digest i made

theorem LinkedByCall.append {bytes : ℕ} {digest : Text} {i : Inode} {made : History}
    (h : LinkedByCall bytes digest i made) (later : History) :
    LinkedByCall bytes digest i (made ++ later) := by
  obtain ⟨d, before, link, after, rfl, hverified, hlink⟩ := h
  exact ⟨d, before, link, after ++ later, by simp, hverified, hlink⟩

theorem Linked.append {bytes : ℕ} {digest : Text} {i : Inode} {made : History}
    (h : Linked bytes digest i made) (later : History) : Linked bytes digest i (made ++ later) := by
  rcases h with h | ⟨d, before, m, after, rfl, hverified, hcut, hlinks, hinode⟩
  · exact Or.inl (h.append later)
  · exact Or.inr ⟨d, before, m, after ++ later, by simp, hverified, hcut, hlinks, hinode⟩

theorem Linked.append_right {bytes : ℕ} {digest : Text} {i : Inode} {made : History}
    (h : Linked bytes digest i made) (earlier : History) : Linked bytes digest i (earlier ++ made) := by
  rcases h with ⟨d, before, link, after, rfl, hverified, hlink⟩ |
    ⟨d, before, m, after, rfl, hverified, hcut, hlinks, hinode⟩
  · exact Or.inl ⟨d, earlier ++ before, link, after, by simp, hverified.append_right earlier, hlink⟩
  · exact Or.inr ⟨d, earlier ++ before, m, after, by simp, hverified.append_right earlier,
      hcut.append_right earlier, hlinks, hinode⟩

/-- The directory was fsynced after the link, and the name then led to the verified inode. -/
def Confirmed (bytes : ℕ) (digest : Text) (i : Inode) (made : History) : Prop :=
  ∃ d directory name before link seen m after named rest,
    made = before ++ link :: (seen ++ ⟨.fsync directory, .ok ()⟩ ::
      ⟨.statAt directory name, .ok named⟩ :: rest) ∧
    VerifiedUnlinked d bytes digest i before ∧ created link = some (d, directory, name) ∧
    descriptorEffect link = .neutral ∧ Steady seen ∧ Observed d bytes digest m after seen ∧
    m.inode = i ∧ named.inode = i ∧ named.size = bytes ∧ named.nlink = 1 ∧
    metadataChanged after named = false

theorem Confirmed.append {bytes : ℕ} {digest : Text} {i : Inode} {made : History}
    (h : Confirmed bytes digest i made) (later : History) :
    Confirmed bytes digest i (made ++ later) := by
  obtain ⟨d, directory, name, before, link, seen, m, after, named, rest, rfl, hrest⟩ := h
  exact ⟨d, directory, name, before, link, seen, m, after, named, rest ++ later, by simp, hrest⟩

theorem Confirmed.append_right {bytes : ℕ} {digest : Text} {i : Inode} {made : History}
    (h : Confirmed bytes digest i made) (earlier : History) :
    Confirmed bytes digest i (earlier ++ made) := by
  obtain ⟨d, directory, name, before, link, seen, m, after, named, rest, rfl, hverified, hrest⟩ := h
  exact ⟨d, directory, name, earlier ++ before, link, seen, m, after, named, rest, by simp,
    hverified.append_right earlier, hrest⟩

/-! ### How the `try` block fails -/

structure FailedBefore (l : Locals) (e : PrepError) (made : History) : Prop where
  state : l.publicationState = .notCommitted
  prepared : l.prepared = none
  classified : l.attempted = false ∨ e.isNotCommitted = true
  uncreated : Uncreated made
  reported : e.state = .notCommitted
  record : e.record = none

/-- The commit was cut off. -/
structure FailedInCommit (bytes : ℕ) (digest : Text) (l : Locals) (e : PrepError)
    (made : History) : Prop where
  state : l.publicationState = .notCommitted
  prepared : l.prepared = none
  attempted : l.attempted = true
  unclassified : e.isNotCommitted = false
  verified : ∃ d candidate, l.temporary = some d ∧ l.candidate = some candidate ∧
    candidate.publicationState = .committedNotDurable ∧
    VerifiedUnlinked d bytes digest candidate.identity.file made
  cutOff : CutOff made
  record : e.record = none

structure FailedAfter (bytes : ℕ) (digest : Text) (l : Locals) (e : PrepError)
    (made : History) : Prop where
  state : l.publicationState = .committedNotDurable ∨ l.publicationState = .committedNameUnavailable
  prepared : ∃ prepared, l.prepared = some prepared ∧
    prepared.publicationState = l.publicationState ∧
    LinkedByCall bytes digest prepared.identity.file made ∧
    AfterCommit l.publicationState prepared e

inductive BlockFailure (bytes : ℕ) (digest : Text) (l : Locals) (e : PrepError)
    (made : History) : Prop where
  | before (h : FailedBefore l e made)
  | inCommit (h : FailedInCommit bytes digest l e made)
  | after (h : FailedAfter bytes digest l e made)

/-- The `try` block returned. -/
structure BlockSuccess (planSha256 : Text) (bytes : ℕ) (digest : Text) (l : Locals)
    (made : History) : Prop where
  state : l.publicationState = .durable
  prepared : ∃ prepared, l.prepared = some prepared ∧ prepared.publicationState = .durable ∧
    prepared.planSha256 = planSha256 ∧ prepared.bytes = bytes ∧ prepared.sha256 = digest ∧
    Confirmed bytes digest prepared.identity.file made

theorem within_does {α : Type} {l : Locals} {p : Run α} {Q : α → History → Prop}
    {E : PrepError → History → Prop} (h : Does p Q E) :
    Does (within l p) Q fun failure made => failure.1 = l ∧ E failure.2 made := by
  refine Does.mapError (Does.mono h (fun _ _ h => h) ?_)
  intro e made he
  exact ⟨rfl, he⟩

theorem failedBefore_of_plain {l : Locals} {e : PrepError} {made : History} (hl : l.Unattempted)
    (he : e.Plain) (hmade : Uncreated made) : FailedBefore l e made :=
  ⟨hl.state, hl.prepared, Or.inl hl.attempted, hmade, he.state, he.record⟩

theorem CopyVerified.unlinked_at {d bytes : ℕ} {digest : Text} {copy : VerifiedCopy} {made : History}
    (h : CopyVerified d bytes digest copy made) :
    VerifiedUnlinked d bytes digest copy.output.inode made := by
  obtain ⟨earlier, seen, rfl, hobserved⟩ := h.observed
  exact ⟨earlier, seen, [], _, _, by simp, hobserved, h.unlinked, rfl, by simp [Untouched]⟩

theorem Untouched.settles {made : History} (h : Untouched made) (held : Multiset ℕ) :
    Settles descriptorEffect held made held := settles_of_neutral h

/-- The descriptors open at the end are those of the locals. -/
def BlockReturns (planSha256 : Text) (bytes : ℕ) (digest : Text) (l : Locals) (made : History) :
    Prop :=
  Settles descriptorEffect 0 made (heldBy l.descriptors) ∧ BlockSuccess planSha256 bytes digest l made

def BlockRaises (bytes : ℕ) (digest : Text) (failure : Locals × PrepError) (made : History) : Prop :=
  Settles descriptorEffect 0 made (heldBy failure.1.descriptors) ∧
    BlockFailure bytes digest failure.1 failure.2 made

theorem prepareBlock_does (plan : AcquisitionPlan) (corpusId sourcePath destinationPath : Text)
    (operation : Operation) :
    Does (prepareBlock env platform plan corpusId sourcePath destinationPath operation)
      (BlockReturns plan.planSha256 operation.expectedBytes operation.expectedSha256)
      (BlockRaises operation.expectedBytes operation.expectedSha256) := by
  refine Does.bind (openAll_calm sourcePath destinationPath operation.expectedBytes) ?_ ?_
  rotate_left
  · rintro failure made ⟨hcalm, hl, he⟩
    exact ⟨hcalm.settles, .before (failedBefore_of_plain hl he hcalm.uncreated)⟩
  intro files opening hopening
  -- The copy is verified.
  refine Does.follow (within_does (verifyCopy_steadily files.source files.temporary
    operation.expectedBytes operation.expectedSha256)) ?_ ?_
  rotate_left
  · rintro ⟨l, e⟩ made ⟨rfl, hsteady, he⟩
    exact ⟨(hopening.append (hsteady.calm _)).settles, .before (failedBefore_of_plain ⟨rfl, rfl, rfl⟩ he
      (hopening.append (hsteady.calm _)).uncreated)⟩
  rintro copy copying ⟨hsteady, hcopy⟩
  have hcalm := hopening.append (hsteady.calm _)
  have hverified := hcopy.unlinked_at.append_right opening
  generalize opening ++ copying = before at hcalm hverified ⊢
  -- The commit.
  refine Does.follow (within_does (publishAnonymousNoReplace_does files.temporary
    files.parent.descriptor files.parent.name)) ?_ ?_
  rotate_left
  · rintro ⟨l, e⟩ made ⟨rfl, huntouched, hfailure⟩
    refine ⟨hcalm.settles.append (huntouched.settles _), ?_⟩
    cases hclass : e.isNotCommitted with
    | true =>
        exact .before ⟨rfl, rfl, Or.inr hclass, hcalm.uncreated.append (hfailure.uncreated hclass),
          hfailure.state, hfailure.record⟩
    | false =>
        exact .inCommit ⟨rfl, rfl, rfl, hclass, ⟨files.temporary, _, rfl, rfl, rfl,
          hverified.append huntouched⟩, (hfailure.cutOff hclass).append_right before, hfailure.record⟩
  rintro ⟨⟩ made ⟨tries, link, rfl, huntouched, -, hcreated⟩
  have hsettles := hcalm.settles.append (huntouched.settles _)
  have htries : Untouched tries := fun e he => huntouched e (List.mem_append_left _ he)
  have hlinked : LinkedByCall operation.expectedBytes operation.expectedSha256 copy.output.inode
      (before ++ (tries ++ [link])) :=
    ⟨files.temporary, before ++ tries, link, [], by simp, hverified.append htries, _, _, hcreated⟩
  have hafter {l : Locals} {e : PrepError} {prepared : PreparedLocalCorpus} {later : History}
      (hstate : l.publicationState = .committedNotDurable ∨
        l.publicationState = .committedNameUnavailable) (hprepared : l.prepared = some prepared)
      (hsame : prepared.publicationState = l.publicationState)
      (hinode : prepared.identity.file = copy.output.inode)
      (he : AfterCommit l.publicationState prepared e) :
      FailedAfter operation.expectedBytes operation.expectedSha256 l e
        (before ++ (tries ++ [link]) ++ later) :=
    ⟨hstate, prepared, hprepared, hsame, hinode ▸ hlinked.append later, he⟩
  -- The published inode is verified.
  refine Does.follow (within_does (verifyPublished_steadily files.temporary operation.expectedBytes
    operation.expectedSha256 copy _)) ?_ ?_
  rotate_left
  · rintro ⟨l, e⟩ made ⟨rfl, hsteady, he⟩
    exact ⟨hsettles.append (hsteady.untouched.settles _),
      .after (hafter (Or.inl rfl) rfl rfl rfl (Or.inl he))⟩
  rintro after seen ⟨hsteady, m, hobserved, hinode⟩
  -- The directory is fsynced.
  refine Does.follow (within_does (fsync_steadily files.parent.descriptor)) ?_ ?_
  rotate_left
  · rintro ⟨l, e⟩ made ⟨rfl, hsync, he⟩
    refine ⟨(hsettles.append (hsteady.untouched.settles _)).append (hsync.untouched.settles _), ?_⟩
    rw [List.append_assoc]
    exact .after (hafter (Or.inl rfl) rfl rfl rfl (Or.inl he))
  rintro ⟨⟩ made ⟨hsync, rfl⟩
  -- The name is confirmed.
  refine Does.follow (within_does (confirmName_does files.parent.descriptor files.parent.name
    operation.expectedBytes after _)) ?_ ?_
  rotate_left
  · rintro ⟨l, e⟩ made ⟨rfl, hname, he⟩
    refine ⟨((hsettles.append (hsteady.untouched.settles _)).append
      (hsync.untouched.settles _)).append (hname.untouched.settles _), ?_⟩
    rw [List.append_assoc, List.append_assoc]
    exact .after (hafter (Or.inr rfl) rfl rfl rfl he)
  rintro ⟨⟩ made ⟨named, hnamed⟩
  have hnameSteady : Steady made := by
    rw [hnamed.event]
    exact steady_singleton rfl rfl
  refine Does.pure ⟨?_, rfl, _, rfl, rfl, rfl, hcopy.copied, hcopy.prepared, ?_⟩
  · rw [List.append_nil]
    exact ((hsettles.append (hsteady.untouched.settles _)).append
      (hsync.untouched.settles _)).append (hnameSteady.untouched.settles _)
  · refine ⟨files.temporary, files.parent.descriptor, files.parent.name, before ++ tries, link, seen,
      m, after, named, [], ?_, hverified.append htries, hcreated, ?_, hsteady, hobserved, hinode,
      hnamed.inode, hnamed.size, hnamed.nlink, hnamed.unchanged⟩
    · simp [hnamed.event]
    · exact huntouched link (List.mem_append_right _ (List.mem_singleton_self _))

/-! ### The handler -/

/-- The local variables tell how far the publication went. -/
structure Locals.Consistent (bytes : ℕ) (digest : Text) (l : Locals) (made : History) : Prop where
  prepared : ∀ r, l.prepared = some r → r.publicationState = l.publicationState
  uncreated : l.publicationState = .notCommitted → Uncreated made
  linked : l.publicationState = .committedNotDurable ∨
    l.publicationState = .committedNameUnavailable →
      ∃ r, l.prepared = some r ∧ Linked bytes digest r.identity.file made

/-- The exception carries what the local variables tell. -/
structure PrepError.Reports (e : PrepError) (l : Locals) : Prop where
  state : e.state = l.publicationState
  record : ∀ r, e.record = some r → l.prepared = some r

/-- What the handler reports, with the locals it leaves. -/
structure Reported (bytes : ℕ) (digest : Text) (l : Locals) (e : PrepError) (made : History) :
    Prop where
  reports : e.Reports l
  consistent : l.Consistent bytes digest made

theorem report_notCommitted {l : Locals} {e : PrepError} {i : Option PrepError}
    (hl : l.publicationState = .notCommitted) (he : e.state = .notCommitted)
    (hrecord : e.record = none) :
    (reportOutcome l e i).state = .notCommitted ∧
      (reportOutcome l e i).record = none := by
  unfold reportOutcome
  rw [hl]
  simp only
  split_ifs
  · exact ⟨he, hrecord⟩
  · exact ⟨rfl, rfl⟩
  · exact ⟨he, hrecord⟩

theorem report_unknown {l : Locals} {e : PrepError} {i : Option PrepError}
    {r : PreparedLocalCorpus} (hl : l.publicationState = .commitOutcomeUnknown)
    (hr : l.prepared = some r) :
    (reportOutcome l e i).state = .commitOutcomeUnknown ∧
      ∀ r', (reportOutcome l e i).record = some r' → r' = r := by
  unfold reportOutcome
  rw [hl, hr]
  simp only
  split_ifs
  · refine ⟨rfl, ?_⟩
    rintro r' h
    exact (Option.some.inj h).symm
  · refine ⟨rfl, ?_⟩
    rintro r' h
    cases h

theorem report_committed {l : Locals} {e : PrepError} {i : Option PrepError}
    {r : PreparedLocalCorpus} (hl : l.publicationState = .committedNotDurable)
    (hr : l.prepared = some r) (hrecord : e.record = none) :
    (reportOutcome l e i).state = .committedNotDurable ∧
      ∀ r', (reportOutcome l e i).record = some r' → r' = r := by
  unfold reportOutcome
  rw [hl, hr]
  simp only
  split_ifs
  · refine ⟨rfl, ?_⟩
    rintro r' h
    exact (Option.some.inj h).symm
  · refine ⟨rfl, ?_⟩
    intro r' h
    rw [PrepError.record, hrecord] at h
    cases h

theorem report_nameUnavailable {l : Locals} {e : PrepError} {i : Option PrepError}
    {r : PreparedLocalCorpus} (hl : l.publicationState = .committedNameUnavailable)
    (hr : l.prepared = some r) (he : AfterCommit l.publicationState r e) :
    (reportOutcome l e i).state = .committedNameUnavailable ∧
      ∀ r', (reportOutcome l e i).record = some r' → r' = r := by
  unfold reportOutcome
  rw [hl, hr]
  simp only
  rcases he with he | ⟨-, message, cause, rfl⟩
  · rw [he.nameUnavailable]
    simp only [Bool.false_eq_true, if_false]
    split_ifs
    · refine ⟨rfl, ?_⟩
      rintro r' h
      exact (Option.some.inj h).symm
    · refine ⟨rfl, ?_⟩
      intro r' h
      rw [PrepError.record, he.record] at h
      cases h
  · refine ⟨rfl, ?_⟩
    rintro r' h
    exact (Option.some.inj h).symm

theorem reported_before {bytes : ℕ} {digest : Text} {l : Locals} {e : PrepError} {made : History}
    (h : FailedBefore l e made) : Reported bytes digest l (reportOutcome l e none) made := by
  obtain ⟨hstate, hrecord⟩ := report_notCommitted (i := none) h.state h.reported h.record
  refine ⟨⟨hstate.trans h.state.symm, ?_⟩, ?_, fun _ => h.uncreated, ?_⟩
  · intro r hr
    rw [hrecord] at hr
    cases hr
  · intro r hr
    rw [h.prepared] at hr
    cases hr
  · rw [h.state]
    rintro (hfalse | hfalse) <;> cases hfalse

theorem reported_after {bytes : ℕ} {digest : Text} {l : Locals} {e : PrepError} {made : History}
    (h : FailedAfter bytes digest l e made) :
    Reported bytes digest l (reportOutcome l e none) made := by
  obtain ⟨r, hr, hsame, hlinked, he⟩ := h.prepared
  have hreport : (reportOutcome l e none).state = l.publicationState ∧
      ∀ r', (reportOutcome l e none).record = some r' → r' = r := by
    rcases h.state with hstate | hstate
    · rw [hstate]
      refine report_committed hstate hr ?_
      rcases he with he | ⟨hfalse, -⟩
      · exact he.record
      · rw [hstate] at hfalse
        cases hfalse
    · have hname := report_nameUnavailable (i := none) hstate hr he
      rw [hstate]
      exact hname
  refine ⟨⟨hreport.1, ?_⟩, ?_, ?_, fun _ => ⟨r, hr, Or.inl hlinked⟩⟩
  · intro r' hr'
    rw [hreport.2 r' hr', hr]
  · intro r' hr'
    rw [hr] at hr'
    obtain rfl := Option.some.inj hr'
    exact hsame
  · intro hfalse
    rcases h.state with hstate | hstate <;> rw [hstate] at hfalse <;> cases hfalse

theorem reported_inCommit {bytes d : ℕ} {digest : Text} {l : Locals} {e : PrepError}
    {candidate : PreparedLocalCorpus} {made later : History}
    (hcandidate : candidate.publicationState = .committedNotDurable)
    (hverified : VerifiedUnlinked d bytes digest candidate.identity.file made) (hcut : CutOff made)
    (hrecord : e.record = none) {outcome : Except PrepError StatResult}
    (hlater : ∀ m, outcome = .ok m → later = [⟨.fstat d, .ok m⟩]) :
    Reported bytes digest (l.classify candidate outcome).1
      (reportOutcome (l.classify candidate outcome).1 e (l.classify candidate outcome).2)
      (made ++ later) := by
  have hunknown (i : Option PrepError) : Reported bytes digest
      (l.reached candidate .commitOutcomeUnknown)
      (reportOutcome (l.reached candidate .commitOutcomeUnknown) e i) (made ++ later) := by
    obtain ⟨hstate, hrecords⟩ := report_unknown (e := e) (i := i)
      (l := l.reached candidate .commitOutcomeUnknown) rfl rfl
    refine ⟨⟨hstate, ?_⟩, ?_, (fun h => nomatch h), ?_⟩
    · intro r hr
      rw [hrecords r hr]
      rfl
    · intro r hr
      obtain rfl := Option.some.inj hr
      rfl
    · rintro (h | h) <;> cases h
  cases outcome with
  | error failure => exact hunknown _
  | ok m =>
      rw [Locals.classify]
      split_ifs with hlinks hone
      · obtain ⟨hstate, hrecords⟩ := report_committed (e := e) (i := none)
          (l := { l with publicationState := .committedNotDurable, prepared := some candidate })
          rfl rfl hrecord
        refine ⟨⟨hstate, ?_⟩, ?_, (fun h => nomatch h), fun _ => ?_⟩
        · intro r hr
          rw [hrecords r hr]
        · intro r hr
          obtain rfl := Option.some.inj hr
          exact hcandidate
        · refine ⟨candidate, rfl, Or.inr ⟨d, made, m, [], ?_, hverified, hcut, hlinks.1,
            inode_eq_of_matches hlinks.2⟩⟩
          rw [hlater m rfl]
      · exact hunknown _
      · exact hunknown _

theorem classify_descriptors (l : Locals) (candidate : PreparedLocalCorpus)
    (outcome : Except PrepError StatResult) :
    (l.classify candidate outcome).1.descriptors = l.descriptors := by
  cases outcome with
  | error failure => rfl
  | ok m =>
      rw [Locals.classify]
      split_ifs <;> rfl

theorem inspectOutcome_of_classified {l : Locals} {e : PrepError}
    (h : ¬ (l.attempted = true ∧ l.publicationState = .notCommitted ∧ e.isNotCommitted = false)) :
    inspectOutcome env l e = pure (l, none) := by
  rw [inspectOutcome, if_neg h]

theorem inspectOutcome_of_unclassified {l : Locals} {e : PrepError} {d : ℕ}
    {candidate : PreparedLocalCorpus}
    (h : l.attempted = true ∧ l.publicationState = .notCommitted ∧ e.isNotCommitted = false)
    (hd : l.temporary = some d) (hcandidate : l.candidate = some candidate) :
    inspectOutcome env l e =
      attempt (fstat env d) >>= fun outcome => pure (l.classify candidate outcome) := by
  rw [inspectOutcome, if_pos h, hd, hcandidate]

/-- The handler opens and closes nothing, and reports what happened. -/
theorem handleFailure_does {bytes : ℕ} {digest : Text} {l : Locals} {e : PrepError} {made : History}
    (h : BlockFailure bytes digest l e made) :
    Does (handleFailure env (l, e)) (fun ended later => ended.1.descriptors = l.descriptors ∧
      Untouched later ∧ ∃ e', ended.2 = some e' ∧ Reported bytes digest ended.1 e' (made ++ later))
      fun _ _ => False := by
  cases h with
  | before h =>
      rw [handleFailure, inspectOutcome_of_classified]
      · refine Does.pure ⟨rfl, steady_nil.untouched, _, rfl, ?_⟩
        rw [List.append_nil]
        exact reported_before h
      · rintro ⟨hattempted, -, hclass⟩
        rcases h.classified with hnot | hnot
        · rw [hattempted] at hnot
          cases hnot
        · rw [hclass] at hnot
          cases hnot
  | after h =>
      rw [handleFailure, inspectOutcome_of_classified]
      · refine Does.pure ⟨rfl, steady_nil.untouched, _, rfl, ?_⟩
        rw [List.append_nil]
        exact reported_after h
      · rintro ⟨-, hstate, -⟩
        rcases h.state with hnot | hnot
        · rw [hstate] at hnot
          cases hnot
        · rw [hstate] at hnot
          cases hnot
  | inCommit h =>
      obtain ⟨d, candidate, hd, hcandidate, hstate, hverified⟩ := h.verified
      rw [handleFailure, inspectOutcome_of_unclassified ⟨h.attempted, h.state, h.unclassified⟩ hd
        hcandidate]
      refine Does.bind (Does.bind (Does.attempt (fstat_steadily d)) ?_ fun _ _ h => h)
        (Q := fun inspected later => ∃ outcome : Except PrepError StatResult,
          inspected = l.classify candidate outcome ∧ Untouched later ∧
            ∀ m, outcome = .ok m → later = [⟨.fstat d, .ok m⟩]) (E := fun _ _ => False) ?_
        fun _ _ h => h
      · intro outcome later hlater
        refine Does.pure ⟨outcome, rfl, ?_⟩
        rw [List.append_nil]
        cases outcome with
        | ok m =>
            refine ⟨hlater.1.untouched, ?_⟩
            rintro m' hm
            cases hm
            exact hlater.2
        | error failure => exact ⟨hlater.1.untouched, fun m hm => nomatch hm⟩
      · rintro inspected later ⟨outcome, rfl, huntouched, hlater⟩
        refine Does.pure ⟨classify_descriptors l candidate outcome, ?_, _, rfl, ?_⟩
        · rw [List.append_nil]
          exact huntouched
        · rw [List.append_nil]
          exact reported_inCommit hstate hverified h.cutOff h.record hlater

/-! ### The end of the function -/

theorem consistent_of_success {planSha256 digest : Text} {bytes : ℕ} {l : Locals} {made : History}
    (h : BlockSuccess planSha256 bytes digest l made) : l.Consistent bytes digest made := by
  obtain ⟨r, hr, hstate, -⟩ := h.prepared
  refine ⟨?_, ?_, ?_⟩
  · intro r' hr'
    rw [hr] at hr'
    obtain rfl := Option.some.inj hr'
    rw [hstate, h.state]
  · intro hfalse
    rw [h.state] at hfalse
    cases hfalse
  · rw [h.state]
    rintro (hfalse | hfalse) <;> cases hfalse

theorem Locals.Consistent.append {bytes : ℕ} {digest : Text} {l : Locals} {made later : History}
    (h : l.Consistent bytes digest made) (hlater : Uncreated later) :
    l.Consistent bytes digest (made ++ later) := by
  refine ⟨h.prepared, fun hl => (h.uncreated hl).append hlater, fun hl => ?_⟩
  obtain ⟨r, hr, hlinked⟩ := h.linked hl
  exact ⟨r, hr, hlinked.append later⟩

/-- Descriptors that could not be closed change the exception, not what it reports. -/
theorem reports_of_cleanup {context : String} {x : Option PrepError}
    {failures : List (String × SystemError)} {l : Locals} {e : PrepError}
    (hx : ∀ e ∈ x, e.Reports l)
    (h : raiseOperationOrCleanup context x failures .corpus l.publicationState l.prepared =
      .error e) : e.Reports l := by
  cases failures with
  | nil =>
      cases x with
      | none => cases h
      | some primary =>
          cases h
          exact hx e rfl
  | cons failure failures =>
      cases h
      unfold cleanupError
      split
      · exact ⟨rfl, fun _ hr => hr⟩
      · exact ⟨rfl, fun _ hr => nomatch hr⟩

theorem cleanup_ok {context : String} {x : Option PrepError} {failures : List (String × SystemError)}
    {domain : Domain} {state : PublicationState} {prepared : Option PreparedLocalCorpus}
    (h : raiseOperationOrCleanup context x failures domain state prepared = .ok ()) : x = none := by
  cases failures with
  | nil =>
      cases x with
      | none => rfl
      | some primary => cases h
  | cons failure failures => cases h

/-- The entry of the plan for a corpus is complete, and the plan has a digest. -/
def Planned (platform : Platform) (corpusId planSha256 : Text) (operation : Operation) : Prop :=
  ∃ raw corpora, platform.parsePlan raw = .ok corpora ∧ planSha256 = hexDigest (sha256 raw) ∧
    descriptorForOperation ⟨corpora, planSha256⟩ corpusId = .ok operation

/-- A record of a confirmed publication of the planned bytes. -/
structure Durable (platform : Platform) (corpusId : Text) (r : PreparedLocalCorpus)
    (made : History) : Prop where
  state : r.publicationState = .durable
  confirmed : ∃ operation, Planned platform corpusId r.planSha256 operation ∧
    r.bytes = operation.expectedBytes ∧ r.sha256 = operation.expectedSha256 ∧
    Confirmed operation.expectedBytes operation.expectedSha256 r.identity.file made

/-- What an exception carries and implies is so. -/
structure Told (platform : Platform) (corpusId : Text) (e : PrepError) (made : History) : Prop where
  record : ∀ r, e.record = some r → r.publicationState = e.state
  uncreated : e.state = .notCommitted → Uncreated made
  linked : e.state = .committedNotDurable ∨ e.state = .committedNameUnavailable →
    ∃ planSha256 operation i, Planned platform corpusId planSha256 operation ∧
      Linked operation.expectedBytes operation.expectedSha256 i made ∧
      ∀ r, e.record = some r → r.identity.file = i

theorem told_of_plain {corpusId : Text} {e : PrepError} {made : History} (he : e.Plain)
    (hmade : Uncreated made) : Told platform corpusId e made := by
  refine ⟨?_, fun _ => hmade, ?_⟩
  · intro r hr
    rw [he.record] at hr
    cases hr
  · rw [he.state]
    rintro (hfalse | hfalse) <;> cases hfalse

theorem told_of_reports {corpusId planSha256 : Text} {operation : Operation} {l : Locals}
    {e : PrepError} {made : History} (hplanned : Planned platform corpusId planSha256 operation)
    (he : e.Reports l) (hl : l.Consistent operation.expectedBytes operation.expectedSha256 made) :
    Told platform corpusId e made := by
  refine ⟨?_, ?_, ?_⟩
  · intro r hr
    rw [he.state]
    exact hl.prepared r (he.record r hr)
  · intro hstate
    exact hl.uncreated (he.state.symm.trans hstate)
  · intro hstate
    rw [he.state] at hstate
    obtain ⟨r, hr, hlinked⟩ := hl.linked hstate
    refine ⟨planSha256, operation, r.identity.file, hplanned, hlinked, ?_⟩
    intro r' hr'
    have hsame := he.record r' hr'
    rw [hr] at hsame
    obtain rfl := Option.some.inj hsame
    rfl

/-- What is known after the `try` statement, with the exception its handler left. -/
structure Ended (planSha256 : Text) (bytes : ℕ) (digest : Text) (ended : Locals × Option PrepError)
    (made : History) : Prop where
  settles : Settles descriptorEffect 0 made (heldBy ended.1.descriptors)
  consistent : ended.1.Consistent bytes digest made
  reports : ∀ e ∈ ended.2, e.Reports ended.1
  success : ended.2 = none → BlockSuccess planSha256 bytes digest ended.1 made

/-- After calls that left nothing open and linked nothing. -/
theorem Ended.append_right {planSha256 digest : Text} {bytes : ℕ} {ended : Locals × Option PrepError}
    {made before : History} (h : Ended planSha256 bytes digest ended made) (hbefore : Calm 0 before 0) :
    Ended planSha256 bytes digest ended (before ++ made) := by
  refine ⟨hbefore.settles.append h.settles, ⟨h.consistent.prepared, fun hl => ?_, fun hl => ?_⟩,
    h.reports, fun hnone => ⟨(h.success hnone).state, ?_⟩⟩
  · exact hbefore.uncreated.append (h.consistent.uncreated hl)
  · obtain ⟨r, hr, hlinked⟩ := h.consistent.linked hl
    exact ⟨r, hr, hlinked.append_right before⟩
  · obtain ⟨r, hr, hstate, hsha, hbytes, hdigest, hconfirmed⟩ := (h.success hnone).prepared
    exact ⟨r, hr, hstate, hsha, hbytes, hdigest, hconfirmed.append_right before⟩

theorem afterTry_does {planSha256 digest : Text} {bytes : ℕ}
    {outcome : Except (Locals × PrepError) Locals} {made : History}
    (h : Either (BlockReturns planSha256 bytes digest) (BlockRaises bytes digest) outcome made) :
    Does (afterTry env outcome)
      (fun ended later => Ended planSha256 bytes digest ended (made ++ later)) fun _ _ => False := by
  cases outcome with
  | ok l =>
      refine Does.pure ?_
      rw [List.append_nil]
      exact ⟨h.1, consistent_of_success h.2, (fun e he => nomatch he), fun _ => h.2⟩
  | error failure =>
      refine Does.mono (handleFailure_does h.2) ?_ fun _ _ h => h
      rintro ended later ⟨hdescriptors, huntouched, e, he, hreported⟩
      refine ⟨?_, hreported.consistent, ?_, ?_⟩
      · rw [hdescriptors]
        exact h.1.append (huntouched.settles _)
      · intro e' he'
        rw [he] at he'
        obtain rfl := Option.mem_some_iff.mp he'
        exact hreported.reports
      · intro hfalse
        rw [he] at hfalse
        cases hfalse

theorem descriptorForOperation_plain {plan : AcquisitionPlan} {corpusId : Text} {e : PrepError}
    (h : descriptorForOperation plan corpusId = .error e) : e.Plain := by
  refine plain_of_raiseIf (plain_preparation _ _) (fun _ h => ?_) h
  cases hfind : plan.corpora.find? (fun descriptor => descriptor.id = corpusId) with
  | none =>
      rw [hfind] at h
      cases h
      exact plain_system _
  | some descriptor =>
      rw [hfind] at h
      refine plain_of_raiseIf (plain_preparation _ _) (fun _ h => ?_) h
      split at h
      · refine plain_of_raiseIf (plain_preparation _ _) (fun _ h => ?_) h
        cases h
      · cases h
        exact plain_preparation _ _

/-- A return with every descriptor closed. -/
def EndsDurable (platform : Platform) (corpusId : Text) (r : PreparedLocalCorpus) (made : History) :
    Prop := Settles descriptorEffect 0 made 0 ∧ Durable platform corpusId r made

/-- An exception with every descriptor closed. -/
def EndsTold (platform : Platform) (corpusId : Text) (e : PrepError) (made : History) : Prop :=
  Settles descriptorEffect 0 made 0 ∧ Told platform corpusId e made

theorem endsTold_of_plain {corpusId : Text} {e : PrepError} {made : History} (he : e.Plain)
    (hmade : Calm 0 made 0) : EndsTold platform corpusId e made :=
  ⟨hmade.settles, told_of_plain he hmade.uncreated⟩

/-- After the `try` statement: the descriptors are closed, and what is left is raised. -/
theorem finish_does {corpusId planSha256 : Text} {operation : Operation}
    (hplanned : Planned platform corpusId planSha256 operation) {ended : Locals × Option PrepError}
    {before : History} (h : Ended planSha256 operation.expectedBytes operation.expectedSha256 ended
      before) :
    Does (do
      let failures ← closeDescriptors env ended.1.descriptors
      let () ← lift (raiseOperationOrCleanup "local deterministic preparation/cleanup failed" ended.2
        failures .corpus ended.1.publicationState ended.1.prepared)
      match ended.1.prepared with
      | some prepared => pure prepared
      | none => raise assertionError)
      (fun r later => EndsDurable platform corpusId r (before ++ later))
      fun e later => EndsTold platform corpusId e (before ++ later) := by
  refine Does.follow (closeDescriptors_does env _) ?_ fun _ _ h => h.elim
  intro failures closing hclosing
  have hsettles : Settles descriptorEffect 0 (before ++ closing) 0 := h.settles.append hclosing.settles
  have hconsistent := h.consistent.append hclosing.uncreated
  refine Does.follow (Does.lift (Q := fun _ made => ended.2 = none ∧ made = [])
    (fun _ hok => ⟨cleanup_ok hok, rfl⟩) (E := fun e made => e.Reports ended.1 ∧ made = [])
    fun e he => ⟨reports_of_cleanup h.reports he, rfl⟩) ?_ ?_
  · rintro ⟨⟩ made ⟨hnone, rfl⟩
    obtain ⟨r, hr, hstate, hsha, hbytes, hdigest, hconfirmed⟩ := (h.success hnone).prepared
    rw [hr]
    refine Does.pure ?_
    rw [List.append_nil, List.append_nil]
    exact ⟨hsettles, hstate, operation, hsha ▸ hplanned, hbytes, hdigest, hconfirmed.append closing⟩
  · rintro e made ⟨he, rfl⟩
    rw [List.append_nil]
    exact ⟨hsettles, told_of_reports hplanned he hconsistent⟩

/-- Every descriptor is closed, a returned record is durable and an exception says what is so. -/
theorem prepareLocalSource_does (planPath corpusId sourcePath destinationPath : Text)
    (maxBytes : ℕ) :
    Does (prepareLocalSource env platform planPath corpusId sourcePath destinationPath maxBytes)
      (EndsDurable platform corpusId) (EndsTold platform corpusId) := by
  refine Does.bind (loadAcquisitionPlan_calmly planPath maxBytes) ?_ ?_
  rotate_left
  · rintro e made ⟨hcalm, he⟩
    exact endsTold_of_plain he hcalm
  rintro plan before ⟨hcalm, raw, hparse, hsha⟩
  refine Does.follow (Does.lift (Q := fun operation made =>
    descriptorForOperation plan corpusId = .ok operation ∧ made = [])
    (fun _ h => ⟨h, rfl⟩) (E := fun e made => e.Plain ∧ made = [])
    fun e he => ⟨descriptorForOperation_plain he, rfl⟩) ?_ ?_
  rotate_left
  · rintro e made ⟨he, rfl⟩
    rw [List.append_nil]
    exact endsTold_of_plain he hcalm
  rintro operation made ⟨hoperation, rfl⟩
  rw [List.append_nil]
  have hplanned : Planned platform corpusId plan.planSha256 operation :=
    ⟨raw, plan.corpora, hparse, hsha, hoperation⟩
  refine Does.follow (Does.lift (Q := fun _ made => made = []) (fun _ _ => rfl)
    (E := fun e made => e.Plain ∧ made = [])
    fun e he => ⟨requireSecurePreparation_plain he, rfl⟩) ?_ ?_
  rotate_left
  · rintro e made ⟨he, rfl⟩
    rw [List.append_nil]
    exact endsTold_of_plain he hcalm
  rintro ⟨⟩ made rfl
  rw [List.append_nil]
  -- The `try` statement, and the cleanup after it.
  refine Does.follow (Does.attempt (prepareBlock_does plan corpusId sourcePath destinationPath
    operation) : Does _ _ fun (_ : PrepError) _ => False) ?_ fun _ _ h => h.elim
  intro outcome block hblock
  refine Does.follow (afterTry_does hblock) ?_ fun _ _ h => h.elim
  intro ended later hended
  refine finish_does hplanned ?_
  rw [List.append_assoc]
  exact hended.append_right hcalm

end MosaicArchive.Publication
