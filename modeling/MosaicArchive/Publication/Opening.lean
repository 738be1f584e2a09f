import MosaicArchive.Publication.Calm

/-!
What opening and reading files does to the descriptors: every function returns
with exactly the descriptors of its result open, and raises with none of its own.
A file that was hashed has been read from its start to its end.
-/

namespace MosaicArchive.Publication

open Utf8 (Text)
open FixedWidth CallHistory Resources
open MosaicArchive.Report (hexDigest)
open Routine (raise raiseIf lift attempt)

variable {env : Environment Call Reply} {platform : Platform}

/-! ### Single calls -/

theorem fstat_steadily (d : ℕ) :
    Steadily (fstat env d) fun m made => made = [⟨.fstat d, .ok m⟩] := by
  refine Steadily.call (fun _ => ⟨rfl, rfl⟩) ?_
  rintro r m rfl
  rfl

theorem rewind_steadily (d : ℕ) :
    Steadily (rewind env d) fun _ made => made = [⟨.rewind d, .ok ()⟩] := by
  refine Steadily.call (fun _ => ⟨rfl, rfl⟩) ?_
  rintro r ⟨⟩ rfl
  rfl

theorem fsync_steadily (d : ℕ) :
    Steadily (fsync env d) fun _ made => made = [⟨.fsync d, .ok ()⟩] := by
  refine Steadily.call (fun _ => ⟨rfl, rfl⟩) ?_
  rintro r ⟨⟩ rfl
  rfl

theorem read_steadily (d n : ℕ) :
    Steadily (read env d n) fun data made => ∃ h : data.length ≤ n,
      made = [⟨.read d n, .ok ⟨data, h⟩⟩] := by
  have hbounded : Steadily (readBounded env d n) fun data made => made = [⟨.read d n, .ok data⟩] := by
    refine Steadily.call (fun _ => ⟨rfl, rfl⟩) ?_
    rintro r data rfl
    rfl
  refine Steadily.bind hbounded ?_
  rintro data made rfl
  exact Steadily.pure ⟨data.2, rfl⟩

/-! ### Blocks -/

def replyData {n : ℕ} : Except SystemError { data : Bytes // data.length ≤ n } → Bytes
  | .ok data => data.1
  | .error _ => []

/-- What a call has read from a descriptor. -/
def readFrom (d : ℕ) (e : Event) : Bytes :=
  match e with
  | ⟨.read descriptor _, reply⟩ => if descriptor = d then replyData reply else []
  | _ => []

def dataRead (d : ℕ) (made : History) : Bytes := made.flatMap (readFrom d)

@[simp] theorem dataRead_nil (d : ℕ) : dataRead d [] = [] := rfl

@[simp] theorem dataRead_append (d : ℕ) (made later : History) :
    dataRead d (made ++ later) = dataRead d made ++ dataRead d later := by
  simp [dataRead]

theorem dataRead_read {d n : ℕ} {data : Bytes} (h : data.length ≤ n) :
    dataRead d [⟨.read d n, .ok ⟨data, h⟩⟩] = data := by
  simp [dataRead, readFrom, replyData]

/-- A whole number of bytes is read, unless the file ends before. -/
theorem readBlocks_steadily {d : ℕ} {onEnd : Bytes → Run Bytes} {onBlock : Bytes → Run Unit}
    {S : Bytes → Prop} (hend : ∀ data, Steadily (onEnd data) fun r _ => S r)
    (hblock : ∀ chunk, Steadily (onBlock chunk) fun _ made => dataRead d made = [])
    {rounds remaining : ℕ} (hrounds : remaining ≤ rounds) (data : Bytes) :
    Steadily (readBlocks env d onEnd onBlock rounds remaining data) fun r made =>
      S r ∨ r = data ++ dataRead d made ∧ r.length = data.length + remaining := by
  induction rounds generalizing remaining data with
  | zero =>
      refine Steadily.pure (Or.inr ⟨by simp, ?_⟩)
      omega
  | succ rounds ih =>
      cases remaining with
      | zero => exact Steadily.pure (Or.inr ⟨by simp, rfl⟩)
      | succ remaining =>
          refine Steadily.bind (read_steadily d _) ?_
          rintro chunk made ⟨hchunk, rfl⟩
          split
          · exact (hend data).mono fun r later hr => Or.inl hr
          · rename_i hne
            have hpos : 0 < chunk.length := List.length_pos_iff.mpr hne
            have hle : chunk.length ≤ remaining + 1 := le_trans hchunk (min_le_right _ _)
            refine Steadily.bind (hblock chunk) ?_
            intro _ stored hstored
            have hrest : remaining + 1 - chunk.length ≤ rounds := by omega
            refine (ih hrest (data ++ chunk)).mono ?_
            rintro r later (hr | ⟨hr, hlength⟩)
            · exact Or.inl hr
            · refine Or.inr ⟨?_, ?_⟩
              · rw [hr, dataRead_append, dataRead_append, hstored, dataRead_read]
                simp
              · rw [hlength, List.length_append]
                omega

/-- A file is read from its start to its end. -/
def ReadsWhole (d : ℕ) (data : Bytes) (made : History) : Prop :=
  ∃ blocks, made = ⟨.rewind d, .ok ()⟩ :: (blocks ++ [⟨.read d 1, .ok ⟨[], Nat.zero_le 1⟩⟩]) ∧
    dataRead d blocks = data

theorem hashFdExact_steadily (d expectedBytes : ℕ) :
    Steadily (hashFdExact env d expectedBytes) fun r made => ∃ data, ReadsWhole d data made ∧
      data.length = expectedBytes ∧ r = (expectedBytes, hexDigest (sha256 data)) := by
  refine Steadily.bind (rewind_steadily d) ?_
  rintro ⟨⟩ made rfl
  refine Steadily.bind (readBlocks_steadily (S := fun _ => False)
    (fun _ => Steadily.raise (plain_preparation _ _)) (fun _ => Steadily.pure rfl) le_rfl []) ?_
  rintro data blocks (hfalse | ⟨hdata, hlength⟩)
  · exact hfalse.elim
  · refine Steadily.bind (read_steadily d 1) ?_
    rintro extra made ⟨hextra, rfl⟩
    refine Steadily.guard (plain_preparation _ _) fun hempty => Steadily.pure ?_
    rw [not_not] at hempty
    subst hempty
    rw [List.nil_append] at hdata
    rw [List.length_nil, Nat.zero_add] at hlength
    exact ⟨data, ⟨blocks, by simp, hdata.symm⟩, hlength, by rw [hlength]⟩

theorem write_steadily (d : ℕ) (data : Bytes) :
    Steadily (write env d data) fun count made => made = [⟨.write d data, .ok count⟩] := by
  refine Steadily.call (fun _ => ⟨rfl, rfl⟩) ?_
  rintro r count rfl
  rfl

theorem writeAll_steadily (source output : ℕ) (rounds : ℕ) (data : Bytes) :
    Steadily (writeAll env output rounds data) fun _ made => dataRead source made = [] := by
  induction rounds generalizing data with
  | zero => exact Steadily.pure rfl
  | succ rounds ih =>
      cases data with
      | nil => exact Steadily.pure rfl
      | cons b data =>
          refine Steadily.bind (write_steadily output (b :: data)) ?_
          rintro count made rfl
          refine Steadily.guard plain_noProgress fun _ => (ih _).mono ?_
          intro _ later hlater
          rw [List.singleton_append, dataRead, List.flatMap_cons]
          exact hlater

theorem copySourceToFd_steadily (source output expectedBytes : ℕ) :
    Steadily (copySourceToFd env source output expectedBytes) fun r _ => r.1 = expectedBytes := by
  refine Steadily.bind (rewind_steadily source) ?_
  rintro ⟨⟩ made rfl
  refine Steadily.bind (readBlocks_steadily (S := fun _ => False)
    (fun _ => Steadily.raise (plain_preparation _ _))
    (fun chunk => writeAll_steadily source output _ _) le_rfl []) ?_
  rintro data blocks (hfalse | ⟨-, hlength⟩)
  · exact hfalse.elim
  · refine Steadily.bind (read_steadily source 1) ?_
    rintro extra made -
    refine Steadily.guard (plain_preparation _ _) fun _ => Steadily.pure ?_
    simpa using hlength

/-! ### The acquisition plan -/

theorem readPlanDescriptorBounded_steadily (d maxBytes : ℕ) :
    Steadily (readPlanDescriptorBounded env d maxBytes) fun _ _ => True := by
  refine Steadily.bind (rewind_steadily d) ?_
  rintro ⟨⟩ made -
  refine Steadily.bind (readBlocks_steadily (S := fun _ => True)
    (fun _ => Steadily.pure trivial) (fun _ => Steadily.pure rfl) le_rfl []) ?_
  rintro raw blocks -
  exact Steadily.guard (plain_plan _ _) fun _ => Steadily.pure trivial

theorem readOpenPlan_steadily (before : StatResult) (maxBytes d : ℕ) :
    Steadily (readOpenPlan env platform before maxBytes d) fun _ _ => True := by
  refine Steadily.bind (fstat_steadily d) fun _ _ _ => ?_
  refine Steadily.guard (plain_plan _ _) fun _ => Steadily.guard (plain_plan _ _) fun _ => ?_
  refine Steadily.bind (readPlanDescriptorBounded_steadily d maxBytes) fun _ _ _ => ?_
  refine Steadily.bind (fstat_steadily d) fun _ _ _ => ?_
  refine Steadily.guard (plain_plan _ _) fun _ => ?_
  refine Steadily.bind (readPlanDescriptorBounded_steadily d maxBytes) fun _ _ _ => ?_
  refine Steadily.bind (fstat_steadily d) fun _ _ _ => ?_
  exact Steadily.guard (plain_plan _ _) fun _ => Steadily.pure trivial

theorem openPlan_calmly (path : Text) (held : Multiset ℕ) :
    Calmly held (openPlan env path) (fun d => d ::ₘ held) held fun _ => True :=
  Calmly.opening fun _ => ⟨rfl, rfl⟩

theorem lstat_steadily (path : Text) : Steadily (lstat env path) fun _ _ => True :=
  Steadily.call (fun _ => ⟨rfl, rfl⟩) fun _ _ _ => trivial

/-- The end of an operation that closes its descriptors whether it failed or not. -/
theorem closing_calmly {α : Type} {p : Run α} {onFailure : PrepError → PrepError}
    {l : List (String × ℕ)} {context : String} {domain : Domain}
    {P : α → Prop} (hp : Calmly (heldBy l) p (fun _ => heldBy l) (heldBy l) P)
    (honFailure : ∀ e : PrepError, e.Plain → (onFailure e).Plain) :
    Calmly (heldBy l) (do
      let outcome ← attempt p
      let failures ← closeDescriptors env l
      let () ← lift (raiseOperationOrCleanup context (primaryError onFailure outcome) failures domain
        .notCommitted none)
      lift (outcome.mapError fun _ => assertionError)) (fun _ => 0) 0 P := by
  refine Does.bind (Does.attempt hp) (E := fun _ _ => False) ?_ fun _ _ h => h.elim
  intro outcome made hmade
  refine Does.bind (closeDescriptors_does env l) ?_ fun _ _ h => h.elim
  intro failures later hlater
  have hcalm : Calm (heldBy l) (made ++ later) 0 := by
    cases outcome with
    | ok a => exact hmade.1.append hlater
    | error e => exact hmade.1.append hlater
  have hprimary : ∀ e ∈ primaryError onFailure outcome, e.Plain := by
    cases outcome with
    | ok a =>
        rintro e h
        cases h
    | error e =>
        intro e' he'
        obtain rfl := Option.mem_some_iff.mp he'
        exact honFailure e hmade.2
  refine Does.bind (Does.lift (Q := fun _ done => done = []) (fun _ _ => rfl) (E := fun e done =>
    done = [] ∧ e.Plain) fun e he => ⟨rfl, plain_raiseOperationOrCleanup hprimary he⟩) ?_ ?_
  · rintro ⟨⟩ done rfl
    cases outcome with
    | ok a =>
        refine Does.lift ?_ ?_
        · intro b hb
          cases hb
          simpa using ⟨hcalm, hmade.2⟩
        · rintro e he
          cases he
    | error e =>
        refine Does.lift ?_ ?_
        · intro b hb
          cases hb
        · intro e' he'
          cases he'
          simpa using ⟨hcalm, plain_assertionError⟩
  · rintro e done ⟨rfl, he⟩
    simpa using ⟨hcalm, he⟩

theorem readPlanBytes_calmly (path : Text) (maxBytes : ℕ) :
    Calmly 0 (readPlanBytes env platform path maxBytes) (fun _ => 0) 0 fun _ => True := by
  refine Calmly.guard (plain_plan _ _) fun _ => ?_
  refine Calmly.bind (((lstat_steadily path).mapError fun _ => plain_asPlanError).calmly
    (R := fun _ => True) (fun _ _ _ => trivial) 0) fun before _ => ?_
  refine Calmly.guard (plain_plan _ _) fun _ => Calmly.guard (plain_plan _ _) fun _ => ?_
  refine Calmly.bind ((openPlan_calmly path 0).mapError fun _ => plain_asPlanError) fun d _ => ?_
  exact closing_calmly (l := [("acquisition plan", d)])
    ((readOpenPlan_steadily before maxBytes d).calmly (fun _ _ _ => trivial) _)
    fun _ => plain_asPlanError

/-- A plan is what the parser finds in the bytes of its file. -/
theorem loadAcquisitionPlan_calmly (path : Text) (maxBytes : ℕ) :
    Calmly 0 (loadAcquisitionPlan env platform path maxBytes) (fun _ => 0) 0 fun plan =>
      ∃ raw, platform.parsePlan raw = .ok plan.corpora ∧ plan.planSha256 = hexDigest (sha256 raw) := by
  refine Calmly.bind (readPlanBytes_calmly path maxBytes) fun raw _ => ?_
  refine Calmly.bind (Calmly.lift (P := fun corpora => platform.parsePlan raw = .ok corpora) ?_ ?_) ?_
  · intro corpora h
    cases hparse : platform.parsePlan raw with
    | error message => simp [hparse, Except.mapError] at h
    | ok found =>
        simp only [hparse, Except.mapError, Except.ok.injEq] at h
        rw [h]
  · intro e h
    cases hparse : platform.parsePlan raw with
    | error message =>
        simp only [hparse, Except.mapError, Except.error.injEq] at h
        subst h
        exact plain_plan _ _
    | ok found => simp [hparse, Except.mapError] at h
  · intro corpora hcorpora
    exact Calmly.pure rfl ⟨raw, hcorpora, rfl⟩

/-! ### Directories -/

theorem plain_symlinksForbidden {context : String} {e : PrepError} (h : e.Plain) :
    (symlinksForbidden context e).Plain := plain_asPreparation h

theorem requireDirectory_steadily (context : String) (d : ℕ) :
    Steadily (requireDirectory env context d) fun _ _ => True := by
  refine Steadily.bind (fstat_steadily d) fun _ _ _ => ?_
  exact Steadily.raiseIf (plain_preparation _ _) fun _ => trivial

theorem openAnchorDirectory_calmly (anchor : Text) (context : String) :
    Calmly 0 (openAnchorDirectory env anchor context) (fun d => {d}) 0 fun _ => True := by
  refine Calmly.bind (openChecked_calmly (l := []) (P := fun _ _ => True)
    (Calmly.opening fun _ => ⟨rfl, rfl⟩) (fun d => requireDirectory_steadily context d)
    fun _ => plain_symlinksForbidden) fun opened _ => ?_
  exact Calmly.pure rfl trivial

/-- What `descend` raises after an ancestor could not be closed. -/
theorem release_calmly {α : Type} {context role : String} {d : ℕ}
    {failures : List (String × SystemError)} {L : α → Multiset ℕ} {P : α → Prop} :
    Calmly {d} (do
      let more ← closeDescriptors env [(role, d)]
      let () ← lift (raiseOperationOrCleanup context none (failures ++ more) .corpus .notCommitted none)
      raise assertionError) L 0 P := by
  refine Does.bind (closeDescriptors_does env [(role, d)]) ?_ fun _ _ h => h.elim
  intro more made hmade
  refine Does.bind (Does.lift (Q := fun _ later => later = []) (fun _ _ => rfl) (E := fun e later =>
    later = [] ∧ e.Plain) fun e he => ⟨rfl, plain_raiseOperationOrCleanup ?_ he⟩) ?_ ?_
  · rintro e h
    cases h
  · rintro ⟨⟩ later rfl
    refine Does.raise ?_
    simpa using ⟨hmade, plain_assertionError⟩
  · rintro e later ⟨rfl, he⟩
    simpa using ⟨hmade, he⟩

/-- The descriptor held moves down one component at a time. -/
theorem descend_calmly (context : String) (parts : List Text) (current : ℕ) :
    Calmly {current} (descend env context parts current) (fun d => {d}) 0 fun _ => True := by
  induction parts generalizing current with
  | nil => exact Calmly.pure rfl trivial
  | cons part parts ih =>
      refine Calmly.bind (openChecked_calmly (l := [(_, current)]) (P := fun _ _ => True)
        (Calmly.opening fun _ => ⟨rfl, rfl⟩) (fun d => requireDirectory_steadily context d)
        fun _ => plain_symlinksForbidden) fun following _ => ?_
      have hclose : Does (closeDescriptors env [(context ++ " previous component", current)])
          (fun _ made => Calm (following.1 ::ₘ {current}) made {following.1}) fun _ _ => False := by
        refine Does.mono (closeDescriptors_does env _) ?_ fun _ _ h => h
        intro failures made hmade
        have hframe := hmade.frame {following.1}
        rw [zero_add, add_comm] at hframe
        exact hframe
      refine Does.bind hclose ?_ fun _ _ h => h.elim
      intro failures made hmade
      split
      · refine Does.mono (ih following.1) ?_ ?_
        · rintro d later ⟨hlater, -⟩
          exact ⟨hmade.append hlater, trivial⟩
        · rintro e later ⟨hlater, he⟩
          exact ⟨hmade.append hlater, he⟩
      · refine Does.mono (release_calmly (L := fun d => {d}) (P := fun _ => True)) ?_ ?_
        · rintro d later ⟨hlater, -⟩
          exact ⟨hmade.append hlater, trivial⟩
        · rintro e later ⟨hlater, he⟩
          exact ⟨hmade.append hlater, he⟩

theorem openDirectoryParts_calmly (anchor : Text) (parts : List Text) (context : String) :
    Calmly 0 (openDirectoryParts env anchor parts context) (fun d => {d}) 0 fun _ => True := by
  refine Calmly.bind (openAnchorDirectory_calmly anchor context) fun first _ => ?_
  refine Calmly.bind (descend_calmly context parts first) fun current _ => ?_
  refine Calmly.bind (guarded_calmly (l := [(_, current)])
    ((requireDirectory_steadily context current).calmly (R := fun _ => True) (fun _ _ h => h) _)
    fun _ => plain_asPreparation) fun _ _ => ?_
  exact Calmly.pure rfl trivial

/-! ### The source and the destination -/

theorem requireSecurePreparation_plain {e : PrepError}
    (h : requireSecurePreparation platform = .error e) : e.Plain := by
  unfold requireSecurePreparation Except.raiseIf at h
  split at h
  · cases h
    exact plain_preparation _ _
  · cases h

theorem securePathParts_plain {path : Text} {context : String} {e : PrepError}
    (h : securePathParts path context = .error e) : e.Plain := by
  refine plain_of_raiseIf (plain_preparation _ _) (fun _ h => ?_) h
  refine plain_of_raiseIf (plain_preparation _ _) (fun _ h => ?_) h
  refine plain_of_raiseIf (plain_preparation _ _) (fun _ h => ?_) h
  cases h

theorem requireSingleRegular_steadily (context : String) (d : ℕ) :
    Steadily (requireSingleRegular env context d) fun _ _ => True := by
  refine Steadily.bind (fstat_steadily d) fun _ _ _ => ?_
  refine Steadily.guard (plain_preparation _ _) fun _ => ?_
  exact Steadily.guard (plain_preparation _ _) fun _ => Steadily.pure trivial

/-- The descriptors of an opened file. -/
def OpenedRegular.descriptors (o : OpenedRegular) : Multiset ℕ :=
  o.fileDescriptor ::ₘ {o.parentDescriptor}

theorem openRegularPath_calmly (path : Text) (context : String) :
    Calmly 0 (openRegularPath env platform path context) OpenedRegular.descriptors 0
      fun _ => True := by
  refine Calmly.bind (Calmly.lift (P := fun _ => True) (fun _ _ => trivial)
    fun _ => requireSecurePreparation_plain) fun _ _ => ?_
  refine Calmly.bind (Calmly.lift (P := fun _ => True) (fun _ _ => trivial)
    fun _ => securePathParts_plain) fun anchored _ => ?_
  refine Calmly.bind (openDirectoryParts_calmly _ _ _) fun parent _ => ?_
  refine Calmly.bind (guarded_calmly (l := [(_, parent)])
    ((fstat_steadily parent).calmly (R := fun _ => True) (fun _ _ _ => trivial) _)
    fun _ => plain_symlinksForbidden) fun parentMetadata _ => ?_
  refine Calmly.bind (openChecked_calmly (l := [(_, parent)]) (P := fun _ _ => True)
    (Calmly.opening fun _ => ⟨rfl, rfl⟩) (fun d => requireSingleRegular_steadily context d)
    fun _ => plain_symlinksForbidden) fun opened _ => ?_
  exact Calmly.pure rfl trivial

theorem openDestinationParent_calmly (path : Text) :
    Calmly 0 (openDestinationParent env platform path) (fun parent => {parent.descriptor}) 0
      fun _ => True := by
  refine Calmly.bind (Calmly.lift (P := fun _ => True) (fun _ _ => trivial)
    fun _ => requireSecurePreparation_plain) fun _ _ => ?_
  refine Calmly.bind (Calmly.lift (P := fun _ => True) (fun _ _ => trivial)
    fun _ => securePathParts_plain) fun anchored _ => ?_
  refine Calmly.bind (openDirectoryParts_calmly _ _ _) fun parent _ => ?_
  refine Calmly.bind (guarded_calmly (l := [(_, parent)])
    ((fstat_steadily parent).calmly (R := fun _ => True) (fun _ _ _ => trivial) _)
    fun _ => plain_asPreparation) fun m _ => ?_
  exact Calmly.pure rfl trivial

theorem destinationExists_steadily (parent : ℕ) (name : Text) :
    Steadily (destinationExists env parent name) fun _ _ => True := by
  refine Steadily.bind (Steadily.ask fun _ => ⟨rfl, rfl⟩) ?_
  rintro reply made rfl
  refine Steadily.lift (fun _ _ => trivial) ?_
  intro e he
  cases reply with
  | ok m => cases he
  | error failure =>
      cases failure with
      | notFound => cases he
      | os errno =>
          cases he
          exact plain_preparation _ _
      | exception name =>
          cases he
          exact plain_system _
      | interrupt name =>
          cases he
          exact plain_system _

theorem requireUnlinked_steadily (d : ℕ) : Steadily (requireUnlinked env d) fun _ _ => True := by
  refine Steadily.bind (fstat_steadily d) fun _ _ _ => ?_
  exact Steadily.raiseIf (plain_preparation _ _) fun _ => trivial

theorem createTemporaryOutput_calmly (parent : ℕ) :
    Calmly 0 (createTemporaryOutput env parent) (fun d => {d}) 0 fun _ => True := by
  refine Calmly.bind (openChecked_calmly (l := []) (P := fun _ _ => True)
    (Calmly.opening fun _ => ⟨rfl, rfl⟩) requireUnlinked_steadily fun _ => plain_asPreparation)
    fun opened _ => ?_
  exact Calmly.pure rfl trivial

end MosaicArchive.Publication
