import MosaicArchive.Effects.DryRun
import MosaicArchive.Restore.Outcome

/-!
Inspecting an archive is restoring it without a destination: a dry run, which makes none of the
calls. So an archive that was restored passes the inspection, with the same contents, and one that
passes it is restored wherever the system does what it is asked.
-/

namespace MosaicArchive.Restore

open CallHistory Routine MosaicArchive.Manifest
open FixedWidth (Bytes)
open Utf8 (Text)

/-- Every call succeeds, the destination is not the archive, and no folder is in its place. -/
structure Calm (env : Environment Call Reply) : Prop where
  succeeds : ∀ h c, ∃ a, env h c = .ok a
  other : ∀ h, env h .sameFile = .ok false
  free : ∀ h, env h .destinationExists = .ok false

section

variable {env : Environment Call Reply} {σ : Type} {destination : String} {job : Job σ}

theorem call_run {c : Call} {a : Answer c} {before : History} (h : env before c = .ok a) :
    call env c before = (.ok a, before ++ [⟨c, .ok a⟩]) := by
  have hrun : call env c before = (env before c, before ++ [⟨c, env before c⟩]) := rfl
  rw [hrun, h]

theorem call_settles {c : Call} {a : Answer c} (h : ∀ before, env before c = .ok a) :
    Settles (call env c) (.ok a) :=
  (Settles.ask h).bind Settles.lift

/-- A call that answers nothing. -/
theorem Calm.settles (hcalm : Calm env) (c : Call) (hunit : Subsingleton (Answer c)) (a : Answer c) :
    Settles (call env c) (.ok a) := by
  apply call_settles
  intro before
  obtain ⟨a', ha'⟩ := hcalm.succeeds before c
  rw [ha', hunit.elim a' a]

theorem Calm.deed (hcalm : Calm env) (deed : TreeDeed Text) :
    Settles (call env (.deed deed) : Run Unit) (.ok ()) :=
  hcalm.settles (.deed deed) (inferInstanceAs (Subsingleton Unit)) ()

theorem deed_dryRun (deed : TreeDeed Text) :
    DryRun (Calm env) (publishing (some destination) (call env (.deed deed)))
      (publishing none (call env (.deed deed))) :=
  DryRun.skip call_returns fun hcalm => hcalm.deed deed

/-! ### One entry -/

theorem applyMetadata_dryRun (i : TreeItem Text) :
    DryRun (Calm env) (publishing (some destination) (applyMetadata env i))
      (publishing none (applyMetadata env i)) :=
  DryRun.skip ((Does.returns applyMetadata_builds).mono fun _ _ _ => trivial) fun hcalm =>
    (hcalm.deed _).bind (hcalm.deed _)

/-- The reader of the job makes no calls. -/
def Job.Pure (job : Job σ) : Prop :=
  ∀ position e i s, ∃ x, job.block position e i s = lift x

theorem Job.Pure.quiet (hpure : job.Pure) : job.Quiet := by
  intro position e i s
  obtain ⟨x, hx⟩ := hpure position e i s
  rw [hx]
  exact Quietly.lift fun _ _ => trivial

theorem Job.Pure.block_dryRun (hpure : job.Pure) (position : ℕ) (e : Entry) (i : ℕ) (s : σ) :
    DryRun (Calm env) (job.block position e i s) (job.block position e i s) := by
  obtain ⟨x, hx⟩ := hpure position e i s
  rw [hx]
  exact DryRun.lift x

theorem writeBlocks_dryRun (hpure : job.Pure) (position : ℕ) (e : Entry) (reader : σ) :
    DryRun (Calm env) (writeBlocks env (some destination) job position e reader)
      (writeBlocks env none job position e reader) :=
  DryRun.forEach (fun (t : List Bytes × σ) i => DryRun.bind (hpure.block_dryRun position e i t.2) fun _ =>
    DryRun.bind (deed_dryRun _) fun _ => DryRun.pure _) _ _

theorem restoreFile_dryRun (hpure : job.Pure) (position : ℕ) (e : Entry) (t : Progress σ) :
    DryRun (Calm env) (restoreFile env (some destination) job position e t)
      (restoreFile env none job position e t) := by
  have hparent : DryRun (Calm env)
      (inFolder job.kind (publishing (some destination)
        (call env (.deed (.mkdirParent (target job.kind e))))))
      (inFolder job.kind (publishing none (call env (.deed (.mkdirParent (target job.kind e)))))) := by
    rw [inFolder, inFolder]
    split
    · exact deed_dryRun _
    · exact DryRun.pure ()
  refine DryRun.bind hparent fun _ => DryRun.bind (deed_dryRun _) fun _ => ?_
  refine DryRun.bind (DryRun.finally' (writeBlocks_dryRun hpure position e t.reader) call_returns
    fun hcalm => hcalm.settles (.close _) (inferInstanceAs (Subsingleton Unit)) ()) fun _ => ?_
  exact DryRun.bind (DryRun.lift _) fun _ => DryRun.bind (applyMetadata_dryRun _) fun _ => DryRun.pure _

theorem restoreEntry_dryRun (hpure : job.Pure) (t : Progress σ) (entry : Entry × ℕ) :
    DryRun (Calm env) (restoreEntry env (some destination) job t entry)
      (restoreEntry env none job t entry) := by
  obtain ⟨e, position⟩ := entry
  simp only [restoreEntry]
  split
  · exact DryRun.bind (deed_dryRun _) fun _ => DryRun.pure _
  · exact restoreFile_dryRun hpure position e t

/-! ### The whole program -/

theorem refuseSameFile_settles (hcalm : Calm env) : Settles (refuseSameFile env) (.ok ()) := by
  have hother : Settles (sameFile env) (.ok false) := call_settles hcalm.other
  exact hother.bind (Settles.raiseIf_neg Bool.false_ne_true)

theorem replaceDestination_settles (hcalm : Calm env) : Settles (replaceDestination env) (.ok ()) :=
  (refuseSameFile_settles hcalm).bind
    (hcalm.settles .replace (inferInstanceAs (Subsingleton Unit)) ())

theorem cleanup_settles (hcalm : Calm env) : Settles (cleanup env) (.ok ()) := by
  refine Settles.bind_any (fun h => ?_) fun there => ?_
  · obtain ⟨there, hthere⟩ := hcalm.succeeds h .rootExists
    exact ⟨there, _, call_run hthere⟩
  · cases there with
    | false => exact Settles.pure
    | true => exact hcalm.settles .removeRoot (inferInstanceAs (Subsingleton Unit)) ()

theorem directories_dryRun :
    DryRun (Calm env) (inFolder job.kind (publishing (some destination) (forEach
        (fun _ e => applyMetadata env (directoryItem job.kind e)) (directoriesByDepth job.entries) ())))
      (inFolder job.kind (publishing none (forEach
        (fun _ e => applyMetadata env (directoryItem job.kind e)) (directoriesByDepth job.entries) ()))) := by
  rw [inFolder, inFolder]
  split
  · refine DryRun.skip ((Does.returns directories_builds).mono fun _ _ _ => trivial) fun hcalm => ?_
    induction directoriesByDepth job.entries with
    | nil => exact Settles.pure
    | cons e entries ih => exact ((hcalm.deed _).bind (hcalm.deed _)).bind ih
  · exact DryRun.pure ()

theorem restoreAll_dryRun (hpure : job.Pure) (reader : σ) :
    DryRun (Calm env) (restoreAll env (some destination) job reader)
      (restoreAll env none job reader) := by
  refine DryRun.bind (DryRun.forEach (restoreEntry_dryRun hpure) _ _) fun t => ?_
  refine DryRun.bind (DryRun.lift _) fun _ => DryRun.bind directories_dryRun fun _ => ?_
  refine DryRun.bind (DryRun.skip ((Does.returns replaceDestination_traces).mono fun _ _ _ => trivial)
    replaceDestination_settles) fun _ => DryRun.pure t

/-- The program without a destination is a dry run of the program with one. -/
theorem restore_dryRun (hpure : job.Pure) {prepare : Run Unit} (hprepare : Prepares prepare)
    (hcalm : Calm env → Settles prepare (.ok ())) (reader : σ) :
    DryRun (Calm env) (restore env (some destination) job prepare reader)
      (restore env none job prepare reader) := by
  refine DryRun.bind (DryRun.skip ((Does.returns hprepare).mono fun _ _ _ => trivial) hcalm) fun _ => ?_
  exact DryRun.onError (restoreAll_dryRun hpure reader)
    ((Does.returns cleanup_traces).mono fun _ _ _ => trivial) cleanup_settles Settles.pure

end

end MosaicArchive.Restore
