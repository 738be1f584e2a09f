import MosaicArchive.Publication.Reopen

/-!
The functions that open files account for every descriptor: what they open and do not return
they close once, and the exception holds every failure to close.
-/

namespace MosaicArchive.Publication

open Utf8 (Text)
open CallHistory Resources
open Routine (raise raiseIf lift attempt)

/-! ### Events of the larger system -/

def snapshotEffect (e : SnapshotEvent) : Effect ℕ :=
  match e with
  | ⟨.inl c, reply⟩ => descriptorEffect ⟨c, reply⟩
  | ⟨.inr .createSnapshot, reply⟩ => opened reply
  | ⟨.inr (.addSeals _), _⟩ => .neutral
  | ⟨.inr (.getSeals _), _⟩ => .neutral

def snapshotFault (e : SnapshotEvent) : Option SystemError :=
  match e with
  | ⟨.inl c, reply⟩ => closeFault ⟨c, reply⟩
  | ⟨.inr _, _⟩ => none

/-- The failures to close, in their order. -/
def snapshotFaults (made : SnapshotHistory) : List SystemError := made.filterMap snapshotFault

@[simp] theorem snapshotFaults_append (made later : SnapshotHistory) :
    snapshotFaults (made ++ later) = snapshotFaults made ++ snapshotFaults later :=
  List.filterMap_append

theorem snapshotFaults_lifted (made : History) :
    snapshotFaults (lifted made) = closeFaults made :=
  filterMap_lifted (fun _ => rfl) made

theorem snapshot_settles {held left : Multiset ℕ} {made : History}
    (h : Settles descriptorEffect held made left) : Settles snapshotEffect held (lifted made) left :=
  settles_lifted (fun _ => rfl) h

/-- From `held` to `left`, and these failures to close. -/
structure Accounts (held : Multiset ℕ) (made : SnapshotHistory) (left : Multiset ℕ)
    (faults : List SystemError) : Prop where
  settles : Settles snapshotEffect held made left
  faults : snapshotFaults made = faults

theorem Accounts.append {held middle left : Multiset ℕ} {made later : SnapshotHistory}
    {faults more : List SystemError} (h : Accounts held made middle faults)
    (h' : Accounts middle later left more) : Accounts held (made ++ later) left (faults ++ more) :=
  ⟨h.settles.append h'.settles, by rw [snapshotFaults_append, h.faults, h'.faults]⟩

theorem accounts_nil (held : Multiset ℕ) : Accounts held [] held [] := ⟨rfl, rfl⟩

theorem Accounts.frame {held left : Multiset ℕ} {made : SnapshotHistory} {faults : List SystemError}
    (h : Accounts held made left faults) (others : Multiset ℕ) :
    Accounts (held + others) made (left + others) faults :=
  ⟨h.settles.frame others, h.faults⟩

theorem Accounts.lifted {held left : Multiset ℕ} {made : History} {faults : List SystemError}
    (h : Settles descriptorEffect held made left) (hfaults : closeFaults made = faults) :
    Accounts held (lifted made) left faults :=
  ⟨snapshot_settles h, (snapshotFaults_lifted made).trans hfaults⟩

/-! ### The judgment -/

/-- The end of an exception: these descriptors are left, and it holds every failure to close. -/
def Failed (held failed : Multiset ℕ) (e : PrepError) (made : SnapshotHistory) : Prop :=
  ∃ faults, Accounts held made failed faults ∧ ∀ f ∈ faults, e.Carries f

/-- From `held` to `left` without a failure to close, or to `failed` with an exception that holds
all of them. -/
def Keeps {α : Type} (held : Multiset ℕ) (p : SnapshotRun α) (left : α → Multiset ℕ)
    (failed : Multiset ℕ) : Prop :=
  Does p (fun a made => Accounts held made (left a) []) fun e made => Failed held failed e made

theorem Failed.after {held middle failed : Multiset ℕ} {e : PrepError} {made later : SnapshotHistory}
    (h : Accounts held made middle []) (h' : Failed middle failed e later) :
    Failed held failed e (made ++ later) := by
  obtain ⟨faults, hlater, hreports⟩ := h'
  exact ⟨faults, h.append hlater, hreports⟩

namespace Keeps

variable {α β : Type} {p : SnapshotRun α} {f : α → SnapshotRun β} {held failed : Multiset ℕ}
  {left : α → Multiset ℕ} {left' : β → Multiset ℕ}

theorem pure {a : α} (h : left a = held) : Keeps held (Pure.pure a) left failed :=
  Does.pure (h ▸ accounts_nil held)

theorem lift {x : Except PrepError α} : Keeps held (Routine.lift x) (fun _ => held) held :=
  Does.lift (fun _ _ => accounts_nil held) fun _ _ => ⟨[], accounts_nil held, nofun⟩

theorem raiseIf {c : Prop} [Decidable c] {e : PrepError} :
    Keeps held (Routine.raiseIf c e) (fun _ => held) held :=
  Does.raiseIf (fun _ => ⟨[], accounts_nil held, nofun⟩) fun _ => accounts_nil held

theorem bind (hp : Keeps held p left failed) (hf : ∀ a, Keeps (left a) (f a) left' failed) :
    Keeps held (p >>= f) left' failed := by
  refine Does.bind hp ?_ fun _ _ h => h
  intro a made hmade
  exact Does.mono (hf a) (fun b later hlater => hmade.append hlater) fun e later hlater =>
    hlater.after hmade

/-- What else is held stays held. -/
theorem frame (hp : Keeps held p left failed) (others : Multiset ℕ) :
    Keeps (held + others) p (fun a => left a + others) (failed + others) := by
  refine Does.mono hp (fun a made hmade => hmade.frame others) ?_
  rintro e made ⟨faults, hmade, hreports⟩
  exact ⟨faults, hmade.frame others, hreports⟩

theorem mapError {g : PrepError → PrepError} (hp : Keeps held p left failed)
    (hg : ∀ (e : PrepError) f, e.Carries f → (g e).Carries f) :
    Keeps held (Routine.mapError g p) left failed := by
  refine Does.mapError (Does.mono hp (fun _ _ h => h) ?_)
  rintro e made ⟨faults, hmade, hreports⟩
  exact ⟨faults, hmade, fun f hf => hg e f (hreports f hf)⟩

/-- An operation of the smaller system. -/
theorem embed {env : SnapshotEnvironment} {p : Environment Call Reply → Run α} {P : α → Prop}
    (hcalm : ∀ env, Calmly held (p env) left failed P) (hreporting : ∀ env, Reporting (p env)) :
    Keeps held (embed env p) left failed := by
  refine Does.mono (Does.embed fun env => Does.and (hcalm env) (hreporting env)) ?_ ?_
  · rintro a made ⟨inside, rfl, ⟨hcalm, -⟩, hfaults⟩
    exact Accounts.lifted hcalm.settles hfaults
  · rintro e made ⟨inside, rfl, ⟨hcalm, -⟩, hreports⟩
    exact ⟨_, Accounts.lifted hcalm.settles rfl, hreports⟩

theorem steadily {env : SnapshotEnvironment} {p : Environment Call Reply → Run α}
    {P : α → History → Prop} (hp : ∀ env, Steadily (p env) P) :
    Keeps held (CallHistory.embed env p) (fun _ => held) held :=
  embed (fun env => (hp env).calmly (R := fun _ => True) (fun _ _ _ => trivial) held)
    fun env => Reporting.of_steadily (hp env)

/-- A call of the larger system that closes nothing. -/
theorem call {env : SnapshotEnvironment} {c : SnapshotCall}
    {g : SnapshotReply c → Except PrepError α}
    (hgoes : ∀ r a, g r = .ok a → Settles snapshotEffect held [⟨.inr c, r⟩] (left a))
    (hfails : ∀ r e, g r = .error e → Settles snapshotEffect held [⟨.inr c, r⟩] failed) :
    Keeps held (do let reply ← ask env (.inr c); Routine.lift (g reply)) left failed := by
  refine Does.bind (Does.ask (Q := fun r made => made = [⟨.inr c, r⟩]) (E := fun _ _ => False)
    fun _ => rfl) ?_ fun _ _ h => h.elim
  rintro r made rfl
  refine Does.lift (fun a ha => ?_) fun e he => ?_
  · exact ⟨hgoes r a ha, rfl⟩
  · exact ⟨[], ⟨hfails r e he, rfl⟩, nofun⟩

end Keeps

/-! ### Cleanup -/

section

variable {env : SnapshotEnvironment} {state : PublicationState}
  {prepared : Option PreparedLocalCorpus} {context : String}

theorem embed_closeDescriptors (l : List (String × ℕ)) :
    Does (embed env fun env => closeDescriptors env l)
      (fun failures made => Accounts (heldBy l) made 0 (failures.map Prod.snd)) fun _ _ => False := by
  refine Does.mono (Does.embed fun env =>
    Does.and (closeDescriptors_does env l) (closeDescriptors_faults env l)) ?_ ?_
  · rintro failures made ⟨inside, rfl, hcalm, hfaults⟩
    exact Accounts.lifted hcalm.settles hfaults
  · rintro e made ⟨inside, -, h, -⟩
    exact h

/-- The descriptors are closed, and what is raised holds the failures of that, those that came
before and what the first error held. -/
theorem abandonSnapshot_does {α : Type} {x : Option PrepError} {l : List (String × ℕ)}
    {b : List (String × SystemError)} {F : List SystemError}
    (hF : ∀ f ∈ F, f ∈ b.map Prod.snd ∨ ∃ p ∈ x, p.Carries f) (hne : x = none → b ≠ []) :
    Does (abandonSnapshot env context x b l state prepared : SnapshotRun α) (fun _ _ => False)
      fun e made => ∃ faults, Accounts (heldBy l) made 0 faults ∧ ∀ f ∈ F ++ faults, e.Carries f := by
  refine Does.bind (embed_closeDescriptors l) ?_ fun _ _ h => h.elim
  intro failures made hmade
  refine Does.bind (Does.lift (Q := fun _ _ => False) ?_ (E := fun e later => later = [] ∧
    raiseOperationOrCleanup context x (b ++ failures) .corpus state prepared = .error e)
    fun e he => ⟨rfl, he⟩) (fun _ _ h => h.elim) ?_
  · intro u hu
    refine raiseOperationOrCleanup_ne_ok (fun hx happend => ?_) u hu
    exact hne hx (List.append_eq_nil_iff.mp happend).1
  · rintro e later ⟨rfl, he⟩
    refine ⟨failures.map Prod.snd, by rwa [List.append_nil], fun f hf => ?_⟩
    refine reports_raiseOperationOrCleanup he ?_
    rw [List.map_append, List.mem_append]
    rcases List.mem_append.mp hf with hf | hf
    · rcases hF f hf with hbefore | hprimary
      · exact Or.inl (Or.inl hbefore)
      · exact Or.inr hprimary
    · exact Or.inl (Or.inr hf)

namespace Keeps

theorem guarded {α : Type} {p : SnapshotRun α} {onFailure : PrepError → PrepError}
    {l : List (String × ℕ)} {left : α → Multiset ℕ} (hp : Keeps (heldBy l) p left (heldBy l))
    (honFailure : ∀ (e : PrepError) f, e.Carries f → (onFailure e).Carries f) :
    Keeps (heldBy l) (guardedSnapshot env p onFailure context l state prepared) left 0 := by
  refine Does.bind (Does.attempt hp) (E := fun _ _ => False) ?_ fun _ _ h => h.elim
  intro outcome made hmade
  cases outcome with
  | ok a =>
      refine Does.pure ?_
      rw [List.append_nil]
      exact hmade
  | error e =>
      obtain ⟨faults, hfaults, hreports⟩ := hmade
      refine Does.mono (abandonSnapshot_does (b := []) (x := some (onFailure e)) (F := faults)
        (fun f hf => ?_) nofun) (fun _ _ h => h.elim) ?_
      · exact Or.inr ⟨_, rfl, honFailure e f (hreports f hf)⟩
      · rintro e' later ⟨more, hmore, hreports'⟩
        exact ⟨faults ++ more, hfaults.append hmore, hreports'⟩

end Keeps

end

/-! ### Snapshots -/

section

variable {env : SnapshotEnvironment} {snapshots : SnapshotPlatform} {platform : Platform}

theorem reports_asPreparation' {message : String} :
    ∀ (e : PrepError) f, e.Carries f → (asPreparation message e).Carries f :=
  fun _ _ => reports_asPreparation

theorem createSnapshot_keeps (held : Multiset ℕ) :
    Keeps held (createSnapshot env snapshots) (fun d => d ::ₘ held) held := by
  refine Keeps.bind Keeps.lift fun _ => ?_
  refine Keeps.call (c := .createSnapshot) (g := Except.mapError .system) ?_ ?_
  · rintro (e | d) a ha
    · cases ha
    · cases ha
      have heffect : snapshotEffect ⟨.inr .createSnapshot, .ok d⟩ = .acquires d := rfl
      exact (settles_acquire heffect).mpr rfl
  · rintro (e | d) e' he
    · exact (settles_neutral rfl).mpr rfl
    · cases he

theorem createSnapshotFd_keeps :
    Keeps 0 (createSnapshotFd env snapshots) (fun d => {d}) 0 := by
  refine Keeps.bind (Keeps.guarded (l := []) (createSnapshot_keeps _) reports_asPreparation')
    fun d => ?_
  refine Keeps.bind (Keeps.guarded (l := [("sealed snapshot", d)]) ?_ reports_asPreparation')
    fun _ => Keeps.pure rfl
  exact Keeps.bind (Keeps.steadily fun env => fstat_steadily d) fun _ => Keeps.raiseIf

theorem getSeals_keeps (held : Multiset ℕ) (d : ℕ) :
    Keeps held (getSeals env snapshots d) (fun _ => held) held := by
  refine Keeps.bind Keeps.lift fun _ => ?_
  exact Keeps.call (c := .getSeals d) (g := Except.mapError .system)
    (fun _ _ _ => (settles_neutral rfl).mpr rfl) fun _ _ _ => (settles_neutral rfl).mpr rfl

theorem addSeals_keeps (held : Multiset ℕ) (d : ℕ) :
    Keeps held (addSeals env snapshots d) (fun _ => held) held := by
  refine Keeps.bind Keeps.lift fun _ => ?_
  exact Keeps.call (c := .addSeals d) (g := Except.mapError .system)
    (fun _ _ _ => (settles_neutral rfl).mpr rfl) fun _ _ _ => (settles_neutral rfl).mpr rfl

theorem verifySnapshotSeals_keeps (held : Multiset ℕ) (d : ℕ) :
    Keeps held (verifySnapshotSeals env snapshots d) (fun _ => held) held := by
  refine Keeps.bind Keeps.lift fun _ => ?_
  exact Keeps.bind ((getSeals_keeps held d).mapError reports_asPreparation') fun _ => Keeps.raiseIf

theorem sealSnapshotFd_keeps (held : Multiset ℕ) (d : ℕ) :
    Keeps held (sealSnapshotFd env snapshots d) (fun _ => held) held := by
  refine Keeps.mapError ?_ reports_asPreparation'
  refine Keeps.bind Keeps.lift fun _ => ?_
  exact Keeps.bind (addSeals_keeps held d) fun _ => verifySnapshotSeals_keeps held d

/-! ### Reopening -/

theorem fillSnapshot_keeps (held : Multiset ℕ) (o : OpenedRegular) (snapshot expectedBytes : ℕ)
    (expectedSha256 : Text) (context : String) :
    Keeps held (fillSnapshot env snapshots o snapshot expectedBytes expectedSha256 context)
      (fun _ => held) held := by
  refine Keeps.bind (Keeps.steadily fun env => copySourceToFd_steadily _ _ _) fun copied => ?_
  refine Keeps.bind (Keeps.steadily fun env => fstat_steadily _) fun after => ?_
  refine Keeps.bind Keeps.raiseIf fun _ => Keeps.bind Keeps.raiseIf fun _ => ?_
  refine Keeps.bind (Keeps.steadily fun env => fstat_steadily _) fun snapshotMetadata => ?_
  refine Keeps.bind Keeps.raiseIf fun _ => Keeps.bind (sealSnapshotFd_keeps held _) fun _ => ?_
  refine Keeps.bind (Keeps.steadily fun env => fstat_steadily _) fun sealedMetadata => ?_
  refine Keeps.bind (Keeps.steadily fun env => hashFdExact_steadily _ _) fun hashed => ?_
  refine Keeps.bind (Keeps.steadily fun env => fstat_steadily _) fun finalMetadata => ?_
  refine Keeps.bind (verifySnapshotSeals_keeps held _) fun _ => ?_
  refine Keeps.bind Keeps.raiseIf fun _ => Keeps.bind Keeps.raiseIf fun _ => ?_
  exact Keeps.steadily fun env => rewind_steadily _

/-- The end of a reopening: the originals are closed, and the snapshot too if one of them cannot
be. -/
theorem release_keeps {context role : String} {l : List (String × ℕ)} {snapshot : ℕ}
    {state : PublicationState} {prepared : Option PreparedLocalCorpus} :
    Keeps (snapshot ::ₘ heldBy l) (do
      let failures ← embed env fun env => closeDescriptors env l
      if failures = [] then pure snapshot
      else abandonSnapshot env context none failures [(role, snapshot)] state prepared)
      (fun d => {d}) 0 := by
  refine Does.bind (embed_closeDescriptors l) ?_ fun _ _ h => h.elim
  intro failures made hmade
  have hclosed := hmade.frame {snapshot}
  rw [add_comm, Multiset.singleton_add, zero_add] at hclosed
  split
  · rename_i hnone
    subst hnone
    refine Does.pure ?_
    rw [List.append_nil]
    exact hclosed
  · rename_i hsome
    refine Does.mono (abandonSnapshot_does (b := failures) (x := none) (F := failures.map Prod.snd)
      (fun f hf => Or.inl hf) fun _ => hsome) (fun _ _ h => h.elim) ?_
    rintro e later ⟨more, hmore, hreports⟩
    exact ⟨failures.map Prod.snd ++ more, hclosed.append hmore, hreports⟩

theorem reopenBoundLocalFile_keeps (displayPath : Text) (identity : LocalFileIdentity)
    (expectedBytes : ℕ) (expectedSha256 : Text) (context : String) (state : PublicationState)
    (prepared : Option PreparedLocalCorpus) :
    Keeps 0 (reopenBoundLocalFile env platform snapshots displayPath identity expectedBytes
      expectedSha256 context state prepared) (fun d => {d}) 0 := by
  refine Keeps.bind (Keeps.guarded (l := []) Keeps.raiseIf reports_asPreparation') fun _ => ?_
  refine Keeps.bind (Keeps.guarded (l := []) (Keeps.embed
    (fun env => openRegularPath_calmly displayPath context)
    fun env => Reporting.openRegularPath displayPath context) reports_asPreparation') fun o => ?_
  have horiginals : o.descriptors = heldBy [(context, o.fileDescriptor),
    (context ++ " parent", o.parentDescriptor)] := rfl
  rw [horiginals]
  refine Keeps.bind (Keeps.guarded Keeps.lift reports_asPreparation') fun _ => ?_
  have hsnapshot (l : List (String × ℕ)) : Keeps (heldBy l) (createSnapshotFd env snapshots)
      (fun d => d ::ₘ heldBy l) (heldBy l) := by
    have hframe := (@createSnapshotFd_keeps env snapshots).frame (heldBy l)
    simpa only [zero_add, Multiset.singleton_add] using hframe
  refine Keeps.bind (Keeps.guarded (hsnapshot _) reports_asPreparation') fun snapshot => ?_
  refine Keeps.bind (Keeps.guarded (l := _ :: _) (fillSnapshot_keeps _ _ _ _ _ _)
    reports_asPreparation') fun _ => ?_
  exact release_keeps

end

/-! ### The functions that open -/

/-- Whatever happened before, the function returns with the descriptors of its result open and
closed every other it opened, none of them with a failure; or it raises, has closed every
descriptor it opened, and the exception holds every failure to close. A close is of a descriptor
that is open, so none is closed twice. -/
def Conserves {C : Type} {R : C → Type} {α : Type} (effect : (Σ c : C, R c) → Effect ℕ)
    (fault : (Σ c : C, R c) → Option SystemError) (p : Routine (CallHistory C R) PrepError α)
    (kept : α → Multiset ℕ) : Prop :=
  Does p (fun a made => Settles effect 0 made (kept a) ∧ made.filterMap fault = [])
    fun e made => Settles effect 0 made 0 ∧ ∀ f ∈ made.filterMap fault, e.Carries f

theorem conserves_of {env : Environment Call Reply} {α : Type} {p : Environment Call Reply → Run α}
    {kept : α → Multiset ℕ} {P : α → Prop} (hcalm : Calmly 0 (p env) kept 0 P)
    (hreporting : Reporting (p env)) : Conserves descriptorEffect closeFault (p env) kept := by
  refine Does.mono (Does.and hcalm hreporting) ?_ ?_
  · rintro a made ⟨⟨hcalm, -⟩, hfaults⟩
    exact ⟨hcalm.settles, hfaults⟩
  · rintro e made ⟨⟨hcalm, -⟩, hreports⟩
    exact ⟨hcalm.settles, hreports⟩

/-- Whatever the system answers, the functions that open account for every descriptor. -/
theorem preparation_conserves_descriptors (env : Environment Call Reply)
    (snapshotEnv : SnapshotEnvironment) (platform : Platform) (snapshots : SnapshotPlatform)
    (anchor : Text) (parts : List Text) (path : Text) (context : String) (parent : ℕ)
    (identity : LocalFileIdentity) (expectedBytes : ℕ) (expectedSha256 : Text)
    (state : PublicationState) (prepared : Option PreparedLocalCorpus) :
    Conserves descriptorEffect closeFault (openDirectoryParts env anchor parts context)
      (fun d => {d}) ∧
    Conserves descriptorEffect closeFault (openRegularPath env platform path context)
      (fun o => o.fileDescriptor ::ₘ {o.parentDescriptor}) ∧
    Conserves snapshotEffect snapshotFault
      (reopenBoundLocalFile snapshotEnv platform snapshots path identity expectedBytes expectedSha256
        context state prepared) (fun d => {d}) ∧
    Conserves descriptorEffect closeFault (createTemporaryOutput env parent) (fun d => {d}) := by
  refine ⟨?_, ?_, ?_, ?_⟩
  · exact conserves_of (p := fun env => openDirectoryParts env anchor parts context)
      (openDirectoryParts_calmly anchor parts context)
      (Reporting.openDirectoryParts anchor parts context)
  · exact conserves_of (p := fun env => openRegularPath env platform path context)
      (openRegularPath_calmly path context) (Reporting.openRegularPath path context)
  · refine Does.mono (reopenBoundLocalFile_keeps path identity expectedBytes expectedSha256 context
      state prepared) ?_ ?_
    · rintro d made hmade
      exact ⟨hmade.settles, hmade.faults⟩
    · rintro e made ⟨faults, hmade, hreports⟩
      refine ⟨hmade.settles, fun f hf => hreports f ?_⟩
      rw [← hmade.faults]
      exact hf
  · exact conserves_of (p := fun env => createTemporaryOutput env parent)
      (createTemporaryOutput_calmly parent) (Reporting.createTemporaryOutput parent)

end MosaicArchive.Publication
