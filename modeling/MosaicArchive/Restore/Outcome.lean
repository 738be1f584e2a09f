import MosaicArchive.Restore.Program

/-!
What restoring an archive amounts to, whatever the system answers. When it returns, every file has
been written and verified below the temporary root, the metadata are set, and the last deed is the
replacement of the destination. When it raises, the destination was not replaced, and the last deed
is the attempt to remove the temporary root, if there was one.
-/

namespace MosaicArchive.Restore

open CallHistory Routine MosaicArchive.Manifest
open FixedWidth (Bytes)
open Utf8 (Text)

inductive Deed where
  | rootMade
  | tree (deed : TreeDeed Text)
  | published
  /-- Whether the temporary root was there; `none` where that could not be found out. -/
  | looked (there : Option Bool)
  | removal (done : Bool)
  /-- The temporary directory of the chunks could not be removed. -/
  | cacheLeft
  deriving DecidableEq

def deedsOf : (Σ c : Call, Reply c) → List Deed
  | ⟨.makeRoot, .ok _⟩ => [.rootMade]
  | ⟨.deed deed, .ok _⟩ => [.tree deed]
  | ⟨.replace, .ok _⟩ => [.published]
  | ⟨.rootExists, .ok there⟩ => [.looked (some there)]
  | ⟨.rootExists, .error _⟩ => [.looked none]
  | ⟨.removeRoot, .ok _⟩ => [.removal true]
  | ⟨.removeRoot, .error _⟩ => [.removal false]
  | ⟨.removeCache, .error _⟩ => [.cacheLeft]
  | _ => []

theorem call_traces {env : Environment Call Reply} {c : Call} {Q : Answer c → List Deed → Prop}
    {E : PyError → List Deed → Prop} (hok : ∀ a, Q a (deedsOf ⟨c, .ok a⟩))
    (herror : ∀ e, E e (deedsOf ⟨c, .error e⟩)) : Traces deedsOf (call env c) Q E := by
  refine Traces.bind (Q := fun reply t => t = deedsOf ⟨c, reply⟩) (E := E)
    (Traces.ask fun reply => rfl) ?_ fun _ _ h => h
  rintro reply t rfl
  apply Traces.lift
  · rintro a rfl
    rw [List.append_nil]
    exact hok a
  · rintro e rfl
    rw [List.append_nil]
    exact herror e

theorem call_quietly {env : Environment Call Reply} {c : Call} (h : ∀ reply, deedsOf ⟨c, reply⟩ = []) :
    Quietly deedsOf (call env c) fun _ => True :=
  call_traces (fun _ => ⟨h _, trivial⟩) fun _ => h _

theorem call_returns {env : Environment Call Reply} {c : Call} :
    Returns (call env c) fun _ _ => True :=
  Returns.bind_ask fun _ => Returns.lift fun _ _ => trivial

theorem publishing_returns {destination : Option String} {p : Run Unit}
    (hp : destination.isSome = true → Returns p fun _ _ => True) :
    Returns (publishing destination p) fun _ _ => True := by
  rw [publishing]
  split
  · exact hp ‹_›
  · exact Returns.pure trivial

/-! ### Programs that only build -/

/-- The program builds, and when it returns, its result and what it has built are in `Q`. -/
def Builds {α : Type} (p : Run α) (Q : α → List (TreeDeed Text) → Prop) : Prop :=
  Traces deedsOf p (fun a t => ∃ built, t = built.map Deed.tree ∧ Q a built)
    fun _ t => ∃ built : List (TreeDeed Text), t = built.map Deed.tree

namespace Builds

variable {α β : Type} {p : Run α} {f : α → Run β} {Q Q' : α → List (TreeDeed Text) → Prop}
  {R : β → List (TreeDeed Text) → Prop}

theorem mono (hp : Builds p Q) (h : ∀ a built, Q a built → Q' a built) : Builds p Q' := by
  refine Traces.mono hp ?_ fun _ _ h => h
  rintro a t ⟨built, ht, ha⟩
  exact ⟨built, ht, h a built ha⟩

theorem pure {a : α} (h : Q a []) : Builds (Pure.pure a) Q := Traces.pure ⟨[], rfl, h⟩

theorem quietly {Q' : α → Prop} (hp : Quietly deedsOf p Q') (h : ∀ a, Q' a → Q a []) : Builds p Q := by
  refine Traces.mono hp ?_ ?_
  · rintro a t ⟨rfl, ha⟩
    exact ⟨[], rfl, h a ha⟩
  · rintro e t rfl
    exact ⟨[], rfl⟩

theorem lift {x : Except PyError α} (h : ∀ a, x = .ok a → Q a []) : Builds (Routine.lift x) Q :=
  quietly (Quietly.lift h) fun _ h => h

theorem deed {env : Environment Call Reply} {deed : TreeDeed Text}
    {Q : Unit → List (TreeDeed Text) → Prop} (h : Q () [deed]) :
    Builds (call env (.deed deed) : Run Unit) Q :=
  call_traces (fun _ => ⟨[deed], rfl, h⟩) fun _ => ⟨[], rfl⟩

theorem inFolder {kind : ℕ} {p : Run Unit} {Q : Unit → List (TreeDeed Text) → Prop}
    (hp : kind = kindFolder → Builds p Q) (h : kind ≠ kindFolder → Q () []) :
    Builds (inFolder kind p) Q := by
  rw [Restore.inFolder]
  split
  · exact hp ‹_›
  · exact pure (h ‹_›)

theorem bind (hp : Builds p Q)
    (hf : ∀ a built, Q a built → Builds (f a) fun b later => R b (built ++ later)) :
    Builds (p >>= f) R := by
  refine Traces.bind hp ?_ fun _ _ h => h
  rintro a t ⟨built, rfl, ha⟩
  refine Traces.mono (hf a built ha) ?_ ?_
  · rintro b t ⟨later, rfl, hb⟩
    exact ⟨built ++ later, (List.map_append ..).symm, hb⟩
  · rintro e t ⟨later, rfl⟩
    exact ⟨built ++ later, (List.map_append ..).symm⟩

theorem finally' {clean : Run Unit} (hp : Builds p Q) (hclean : Quietly deedsOf clean fun _ => True) :
    Builds (Routine.finally' p clean) Q := by
  refine Traces.finally' hp (Traces.mono hclean (fun _ _ h => h.1) fun _ _ h => h) ?_ fun _ _ _ h => h
  rintro a e t ⟨built, ht, -⟩
  exact ⟨built, ht⟩

/-- A loop, with what holds of the elements it has done and of what was built for them. -/
theorem forEach {τ : Type} {body : τ → α → Run τ} {I : List α → τ → List (TreeDeed Text) → Prop}
    (hbody : ∀ done t a built, I done t built →
      Builds (body t a) fun t' later => I (done ++ [a]) t' (built ++ later))
    {done todo : List α} {t : τ} {built : List (TreeDeed Text)} (h : I done t built) :
    Builds (Routine.forEach body todo t) fun t' later => I (done ++ todo) t' (built ++ later) := by
  induction todo generalizing done t built with
  | nil =>
      refine pure ?_
      rwa [List.append_nil, List.append_nil]
  | cons a todo ih =>
      refine bind (hbody done t a built h) fun t' later ht' => ?_
      refine mono (ih ht') fun t'' last ht'' => ?_
      rwa [List.append_assoc, List.append_assoc, List.singleton_append] at ht''

/-- The whole loop. -/
theorem loop {τ : Type} {body : τ → α → Run τ} {I : List α → τ → List (TreeDeed Text) → Prop}
    (hbody : ∀ done t a built, I done t built →
      Builds (body t a) fun t' later => I (done ++ [a]) t' (built ++ later))
    {as : List α} {t : τ} (h : I [] t []) : Builds (Routine.forEach body as t) (I as) := by
  have hall : Builds (Routine.forEach body as t) fun t' later => I ([] ++ as) t' ([] ++ later) :=
    forEach hbody h
  simpa only [List.nil_append] using hall

end Builds

/-! ### One entry -/

/-- The reader of the job only reads. -/
def Job.Quiet {σ : Type} (job : Job σ) : Prop :=
  ∀ position e i s, Quietly deedsOf (job.block position e i s) fun _ => True

/-- The item is what the entry says, and a file has passed its check. -/
def Restores {σ : Type} (job : Job σ) (e : Entry) (i : TreeItem Text) : Prop :=
  if e.entryType = entryDirectory then i = directoryItem job.kind e
  else ∃ blocks, i = fileItem job.kind e blocks ∧ job.verify e blocks.flatten = .ok ()

/-- What is built for an item. -/
def itemDeeds (kind : ℕ) (i : TreeItem Text) : List (TreeDeed Text) :=
  match i.blocks with
  | none => [.mkdir i.path]
  | some blocks => (if kind = kindFolder then [.mkdirParent i.path] else []) ++ i.fill blocks

/-- The metadata of the directories. -/
def lastDeeds (kind : ℕ) (entries : List Entry) : List (TreeDeed Text) :=
  if kind = kindFolder then
    (directoriesByDepth entries).flatMap fun e => (directoryItem kind e).setMetadata
  else []

section

variable {env : Environment Call Reply} {σ : Type} {destination : String} {job : Job σ}

theorem applyMetadata_builds {i : TreeItem Text} :
    Builds (applyMetadata env i) fun _ built => built = i.setMetadata :=
  Builds.bind (Q := fun _ built => built = [.chmod i.path i.mode]) (Builds.deed rfl)
    fun _ _ hbuilt => Builds.deed (by rw [hbuilt]; rfl)

theorem writeBlocks_builds (hquiet : job.Quiet) {position : ℕ} {e : Entry} {reader : σ} :
    Builds (writeBlocks env (some destination) job position e reader)
      fun t built => built = t.1.map (.write (target job.kind e)) := by
  have hbody : ∀ (done : List ℕ) (t : List Bytes × σ) (i : ℕ) (built : List (TreeDeed Text)),
      built = t.1.map (.write (target job.kind e)) →
      Builds (writeBlock env (some destination) job position e t i)
        fun t' later => built ++ later = t'.1.map (.write (target job.kind e)) := by
    intro done t i built hbuilt
    refine Builds.bind (Builds.quietly (hquiet position e i t.2) (Q := fun _ built => built = [])
      fun _ _ => rfl) ?_
    rintro ⟨block, reader⟩ _ rfl
    refine Builds.bind (Q := fun _ built => built = [.write (target job.kind e) block])
      (Builds.deed rfl) ?_
    rintro _ _ rfl
    refine Builds.pure ?_
    rw [hbuilt, List.map_append]
    rfl
  exact Builds.loop (I := fun _ (t : List Bytes × σ) built =>
    built = t.1.map (.write (target job.kind e))) hbody rfl

theorem restoreFile_builds (hquiet : job.Quiet) {position : ℕ} {e : Entry} {t : Progress σ} :
    Builds (restoreFile env (some destination) job position e t) fun t' built =>
      ∃ blocks, t'.items = t.items ++ [fileItem job.kind e blocks] ∧
        job.verify e blocks.flatten = .ok () ∧
        built = itemDeeds job.kind (fileItem job.kind e blocks) := by
  refine Builds.bind (Q := fun _ built => built =
    if job.kind = kindFolder then [.mkdirParent (target job.kind e)] else [])
    (Builds.inFolder (fun hfolder => Builds.deed (if_pos hfolder).symm)
      fun hfolder => (if_neg hfolder).symm) fun _ _ hfirst => ?_
  refine Builds.bind (Q := fun _ built => built = [.openWrite (target job.kind e)])
    (Builds.deed rfl) fun _ _ hopen => ?_
  refine Builds.bind (Builds.finally' (writeBlocks_builds hquiet) (call_quietly fun _ => rfl)) ?_
  rintro ⟨blocks, reader⟩ _ hwritten
  refine Builds.bind (Q := fun _ built => built = [] ∧ job.verify e blocks.flatten = .ok ())
    (Builds.lift fun _ hverify => ⟨rfl, hverify⟩) ?_
  rintro _ _ ⟨rfl, hverify⟩
  refine Builds.bind applyMetadata_builds fun _ _ hmetadata => ?_
  refine Builds.pure ⟨blocks, rfl, hverify, ?_⟩
  rw [hfirst, hopen, hwritten, hmetadata]
  simp [itemDeeds, fileItem, TreeItem.fill, TreeItem.setMetadata]

theorem restoreEntry_builds (hquiet : job.Quiet) {entry : Entry × ℕ} {t : Progress σ} :
    Builds (restoreEntry env (some destination) job t entry) fun t' built =>
      ∃ i, t'.items = t.items ++ [i] ∧ Restores job entry.1 i ∧ built = itemDeeds job.kind i := by
  obtain ⟨e, position⟩ := entry
  rw [restoreEntry]
  dsimp only
  split
  · rename_i hdirectory
    refine Builds.bind (Q := fun _ built => built = [.mkdir (target job.kind e)]) (Builds.deed rfl) ?_
    rintro _ _ rfl
    refine Builds.pure ⟨directoryItem job.kind e, rfl, ?_, rfl⟩
    rw [Restores, if_pos hdirectory]
  · rename_i hfile
    refine Builds.mono (restoreFile_builds hquiet) ?_
    rintro t' built ⟨blocks, hitems, hverify, hbuilt⟩
    refine ⟨_, hitems, ?_, hbuilt⟩
    rw [Restores, if_neg hfile]
    exact ⟨blocks, rfl, hverify⟩

/-! ### The whole program -/

/-- The items of a finished run. -/
def Restored (job : Job σ) (items : List (TreeItem Text)) : Prop :=
  List.Forall₂ (Restores job) job.entries items

/-- What is built for all items. -/
def allItemDeeds (job : Job σ) (items : List (TreeItem Text)) : List (TreeDeed Text) :=
  items.flatMap (itemDeeds job.kind) ++ lastDeeds job.kind job.entries

theorem restoreEntries_builds (hquiet : job.Quiet) {reader : σ} :
    Builds (forEach (restoreEntry env (some destination) job) job.entries.zipIdx { reader })
      fun t built => Restored job t.items ∧ built = t.items.flatMap (itemDeeds job.kind) := by
  have hbody : ∀ (done : List (Entry × ℕ)) (t : Progress σ) (entry : Entry × ℕ)
      (built : List (TreeDeed Text)), List.Forall₂ (Restores job) (done.map Prod.fst) t.items ∧
        built = t.items.flatMap (itemDeeds job.kind) →
      Builds (restoreEntry env (some destination) job t entry) fun t' later =>
        List.Forall₂ (Restores job) ((done ++ [entry]).map Prod.fst) t'.items ∧
          built ++ later = t'.items.flatMap (itemDeeds job.kind) := by
    rintro done t entry built ⟨hdone, rfl⟩
    refine Builds.mono (restoreEntry_builds hquiet) ?_
    rintro t' later ⟨i, hitems, hi, rfl⟩
    rw [hitems, List.map_append, List.flatMap_append, List.flatMap_singleton]
    exact ⟨List.rel_append hdone (.cons hi .nil), rfl⟩
  refine Builds.mono (Builds.loop (I := fun done t built =>
    List.Forall₂ (Restores job) (done.map Prod.fst) t.items ∧
      built = t.items.flatMap (itemDeeds job.kind)) hbody ⟨.nil, rfl⟩) ?_
  rintro t built ⟨hdone, hbuilt⟩
  rw [List.zipIdx_map_fst] at hdone
  exact ⟨hdone, hbuilt⟩

theorem directories_builds {kind : ℕ} {entries : List Entry} :
    Builds (forEach (fun _ e => applyMetadata env (directoryItem kind e)) entries ())
      fun _ built => built = entries.flatMap fun e => (directoryItem kind e).setMetadata := by
  have hbody : ∀ (done : List Entry) (t : Unit) (e : Entry) (built : List (TreeDeed Text)),
      built = done.flatMap (fun e => (directoryItem kind e).setMetadata) →
      Builds (applyMetadata env (directoryItem kind e)) fun _ later =>
        built ++ later = (done ++ [e]).flatMap fun e => (directoryItem kind e).setMetadata := by
    rintro done - e built rfl
    refine Builds.mono applyMetadata_builds ?_
    rintro _ later rfl
    rw [List.flatMap_append, List.flatMap_singleton]
  exact Builds.loop (I := fun done _ built =>
    built = done.flatMap fun e => (directoryItem kind e).setMetadata) hbody rfl

theorem refuseSameFile_quietly : Quietly deedsOf (refuseSameFile env) fun _ => True := by
  refine Quietly.bind (Q := fun _ => True) (call_quietly fun reply => ?_) fun same _ => ?_
  · rcases reply with e | same <;> rfl
  · exact Quietly.raiseIf fun _ => trivial

theorem replaceDestination_traces :
    Traces deedsOf (replaceDestination env) (fun _ t => t = [.published]) fun _ t => t = [] :=
  Quietly.before refuseSameFile_quietly (fun _ _ => call_traces (fun _ => rfl) fun _ => rfl)
    fun _ => rfl

theorem restoreAll_traces (hquiet : job.Quiet) {reader : σ} :
    Traces deedsOf (restoreAll env (some destination) job reader)
      (fun t deeds => Restored job t.items ∧
        deeds = (allItemDeeds job t.items).map .tree ++ [.published])
      fun _ deeds => ∃ built : List (TreeDeed Text), deeds = built.map .tree := by
  refine Traces.bind (restoreEntries_builds hquiet) ?_ fun _ _ h => h
  rintro t _ ⟨built, rfl, hrestored, rfl⟩
  refine Quietly.before (Quietly.lift (Q := fun _ => True) fun _ _ => trivial) ?_
    fun _ => ⟨_, List.append_nil _⟩
  intro _ _
  have hlast : Builds (inFolder job.kind (publishing (some destination) (forEach
      (fun _ e => applyMetadata env (directoryItem job.kind e)) (directoriesByDepth job.entries) ())))
      fun _ built => built = lastDeeds job.kind job.entries :=
    Builds.inFolder (fun hfolder => Builds.mono directories_builds fun _ _ hbuilt => by
      rw [hbuilt, lastDeeds, if_pos hfolder]) fun hfolder => by rw [lastDeeds, if_neg hfolder]
  refine Traces.bind hlast ?_ ?_
  · rintro _ _ ⟨last, rfl, rfl⟩
    refine Traces.bind replaceDestination_traces ?_ ?_
    · rintro _ _ rfl
      refine Traces.pure ⟨hrestored, ?_⟩
      rw [allItemDeeds, List.map_append, List.append_assoc, List.append_nil]
    · rintro e _ rfl
      exact ⟨t.items.flatMap (itemDeeds job.kind) ++ lastDeeds job.kind job.entries, by simp⟩
  · rintro e _ ⟨later, rfl⟩
    exact ⟨_, (List.map_append ..).symm⟩

/-- The attempts to remove the temporary root. -/
def removals : List (List Deed) :=
  [[.looked none], [.looked (some false)], [.looked (some true), .removal true],
    [.looked (some true), .removal false]]

theorem cleanup_traces :
    Traces deedsOf (cleanup env) (fun _ t => t ∈ removals) fun _ t => t ∈ removals := by
  refine Traces.bind (Q := fun there t => t = [.looked (some there)])
    (E := fun _ t => t = [.looked none]) (call_traces (fun _ => rfl) fun _ => rfl) ?_ ?_
  · rintro there _ rfl
    cases there with
    | false => exact Traces.pure (by simp [removals])
    | true =>
        apply call_traces
        · intro a
          simp [removals, deedsOf]
        · intro e
          simp [removals, deedsOf]
  · rintro e _ rfl
    simp [removals]

/-- The deeds of a run that failed: nothing, or a temporary root that is to be removed in the end. -/
def Abandoned (deeds : List Deed) : Prop :=
  deeds = [] ∨ ∃ (built : List (TreeDeed Text)) (final : List Deed), final ∈ removals ∧
    deeds = .rootMade :: built.map .tree ++ final

/-- The deeds of a run that returned. -/
def Completed (job : Job σ) (items : List (TreeItem Text)) (deeds : List Deed) : Prop :=
  Restored job items ∧ deeds = .rootMade :: (allItemDeeds job items).map .tree ++ [.published]

/-- The temporary root is made last, and nothing else is done before. -/
def Prepares (prepare : Run Unit) : Prop :=
  Traces deedsOf prepare (fun _ t => t = [.rootMade]) fun _ t => t = []

theorem restore_traces (hquiet : job.Quiet) {prepare : Run Unit} (hprepare : Prepares prepare)
    {reader : σ} : Traces deedsOf (restore env (some destination) job prepare reader)
      (fun t deeds => Completed job t.items deeds) fun _ deeds => Abandoned deeds := by
  refine Traces.bind hprepare ?_ ?_
  · rintro _ _ rfl
    refine Traces.onError (Traces.mono (restoreAll_traces hquiet) ?_ fun _ _ h => h) ?_
    · rintro t deeds ⟨hrestored, rfl⟩
      exact ⟨hrestored, rfl⟩
    · rintro e _ ⟨built, rfl⟩
      refine Traces.bind cleanup_traces ?_ ?_
      · intro _ final hfinal
        refine Traces.raise (.inr ⟨built, final, hfinal, ?_⟩)
        rw [List.append_nil]
        rfl
      · intro e' final hfinal
        exact .inr ⟨built, final, hfinal, rfl⟩
  · rintro e _ rfl
    exact .inl rfl

/-! ### The reader -/

section

variable {destination : Option String} {prepare : Run Unit} {I : σ → Prop}
  (hblock : ∀ position e i r, I r → Returns (job.block position e i r) fun result _ => I result.2)

include hblock

theorem restoreFile_reader {position : ℕ} {e : Entry} {t : Progress σ} (h : I t.reader) :
    Returns (restoreFile env destination job position e t) fun t' _ => I t'.reader := by
  have hbody : ∀ (t : List Bytes × σ) i, I t.2 →
      Returns (writeBlock env destination job position e t i) fun t' _ => I t'.2 := by
    intro t i ht
    refine Returns.bind (hblock position e i t.2 ht) ?_
    rintro ⟨block, reader⟩ made hreader
    exact Returns.bind (publishing_returns fun _ => call_returns) fun _ _ _ => Returns.pure hreader
  refine Returns.bind (Q := fun _ _ => True) ?_ fun _ _ _ => ?_
  · rw [inFolder]
    split
    · exact publishing_returns fun _ => call_returns
    · exact Returns.pure trivial
  refine Returns.bind (publishing_returns fun _ => call_returns) fun _ _ _ => ?_
  refine Returns.bind (Returns.finally' (Returns.forEach (I := fun (t : List Bytes × σ) => I t.2)
    hbody h) (publishing_returns fun _ => call_returns)) ?_
  rintro ⟨blocks, reader⟩ made ⟨-, -, -, hreader, -⟩
  refine Returns.bind_lift fun _ _ => ?_
  refine Returns.bind (publishing_returns fun _ => ?_) fun _ _ _ => Returns.pure hreader
  exact Returns.bind call_returns fun _ _ _ => call_returns

/-- What every block keeps holds of the reader when the archive has been read to its end. -/
theorem restore_reader (hprepare : Returns prepare fun _ _ => True) {reader : σ} (h : I reader) :
    Returns (restore env destination job prepare reader) fun t _ =>
      I t.reader ∧ job.finish t.reader = .ok () := by
  have hentry : ∀ (t : Progress σ) entry, I t.reader →
      Returns (restoreEntry env destination job t entry) fun t' _ => I t'.reader := by
    rintro t ⟨e, position⟩ ht
    simp only [restoreEntry]
    split
    · exact Returns.bind (publishing_returns fun _ => call_returns) fun _ _ _ => Returns.pure ht
    · exact restoreFile_reader hblock ht
  refine Returns.bind (publishing_returns fun _ => hprepare) fun _ _ _ => Returns.onError ?_ fun e =>
    Returns.bind (publishing_returns fun _ => (Does.returns cleanup_traces).mono fun _ _ _ => trivial)
      fun _ _ _ => Returns.raise
  refine Returns.bind (Returns.forEach (I := fun t => I t.reader) hentry h) fun t _ ht => ?_
  refine Returns.bind_lift fun _ hfinish => ?_
  refine Returns.bind (Q := fun _ _ => True) ?_ fun _ _ _ => ?_
  · rw [inFolder]
    split
    · exact publishing_returns fun _ => (Does.returns directories_builds).mono fun _ _ _ => trivial
    · exact Returns.pure trivial
  refine Returns.bind (publishing_returns fun _ =>
    (Does.returns replaceDestination_traces).mono fun _ _ _ => trivial) fun _ _ _ => ?_
  exact Returns.pure ⟨ht, hfinish⟩

end

end

end MosaicArchive.Restore
