import Mathlib.Tactic
import Mathlib.Data.List.Sort
import Mathlib.Data.Prod.Lex
import MosaicArchive.Effects.Saturation

/-!
Observation of a process tree (`mosaic_archive/competitive_runner.py`). A process is told by
its identifier and its start time, since identifiers are reused. What is known is saturated
over the processes present: a process whose parent is known and present becomes known.
-/

namespace MosaicArchive.Runner

/-- A process identifier and a start time. -/
abbrev Identity := ℤ × ℤ

/-- `_ProcSnapshot` -/
structure ProcSnapshot where
  pid : ℤ
  parentPid : ℤ
  processGroupId : ℤ
  sessionId : ℤ
  state : String
  startTimeTicks : ℤ
  rssBytes : ℤ
  deriving DecidableEq

def ProcSnapshot.identity (s : ProcSnapshot) : Identity := (s.pid, s.startTimeTicks)

/-- `_ProcessObservation` -/
structure ProcessObservation where
  processGroupRssBytes : ℤ
  groupMemberIdentities : List Identity
  liveGroupMemberIdentities : List Identity
  escapedIdentities : List Identity
  knownIdentities : Finset Identity
  deriving DecidableEq

/-- `sorted` on pairs -/
def sortIdentities (identities : List Identity) : List Identity :=
  identities.insertionSort fun a b => toLex a ≤ toLex b

/-- The keys of `current_by_identity`. -/
def currentIdentities (snapshots : List ProcSnapshot) : List Identity :=
  snapshots.map ProcSnapshot.identity

/-- `current_known_pids` -/
def currentKnownPids (snapshots : List ProcSnapshot) (known : Finset Identity) : Finset ℤ :=
  (known.filter (· ∈ currentIdentities snapshots)).image Prod.fst

/-- The loop `while changed`. -/
def saturateKnown (snapshots : List ProcSnapshot) (known : Finset Identity) :
    Except Unit (Finset Identity) :=
  Saturation.saturate ProcSnapshot.identity
    (fun known s => s.parentPid ∈ currentKnownPids snapshots known) snapshots known

/-- The root of the measured processes. -/
structure Root where
  pid : ℤ
  startTimeTicks : ℤ

def Root.identity (root : Root) : Identity := (root.pid, root.startTimeTicks)

/-- What is known before the loop. -/
def initialKnown (root : Root) (snapshots : List ProcSnapshot) (knownIdentities : Finset Identity) :
    Finset Identity :=
  let known := if root.identity ∈ currentIdentities snapshots then insert root.identity knownIdentities
    else knownIdentities
  snapshots.foldl (fun known s => if s.processGroupId = root.pid then insert s.identity known else known)
    known

def groupMembers (root : Root) (snapshots : List ProcSnapshot) : List ProcSnapshot :=
  snapshots.filter fun s => s.processGroupId = root.pid

/-- The result, from what is known after the loop. -/
def observation (root : Root) (snapshots : List ProcSnapshot) (known : Finset Identity) :
    ProcessObservation :=
  let currentKnown := snapshots.filter fun s => s.identity ∈ known
  { processGroupRssBytes := ((groupMembers root snapshots).map ProcSnapshot.rssBytes).sum
    groupMemberIdentities := sortIdentities ((groupMembers root snapshots).map ProcSnapshot.identity)
    liveGroupMemberIdentities := sortIdentities
      (((groupMembers root snapshots).filter fun s => s.state ≠ "Z").map ProcSnapshot.identity)
    escapedIdentities := sortIdentities
      ((currentKnown.filter fun s => s.processGroupId ≠ root.pid ∧ s.pid ≠ root.pid).map
        ProcSnapshot.identity)
    knownIdentities := known }

/-- `_observe_processes`; an error stands for a loop that does not end. -/
def observeProcesses (root : Root) (snapshots : List ProcSnapshot) (knownIdentities : Finset Identity) :
    Except Unit ProcessObservation :=
  (saturateKnown snapshots (initialKnown root snapshots knownIdentities)).map (observation root snapshots)

/-- Observations one after another, each with what the one before knew. -/
def observeAll (root : Root) : Finset Identity → List (List ProcSnapshot) →
    Except Unit (List ProcessObservation)
  | _, [] => .ok []
  | known, snapshots :: rest => do
      let o ← observeProcesses root snapshots known
      let os ← observeAll root o.knownIdentities rest
      .ok (o :: os)

/-! ### The least closed set -/

/-- What the identities known after an observation contain. -/
structure Closed (root : Root) (snapshots : List ProcSnapshot) (given S : Set Identity) : Prop where
  contains : given ⊆ S
  rootPresent : root.identity ∈ currentIdentities snapshots → root.identity ∈ S
  members : ∀ s ∈ snapshots, s.processGroupId = root.pid → s.identity ∈ S
  /-- A process present becomes known when its parent is known and present. -/
  children : ∀ s ∈ snapshots,
    (∃ parent ∈ S, parent ∈ currentIdentities snapshots ∧ parent.1 = s.parentPid) → s.identity ∈ S

theorem mem_foldl_insert {root : Root} {snapshots : List ProcSnapshot} {known : Finset Identity}
    {a : Identity} :
    a ∈ snapshots.foldl (fun known s => if s.processGroupId = root.pid then insert s.identity known
      else known) known ↔ a ∈ known ∨ ∃ s ∈ snapshots, s.processGroupId = root.pid ∧ s.identity = a := by
  induction snapshots generalizing known with
  | nil => simp
  | cons s snapshots ih =>
      rw [List.foldl_cons, ih, List.exists_mem_cons_iff, ← or_assoc]
      apply or_congr_left
      split_ifs with hgroup
      · rw [Finset.mem_insert, eq_comm, or_comm]
        simp only [hgroup, true_and]
      · simp only [hgroup, false_and, or_false]

theorem mem_initialKnown {root : Root} {snapshots : List ProcSnapshot} {given : Finset Identity}
    {a : Identity} : a ∈ initialKnown root snapshots given ↔ a ∈ given ∨
      (a = root.identity ∧ root.identity ∈ currentIdentities snapshots) ∨
      ∃ s ∈ snapshots, s.processGroupId = root.pid ∧ s.identity = a := by
  rw [initialKnown, mem_foldl_insert, ← or_assoc]
  apply or_congr_left
  split_ifs with hroot
  · rw [Finset.mem_insert, or_comm]
    simp only [hroot, and_true]
  · simp only [hroot, and_false, or_false]

theorem mem_currentKnownPids {snapshots : List ProcSnapshot} {known : Finset Identity} {pid : ℤ} :
    pid ∈ currentKnownPids snapshots known ↔
      ∃ a ∈ known, a ∈ currentIdentities snapshots ∧ a.1 = pid := by
  simp only [currentKnownPids, Finset.mem_image, Finset.mem_filter, and_assoc]

/-- The closed sets are those closed under the loop that contain what is known before it. -/
theorem closed_iff {root : Root} {snapshots : List ProcSnapshot} {given : Finset Identity}
    {S : Set Identity} : Closed root snapshots ↑given S ↔
      Saturation.Closed (fun s a => a ∈ currentIdentities snapshots ∧ a.1 = s.parentPid)
        ProcSnapshot.identity snapshots ↑(initialKnown root snapshots given) S := by
  constructor
  · intro h
    refine ⟨?_, h.children⟩
    intro a ha
    rcases mem_initialKnown.mp ha with hgiven | ⟨rfl, hroot⟩ | ⟨s, hs, hgroup, rfl⟩
    · exact h.contains hgiven
    · exact h.rootPresent hroot
    · exact h.members s hs hgroup
  · rintro ⟨hstart, hchild⟩
    exact ⟨fun a ha => hstart (mem_initialKnown.mpr (Or.inl ha)),
      fun hroot => hstart (mem_initialKnown.mpr (Or.inr (Or.inl ⟨rfl, hroot⟩))),
      fun s hs hgroup => hstart (mem_initialKnown.mpr (Or.inr (Or.inr ⟨s, hs, hgroup, rfl⟩))), hchild⟩

/-- An observation ends, and knows the least closed set. -/
theorem observeProcesses_least (root : Root) (snapshots : List ProcSnapshot) (given : Finset Identity) :
    ∃ known : Finset Identity,
      observeProcesses root snapshots given = .ok (observation root snapshots known) ∧
        IsLeast {S | Closed root snapshots ↑given S} (↑known : Set Identity) := by
  have henabled : ∀ (known : Finset Identity) (s : ProcSnapshot),
      s.parentPid ∈ currentKnownPids snapshots known ↔
        ∃ a ∈ known, a ∈ currentIdentities snapshots ∧ a.1 = s.parentPid :=
    fun _ _ => mem_currentKnownPids
  obtain ⟨known, hknown, hleast⟩ := @Saturation.saturate_least _ _ _ ProcSnapshot.identity _ _ _ henabled
    snapshots (initialKnown root snapshots given)
  refine ⟨known, ?_, ?_⟩
  · rw [observeProcesses, saturateKnown, hknown]
    rfl
  · simpa only [closed_iff] using hleast

/-! ### The order of the snapshots -/

/-- Sorting forgets the order. -/
theorem sortIdentities_congr {l l' : List Identity} (h : l.Perm l') :
    sortIdentities l = sortIdentities l' := by
  have htotal : Std.Total fun a b : Identity => toLex a ≤ toLex b := ⟨fun a b => le_total _ _⟩
  have htrans : IsTrans Identity fun a b => toLex a ≤ toLex b := ⟨fun _ _ _ => le_trans⟩
  have hperm : (sortIdentities l).Perm (sortIdentities l') :=
    (List.perm_insertionSort _ l).trans (h.trans (List.perm_insertionSort _ l').symm)
  apply List.Perm.eq_of_pairwise _ (List.pairwise_insertionSort _ l) (List.pairwise_insertionSort _ l') hperm
  intro a b _ _ hab hba
  exact toLex.injective (le_antisymm hab hba)

theorem observation_congr {root : Root} {snapshots snapshots' : List ProcSnapshot} {known : Finset Identity}
    (h : snapshots'.Perm snapshots) : observation root snapshots' known = observation root snapshots known := by
  have hmembers : (groupMembers root snapshots').Perm (groupMembers root snapshots) := h.filter _
  simp only [observation]
  rw [((hmembers.map _).sum_eq : (List.map ProcSnapshot.rssBytes _).sum = _),
    sortIdentities_congr (hmembers.map _), sortIdentities_congr ((hmembers.filter _).map _),
    sortIdentities_congr (((h.filter _).filter _).map _)]

theorem closed_congr {root : Root} {snapshots snapshots' : List ProcSnapshot} {given S : Set Identity}
    (h : snapshots'.Perm snapshots) : Closed root snapshots' given S ↔ Closed root snapshots given S := by
  have hcurrent : ∀ a, a ∈ currentIdentities snapshots' ↔ a ∈ currentIdentities snapshots := fun a =>
    (h.map _).mem_iff
  constructor
  · rintro ⟨hgiven, hroot, hgroup, hchild⟩
    refine ⟨hgiven, fun hmem => hroot ((hcurrent _).mpr hmem), fun s hs => hgroup s (h.mem_iff.mpr hs), ?_⟩
    rintro s hs ⟨parent, hparent, hpresent, hpid⟩
    exact hchild s (h.mem_iff.mpr hs) ⟨parent, hparent, (hcurrent _).mpr hpresent, hpid⟩
  · rintro ⟨hgiven, hroot, hgroup, hchild⟩
    refine ⟨hgiven, fun hmem => hroot ((hcurrent _).mp hmem), fun s hs => hgroup s (h.mem_iff.mp hs), ?_⟩
    rintro s hs ⟨parent, hparent, hpresent, hpid⟩
    exact hchild s (h.mem_iff.mp hs) ⟨parent, hparent, (hcurrent _).mp hpresent, hpid⟩

/-- The closed sets determine the result. -/
theorem observeProcesses_eq_ok {root : Root} {snapshots : List ProcSnapshot} {given known : Finset Identity}
    (h : IsLeast {S | Closed root snapshots ↑given S} (↑known : Set Identity)) :
    observeProcesses root snapshots given = .ok (observation root snapshots known) := by
  obtain ⟨known', hobserve, hleast⟩ := observeProcesses_least root snapshots given
  obtain rfl : known' = known := Finset.coe_injective (hleast.unique h)
  exact hobserve

theorem observeProcesses_perm {root : Root} {snapshots snapshots' : List ProcSnapshot}
    {given known : Finset Identity} (h : snapshots'.Perm snapshots)
    (hleast : IsLeast {S | Closed root snapshots ↑given S} (↑known : Set Identity)) :
    observeProcesses root snapshots' given = .ok (observation root snapshots known) := by
  rw [← observation_congr h]
  apply observeProcesses_eq_ok
  simpa only [closed_congr h] using hleast

/-! ### Dead identities -/

/-- A known identity that is not present adds nothing but itself. -/
theorem least_insert_dead {root : Root} {snapshots : List ProcSnapshot} {given known : Finset Identity}
    {dead : Identity} (hdead : dead ∉ currentIdentities snapshots)
    (h : IsLeast {S | Closed root snapshots ↑given S} (↑known : Set Identity)) :
    IsLeast {S | Closed root snapshots ↑(insert dead given) S} (↑(insert dead known) : Set Identity) := by
  obtain ⟨hclosed, hleast⟩ := h
  have hsubset : ∀ a ∈ known, a ∈ (↑(insert dead known) : Set Identity) := fun a ha =>
    Finset.mem_insert_of_mem ha
  constructor
  · refine ⟨?_, fun hroot => hsubset _ (hclosed.rootPresent hroot),
      fun s hs hgroup => hsubset _ (hclosed.members s hs hgroup), ?_⟩
    · intro a ha
      rcases Finset.mem_insert.mp ha with rfl | hgiven
      · exact Finset.mem_insert_self _ _
      · exact hsubset _ (hclosed.contains hgiven)
    · rintro s hs ⟨parent, hparent, hpresent, hpid⟩
      rcases Finset.mem_insert.mp hparent with rfl | hknown
      · exact absurd hpresent hdead
      · exact hsubset _ (hclosed.children s hs ⟨parent, hknown, hpresent, hpid⟩)
  · intro S hS a ha
    have hgiven : Closed root snapshots ↑given S :=
      ⟨fun b hb => hS.contains (Finset.mem_insert_of_mem hb), hS.rootPresent, hS.members, hS.children⟩
    rcases Finset.mem_insert.mp ha with rfl | hknown
    · exact hS.contains (Finset.mem_insert_self _ _)
    · exact hleast hgiven hknown

theorem observation_insert_dead {root : Root} {snapshots : List ProcSnapshot} {known : Finset Identity}
    {dead : Identity} (hdead : dead ∉ currentIdentities snapshots) :
    observation root snapshots (insert dead known) =
      { observation root snapshots known with knownIdentities := insert dead known } := by
  have hsame : (snapshots.filter fun s => s.identity ∈ insert dead known) =
      snapshots.filter fun s => s.identity ∈ known := by
    apply List.filter_congr
    intro s hs
    have hne : s.identity ≠ dead := fun h => hdead (h ▸ List.mem_map_of_mem hs)
    rw [decide_eq_decide, Finset.mem_insert]
    exact or_iff_right hne
  simp only [observation, hsame]

/-! ### Observations in sequence -/

/-- The processes that are present and known, outside the group, and do not have the root's pid. -/
def escapees (root : Root) (snapshots : List ProcSnapshot) (known : Finset Identity) : List Identity :=
  (snapshots.filter fun s =>
    s.identity ∈ known ∧ s.processGroupId ≠ root.pid ∧ s.pid ≠ root.pid).map ProcSnapshot.identity

theorem escaped_perm (root : Root) (snapshots : List ProcSnapshot) (known : Finset Identity) :
    (observation root snapshots known).escapedIdentities.Perm (escapees root snapshots known) := by
  have hfilter : ((snapshots.filter fun s => s.identity ∈ known).filter fun s =>
      s.processGroupId ≠ root.pid ∧ s.pid ≠ root.pid) = snapshots.filter fun s =>
        s.identity ∈ known ∧ s.processGroupId ≠ root.pid ∧ s.pid ≠ root.pid := by
    rw [List.filter_filter]
    apply List.filter_congr
    intro s _
    rw [← Bool.decide_and, decide_eq_decide]
    exact and_comm
  have hsorted := List.perm_insertionSort (fun a b : Identity => toLex a ≤ toLex b)
    (escapees root snapshots known)
  simp only [observation, hfilter]
  exact hsorted

/-- Observations that are fed back end, forget nothing, and tell the escaped processes. -/
theorem observeAll_spec (root : Root) (runs : List (List ProcSnapshot)) (given : Finset Identity) :
    ∃ os, observeAll root given runs = .ok os ∧ (∀ o ∈ os, given ⊆ o.knownIdentities) ∧
      os.Pairwise (fun o o' => o.knownIdentities ⊆ o'.knownIdentities) ∧
      List.Forall₂ (fun snapshots o =>
        o.escapedIdentities.Perm (escapees root snapshots o.knownIdentities)) runs os := by
  induction runs generalizing given with
  | nil => exact ⟨[], rfl, List.forall_mem_nil _, .nil, .nil⟩
  | cons snapshots runs ih =>
      obtain ⟨known, hobserve, hleast⟩ := observeProcesses_least root snapshots given
      obtain ⟨os, hos, hkeep, hpairwise, hescaped⟩ := ih known
      have hgiven : given ⊆ known := hleast.1.contains
      refine ⟨observation root snapshots known :: os, ?_, ?_, .cons hkeep hpairwise,
        .cons (escaped_perm root snapshots known) hescaped⟩
      · have hrest : observeAll root (observation root snapshots known).knownIdentities runs = .ok os := hos
        rw [observeAll, hobserve]
        show (observeAll root _ runs >>= _) = _
        rw [hrest]
        rfl
      · rw [List.forall_mem_cons]
        exact ⟨hgiven, fun o ho => hgiven.trans (hkeep o ho)⟩

/-- An observation ends; what it knows is the least closed set, no field depends on the order of
the snapshots, and an identity that is no longer present adds nothing but itself. Observations
that are fed back forget nothing, and tell exactly the escaped processes. -/
theorem observe_processes_least_closure (root : Root) (given : Finset Identity) :
    (∀ snapshots, ∃ o, observeProcesses root snapshots given = .ok o ∧
      IsLeast {S | Closed root snapshots ↑given S} (↑o.knownIdentities : Set Identity) ∧
      (∀ snapshots', snapshots'.Perm snapshots → observeProcesses root snapshots' given = .ok o) ∧
      ∀ dead ∉ currentIdentities snapshots, observeProcesses root snapshots (insert dead given) =
        .ok { o with knownIdentities := insert dead o.knownIdentities }) ∧
    ∀ runs, ∃ os, observeAll root given runs = .ok os ∧ (∀ o ∈ os, given ⊆ o.knownIdentities) ∧
      os.Pairwise (fun o o' => o.knownIdentities ⊆ o'.knownIdentities) ∧
      List.Forall₂ (fun snapshots o =>
        o.escapedIdentities.Perm (escapees root snapshots o.knownIdentities)) runs os := by
  refine ⟨?_, fun runs => observeAll_spec root runs given⟩
  intro snapshots
  obtain ⟨known, hobserve, hleast⟩ := observeProcesses_least root snapshots given
  refine ⟨_, hobserve, hleast, fun snapshots' hperm => observeProcesses_perm hperm hleast, ?_⟩
  intro dead hdead
  rw [observeProcesses_eq_ok (least_insert_dead hdead hleast), observation_insert_dead hdead]
  rfl

end MosaicArchive.Runner
