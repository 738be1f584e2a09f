import MosaicArchive.Binding.LeafCreation
import MosaicArchive.Effects.Deeds
import MosaicArchive.Effects.Resources

/-!
The creation of a leaf is all or nothing: it returns a verified lease of a new leaf, or it
raises and the leaf is gone again, or the removal failed too and the exception holds both
failures. Nothing but the new leaf is opened, written or removed.
-/

namespace MosaicArchive.Cgroup

open FixedWidth CallHistory Resources
open Utf8 (Text)
open Binding (Raised hostError errorGroup combinedFailures singleLine controlScalar parseIdSet
  checkEffectiveIdSet)
open Routine (raise raiseIf lift attempt mapError onError Ends)

/-! ### Leaves -/

inductive Deed where
  | creates (leaf : Text)
  | removes (leaf : Text)
  /-- A removal that failed. -/
  | fails (leaf : Text)
  | opens (leaf : Text) (directory : ℤ)
  | opensFile (directory descriptor : ℤ)
  | writes (descriptor : ℤ)
  deriving DecidableEq, Repr

def created (leaf : Text) : Except Raised Unit → List Deed
  | .ok _ => [.creates leaf]
  | .error _ => []

def removed (leaf : Text) : Except Raised Unit → List Deed
  | .ok _ => [.removes leaf]
  | .error _ => [.fails leaf]

def opened (leaf : Text) : Except Raised ℤ → List Deed
  | .ok directory => [.opens leaf directory]
  | .error _ => []

def openedFile (directory : ℤ) : Except Raised ℤ → List Deed
  | .ok descriptor => [.opensFile directory descriptor]
  | .error _ => []

/-- What a call does to the leaves. -/
def deeds (e : Σ c : LeafCall, LeafReply c) : List Deed :=
  match e with
  | ⟨.mkdir name _, reply⟩ => created name reply
  | ⟨.rmdir name _, reply⟩ => removed name reply
  | ⟨.openLeaf name _, reply⟩ => opened name reply
  | ⟨.openWrite _ directory, reply⟩ => openedFile directory reply
  | ⟨.write descriptor _, _⟩ => [.writes descriptor]
  | _ => []

def Deed.effect : Deed → Effect Text
  | creates leaf => .acquires leaf
  | removes leaf => .releases leaf
  | _ => .neutral

/-- A leaf is opened, written through files that were opened in it, or not removed. -/
inductive Uses (leaf : Text) : List Deed → Prop
  | nil : Uses leaf []
  | opening {t : List Deed} (directory : ℤ) : Uses leaf t → Uses leaf (.opens leaf directory :: t)
  | writing {t : List Deed} (directory descriptor : ℤ) : Uses leaf t →
      Uses leaf (.opens leaf directory :: .opensFile directory descriptor :: .writes descriptor :: t)
  | failing {t : List Deed} : Uses leaf t → Uses leaf (.fails leaf :: t)

theorem Uses.append {leaf : Text} {t u : List Deed} (h : Uses leaf t) (h' : Uses leaf u) :
    Uses leaf (t ++ u) := by
  induction h with
  | nil => exact h'
  | opening directory _ ih => exact .opening directory ih
  | writing directory descriptor _ ih => exact .writing directory descriptor ih
  | failing _ ih => exact .failing ih

theorem Uses.neutral {leaf : Text} {t : List Deed} (h : Uses leaf t) :
    ∀ deed ∈ t, deed.effect = .neutral := by
  induction h with
  | nil => exact List.forall_mem_nil _
  | opening directory _ ih => exact List.forall_mem_cons.mpr ⟨rfl, ih⟩
  | writing directory descriptor _ ih =>
      exact List.forall_mem_cons.mpr ⟨rfl, List.forall_mem_cons.mpr ⟨rfl,
        List.forall_mem_cons.mpr ⟨rfl, ih⟩⟩⟩
  | failing _ ih => exact List.forall_mem_cons.mpr ⟨rfl, ih⟩

variable {env : LeafEnvironment} {backend : Backend}

/-! ### Single calls -/

theorem traces_call {α : Type} {c : LeafCall} (g : LeafReply c → Except Raised α) :
    Traces deeds (do let reply ← ask env c; orRaise (g reply) : LeafRun α)
      (fun a t => ∃ r, g r = .ok a ∧ t = deeds ⟨c, r⟩)
      fun _ t => ∃ r e, g r = .error e ∧ t = deeds ⟨c, r⟩ := by
  have hask : Traces deeds (ask env c : LeafRun (LeafReply c)) (fun r t => t = deeds ⟨c, r⟩)
      fun _ _ => False := Traces.ask fun _ => rfl
  refine Traces.bind hask ?_ fun _ _ h => h.elim
  rintro r t rfl
  cases hreply : g r with
  | ok a => exact Traces.pure ⟨r, hreply, List.append_nil _⟩
  | error e => exact Traces.raise ⟨r, e, hreply, List.append_nil _⟩

theorem quietly_call {α : Type} {c : LeafCall} (g : LeafReply c → Except Raised α)
    (h : ∀ r, deeds ⟨c, r⟩ = []) :
    Quietly deeds (do let reply ← ask env c; orRaise (g reply) : LeafRun α) fun _ => True := by
  refine Traces.mono (traces_call g) ?_ ?_
  · rintro a t ⟨r, -, rfl⟩
    exact ⟨h r, trivial⟩
  · rintro e t ⟨r, -, -, rfl⟩
    exact h r

theorem quietly_fstat (descriptor : ℤ) : Quietly deeds (fstat env descriptor) fun _ => True :=
  @quietly_call env _ (.fstat descriptor) id fun _ => rfl

theorem quietly_fstatfs (descriptor : ℤ) : Quietly deeds (fstatfs env descriptor) fun _ => True :=
  @quietly_call env _ (.fstatfs descriptor) id fun _ => rfl

theorem quietly_close (descriptor : ℤ) : Quietly deeds (close env descriptor) fun _ => True :=
  @quietly_call env _ (.close descriptor) id fun _ => rfl

theorem quietly_read (descriptor : ℤ) (limit : ℕ) :
    Quietly deeds (read env descriptor limit) fun _ => True :=
  @quietly_call env _ (.read descriptor limit) id fun _ => rfl

theorem quietly_openRead (filename : String) (directory : ℤ) :
    Quietly deeds (openRead env filename directory) fun _ => True :=
  @quietly_call env _ (.openRead filename directory) id fun _ => rfl

theorem traces_rmdir (name : Text) (directory : ℤ) :
    Traces deeds (rmdir env name directory) (fun _ t => t = [.removes name])
      fun _ t => t = [.fails name] := by
  refine Traces.mono (@traces_call env _ (.rmdir name directory) id) ?_ ?_
  · rintro a t ⟨r, rfl, rfl⟩
    rfl
  · rintro e t ⟨r, e', rfl, rfl⟩
    rfl

theorem traces_openDirectory (name : Text) (directory : ℤ) :
    Traces deeds (openDirectory env name directory) (fun d t => t = [.opens name d])
      fun _ t => t = [] := by
  refine Traces.mono (@traces_call env _ (.openLeaf name directory) id) ?_ ?_
  · rintro a t ⟨r, rfl, rfl⟩
    rfl
  · rintro e t ⟨r, e', rfl, rfl⟩
    rfl

theorem traces_openWrite (filename : String) (directory : ℤ) :
    Traces deeds (openWrite env filename directory) (fun d t => t = [.opensFile directory d])
      fun _ t => t = [] := by
  refine Traces.mono (@traces_call env _ (.openWrite filename directory) id) ?_ ?_
  · rintro a t ⟨r, rfl, rfl⟩
    rfl
  · rintro e t ⟨r, e', rfl, rfl⟩
    rfl

theorem traces_write (descriptor : ℤ) (data : Bytes) :
    Traces deeds (write env descriptor data) (fun _ t => t = [.writes descriptor])
      fun _ t => t = [.writes descriptor] := by
  refine Traces.mono (@traces_call env _ (.write descriptor data) id) ?_ ?_
  · rintro a t ⟨r, -, rfl⟩
    rfl
  · rintro e t ⟨r, e', -, rfl⟩
    rfl

/-! ### Closing and reading -/

theorem quietly_check {c : Prop} {_ : Decidable c} {e : Failure} :
    Quietly deeds (raiseIf c e : LeafRun Unit) fun _ => True :=
  Quietly.raiseIf fun _ => trivial

theorem quietly_closeAfterFailure {α : Type} {descriptor : ℤ} {primaryError : Failure}
    {context : String} :
    Quietly deeds (closeAfterFailure env descriptor primaryError context : LeafRun α)
      fun _ => False :=
  Quietly.bind (Quietly.onError (quietly_close descriptor) fun _ => Quietly.raise)
    fun _ _ => Quietly.raise

/-- The descriptor is closed after the operation, which decides the deeds. -/
theorem traces_runAndClose {α : Type} {descriptor : ℤ} {operation : LeafRun α} {context : String}
    {S : List Deed → Prop} {Q : α → Prop}
    (h : Traces deeds operation (fun a t => S t ∧ Q a) fun _ t => S t) :
    Traces deeds (runAndClose env descriptor operation context) (fun a t => S t ∧ Q a)
      fun _ t => S t := by
  have hguarded : Traces deeds (onError operation fun primaryError =>
      closeAfterFailure env descriptor primaryError context) (fun a t => S t ∧ Q a)
      fun _ t => S t := by
    refine Traces.onError h ?_
    intro e t ht
    refine Traces.mono quietly_closeAfterFailure (fun _ _ h => h.2.elim) ?_
    rintro e' later rfl
    rwa [List.append_nil]
  refine Traces.bind hguarded ?_ fun _ _ h => h
  rintro a t ht
  refine Traces.bind (quietly_close descriptor) ?_ ?_
  · rintro ⟨⟩ later ⟨rfl, -⟩
    exact Traces.pure (by simpa using ht)
  · rintro e later rfl
    rw [List.append_nil]
    exact ht.1

theorem quietly_readChunks (descriptor : ℤ) (fuel : ℕ) (chunks : Bytes) :
    Quietly deeds (readChunks env descriptor fuel chunks) fun _ => True := by
  induction fuel generalizing chunks with
  | zero => exact Quietly.raise
  | succ fuel ih =>
      refine Quietly.bind (quietly_read descriptor _) fun chunk _ => ?_
      split
      · exact Quietly.pure trivial
      · exact Quietly.bind quietly_check fun _ _ => ih _

theorem quietly_readValue (descriptor : ℤ) :
    Quietly deeds (readValue env descriptor) fun _ => True := by
  refine Quietly.bind (quietly_readChunks descriptor _ []) fun data _ => ?_
  split
  · exact Quietly.raise
  · exact Quietly.pure trivial

theorem quietly_readControlFile (directory : ℤ) (filename : String) :
    Quietly deeds (readControlFile env directory filename) fun _ => True := by
  refine Quietly.bind quietly_check fun _ _ => ?_
  exact Quietly.bind (quietly_openRead filename directory) fun descriptor _ =>
    traces_runAndClose (quietly_readValue descriptor)

/-- A file is opened in the directory and written, or nothing happens. -/
def WritesIn (directory : ℤ) (t : List Deed) : Prop :=
  t = [] ∨ ∃ descriptor, t = [.opensFile directory descriptor, .writes descriptor]

theorem traces_writeControlFile (directory : ℤ) (filename : String) (value : Text) :
    Traces deeds (writeControlFile env directory filename value)
      (fun _ t => WritesIn directory t ∧ True) fun _ t => WritesIn directory t := by
  refine Quietly.before quietly_check (fun _ _ => ?_)
    fun _ => Or.inl rfl
  split
  · exact Traces.raise (Or.inl rfl)
  · refine Traces.bind (traces_openWrite filename directory) ?_ fun _ _ h => Or.inl h
    rintro descriptor t rfl
    refine Traces.mono (traces_runAndClose (S := fun t => t = [.writes descriptor])
      (Q := fun _ => True) ?_) ?_ ?_
    · exact Traces.mono (traces_write descriptor _) (fun _ _ h => ⟨h, trivial⟩) fun _ _ h => h
    · rintro _ t ⟨rfl, -⟩
      exact ⟨Or.inr ⟨descriptor, rfl⟩, trivial⟩
    · rintro _ t rfl
      exact Or.inr ⟨descriptor, rfl⟩

/-! ### The backend -/

theorem quietly_requireRoot (root : RootHandle) :
    Quietly deeds (requireRoot env backend root) fun _ => True := by
  refine Quietly.bind quietly_check fun _ _ => ?_
  split
  · exact Quietly.raise
  · rename_i descriptor _
    refine Quietly.bind (quietly_fstat descriptor) fun status _ => ?_
    refine Quietly.bind quietly_check fun _ _ => ?_
    refine Quietly.bind (quietly_fstatfs descriptor) fun magic _ => ?_
    refine Quietly.bind quietly_check fun _ _ => ?_
    exact Quietly.bind quietly_check fun _ _ => Quietly.pure trivial

theorem quietly_inspectLeaf (leafFd : ℤ) (root : RootHandle) (name : Text) :
    Quietly deeds (inspectLeaf env leafFd root name) fun leaf =>
      leaf.root = root ∧ leaf.name = name := by
  refine Quietly.bind (quietly_fstat leafFd) fun status _ => ?_
  refine Quietly.bind quietly_check fun _ _ => ?_
  refine Quietly.bind (quietly_fstatfs leafFd) fun magic _ => ?_
  exact Quietly.bind quietly_check fun _ _ => Quietly.pure ⟨rfl, rfl⟩

theorem quietly_revalidateLeaf (descriptor : ℤ) (leaf : LeafHandle) :
    Quietly deeds (revalidateLeaf env descriptor leaf) fun _ => True := by
  refine Quietly.bind (quietly_fstat descriptor) fun status _ => ?_
  refine Quietly.bind quietly_check fun _ _ => ?_
  refine Quietly.bind (quietly_fstatfs descriptor) fun magic _ => ?_
  exact Quietly.bind quietly_check fun _ _ => quietly_check

theorem traces_openLeaf (leaf : LeafHandle) :
    Traces deeds (openLeaf env backend leaf) (fun d t => t = [.opens leaf.name d])
      fun _ t => Uses leaf.name t := by
  refine Quietly.before quietly_check (fun _ _ => ?_)
    fun _ => .nil
  refine Quietly.before (quietly_requireRoot leaf.root) (fun rootFd _ => ?_) fun _ => .nil
  refine Traces.bind (traces_openDirectory leaf.name rootFd) ?_ fun _ _ h => h ▸ .nil
  rintro descriptor t rfl
  have hchecked : Quietly deeds (onError (revalidateLeaf env descriptor leaf) fun inspectError =>
      closeAfterFailure env descriptor inspectError
        "cgroup leaf revalidation and descriptor cleanup both failed") fun _ => True :=
    Quietly.onError (quietly_revalidateLeaf descriptor leaf) fun _ =>
      Quietly.mono quietly_closeAfterFailure fun _ h => h.elim
  exact Quietly.before hchecked (fun _ _ => Traces.pure (List.append_nil _)) fun _ =>
    .opening descriptor .nil

variable (leaf : Text) in
/-- The program uses the leaf. -/
def Using {α : Type} (p : LeafRun α) : Prop :=
  Traces deeds p (fun _ t => Uses leaf t) fun _ t => Uses leaf t

namespace Using

variable {α β : Type} {leaf : Text} {p : LeafRun α} {f : α → LeafRun β}

theorem pure {a : α} : Using leaf (Pure.pure a) := Traces.pure .nil

theorem raise {e : Failure} : Using leaf (Routine.raise e : LeafRun α) := Traces.raise .nil

theorem of_quietly {Q : α → Prop} (h : Quietly deeds p Q) : Using leaf p :=
  Traces.mono h (fun _ _ ht => ht.1 ▸ .nil) fun _ _ ht => ht ▸ .nil

theorem orRaise {x : Except Raised α} : Using leaf (orRaise x) :=
  of_quietly (Q := fun _ => True) (Quietly.lift fun _ _ => trivial)

theorem raiseIf {c : Prop} [Decidable c] {e : Failure} : Using leaf (Routine.raiseIf c e) :=
  of_quietly quietly_check

theorem bind (hp : Using leaf p) (hf : ∀ a, Using leaf (f a)) : Using leaf (p >>= f) := by
  refine Traces.bind hp ?_ fun _ _ h => h
  intro a t ht
  exact Traces.mono (hf a) (fun _ _ h => ht.append h) fun _ _ h => ht.append h

theorem mapError {g : Failure → Failure} (hp : Using leaf p) : Using leaf (Routine.mapError g p) :=
  Traces.mapError hp

end Using

theorem using_readLeaf (leaf : LeafHandle) (filename : String) :
    Using leaf.name (readLeaf env backend leaf filename) := by
  refine Traces.bind (traces_openLeaf leaf) ?_ fun _ _ h => h
  rintro descriptor t rfl
  refine Traces.mono (traces_runAndClose (quietly_readControlFile descriptor filename)) ?_ ?_
  · rintro _ t ⟨rfl, -⟩
    exact .opening descriptor .nil
  · rintro _ t rfl
    exact .opening descriptor .nil

theorem using_writeLeaf (leaf : LeafHandle) (filename : String) (value : Text) :
    Using leaf.name (writeLeaf env backend leaf filename value) := by
  refine Traces.bind (traces_openLeaf leaf) ?_ fun _ _ h => h
  rintro directory t rfl
  have huses {t : List Deed} (h : WritesIn directory t) :
      Uses leaf.name ([.opens leaf.name directory] ++ t) := by
    obtain rfl | ⟨descriptor, rfl⟩ := h
    · exact .opening directory .nil
    · exact .writing directory descriptor .nil
  exact Traces.mono (traces_runAndClose (traces_writeControlFile directory filename value))
    (fun _ _ h => huses h.1) fun _ _ h => huses h

/-- The leaf is removed last. -/
theorem traces_removeLeaf (root : RootHandle) (leaf : LeafHandle) :
    Traces deeds (removeLeaf env backend root leaf)
      (fun _ t => ∃ u, Uses leaf.name u ∧ t = u ++ [.removes leaf.name])
      fun _ t => Uses leaf.name t := by
  refine Quietly.before (quietly_requireRoot root) (fun rootFd _ => ?_) fun _ => .nil
  refine Quietly.before quietly_check (fun _ _ => ?_)
    fun _ => .nil
  refine Traces.bind (traces_openLeaf leaf) ?_ fun _ _ h => h
  rintro descriptor t rfl
  have hopens : Uses leaf.name [.opens leaf.name descriptor] := .opening descriptor .nil
  have hvalidated : Quietly deeds (runAndClose env descriptor (pure ())
      "cgroup leaf validation and descriptor cleanup both failed") fun _ => True :=
    traces_runAndClose (Quietly.pure trivial)
  refine Quietly.before hvalidated (fun _ _ => ?_) fun _ => by simpa using hopens
  refine Quietly.before (quietly_requireRoot root) (fun _ _ => ?_) fun _ => by simpa using hopens
  refine Traces.mono (traces_rmdir leaf.name rootFd) ?_ ?_
  · rintro _ t rfl
    exact ⟨_, hopens, rfl⟩
  · rintro _ t rfl
    exact hopens.append (.failing .nil)

theorem traces_removeMade (rootFd : ℤ) (root : RootHandle) (name : Text) :
    Traces deeds (removeMade env backend rootFd root name) (fun _ t => t = [.removes name])
      fun _ t => Uses name t := by
  refine Quietly.before (quietly_requireRoot root) (fun _ _ => ?_) fun _ => .nil
  exact Traces.mono (traces_rmdir name rootFd) (fun _ _ h => h) fun _ _ h => h ▸ .failing .nil

/-! ### The configuration -/

variable {q : Qualification} {leaf : LeafHandle}

theorem using_writeExact (filename : String) (value : Text) :
    Using leaf.name (writeExact env q leaf filename value) := by
  rw [writeExact]
  split
  · exact Using.raise
  · exact Using.bind (Using.mapError (using_writeLeaf leaf filename value)) fun _ => Using.raiseIf

theorem using_writeAndVerify (filename : String) (value : Text) :
    Using leaf.name (writeAndVerify env q leaf filename value) := by
  refine Using.bind (using_writeExact filename value) fun _ => ?_
  refine Using.bind (Using.mapError (using_readLeaf leaf filename)) fun observed => ?_
  exact Using.bind Using.orRaise fun _ => Using.raiseIf

theorem using_verifyEffectiveIdSet (filename : String) (expected : List ℕ) (context : String) :
    Using leaf.name (verifyEffectiveIdSet env q leaf filename expected context) :=
  Using.bind (Using.mapError (using_readLeaf leaf filename)) fun _ => Using.orRaise

theorem using_writeAll (values : List (String × Text)) :
    Using leaf.name (writeAll env q leaf values) := by
  induction values with
  | nil => exact Using.pure
  | cons entry values ih => exact Using.bind (using_writeAndVerify entry.1 entry.2) fun _ => ih

theorem using_configure : Using leaf.name (configure env q leaf) := by
  refine Using.bind Using.orRaise fun values => ?_
  refine Using.bind (using_writeAll values) fun _ => ?_
  refine Using.bind (using_verifyEffectiveIdSet _ _ _) fun _ => ?_
  refine Using.bind (using_verifyEffectiveIdSet _ _ _) fun _ => ?_
  refine Using.bind (Using.mapError (using_readLeaf leaf "memory.peak")) fun _ => ?_
  exact Using.bind Using.orRaise fun _ => Using.raiseIf

/-! ### Histories -/

/-- The calls between two histories, by their deeds. -/
def Led (before after : LeafHistory) (P : List Deed → Prop) : Prop :=
  ∃ made, after = before ++ made ∧ P (trace deeds made)

section

variable {before middle after : LeafHistory} {name : Text} {P Q R : List Deed → Prop}

theorem Led.refl (h : P []) : Led before before P := ⟨[], (List.append_nil _).symm, h⟩

theorem Led.trans (h : Led before middle P) (h' : Led middle after Q)
    (hR : ∀ t u, P t → Q u → R (t ++ u)) : Led before after R := by
  obtain ⟨made, rfl, ht⟩ := h
  obtain ⟨later, rfl, hu⟩ := h'
  exact ⟨made ++ later, List.append_assoc _ _ _, by rw [trace_append]; exact hR _ _ ht hu⟩

theorem Led.quiet (h : Led before middle (· = [])) (h' : Led middle after Q) : Led before after Q :=
  h.trans h' fun t u ht hu => by
    subst ht
    exact hu

/-- No leaf was touched. -/
abbrev Untouched (before after : LeafHistory) : Prop := Led before after (· = [])

variable (env) in
/-- The directory of the leaf is made before anything is touched. -/
def IsMade (name : Text) (before : LeafHistory) : Prop :=
  ∃ h directory, Untouched before h ∧ env h (.mkdir name directory) = .ok ()

/-- The leaf is created and used. -/
def Creates (name : Text) (t : List Deed) : Prop := ∃ u, Uses name u ∧ t = .creates name :: u

/-- The leaf is created, used and removed. -/
def CreatesAndRemoves (name : Text) (t : List Deed) : Prop :=
  ∃ u, Uses name u ∧ t = .creates name :: (u ++ [.removes name])

variable (env) in
structure Created (name : Text) (before after : LeafHistory) : Prop where
  made : IsMade env name before
  led : Led before after (Creates name)

variable (env) in
/-- Nothing was touched, or the new leaf was removed again. -/
inductive RolledBack (name : Text) (before after : LeafHistory) : Prop
  | untouched (led : Untouched before after)
  | removed (made : IsMade env name before) (led : Led before after (CreatesAndRemoves name))

theorem Created.use (h : Created env name before middle) (h' : Led middle after (Uses name)) :
    Created env name before after := by
  refine ⟨h.made, h.led.trans h' ?_⟩
  rintro t u ⟨v, hv, rfl⟩ hu
  exact ⟨v ++ u, hv.append hu, rfl⟩

theorem Created.remove (h : Created env name before middle)
    (h' : Led middle after fun t => ∃ u, Uses name u ∧ t = u ++ [.removes name]) :
    RolledBack env name before after := by
  refine .removed h.made (h.led.trans h' ?_)
  rintro t u ⟨v, hv, rfl⟩ ⟨w, hw, rfl⟩
  exact ⟨v ++ w, hv.append hw, by simp⟩

theorem IsMade.of_untouched (h : Untouched before middle) (h' : IsMade env name middle) :
    IsMade env name before := by
  obtain ⟨h'', directory, hled, hreply⟩ := h'
  exact ⟨h'', directory, h.quiet hled, hreply⟩

theorem Created.of_untouched (h : Untouched before middle) (h' : Created env name middle after) :
    Created env name before after :=
  ⟨h'.made.of_untouched h, h.quiet h'.led⟩

theorem RolledBack.of_untouched (h : Untouched before middle) (h' : RolledBack env name middle after) :
    RolledBack env name before after := by
  cases h' with
  | untouched led => exact .untouched (h.quiet led)
  | removed made led => exact .removed (made.of_untouched h) (h.quiet led)

end

/-! ### The creation by the backend -/

variable {before : LeafHistory}

theorem ends_mkdir (name : Text) (directory : ℤ) :
    (mkdir env name directory).Ends (fun _ after => Created env name before after)
      (fun _ after => Untouched before after) before := by
  show (orRaise (env before (.mkdir name directory))).Ends _ _
    (before ++ [⟨.mkdir name directory, env before (.mkdir name directory)⟩])
  cases hreply : env before (.mkdir name directory) with
  | ok u => exact ⟨⟨before, directory, .refl rfl, hreply⟩, _, rfl, [], .nil, rfl⟩
  | error e => exact ⟨_, rfl, rfl⟩

/-- What the `try` body of `create_leaf` leaves behind. -/
theorem ends_makeLeaf (rootFd : ℤ) (root : RootHandle) (name : Text) :
    (makeLeaf env rootFd root name).Ends
      (fun leaf after => (leaf.root = root ∧ leaf.name = name) ∧ Created env name before after)
      (fun e after => if e.2 then Created env name before after else Untouched before after)
      before := by
  rw [makeLeaf, Routine.ends_bind, within, Routine.ends_mapError]
  refine (ends_mkdir name rootFd).mono ?_ fun _ _ h => h
  rintro ⟨⟩ middle hmade
  rw [within, Routine.ends_mapError]
  have hinspected : Traces deeds (do
      let leafFd ← openDirectory env name rootFd
      runAndClose env leafFd (inspectLeaf env leafFd root name)
        "cgroup leaf inspection and descriptor cleanup both failed")
      (fun leaf t => Uses name t ∧ leaf.root = root ∧ leaf.name = name) fun _ t => Uses name t := by
    refine Traces.bind (traces_openDirectory name rootFd) ?_ fun _ _ h => h ▸ .nil
    rintro leafFd t rfl
    refine Traces.mono (traces_runAndClose (quietly_inspectLeaf leafFd root name)) ?_ ?_
    · rintro leaf t ⟨rfl, hleaf⟩
      exact ⟨.opening leafFd .nil, hleaf⟩
    · rintro e t rfl
      exact .opening leafFd .nil
  refine (hinspected middle).mono ?_ ?_
  · rintro leaf after ⟨made, rfl, huses, hleaf⟩
    exact ⟨hleaf, hmade.use ⟨made, rfl, huses⟩⟩
  · rintro e after ⟨made, rfl, huses⟩
    exact hmade.use ⟨made, rfl, huses⟩

variable (env q) in
/-- The leaf was created and its removal failed; the exception holds both failures. -/
inductive NotRemoved (name : Text) (before after : LeafHistory) (e : Failure) : Prop
  | inCreation {rootFd : ℤ} {setupError cleanupError : Failure} {h₁ h₂ : LeafHistory}
      (root : requireRoot env q.backend q.rootHandle before = (.ok rootFd, h₁))
      (setup : makeLeaf env rootFd q.rootHandle name h₁ = (.error (setupError, true), h₂))
      (removal : removeMade env q.backend rootFd q.rootHandle name h₂ = (.error cleanupError, after))
      (contains_setup : e.Contains setupError) (contains_cleanup : e.Contains cleanupError)
  | inConfiguration {leaf : LeafHandle} {setupError cleanupError : Failure} {h₁ h₂ : LeafHistory}
      (creation : createLeaf env q.backend q.rootHandle name before = (.ok leaf, h₁))
      (setup : configure env q leaf h₁ = (.error setupError, h₂))
      (removal : removeLeaf env q.backend q.rootHandle leaf h₂ = (.error cleanupError, after))
      (contains_setup : e.Contains setupError) (contains_cleanup : e.Contains cleanupError)

theorem contains_primary {raised : Raised} {primaryError cleanupError : Failure} :
    (Failure.mk raised [primaryError, cleanupError]).Contains primaryError :=
  .held List.mem_cons_self (.itself _)

theorem contains_cleanup {raised : Raised} {primaryError cleanupError : Failure} :
    (Failure.mk raised [primaryError, cleanupError]).Contains cleanupError :=
  .held (List.mem_cons_of_mem _ List.mem_cons_self) (.itself _)

/-- `create_leaf` returns the handle of a new leaf, or rolls back. -/
theorem ends_createLeaf (name : Text) :
    (createLeaf env q.backend q.rootHandle name).Ends
      (fun leaf after => leaf.name = name ∧ Created env name before after)
      (fun e after => RolledBack env name before after ∨
        Created env name before after ∧ NotRemoved env q name before after e) before := by
  rw [createLeaf, Routine.ends_bind]
  refine ((Routine.ends_self _ before).and (quietly_requireRoot q.rootHandle before)).mono ?_ ?_
  swap
  · rintro e after ⟨-, made, rfl, htrace⟩
    exact Or.inl (.untouched ⟨made, rfl, htrace⟩)
  rintro rootFd h₁ ⟨hroot, made, rfl, htrace, -⟩
  have hquiet : Untouched before (before ++ made) := ⟨made, rfl, htrace⟩
  rw [Routine.ends_bind, Routine.ends_attempt]
  refine ((Routine.ends_self _ (before ++ made)).and
    (ends_makeLeaf rootFd q.rootHandle name)).mono ?_ ?_
  · rintro leaf after ⟨-, hleaf, hcreated⟩
    exact ⟨hleaf.2, hcreated.of_untouched hquiet⟩
  · rintro ⟨setupError, isCreated⟩ h₂ ⟨hsetup, hleft⟩
    cases isCreated with
    | false => exact Or.inl (.untouched (hquiet.quiet hleft))
    | true =>
        have hcreated : Created env name before h₂ := Created.of_untouched hquiet hleft
        show (onError (removeMade env q.backend rootFd q.rootHandle name) _ >>= _).Ends _ _ h₂
        rw [Routine.ends_bind, Routine.ends_onError]
        refine ((Routine.ends_self _ h₂).and
          (traces_removeMade rootFd q.rootHandle name h₂)).mono ?_ ?_
        · rintro ⟨⟩ after ⟨-, later, rfl, hremoved⟩
          exact Or.inl (hcreated.remove ⟨later, rfl, [], .nil, hremoved⟩)
        · rintro cleanupError after ⟨hremoval, later, rfl, huses⟩
          exact Or.inr ⟨hcreated.use ⟨later, rfl, huses⟩,
            .inCreation hroot hsetup hremoval contains_primary contains_cleanup⟩

/-! ### What the configuration reads back -/

section

variable (env q) (leaf)

/-- The file of the leaf is read, and its text is in `P`. -/
def ReadsBack (filename : String) (P : Text → Prop) (before after : LeafHistory) : Prop :=
  ∃ observed, readLeaf env q.backend leaf filename before = (.ok observed, after) ∧ P observed

/-- The value is written in full, and the file then reads back as the value. -/
def Verified (filename : String) (value : Text) (before after : LeafHistory) : Prop :=
  ∃ (encoded : Bytes) (middle : LeafHistory), encodeAscii value = some encoded ∧
    writeLeaf env q.backend leaf filename value before = (.ok encoded.length, middle) ∧
    ReadsBack env q leaf filename (fun observed => singleLine (.text observed) filename = .ok value)
      middle after

def AllVerified : List (String × Text) → LeafHistory → LeafHistory → Prop
  | [], before, after => after = before
  | (filename, value) :: rest, before, after =>
      ∃ middle, Verified env q leaf filename value before middle ∧ AllVerified rest middle after

/-- The control files are verified, the effective sets are the selected ones, and the peak is zero. -/
inductive Configured (before after : LeafHistory) : Prop
  | mk {values : List (String × Text)} {h₁ h₂ h₃ : LeafHistory}
      (qualified : controlValues q = .ok values)
      (files : AllVerified env q leaf values before h₁)
      (cpus : ReadsBack env q leaf "cpuset.cpus.effective"
        (fun observed => parseIdSet (.text observed) "child CPU" = .ok q.selectedCpus) h₁ h₂)
      (mems : ReadsBack env q leaf "cpuset.mems.effective"
        (fun observed => parseIdSet (.text observed) "child memory-node" = .ok q.selectedMems) h₂ h₃)
      (peak : ReadsBack env q leaf "memory.peak"
        (fun observed => singleLine (.text observed) "memory.peak" = .ok ['0']) h₃ after)

end

theorem ends_orRaise {α : Type} {x : Except Raised α} {Q : α → LeafHistory → Prop}
    (h : ∀ a, x = .ok a → Q a before) : (orRaise x).Ends Q (fun _ _ => True) before := by
  cases x with
  | ok a => exact h a rfl
  | error e => trivial

/-- What is read is handed to a check that makes no calls. -/
theorem ends_readsBack {context filename : String} {check : Text → LeafRun Unit} {P : Text → Prop}
    (hcheck : ∀ observed h, (check observed).Ends (fun _ h' => h' = h ∧ P observed)
      (fun _ _ => True) h) :
    (backendCall context (readLeaf env q.backend leaf filename) >>= check).Ends
      (fun _ after => ReadsBack env q leaf filename P before after) (fun _ _ => True) before := by
  rw [Routine.ends_bind, backendCall, Routine.ends_mapError]
  refine (Routine.ends_self _ before).mono ?_ fun _ _ _ => trivial
  intro observed middle hread
  refine (hcheck observed middle).mono ?_ fun _ _ h => h
  rintro ⟨⟩ after ⟨rfl, hP⟩
  exact ⟨observed, hread, hP⟩

/-- The check that a file reads as a scalar. -/
theorem ends_checkScalar {filename : String} {value : Text} {e : Failure} (observed : Text)
    (h : LeafHistory) :
    (do
      let scalar ← orRaise (controlScalar (.text observed) filename)
      raiseIf (scalar ≠ value) e : LeafRun Unit).Ends
      (fun _ h' => h' = h ∧ singleLine (.text observed) filename = .ok value)
      (fun _ _ => True) h := by
  rw [Routine.ends_bind]
  refine ends_orRaise fun scalar hscalar => ?_
  rw [Routine.ends_raiseIf]
  refine ⟨fun _ => trivial, fun hsame => ⟨rfl, ?_⟩⟩
  rw [not_not] at hsame
  rw [← hsame]
  exact hscalar

theorem ends_writeAndVerify (filename : String) (value : Text) :
    (writeAndVerify env q leaf filename value).Ends
      (fun _ after => Verified env q leaf filename value before after) (fun _ _ => True) before := by
  rw [writeAndVerify, Routine.ends_bind, writeExact]
  split
  · trivial
  · rename_i encoded hencoded
    rw [Routine.ends_bind, backendCall, Routine.ends_mapError]
    refine (Routine.ends_self _ before).mono ?_ fun _ _ _ => trivial
    intro written middle hwritten
    rw [Routine.ends_raiseIf]
    refine ⟨fun _ => trivial, fun hlength => ?_⟩
    rw [not_not] at hlength
    rw [hlength] at hwritten
    refine (ends_readsBack ends_checkScalar).mono ?_ fun _ _ h => h
    rintro ⟨⟩ after hread
    exact ⟨encoded, middle, hencoded, hwritten, hread⟩

theorem ends_writeAll (values : List (String × Text)) :
    (writeAll env q leaf values).Ends
      (fun _ after => AllVerified env q leaf values before after) (fun _ _ => True) before := by
  induction values generalizing before with
  | nil => exact rfl
  | cons entry values ih =>
      obtain ⟨filename, value⟩ := entry
      rw [writeAll, Routine.ends_bind]
      refine (ends_writeAndVerify filename value).mono ?_ fun _ _ h => h
      intro _ middle hverified
      refine ih.mono ?_ fun _ _ h => h
      intro _ after hall
      exact ⟨middle, hverified, hall⟩

theorem ends_verifyEffectiveIdSet (filename : String) (expected : List ℕ) (context : String) :
    (verifyEffectiveIdSet env q leaf filename expected context).Ends
      (fun _ after => ReadsBack env q leaf filename
        (fun observed => parseIdSet (.text observed) context = .ok expected) before after)
      (fun _ _ => True) before := by
  refine ends_readsBack fun observed h => ends_orRaise fun _ hok => ⟨rfl, ?_⟩
  rw [checkEffectiveIdSet, Except.bind_eq_ok_iff] at hok
  obtain ⟨actual, hactual, hsame⟩ := hok
  rw [Except.raiseIf_eq_ok, not_not] at hsame
  rw [hactual, hsame]

theorem ends_configure :
    (configure env q leaf).Ends (fun _ after => Configured env q leaf before after)
      (fun _ _ => True) before := by
  rw [configure, Routine.ends_bind]
  refine ends_orRaise fun values hvalues => ?_
  rw [Routine.ends_bind]
  refine (ends_writeAll values).mono ?_ fun _ _ h => h
  intro _ h₁ hfiles
  rw [Routine.ends_bind]
  refine (ends_verifyEffectiveIdSet _ _ _).mono ?_ fun _ _ h => h
  intro _ h₂ hcpus
  rw [Routine.ends_bind]
  refine (ends_verifyEffectiveIdSet _ _ _).mono ?_ fun _ _ h => h
  intro _ h₃ hmems
  refine (ends_readsBack ends_checkScalar).mono ?_ fun _ _ h => h
  intro _ after hpeak
  exact ⟨hvalues, hfiles, hcpus, hmems, hpeak⟩

/-! ### The whole creation -/

theorem contains_asHostError {context : String} {e f : Failure} (h : e.Contains f) :
    (asHostError context e).Contains f := by
  rw [asHostError]
  split
  · exact h
  · split
    · exact .held List.mem_cons_self h
    · exact h

theorem NotRemoved.mono {name : Text} {after : LeafHistory} {e e' : Failure}
    (h : NotRemoved env q name before after e) (he : ∀ f, e.Contains f → e'.Contains f) :
    NotRemoved env q name before after e' := by
  cases h with
  | inCreation root setup removal hsetup hcleanup =>
      exact .inCreation root setup removal (he _ hsetup) (he _ hcleanup)
  | inConfiguration creation setup removal hsetup hcleanup =>
      exact .inConfiguration creation setup removal (he _ hsetup) (he _ hcleanup)

variable (env) in
/-- The lease is ready, of the new leaf, which was configured and verified. -/
structure Leased (leafName : Text) (attachment : Attachment q) (before after : LeafHistory)
    (lease : Lease q) : Prop where
  named : lease.leafName = leafName
  attached : lease.attachment = attachment
  ready : lease.state = .ready ∧ lease.closed = false
  configured : ∃ h₁ h₂, createLeaf env q.backend q.rootHandle leafName before =
    (.ok lease.leafHandle, h₁) ∧ Configured env q lease.leafHandle h₁ h₂ ∧ Untouched h₂ after

theorem ends_createConfiguredBindingCgroup (leafName : Text) (attachment : Attachment q) :
    (createConfiguredBindingCgroup env q leafName attachment).Ends
      (fun lease after => Created env leafName before after ∧
        Leased env leafName attachment before after lease)
      (fun e after => RolledBack env leafName before after ∨
        Created env leafName before after ∧ NotRemoved env q leafName before after e) before := by
  rw [createConfiguredBindingCgroup, Routine.ends_bind, Routine.ends_lift]
  refine ⟨fun _ _ => ?_, fun _ _ => Or.inl (.untouched (.refl rfl))⟩
  rw [Routine.ends_bind, backendCall, Routine.ends_mapError]
  refine ((Routine.ends_self _ before).and (ends_createLeaf leafName)).mono ?_ ?_
  swap
  · rintro e after ⟨-, hrolled | ⟨hcreated, hnot⟩⟩
    · exact Or.inl hrolled
    · exact Or.inr ⟨hcreated, hnot.mono fun _ => contains_asHostError⟩
  rintro leaf h₁ ⟨hcreation, rfl, hcreated⟩
  rw [Routine.ends_bind, Routine.ends_onError]
  refine ((Routine.ends_self _ h₁).and ((ends_configure).and (using_configure h₁))).mono ?_ ?_
  · rintro ⟨⟩ h₂ ⟨-, hconfigured, huses⟩
    have hpid : Untouched h₂ (h₂ ++ [⟨.getpid, env h₂ .getpid⟩]) := ⟨_, rfl, rfl⟩
    have hlater : Led h₁ (h₂ ++ [⟨.getpid, env h₂ .getpid⟩]) (Uses leaf.name) :=
      Led.trans huses hpid fun t u ht hu => by
        subst hu
        rwa [List.append_nil]
    exact ⟨hcreated.use hlater, rfl, rfl, ⟨rfl, rfl⟩, h₁, h₂, hcreation, hconfigured, hpid⟩
  · rintro setupError h₂ ⟨hsetup, -, huses⟩
    have hused : Created env leaf.name before h₂ := hcreated.use huses
    rw [removeAfterFailure, Routine.ends_bind, Routine.ends_onError]
    refine ((Routine.ends_self _ h₂).and (traces_removeLeaf q.rootHandle leaf h₂)).mono ?_ ?_
    · rintro ⟨⟩ after ⟨-, hremoved⟩
      exact Or.inl (hused.remove hremoved)
    · rintro cleanupError after ⟨hremoval, hfailed⟩
      exact Or.inr ⟨hused.use hfailed,
        .inConfiguration hcreation hsetup hremoval contains_primary contains_cleanup⟩

/-! ### The hierarchy -/

/-- A kernel answers anything, but it makes no directory where one is already. -/
structure Kernel where
  /-- The leaves before the first call. -/
  leaves : Multiset Text
  answer : LeafEnvironment
  fresh : ∀ (h : LeafHistory) (name : Text) (directory : ℤ),
    answer h (.mkdir name directory) = .ok () →
      name ∉ (trace deeds h).foldl (after Deed.effect) leaves

/-- The leaves that exist after the calls. -/
def Kernel.leavesAt (kernel : Kernel) (h : LeafHistory) : Multiset Text :=
  (trace deeds h).foldl (after Deed.effect) kernel.leaves

theorem settles_creates {name : Text} {held left : Multiset Text} {later : List Deed} :
    Settles Deed.effect held (.creates name :: later) left ↔
      Settles Deed.effect (name ::ₘ held) later left := settles_acquire rfl

theorem settles_removes {name : Text} {held left : Multiset Text} {later : List Deed} :
    Settles Deed.effect held (.removes name :: later) left ↔
      name ∈ held ∧ Settles Deed.effect (held.erase name) later left := settles_release rfl

theorem Creates.settles {name : Text} {t : List Deed} (h : Creates name t) (held : Multiset Text) :
    Settles Deed.effect held t (name ::ₘ held) := by
  obtain ⟨u, hu, rfl⟩ := h
  rw [settles_creates]
  exact settles_of_neutral hu.neutral

theorem CreatesAndRemoves.settles {name : Text} {t : List Deed} (h : CreatesAndRemoves name t)
    (held : Multiset Text) : Settles Deed.effect held t held := by
  obtain ⟨u, hu, rfl⟩ := h
  have hused : Settles Deed.effect (name ::ₘ held) u (name ::ₘ held) := settles_of_neutral hu.neutral
  rw [settles_creates]
  refine hused.append ?_
  rw [settles_removes]
  exact ⟨Multiset.mem_cons_self _ _, Multiset.erase_cons_head _ _⟩

variable (kernel : Kernel)

theorem Led.leavesAt {before after : LeafHistory} {P : List Deed → Prop} {left : Multiset Text}
    (h : Led before after P)
    (hP : ∀ t, P t → Settles Deed.effect (kernel.leavesAt before) t left) :
    kernel.leavesAt after = left := by
  obtain ⟨made, rfl, ht⟩ := h
  rw [Kernel.leavesAt, trace_append, List.foldl_append]
  exact (hP _ ht).foldl_after

theorem Untouched.leavesAt {before after : LeafHistory} (h : Untouched before after) :
    kernel.leavesAt after = kernel.leavesAt before :=
  Led.leavesAt kernel h fun t ht => by
    subst ht
    rfl

theorem IsMade.not_mem {name : Text} (h : IsMade kernel.answer name before) :
    name ∉ kernel.leavesAt before := by
  obtain ⟨h', directory, hled, hreply⟩ := h
  rw [← Untouched.leavesAt kernel hled]
  exact kernel.fresh h' name directory hreply

/-- Only a leaf that did not exist is opened, written or removed. -/
def OnlyTouches (leafName : Text) (before after : LeafHistory) : Prop :=
  Untouched before after ∨
    leafName ∉ kernel.leavesAt before ∧
      Led before after fun t => Creates leafName t ∨ CreatesAndRemoves leafName t

theorem Created.onlyTouches {name : Text} {after : LeafHistory}
    (h : Created kernel.answer name before after) : OnlyTouches kernel name before after := by
  obtain ⟨made, hmade, ht⟩ := h.led
  exact Or.inr ⟨h.made.not_mem kernel, made, hmade, Or.inl ht⟩

theorem RolledBack.onlyTouches {name : Text} {after : LeafHistory}
    (h : RolledBack kernel.answer name before after) : OnlyTouches kernel name before after := by
  cases h with
  | untouched led => exact Or.inl led
  | removed hmade led =>
      obtain ⟨made, heq, ht⟩ := led
      exact Or.inr ⟨hmade.not_mem kernel, made, heq, Or.inr ht⟩

theorem RolledBack.leavesAt {name : Text} {after : LeafHistory}
    (h : RolledBack kernel.answer name before after) :
    kernel.leavesAt after = kernel.leavesAt before := by
  cases h with
  | untouched led => exact Untouched.leavesAt kernel led
  | removed _ led => exact Led.leavesAt kernel led fun t ht => ht.settles _

end MosaicArchive.Cgroup
