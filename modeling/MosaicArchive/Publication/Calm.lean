import MosaicArchive.Effects.Resources
import MosaicArchive.Publication.Prepare

/-!
What the operations before the commit do to descriptors and directory entries.
`Calmly` is a judgment with what is held before, after a return and after an
exception; nothing is linked, and the exceptions say nothing of a publication.
`Steadily` is for operations that neither open nor close anything.
-/

namespace MosaicArchive.Publication

open Utf8 (Text)
open FixedWidth CallHistory Resources
open Routine (raise raiseIf lift attempt)

/-! ### Events -/

abbrev Event := Σ c : Call, Reply c

def opened : Except SystemError ℕ → Effect ℕ
  | .ok descriptor => .acquires descriptor
  | .error _ => .neutral

/-- What a call does to the descriptors. A failed `close` has closed its descriptor. -/
def descriptorEffect (e : Event) : Effect ℕ :=
  match e with
  | ⟨.openPlan _, reply⟩ => opened reply
  | ⟨.openAnchor _, reply⟩ => opened reply
  | ⟨.openDirectory _ _, reply⟩ => opened reply
  | ⟨.openRegular _ _, reply⟩ => opened reply
  | ⟨.openTemporary _, reply⟩ => opened reply
  | ⟨.close descriptor, _⟩ => .releases descriptor
  | _ => .neutral

def LinkReply.hasLinked : LinkReply → Bool
  | linked => true
  | failed _ => false
  | cutOff _ hadLinked => hadLinked

/-- The descriptor, the directory and the name of the directory entry a call creates. -/
def created (e : Event) : Option (ℕ × ℕ × Text) :=
  match e with
  | ⟨.linkEmptyPath temporary directory name, reply⟩ =>
      if LinkReply.hasLinked reply then some (temporary, directory, name) else none
  | ⟨.linkDescriptorPath temporary directory name, reply⟩ =>
      if LinkReply.hasLinked reply then some (temporary, directory, name) else none
  | _ => none

/-- No descriptor is opened or closed. -/
def Untouched (made : History) : Prop := ∀ e ∈ made, descriptorEffect e = .neutral

/-- No directory entry is created. -/
def Uncreated (made : History) : Prop := ∀ e ∈ made, created e = none

theorem Untouched.append {made later : History} (h : Untouched made) (h' : Untouched later) :
    Untouched (made ++ later) := by
  intro e he
  rcases List.mem_append.mp he with he | he
  · exact h e he
  · exact h' e he

theorem Uncreated.append {made later : History} (h : Uncreated made) (h' : Uncreated later) :
    Uncreated (made ++ later) := by
  intro e he
  rcases List.mem_append.mp he with he | he
  · exact h e he
  · exact h' e he

/-- Neither descriptors nor directory entries change. -/
structure Steady (made : History) : Prop where
  untouched : Untouched made
  uncreated : Uncreated made

theorem steady_nil : Steady [] := ⟨by simp [Untouched], by simp [Uncreated]⟩

theorem Steady.append {made later : History} (h : Steady made) (h' : Steady later) :
    Steady (made ++ later) :=
  ⟨h.untouched.append h'.untouched, h.uncreated.append h'.uncreated⟩

theorem steady_singleton {e : Event} (h : descriptorEffect e = .neutral) (h' : created e = none) :
    Steady [e] :=
  ⟨by simpa [Untouched] using h, by simpa [Uncreated] using h'⟩

/-- From the descriptors held to those left, and no directory entry is created. -/
structure Calm (held : Multiset ℕ) (made : History) (left : Multiset ℕ) : Prop where
  settles : Settles descriptorEffect held made left
  uncreated : Uncreated made

theorem Calm.append {held middle left : Multiset ℕ} {made later : History} (h : Calm held made middle)
    (h' : Calm middle later left) : Calm held (made ++ later) left :=
  ⟨h.settles.append h'.settles, h.uncreated.append h'.uncreated⟩

theorem Calm.frame {held left : Multiset ℕ} {made : History} (h : Calm held made left)
    (others : Multiset ℕ) : Calm (held + others) made (left + others) :=
  ⟨h.settles.frame others, h.uncreated⟩

theorem Steady.calm {made : History} (h : Steady made) (held : Multiset ℕ) : Calm held made held :=
  ⟨settles_of_neutral h.untouched, h.uncreated⟩

theorem calm_nil (held : Multiset ℕ) : Calm held [] held := steady_nil.calm held

/-! ### Exceptions before the commit -/

/-- An exception that says nothing of a publication. -/
structure PrepError.Plain (e : PrepError) : Prop where
  state : e.state = .notCommitted
  record : e.record = none
  notCommitted : e.isNotCommitted = false
  nameUnavailable : e.isNameUnavailable = false

theorem plain_system (e : SystemError) : (PrepError.system e).Plain := ⟨rfl, rfl, rfl, rfl⟩

theorem plain_preparation (message : String) (cause : Option PrepError) :
    (PrepError.preparation message cause).Plain := ⟨rfl, rfl, rfl, rfl⟩

theorem plain_plan (message : String) (cause : Option PrepError) :
    (PrepError.plan message cause).Plain := ⟨rfl, rfl, rfl, rfl⟩

theorem plain_noProgress : PrepError.noProgress.Plain := ⟨rfl, rfl, rfl, rfl⟩

theorem plain_asPreparation {message : String} {e : PrepError} (h : e.Plain) :
    (asPreparation message e).Plain := by
  unfold asPreparation
  split
  · exact plain_preparation _ _
  · exact h

theorem plain_asPlanError {message : String} {e : PrepError} (h : e.Plain) :
    (asPlanError message e).Plain := by
  unfold asPlanError
  split
  · exact plain_plan _ _
  · exact h

theorem plain_cleanupError (context : String) (primary : Option PrepError)
    (failures : List (String × SystemError)) (domain : Domain) :
    (cleanupError context primary failures domain .notCommitted none).Plain := by
  unfold cleanupError
  split
  · cases domain with
    | plan => exact ⟨rfl, rfl, rfl, rfl⟩
    | corpus => exact ⟨rfl, rfl, rfl, rfl⟩
  · exact ⟨rfl, rfl, rfl, rfl⟩

theorem plain_raiseOperationOrCleanup {context : String} {primary : Option PrepError}
    {failures : List (String × SystemError)} {domain : Domain} {e : PrepError}
    (hprimary : ∀ e ∈ primary, e.Plain)
    (h : raiseOperationOrCleanup context primary failures domain .notCommitted none = .error e) :
    e.Plain := by
  cases failures with
  | nil =>
      cases primary with
      | none => cases h
      | some p =>
          cases h
          exact hprimary e rfl
  | cons failure failures =>
      cases h
      exact plain_cleanupError _ _ _ _

theorem plain_of_raiseIf {α : Type} {c : Prop} [Decidable c] {e e' : PrepError}
    {f : Unit → Except PrepError α} (he : e.Plain) (hf : ¬ c → f () = .error e' → e'.Plain)
    (h : (Except.raiseIf c e >>= f) = .error e') : e'.Plain := by
  unfold Except.raiseIf at h
  split at h
  · cases h
    exact he
  · rename_i hc
    exact hf hc h

theorem plain_assertionError : assertionError.Plain := plain_system _

/-! ### Operations without effect on descriptors and entries -/

/-- Whatever the end, nothing is opened, closed or linked; a returned value is in `P`. -/
def Steadily {α : Type} (p : Run α) (P : α → History → Prop) : Prop :=
  Does p (fun a made => Steady made ∧ P a made) fun e made => Steady made ∧ e.Plain

namespace Steadily

variable {α β : Type} {p : Run α} {f : α → Run β} {P P' : α → History → Prop}
  {R : β → History → Prop}

theorem mono (h : Steadily p P) (hP : ∀ a made, P a made → P' a made) : Steadily p P' := by
  refine Does.mono h ?_ fun _ _ h => h
  rintro a made ⟨hsteady, ha⟩
  exact ⟨hsteady, hP a made ha⟩

theorem pure {a : α} (h : P a []) : Steadily (Pure.pure a) P := Does.pure ⟨steady_nil, h⟩

theorem raise {e : PrepError} (h : e.Plain) : Steadily (Routine.raise e : Run α) P :=
  Does.raise ⟨steady_nil, h⟩

theorem lift {x : Except PrepError α} (hP : ∀ a, x = .ok a → P a [])
    (hE : ∀ e, x = .error e → e.Plain) : Steadily (Routine.lift x) P :=
  Does.lift (fun a ha => ⟨steady_nil, hP a ha⟩) fun e he => ⟨steady_nil, hE e he⟩

theorem bind (hp : Steadily p P)
    (hf : ∀ a made, P a made → Steadily (f a) fun b later => R b (made ++ later)) :
    Steadily (p >>= f) R := by
  refine Does.bind hp ?_ fun _ _ h => h
  rintro a made ⟨hsteady, ha⟩
  refine Does.mono (hf a made ha) ?_ ?_
  · rintro b later ⟨hlater, hb⟩
    exact ⟨hsteady.append hlater, hb⟩
  · rintro e later ⟨hlater, he⟩
    exact ⟨hsteady.append hlater, he⟩

theorem mapError {g : PrepError → PrepError} (hp : Steadily p P)
    (hg : ∀ e : PrepError, e.Plain → (g e).Plain) : Steadily (Routine.mapError g p) P := by
  refine Does.mapError (Does.mono hp (fun _ _ h => h) ?_)
  rintro e made ⟨hsteady, he⟩
  exact ⟨hsteady, hg e he⟩

theorem raiseIf {c : Prop} [Decidable c] {e : PrepError} {P : Unit → History → Prop} (he : e.Plain)
    (hP : ¬ c → P () []) : Steadily (Routine.raiseIf c e) P :=
  Does.raiseIf (fun _ => ⟨steady_nil, he⟩) fun hc => ⟨steady_nil, hP hc⟩

/-- A check, and what follows it. -/
theorem guard {c : Prop} [Decidable c] {e : PrepError} {f : Unit → Run β} (he : e.Plain)
    (h : ¬ c → Steadily (f ()) R) : Steadily (Routine.raiseIf c e >>= f) R := by
  refine Does.bind (Does.raiseIf (Q := fun _ made => ¬ c ∧ made = []) (fun _ => ⟨steady_nil, he⟩)
    fun hc => ⟨hc, rfl⟩) ?_ fun _ _ h => h
  rintro ⟨⟩ made ⟨hc, rfl⟩
  exact h hc

theorem ask {env : Environment Call Reply} {c : Call}
    (hc : ∀ r : Reply c, descriptorEffect ⟨c, r⟩ = .neutral ∧ created ⟨c, r⟩ = none) :
    Steadily (CallHistory.ask env c) fun r made => made = [⟨c, r⟩] :=
  Does.ask fun r => ⟨steady_singleton (hc r).1 (hc r).2, rfl⟩

/-- A call that fails with an exception of the system. -/
theorem call {env : Environment Call Reply} {c : Call} {g : Reply c → Except SystemError α}
    (hc : ∀ r : Reply c, descriptorEffect ⟨c, r⟩ = .neutral ∧ created ⟨c, r⟩ = none)
    (hP : ∀ r a, g r = .ok a → P a [⟨c, r⟩]) :
    Steadily (do let reply ← CallHistory.ask env c; orRaise (g reply)) P := by
  refine bind (ask hc) ?_
  rintro r made rfl
  refine lift ?_ ?_
  · intro a ha
    cases hr : g r with
    | error e => simp [hr, Except.mapError] at ha
    | ok b =>
        simp only [hr, Except.mapError, Except.ok.injEq] at ha
        subst ha
        exact hP r b hr
  · intro e he
    cases hr : g r with
    | error e' =>
        simp only [hr, Except.mapError, Except.error.injEq] at he
        subst he
        exact plain_system _
    | ok b => simp [hr, Except.mapError] at he

end Steadily

/-! ### Operations on descriptors before the commit -/

/-- From `held` to `left` after a return and `failed` after an exception; a returned value is in
`P`. -/
def Calmly {α : Type} (held : Multiset ℕ) (p : Run α) (left : α → Multiset ℕ) (failed : Multiset ℕ)
    (P : α → Prop) : Prop :=
  Does p (fun a made => Calm held made (left a) ∧ P a) fun e made => Calm held made failed ∧ e.Plain

theorem Steadily.calmly {α : Type} {p : Run α} {P : α → History → Prop} {R : α → Prop}
    (h : Steadily p P) (hP : ∀ a made, P a made → R a) (held : Multiset ℕ) :
    Calmly held p (fun _ => held) held R := by
  refine Does.mono h ?_ ?_
  · rintro a made ⟨hsteady, ha⟩
    exact ⟨hsteady.calm held, hP a made ha⟩
  · rintro e made ⟨hsteady, he⟩
    exact ⟨hsteady.calm held, he⟩

namespace Calmly

variable {α β : Type} {p : Run α} {f : α → Run β} {held failed : Multiset ℕ}
  {left : α → Multiset ℕ} {left' : β → Multiset ℕ} {P P' : α → Prop} {R : β → Prop}

theorem mono (h : Calmly held p left failed P) (hP : ∀ a, P a → P' a) :
    Calmly held p left failed P' := by
  refine Does.mono h ?_ fun _ _ h => h
  rintro a made ⟨hcalm, ha⟩
  exact ⟨hcalm, hP a ha⟩

theorem frame (h : Calmly held p left failed P) (others : Multiset ℕ) :
    Calmly (held + others) p (fun a => left a + others) (failed + others) P := by
  refine Does.mono h ?_ ?_
  · rintro a made ⟨hcalm, ha⟩
    exact ⟨hcalm.frame others, ha⟩
  · rintro e made ⟨hcalm, he⟩
    exact ⟨hcalm.frame others, he⟩

theorem pure {a : α} (hleft : left a = held) (h : P a) :
    Calmly held (Pure.pure a) left failed P :=
  Does.pure ⟨hleft ▸ calm_nil held, h⟩

theorem raise {e : PrepError} (h : e.Plain) : Calmly held (Routine.raise e) left held P :=
  Does.raise ⟨calm_nil held, h⟩

theorem lift {x : Except PrepError α} (hP : ∀ a, x = .ok a → P a)
    (hE : ∀ e, x = .error e → e.Plain) : Calmly held (Routine.lift x) (fun _ => held) held P :=
  Does.lift (fun a ha => ⟨calm_nil held, hP a ha⟩) fun e he => ⟨calm_nil held, hE e he⟩

theorem bind (hp : Calmly held p left failed P)
    (hf : ∀ a, P a → Calmly (left a) (f a) left' failed R) : Calmly held (p >>= f) left' failed R := by
  refine Does.bind hp ?_ fun _ _ h => h
  rintro a made ⟨hcalm, ha⟩
  refine Does.mono (hf a ha) ?_ ?_
  · rintro b later ⟨hlater, hb⟩
    exact ⟨hcalm.append hlater, hb⟩
  · rintro e later ⟨hlater, he⟩
    exact ⟨hcalm.append hlater, he⟩

theorem mapError {g : PrepError → PrepError} (hp : Calmly held p left failed P)
    (hg : ∀ e : PrepError, e.Plain → (g e).Plain) :
    Calmly held (Routine.mapError g p) left failed P := by
  refine Does.mapError (Does.mono hp (fun _ _ h => h) ?_)
  rintro e made ⟨hcalm, he⟩
  exact ⟨hcalm, hg e he⟩

/-- A check, and what follows it. -/
theorem guard {c : Prop} [Decidable c] {e : PrepError} {f : Unit → Run β} (he : e.Plain)
    (h : ¬ c → Calmly held (f ()) left' held R) :
    Calmly held (Routine.raiseIf c e >>= f) left' held R := by
  refine Does.bind (Does.raiseIf (Q := fun _ made => ¬ c ∧ made = []) (fun _ => ⟨calm_nil held, he⟩)
    fun hc => ⟨hc, rfl⟩) ?_ fun _ _ h => h
  rintro ⟨⟩ made ⟨hc, rfl⟩
  exact h hc

/-- A call that opens a descriptor. -/
theorem opening {env : Environment Call Reply} {c : Call} {g : Reply c → Except SystemError ℕ}
    (hc : ∀ r : Reply c, descriptorEffect ⟨c, r⟩ = opened (g r) ∧ created ⟨c, r⟩ = none) :
    Calmly held (do let reply ← ask env c; orRaise (g reply)) (fun d => d ::ₘ held) held
      fun _ => True := by
  refine Does.bind (Does.ask (Q := fun r made => made = [⟨c, r⟩]) fun _ => rfl) ?_ ?_
    (E := fun _ _ => False)
  · rintro r made rfl
    have huncreated : Uncreated [(⟨c, r⟩ : Event)] := by
      simpa [Uncreated] using (hc r).2
    refine Does.lift ?_ ?_
    · intro d hd
      cases hr : g r with
      | error e => simp [hr, Except.mapError] at hd
      | ok d' =>
          simp only [hr, Except.mapError, Except.ok.injEq] at hd
          subst hd
          have heffect : descriptorEffect ⟨c, r⟩ = .acquires d' := by rw [(hc r).1, hr]; rfl
          refine ⟨⟨?_, huncreated⟩, trivial⟩
          rw [List.append_nil, settles_acquire heffect]
          rfl
    · intro e he
      cases hr : g r with
      | error e' =>
          simp only [hr, Except.mapError, Except.error.injEq] at he
          subst he
          have heffect : descriptorEffect ⟨c, r⟩ = .neutral := by rw [(hc r).1, hr]; rfl
          exact ⟨(steady_singleton heffect (hc r).2).calm held, plain_system _⟩
      | ok d => simp [hr, Except.mapError] at he
  · exact fun _ _ h => h.elim

end Calmly

/-- The descriptors of a list with roles. -/
def heldBy (descriptors : List (String × ℕ)) : Multiset ℕ := (descriptors.map Prod.snd : List ℕ)

@[simp] theorem heldBy_nil : heldBy [] = 0 := rfl

@[simp] theorem heldBy_cons (descriptor : String × ℕ) (descriptors : List (String × ℕ)) :
    heldBy (descriptor :: descriptors) = descriptor.2 ::ₘ heldBy descriptors := rfl

@[simp] theorem heldBy_append (first second : List (String × ℕ)) :
    heldBy (first ++ second) = heldBy first + heldBy second := by
  simp [heldBy]

theorem closeDescriptors_does (env : Environment Call Reply) (descriptors : List (String × ℕ)) :
    Does (closeDescriptors env descriptors) (fun _ made => Calm (heldBy descriptors) made 0)
      fun _ _ => False := by
  induction descriptors with
  | nil => exact Does.pure (calm_nil 0)
  | cons descriptor descriptors ih =>
      refine Does.bind (Does.ask (Q := fun r made => made = [⟨.close descriptor.2, r⟩])
        fun _ => rfl) ?_ (E := fun _ _ => False) fun _ _ h => h
      rintro reply made rfl
      refine Does.bind ih ?_ fun _ _ h => h
      intro failures later hlater
      refine Does.pure ?_
      rw [List.append_nil]
      have hclose : Calm (heldBy (descriptor :: descriptors))
          [(⟨.close descriptor.2, reply⟩ : Event)] (heldBy descriptors) := by
        have heffect : descriptorEffect ⟨.close descriptor.2, reply⟩ = .releases descriptor.2 := rfl
        refine ⟨?_, by simp [Uncreated, created]⟩
        rw [settles_release heffect]
        simp
      exact hclose.append hlater

/-- The descriptors are closed and the error is raised. -/
theorem abandon_calmly {α : Type} (env : Environment Call Reply) {context : String}
    {x : Option PrepError} {l : List (String × ℕ)} {domain : Domain}
    (hprimary : ∀ e ∈ x, e.Plain) {L : α → Multiset ℕ} {P : α → Prop} :
    Calmly (heldBy l) (abandon env context x l domain) L 0 P := by
  refine Does.bind (closeDescriptors_does env l) ?_ fun _ _ h => h.elim
  intro failures made hmade
  refine Does.bind (Does.lift (Q := fun _ later => later = []) (fun _ _ => rfl) (E := fun e later =>
    later = [] ∧ e.Plain) fun e he => ⟨rfl, plain_raiseOperationOrCleanup hprimary he⟩) ?_ ?_
  · rintro ⟨⟩ later rfl
    refine Does.raise ?_
    simpa using ⟨hmade, plain_assertionError⟩
  · rintro e later ⟨rfl, he⟩
    simpa using ⟨hmade, he⟩

theorem guarded_calmly {α : Type} {env : Environment Call Reply} {p : Run α}
    {onFailure : PrepError → PrepError} {context : String} {l : List (String × ℕ)}
    {L : α → Multiset ℕ} {P : α → Prop} (hp : Calmly (heldBy l) p L (heldBy l) P)
    (honFailure : ∀ e : PrepError, e.Plain → (onFailure e).Plain) :
    Calmly (heldBy l) (guarded env p onFailure context l) L 0 P := by
  refine Does.bind (Does.attempt hp) (E := fun _ _ => False) ?_ fun _ _ h => h.elim
  intro outcome made hmade
  cases outcome with
  | ok a =>
      refine Does.pure ?_
      rw [List.append_nil]
      exact hmade
  | error e =>
      refine Does.mono (abandon_calmly env (L := L) (P := P) (x := some (onFailure e))
        ?_) ?_ ?_
      · intro e' he'
        obtain rfl := Option.mem_some_iff.mp he'
        exact honFailure e hmade.2
      · rintro a later ⟨hlater, ha⟩
        exact ⟨hmade.1.append hlater, ha⟩
      · rintro e' later ⟨hlater, he'⟩
        exact ⟨hmade.1.append hlater, he'⟩

theorem openChecked_calmly {α : Type} {env : Environment Call Reply} {opening : Run ℕ}
    {check : ℕ → Run α} {onFailure : PrepError → PrepError} {context role : String}
    {l : List (String × ℕ)} {P : ℕ → α → Prop}
    (hopening : Calmly (heldBy l) opening (fun d => d ::ₘ heldBy l) (heldBy l) fun _ => True)
    (hcheck : ∀ d, Steadily (check d) fun a _ => P d a)
    (honFailure : ∀ e : PrepError, e.Plain → (onFailure e).Plain) :
    Calmly (heldBy l) (openChecked env opening check onFailure context role l)
      (fun r => r.1 ::ₘ heldBy l) 0 fun r => P r.1 r.2 := by
  refine Calmly.bind (guarded_calmly hopening honFailure) fun d _ => ?_
  refine Calmly.bind (guarded_calmly (l := (role, d) :: l)
    ((hcheck d).calmly (R := P d) (fun _ _ h => h) _) honFailure) fun a ha => ?_
  exact Calmly.pure rfl ha

end MosaicArchive.Publication
