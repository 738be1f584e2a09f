import MosaicArchive.Publication.Opening

/-!
No failure to close a descriptor is lost: an operation that returns closed everything it closed
without a failure, and an exception holds every failure to close that came before it.
-/

namespace MosaicArchive.Publication

open Utf8 (Text)
open CallHistory Resources
open Routine (raise raiseIf lift attempt)

def failureOf : Except SystemError Unit → Option SystemError
  | .ok () => none
  | .error e => some e

/-- The failure of a call that closes a descriptor. -/
def closeFault (e : Event) : Option SystemError :=
  match e with
  | ⟨.close _, reply⟩ => failureOf reply
  | _ => none

/-- The failures to close, in their order. -/
def closeFaults (made : History) : List SystemError := made.filterMap closeFault

@[simp] theorem closeFaults_nil : closeFaults [] = [] := rfl

@[simp] theorem closeFaults_append (made later : History) :
    closeFaults (made ++ later) = closeFaults made ++ closeFaults later := List.filterMap_append

theorem closeFaults_cons (e : Event) (made : History) :
    closeFaults (e :: made) = (closeFault e).toList ++ closeFaults made := by
  rw [closeFaults, List.filterMap_cons]
  cases closeFault e <;> rfl

/-- The exception, or one that it holds, names the failure among its cleanup failures. -/
inductive PrepError.Carries : PrepError → SystemError → Prop
  | failure {context : String} {primary : Option PrepError} {failures : List (String × SystemError)}
      {state : PublicationState} {prepared : Option PreparedLocalCorpus} {f : SystemError} :
      f ∈ failures.map Prod.snd → Carries (.cleanup context primary failures state prepared) f
  | planFailure {context : String} {primary : Option PrepError}
      {failures : List (String × SystemError)} {f : SystemError} :
      f ∈ failures.map Prod.snd → Carries (.planCleanup context primary failures) f
  | grouped {context : String} {state : PublicationState} {errors : List PrepError}
      {f : SystemError} : .system f ∈ errors → Carries (.group context state errors) f
  | primary {context : String} {p : PrepError} {failures : List (String × SystemError)}
      {state : PublicationState} {prepared : Option PreparedLocalCorpus} {f : SystemError} :
      Carries p f → Carries (.cleanup context (some p) failures state prepared) f
  | planPrimary {context : String} {p : PrepError} {failures : List (String × SystemError)}
      {f : SystemError} : Carries p f → Carries (.planCleanup context (some p) failures) f
  | member {context : String} {state : PublicationState} {errors : List PrepError} {p : PrepError}
      {f : SystemError} : p ∈ errors → Carries p f → Carries (.group context state errors) f
  | cause {message : String} {p : PrepError} {f : SystemError} :
      Carries p f → Carries (.preparation message (some p)) f

/-- Every failure to close among the calls is in the exception. -/
def CarriesAll (e : PrepError) (made : History) : Prop := ∀ f ∈ closeFaults made, e.Carries f

theorem reports_asPreparation {message : String} {e : PrepError} {f : SystemError}
    (h : e.Carries f) : (asPreparation message e).Carries f := by
  rw [asPreparation]
  split
  · exact .cause h
  · exact h

theorem reports_cleanupError {context : String} {x : Option PrepError}
    {failures : List (String × SystemError)} {domain : Domain} {state : PublicationState}
    {prepared : Option PreparedLocalCorpus} {f : SystemError}
    (h : f ∈ failures.map Prod.snd ∨ ∃ p ∈ x, p.Carries f) :
    (cleanupError context x failures domain state prepared).Carries f := by
  unfold cleanupError
  split
  · cases domain with
    | plan =>
        rcases h with h | ⟨p, hp, h⟩
        · exact .planFailure h
        · obtain rfl := Option.mem_def.mp hp
          exact .planPrimary h
    | corpus =>
        rcases h with h | ⟨p, hp, h⟩
        · exact .failure h
        · obtain rfl := Option.mem_def.mp hp
          exact .primary h
  · rcases h with h | ⟨p, hp, h⟩
    · obtain ⟨failure, hfailure, rfl⟩ := List.mem_map.mp h
      exact .grouped (List.mem_append_right _ (List.mem_map.mpr ⟨failure, hfailure, rfl⟩))
    · obtain rfl := Option.mem_def.mp hp
      exact .member (List.mem_append_left _ (by simp)) h

/-- What is raised holds the failures to close and what the first error held. -/
theorem reports_raiseOperationOrCleanup {context : String} {x : Option PrepError}
    {failures : List (String × SystemError)} {domain : Domain} {state : PublicationState}
    {prepared : Option PreparedLocalCorpus} {e : PrepError} {f : SystemError}
    (he : raiseOperationOrCleanup context x failures domain state prepared = .error e)
    (h : f ∈ failures.map Prod.snd ∨ ∃ p ∈ x, p.Carries f) : e.Carries f := by
  cases failures with
  | nil =>
      rcases h with h | ⟨p, hp, h⟩
      · cases h
      · obtain rfl := Option.mem_def.mp hp
        cases he
        exact h
  | cons failure failures =>
      obtain rfl := Except.error.inj he
      exact reports_cleanupError h

/-! ### The judgment -/

/-- No failure to close is lost. -/
def Reporting {α : Type} (p : Run α) : Prop :=
  Does p (fun _ made => closeFaults made = []) fun e made => CarriesAll e made

theorem closeFaults_of_untouched {made : History} (h : Untouched made) : closeFaults made = [] := by
  rw [closeFaults, List.filterMap_eq_nil_iff]
  rintro ⟨c, reply⟩ he
  have hneutral := h _ he
  cases c <;> first | rfl | cases hneutral

theorem reportsAll_of_eq_nil {e : PrepError} {made : History} (h : closeFaults made = []) :
    CarriesAll e made := by
  intro f hf
  rw [h] at hf
  cases hf

theorem CarriesAll.after {e : PrepError} {made later : History} (h : closeFaults made = [])
    (h' : CarriesAll e later) : CarriesAll e (made ++ later) := by
  intro f hf
  rw [closeFaults_append, h, List.nil_append] at hf
  exact h' f hf

namespace Reporting

variable {α β : Type} {p : Run α} {f : α → Run β}

theorem of_steadily {P : α → History → Prop} (h : Steadily p P) : Reporting p :=
  Does.mono h (fun _ _ h => closeFaults_of_untouched h.1.untouched)
    fun _ _ h => reportsAll_of_eq_nil (closeFaults_of_untouched h.1.untouched)

theorem pure {a : α} : Reporting (Pure.pure a) := Does.pure rfl

theorem lift {x : Except PrepError α} : Reporting (Routine.lift x) :=
  Does.lift (fun _ _ => rfl) fun _ _ => reportsAll_of_eq_nil rfl

theorem bind (hp : Reporting p) (hf : ∀ a, Reporting (f a)) : Reporting (p >>= f) := by
  refine Does.bind hp ?_ fun _ _ h => h
  intro a made hmade
  refine Does.mono (hf a) ?_ fun _ _ h => h.after hmade
  intro b later hlater
  rw [closeFaults_append, hmade, hlater, List.nil_append]

/-- A call that is not a close. -/
theorem call {env : Environment Call Reply} {c : Call} {g : Reply c → Except PrepError α}
    (hc : ∀ r, closeFault ⟨c, r⟩ = none) :
    Reporting (do let reply ← CallHistory.ask env c; Routine.lift (g reply)) := by
  refine Does.bind (Does.ask (Q := fun _ made => closeFaults made = []) (E := fun _ _ => False)
    fun r => ?_) ?_ fun _ _ h => h.elim
  · rw [closeFaults_cons, hc]
    rfl
  · intro r made hmade
    refine Does.lift (fun _ _ => ?_) fun _ _ => ?_
    · rwa [List.append_nil]
    · rw [List.append_nil]
      exact reportsAll_of_eq_nil hmade

end Reporting

/-! ### Cleanup -/

theorem closeDescriptors_faults (env : Environment Call Reply) (descriptors : List (String × ℕ)) :
    Does (closeDescriptors env descriptors)
      (fun failures made => closeFaults made = failures.map Prod.snd) fun _ _ => False := by
  induction descriptors with
  | nil => exact Does.pure rfl
  | cons descriptor descriptors ih =>
      refine Does.bind (Does.ask (Q := fun r made => made = [⟨.close descriptor.2, r⟩])
        fun _ => rfl) ?_ (E := fun _ _ => False) fun _ _ h => h
      rintro reply made rfl
      refine Does.bind ih ?_ fun _ _ h => h
      intro failures later hlater
      refine Does.pure ?_
      rw [List.append_nil, List.singleton_append, closeFaults_cons, hlater, List.map_append]
      cases reply <;> rfl

theorem raiseOperationOrCleanup_ne_ok {context : String} {x : Option PrepError}
    {failures : List (String × SystemError)} {domain : Domain} {state : PublicationState}
    {prepared : Option PreparedLocalCorpus} (hne : x = none → failures ≠ []) (u : Unit) :
    raiseOperationOrCleanup context x failures domain state prepared ≠ .ok u := by
  intro h
  cases failures with
  | cons failure failures => cases h
  | nil =>
      cases x with
      | none => exact hne rfl rfl
      | some p => cases h

/-- What is raised after the closes at the end of an operation holds their failures, those that
came before and what the first error held. -/
theorem cleanup_reports {α : Type} {env : Environment Call Reply} {context : String}
    {x : Option PrepError} {l : List (String × ℕ)} {b : List (String × SystemError)}
    {domain : Domain} {F : List SystemError}
    (hF : ∀ f ∈ F, f ∈ b.map Prod.snd ∨ ∃ p ∈ x, p.Carries f) (hne : x = none → b ≠ []) :
    Does (do
      let failures ← closeDescriptors env l
      let () ← lift (raiseOperationOrCleanup context x (b ++ failures) domain .notCommitted none)
      raise assertionError : Run α) (fun _ _ => False)
      fun e made => ∀ f ∈ F ++ closeFaults made, e.Carries f := by
  refine Does.bind (closeDescriptors_faults env l) ?_ fun _ _ h => h.elim
  intro failures made hmade
  refine Does.bind (Does.lift (Q := fun _ _ => False) ?_ (E := fun e later => later = [] ∧
    raiseOperationOrCleanup context x (b ++ failures) domain .notCommitted none = .error e)
    fun e he => ⟨rfl, he⟩) (fun _ _ h => h.elim) ?_
  · intro u hu
    refine raiseOperationOrCleanup_ne_ok (fun hx happend => ?_) u hu
    exact hne hx (List.append_eq_nil_iff.mp happend).1
  · rintro e later ⟨rfl, he⟩ f hf
    refine reports_raiseOperationOrCleanup he ?_
    rw [List.append_nil, hmade] at hf
    rw [List.map_append, List.mem_append]
    rcases List.mem_append.mp hf with hf | hf
    · rcases hF f hf with hbefore | hprimary
      · exact Or.inl (Or.inl hbefore)
      · exact Or.inr hprimary
    · exact Or.inl (Or.inr hf)

namespace Reporting

variable {α : Type} {env : Environment Call Reply}

theorem guarded {p : Run α} {onFailure : PrepError → PrepError} {context : String}
    {l : List (String × ℕ)} (hp : Reporting p)
    (honFailure : ∀ (e : PrepError) f, e.Carries f → (onFailure e).Carries f) :
    Reporting (guarded env p onFailure context l) := by
  refine Does.bind (Does.attempt hp) (E := fun _ _ => False) ?_ fun _ _ h => h.elim
  intro outcome made hmade
  cases outcome with
  | ok a =>
      refine Does.pure ?_
      rw [List.append_nil]
      exact hmade
  | error e =>
      refine Does.mono (cleanup_reports (b := []) (x := some (onFailure e))
        (F := closeFaults made) (fun f hf => ?_) nofun) (fun _ _ h => h.elim) ?_
      · exact Or.inr ⟨_, rfl, honFailure e f (hmade f hf)⟩
      · intro e' later he' f hf
        rw [closeFaults_append] at hf
        exact he' f hf

theorem openChecked {opening : Run ℕ} {check : ℕ → Run α} {onFailure : PrepError → PrepError}
    {context role : String} {l : List (String × ℕ)} (hopening : Reporting opening)
    (hcheck : ∀ d, Reporting (check d))
    (honFailure : ∀ (e : PrepError) f, e.Carries f → (onFailure e).Carries f) :
    Reporting (openChecked env opening check onFailure context role l) := by
  refine bind (guarded hopening honFailure) fun d => ?_
  exact bind (guarded (hcheck d) honFailure) fun a => pure

/-! ### The functions that open -/

theorem openAnchorDirectory (anchor : Text) (context : String) :
    Reporting (openAnchorDirectory env anchor context) := by
  refine bind (openChecked (call fun _ => rfl) (fun d => ?_) fun _ _ => reports_asPreparation)
    fun _ => pure
  exact of_steadily (requireDirectory_steadily context d)

theorem descend (context : String) (parts : List Text) (current : ℕ) :
    Reporting (descend env context parts current) := by
  induction parts generalizing current with
  | nil => exact pure
  | cons part parts ih =>
      refine bind (openChecked (call fun _ => rfl) (fun d => ?_) fun _ _ => reports_asPreparation)
        fun following => ?_
      · exact of_steadily (requireDirectory_steadily context d)
      · refine Does.bind (closeDescriptors_faults env _) ?_ fun _ _ h => h.elim
        intro failures made hmade
        split
        · rename_i hnone
          rw [hnone] at hmade
          refine Does.mono (ih following.1) ?_ ?_
          · intro d later hlater
            rw [closeFaults_append, hmade, hlater]
            rfl
          · intro e later hlater
            exact hlater.after hmade
        · rename_i hsome
          refine Does.mono (cleanup_reports (b := failures) (x := none)
            (F := closeFaults made) (fun f hf => ?_) fun _ => hsome) (fun _ _ h => h.elim) ?_
          · rw [hmade] at hf
            exact Or.inl hf
          · intro e later he f hf
            rw [closeFaults_append] at hf
            exact he f hf

theorem openDirectoryParts (anchor : Text) (parts : List Text) (context : String) :
    Reporting (openDirectoryParts env anchor parts context) := by
  refine bind (openAnchorDirectory anchor context) fun first => ?_
  refine bind (descend context parts first) fun current => ?_
  refine bind (guarded ?_ fun _ _ => reports_asPreparation) fun _ => pure
  exact of_steadily (requireDirectory_steadily context current)

theorem openRegularPath {platform : Platform} (path : Text) (context : String) :
    Reporting (openRegularPath env platform path context) := by
  refine bind lift fun _ => bind lift fun anchored => ?_
  refine bind (openDirectoryParts _ _ _) fun parent => ?_
  refine bind (guarded (of_steadily (fstat_steadily parent)) fun _ _ => reports_asPreparation)
    fun parentMetadata => ?_
  refine bind (openChecked (call fun _ => rfl) (fun d => ?_) fun _ _ => reports_asPreparation)
    fun opened => pure
  exact of_steadily (requireSingleRegular_steadily context d)

theorem createTemporaryOutput (parent : ℕ) : Reporting (createTemporaryOutput env parent) := by
  refine bind (openChecked (call fun _ => rfl) (fun d => ?_) fun _ _ => reports_asPreparation)
    fun opened => pure
  exact of_steadily (requireUnlinked_steadily d)

end Reporting

end MosaicArchive.Publication
