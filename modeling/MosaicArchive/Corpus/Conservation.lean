import MosaicArchive.Corpus.Opening
import MosaicArchive.Effects.Resources

/-!
Which descriptors the functions of `Corpus/Opening` leave open. They keep account of every
descriptor as long as three things do not fail: the look at a freshly opened anchor, the close
of a directory whose successor is open, and the last close after a regular file was opened.
-/

namespace MosaicArchive.Corpus

open CallHistory Resources
open Publication (StatResult SystemError)
open Routine (raise raiseIf lift attempt mapError Ends)

/-! ### Descriptors -/

def acquired : Except SystemError ℕ → Effect ℕ
  | .ok descriptor => .acquires descriptor
  | .error _ => .neutral

/-- What a call does to the descriptors. A failed `close` counts as a close. -/
def descriptorEffect (e : Event) : Effect ℕ :=
  match e with
  | ⟨.openAnchor _, reply⟩ => acquired reply
  | ⟨.openDirectory _ _, reply⟩ => acquired reply
  | ⟨.openRegular _ _, reply⟩ => acquired reply
  | ⟨.close descriptor, _⟩ => .releases descriptor
  | ⟨.fstat _, _⟩ => .neutral

/-- From no descriptor to these, along the calls. -/
abbrev Holds (made : History) (held : Multiset ℕ) : Prop := Settles descriptorEffect 0 made held

/-- A kernel answers anything, but it gives a new descriptor no number that is in use. -/
structure Kernel where
  answer : Environment Call Reply
  fresh : ∀ (h : History) (c : Call) (descriptor : ℕ),
    descriptorEffect ⟨c, answer h c⟩ = .acquires descriptor →
      descriptor ∉ h.foldl (after descriptorEffect) 0

/-- The function returns with the descriptors of its result open, or raises with none: every other
descriptor it opened was closed exactly once, and nothing else was closed. -/
def Conserves {α : Type} (p : Run α) (kept : α → Multiset ℕ) (h : History) : Prop :=
  p.Ends (fun a made => Holds made (kept a)) (fun _ made => Holds made 0) h

/-- The directory that a loop is to close. -/
def Walk.held (w : Walk) : Multiset ℕ := if w.ownsCurrent then {w.current} else 0

section

variable {h : History} {held : Multiset ℕ} {d : ℕ} {e : Event}

theorem Holds.opened (hh : Holds h held) (he : descriptorEffect e = .acquires d) :
    Holds (h ++ [e]) (d ::ₘ held) :=
  hh.append ((settles_acquire he).mpr rfl)

theorem Holds.closed (hh : Holds h (d ::ₘ held)) (he : descriptorEffect e = .releases d) :
    Holds (h ++ [e]) held := by
  refine hh.append ((settles_release he).mpr ⟨Multiset.mem_cons_self d held, ?_⟩)
  rw [settles_nil, Multiset.erase_cons_head]

theorem Holds.unchanged (hh : Holds h held) (he : descriptorEffect e = .neutral) :
    Holds (h ++ [e]) held :=
  hh.append ((settles_neutral he).mpr rfl)

theorem Kernel.not_mem (kernel : Kernel) (hh : Holds h held) {c : Call}
    (he : descriptorEffect ⟨c, kernel.answer h c⟩ = .acquires d) : d ∉ held := by
  have hfresh := kernel.fresh h c d he
  rwa [hh.foldl_after] at hfresh

end

/-! ### Single calls -/

section

variable {env : Environment Call Reply} {h : History} {E : OpenError → History → Prop}

/-- The history after a call. -/
def log (env : Environment Call Reply) (h : History) (c : Call) : History := h ++ [⟨c, env h c⟩]

theorem ends_call {α : Type} {c : Call} {g : Reply c → Except SystemError α}
    {f : SystemError → OpenError} {Q : α → History → Prop} :
    (do let reply ← ask env c; lift ((g reply).mapError f) : Run α).Ends Q E h ↔
      (∀ a, g (env h c) = .ok a → Q a (log env h c)) ∧
      ∀ e, g (env h c) = .error e → E (f e) (log env h c) := by
  show (lift ((g (env h c)).mapError f)).Ends Q E (log env h c) ↔ _
  cases g (env h c) <;> simp [Except.mapError]

theorem ends_openAnchor {anchor : PyText} {error : SystemError → OpenError}
    {Q : ℕ → History → Prop} :
    (openAnchor env anchor error).Ends Q E h ↔
      (∀ d, env h (.openAnchor anchor) = .ok d → Q d (log env h (.openAnchor anchor))) ∧
      ∀ e, env h (.openAnchor anchor) = .error e →
        E (except error e) (log env h (.openAnchor anchor)) :=
  @ends_call env h E ℕ (.openAnchor anchor) id _ Q

theorem ends_openDirectory {part : PyText} {directory : ℕ} {error : SystemError → OpenError}
    {Q : ℕ → History → Prop} :
    (openDirectory env part directory error).Ends Q E h ↔
      (∀ d, env h (.openDirectory part directory) = .ok d →
        Q d (log env h (.openDirectory part directory))) ∧
      ∀ e, env h (.openDirectory part directory) = .error e →
        E (except error e) (log env h (.openDirectory part directory)) :=
  @ends_call env h E ℕ (.openDirectory part directory) id _ Q

theorem ends_openRegular {part : PyText} {directory : ℕ} {error : SystemError → OpenError}
    {Q : ℕ → History → Prop} :
    (openRegular env part directory error).Ends Q E h ↔
      (∀ d, env h (.openRegular part directory) = .ok d →
        Q d (log env h (.openRegular part directory))) ∧
      ∀ e, env h (.openRegular part directory) = .error e →
        E (except error e) (log env h (.openRegular part directory)) :=
  @ends_call env h E ℕ (.openRegular part directory) id _ Q

theorem ends_fstatOr {d : ℕ} {error : SystemError → OpenError} {Q : StatResult → History → Prop} :
    (fstatOr env d error).Ends Q E h ↔
      (∀ m, env h (.fstat d) = .ok m → Q m (log env h (.fstat d))) ∧
      ∀ e, env h (.fstat d) = .error e → E (error e) (log env h (.fstat d)) :=
  @ends_call env h E StatResult (.fstat d) id _ Q

theorem ends_close {d : ℕ} {Q : Unit → History → Prop} :
    (close env d).Ends Q E h ↔
      (∀ u, env h (.close d) = .ok u → Q u (log env h (.close d))) ∧
      ∀ e, env h (.close d) = .error e → E (.system e) (log env h (.close d)) :=
  @ends_call env h E Unit (.close d) id _ Q

theorem Holds.log_close {held : Multiset ℕ} {d : ℕ} (hh : Holds h (d ::ₘ held)) :
    Holds (log env h (.close d)) held :=
  hh.closed rfl

theorem Holds.log_close_other {d d' : ℕ} (hh : Holds h (d' ::ₘ {d})) :
    Holds (log env h (.close d)) {d'} := by
  have hswap : d' ::ₘ ({d} : Multiset ℕ) = d ::ₘ {d'} := Multiset.cons_swap d' d 0
  exact Holds.log_close (hswap ▸ hh)

theorem Holds.log_fstat {held : Multiset ℕ} (hh : Holds h held) (d : ℕ) :
    Holds (log env h (.fstat d)) held :=
  hh.unchanged rfl

/-- After an attempt to open, by its outcome. -/
theorem Holds.log_open {held : Multiset ℕ} {c : Call} {reply : Except SystemError ℕ}
    (hh : Holds h held) (hc : descriptorEffect ⟨c, env h c⟩ = acquired reply) :
    (∀ d, reply = .ok d → Holds (log env h c) (d ::ₘ held)) ∧
      ∀ e, reply = .error e → Holds (log env h c) held := by
  constructor
  · rintro d rfl
    exact hh.opened hc
  · rintro e rfl
    exact hh.unchanged hc

/-- Whether the close succeeds or not. -/
theorem ends_close_of {d : ℕ} {Q : Unit → History → Prop}
    (hQ : Q () (log env h (.close d))) (hE : ∀ e, E e (log env h (.close d))) :
    (close env d).Ends Q E h :=
  ends_close.mpr ⟨fun _ _ => hQ, fun e _ => hE (.system e)⟩

/-- The close of the directory of a loop, whether it succeeds or not. -/
theorem ends_closeOwned_of {w : Walk} {others : Multiset ℕ} {Q : Unit → History → Prop}
    (hh : Holds h (others + w.held)) (hQ : ∀ h', Holds h' others → Q () h')
    (hE : ∀ e h', Holds h' others → E e h') : (closeOwned env w).Ends Q E h := by
  obtain ⟨current, owns⟩ := w
  cases owns with
  | false => exact hQ h (by simpa [Walk.held] using hh)
  | true =>
      have hclosed : Holds (log env h (.close current)) others := by
        apply Holds.log_close
        rwa [Walk.held, if_pos rfl, add_comm, Multiset.singleton_add] at hh
      exact ends_close_of (hQ _ hclosed) fun e => hE e _ hclosed

theorem ends_closeOwned_raise {w : Walk} {Q : Unit → History → Prop} (hh : Holds h w.held)
    (hQ : ∀ h', Holds h' 0 → Q () h') :
    (closeOwned env w).Ends Q (fun _ made => Holds made 0) h :=
  ends_closeOwned_of ((zero_add w.held).symm ▸ hh) hQ fun _ _ h => h

end

/-! ### The loop -/

variable (kernel : Kernel)

/-- No close of the loop fails: a directory whose successor is open can be closed. `final` is
required of what comes after the loop. -/
def HandsOver (final : Walk → History → Prop) : List PyText → Walk → History → Prop
  | [], w, h => final w h
  | part :: parts, w, h =>
      ∀ following, kernel.answer h (.openDirectory part w.current) = .ok following →
        let h' := log kernel.answer h (.openDirectory part w.current)
        if w.ownsCurrent then
          kernel.answer h' (.close w.current) = .ok () ∧
            HandsOver final parts ⟨following, true⟩ (log kernel.answer h' (.close w.current))
        else HandsOver final parts ⟨following, true⟩ h'

/-- A handler that closes the directory of the loop when the body failed. -/
def ClosesOnError {α β : Type} (finish : Except (OpenError × Walk) β → Run α) : Prop :=
  ∀ e w, finish (.error (e, w)) = (do closeOwned kernel.answer w; raise e)

variable {kernel}

/-- A directory that is closed a second time, after its successor was opened. -/
theorem not_conserves_again {α : Type} {h : History} {current following : ℕ} {e : OpenError}
    {kept : α → Multiset ℕ} (hh : Holds h {following}) (hne : following ≠ current) :
    ¬ Conserves (do closeOwned kernel.answer ⟨current, true⟩; raise e) kept h := by
  intro hconserves
  have hnot (left : Multiset ℕ) : ¬ Holds (log kernel.answer h (.close current)) left :=
    Settles.not_release hh rfl (by simpa using hne.symm) left
  rw [Conserves, Routine.ends_bind, closeOwned, if_pos rfl, ends_close] at hconserves
  cases hreply : kernel.answer h (.close current) with
  | ok u => exact hnot 0 (hconserves.1 u hreply)
  | error e' => exact hnot 0 (hconserves.2 e' hreply)

/-- The close of a directory whose successor is open: if it fails, the handler closes again. -/
theorem ends_closeOwned_iff {α β : Type} {finish : Except (OpenError × Walk) β → Run α}
    (hfinish : ClosesOnError kernel finish) {kept : α → Multiset ℕ} {R : History → Prop} {h : History}
    {current following : ℕ} (hh : Holds h (following ::ₘ {current})) (hne : following ≠ current) :
    (closeOwned kernel.answer ⟨current, true⟩).Ends (fun _ h' => R h')
        (fun e h' => Conserves (finish (.error (e, ⟨current, true⟩))) kept h') h ↔
      kernel.answer h (.close current) = .ok () ∧ R (log kernel.answer h (.close current)) := by
  have hclosed : Holds (log kernel.answer h (.close current)) {following} := hh.log_close_other
  rw [closeOwned, if_pos rfl, ends_close]
  constructor
  · rintro ⟨hok, herror⟩
    cases hreply : kernel.answer h (.close current) with
    | ok u => exact ⟨rfl, hok u hreply⟩
    | error e =>
        have hagain := herror e hreply
        rw [hfinish] at hagain
        exact absurd hagain (not_conserves_again hclosed hne)
  · rintro ⟨hreply, hR⟩
    refine ⟨fun _ _ => hR, fun e he => ?_⟩
    rw [hreply] at he
    cases he

/-- What is conserved by a `try` statement that starts with the loop. -/
theorem conserves_descend_iff {α β : Type} {finish : Except (OpenError × Walk) β → Run α}
    (hfinish : ClosesOnError kernel finish) {error : SystemError → OpenError} {k : Walk → Body β}
    {kept : α → Multiset ℕ} {final : Walk → History → Prop}
    {parts : List PyText} {w : Walk} {h : History}
    (hfinal : ∀ w' h', (w.ownsCurrent = true → w'.ownsCurrent = true) → Holds h' w'.held →
      (Conserves (attempt (k w') >>= finish) kept h' ↔ final w' h')) (hh : Holds h w.held) :
    Conserves (attempt (descend kernel.answer error parts w >>= k) >>= finish) kept h ↔
      HandsOver kernel final parts w h := by
  induction parts generalizing w h with
  | nil => exact hfinal w h id hh
  | cons part parts ih =>
      have hrest (following : ℕ) (h' : History) (hh' : Holds h' {following}) :=
        @ih ⟨following, true⟩ h' (fun w' h' howns => hfinal w' h' fun _ => howns rfl) hh'
      obtain ⟨hgoes, hfails⟩ :=
        @Holds.log_open kernel.answer h w.held (.openDirectory part w.current) _ hh rfl
      simp only [Conserves, Routine.ends_bind, Routine.ends_attempt] at hrest
      simp only [Conserves, Routine.ends_bind, Routine.ends_attempt, descend, within,
        Routine.ends_mapError, ends_openDirectory, HandsOver]
      rw [and_iff_left]
      · refine forall_congr' fun following => forall_congr' fun hfollowing => ?_
        have hboth := hgoes following hfollowing
        have hne : following ∉ w.held := kernel.not_mem hh (by rw [hfollowing]; rfl)
        obtain ⟨current, owns⟩ := w
        cases owns with
        | false => exact hrest following _ hboth
        | true =>
            rw [if_pos rfl]
            refine Iff.trans (ends_closeOwned_iff hfinish hboth (by simpa [Walk.held] using hne)) ?_
            exact and_congr_right fun _ => hrest following _ hboth.log_close_other
      · intro e he
        rw [hfinish, Routine.ends_bind]
        exact ends_closeOwned_raise (hfails e he) fun _ h => h

/-! ### The anchor -/

variable (kernel) in
/-- The look at the anchor does not fail; `next` is required of what comes after it. -/
def AnchorChecked (anchor : PyText) (next : ℕ → History → Prop) : Prop :=
  ∀ first, kernel.answer [] (.openAnchor anchor) = .ok first →
    let h := log kernel.answer [] (.openAnchor anchor)
    ∃ metadata, kernel.answer h (.fstat first) = .ok metadata ∧
      (metadata.isDirectory = true → next first (log kernel.answer h (.fstat first)))

theorem conserves_anchor_iff {α : Type} {anchor : PyText} {context : String} {errorType : ErrorType}
    {f : ℕ → Run α} {kept : α → Multiset ℕ} {next : ℕ → History → Prop}
    (hf : ∀ first h, Holds h {first} → (Conserves (f first) kept h ↔ next first h)) :
    Conserves (openAnchorDirectory kernel.answer anchor context errorType >>= f) kept [] ↔
      AnchorChecked kernel anchor next := by
  obtain ⟨hgoes, hfails⟩ := @Holds.log_open kernel.answer [] 0 (.openAnchor anchor) _ rfl rfl
  simp only [Conserves, Routine.ends_bind, openAnchorDirectory, ends_openAnchor, ends_fstatOr,
    AnchorChecked]
  refine Iff.trans (and_iff_left hfails) ?_
  refine forall_congr' fun first => forall_congr' fun hfirst => ?_
  have hopened := hgoes first hfirst
  have hlooked := @Holds.log_fstat kernel.answer _ _ hopened first
  cases hreply : kernel.answer (log kernel.answer [] (.openAnchor anchor)) (.fstat first) with
  | error e =>
      constructor
      · rintro ⟨-, hraised⟩
        have hzero : ({first} : Multiset ℕ) = 0 := hlooked.unique (hraised e rfl)
        exact absurd hzero (Multiset.singleton_ne_zero first)
      · rintro ⟨metadata, hok, -⟩
        cases hok
  | ok metadata =>
      have hdirectory : (if ¬ metadata.isDirectory = true then do
            close kernel.answer first
            raise (.rejected errorType (context ++ " is not a directory") none)
          else pure first : Run ℕ).Ends (fun b h' => Conserves (f b) kept h') (fun _ made => Holds made 0)
            (log kernel.answer (log kernel.answer [] (.openAnchor anchor)) (.fstat first)) ↔
          (metadata.isDirectory = true →
            next first (log kernel.answer (log kernel.answer [] (.openAnchor anchor))
              (.fstat first))) := by
        by_cases hdir : metadata.isDirectory = true
        · rw [if_neg (not_not.mpr hdir), Routine.ends_pure, hf first _ hlooked]
          exact ⟨fun h _ => h, fun h => h hdir⟩
        · rw [if_pos hdir, Routine.ends_bind]
          exact ⟨fun _ h => absurd h hdir, fun _ => ends_close_of hlooked.log_close
            fun _ => hlooked.log_close⟩
      constructor
      · rintro ⟨hok, -⟩
        exact ⟨metadata, rfl, hdirectory.mp (hok metadata rfl)⟩
      · rintro ⟨_, hmetadata, hnext⟩
        cases hmetadata
        refine ⟨?_, fun e he => by cases he⟩
        rintro _ hm
        cases hm
        exact hdirectory.mpr hnext

/-! ### After the loop -/

theorem conserves_directoryBody_iff {parts : List PyText} {context : String} {errorType : ErrorType}
    {first : ℕ} {h : History} (hh : Holds h {first}) :
    Conserves (closingOnError kernel.answer
        (directoryBody kernel.answer parts context errorType first)) (fun d => {d}) h ↔
      HandsOver kernel (fun _ _ => True) parts ⟨first, true⟩ h := by
  refine conserves_descend_iff (fun e w => rfl) ?_ hh
  intro w h howns hh
  have hheld : w.held = {w.current} := if_pos (howns rfl)
  rw [iff_true, Conserves, Routine.ends_bind, Routine.ends_attempt]
  simp only [within, Routine.ends_bind, Routine.ends_mapError, fstat, ends_fstatOr,
    Routine.ends_raiseIf, Routine.ends_pure]
  have hlooked := @Holds.log_fstat kernel.answer _ _ hh w.current
  refine ⟨fun m _ => ⟨fun _ => ends_closeOwned_raise hlooked fun _ h => h, fun _ => ?_⟩,
    fun e _ => ends_closeOwned_raise hlooked fun _ h => h⟩
  rw [← hheld]
  exact hlooked

variable (kernel) in
/-- If the last component is opened and is a regular file, its directory can be closed. -/
def Releases (part : PyText) (w : Walk) (h : History) : Prop :=
  w.ownsCurrent = true →
    ∀ descriptor, kernel.answer h (.openRegular part w.current) = .ok descriptor →
      let h' := log kernel.answer h (.openRegular part w.current)
      ∀ metadata, kernel.answer h' (.fstat descriptor) = .ok metadata →
        metadata.isRegular = true →
          kernel.answer (log kernel.answer h' (.fstat descriptor)) (.close w.current) = .ok ()

/-- The last close, when the result is not to be lost. -/
theorem ends_closeOwned_keep_iff {w : Walk} {d : ℕ} {h : History} (hh : Holds h (d ::ₘ w.held)) :
    (closeOwned kernel.answer w).Ends (fun _ made => Holds made {d}) (fun _ made => Holds made 0) h ↔
      (w.ownsCurrent = true → kernel.answer h (.close w.current) = .ok ()) := by
  obtain ⟨current, owns⟩ := w
  cases owns with
  | false => exact ⟨nofun, fun _ => hh⟩
  | true =>
      have hclosed : Holds (log kernel.answer h (.close current)) {d} := Holds.log_close_other hh
      rw [closeOwned, if_pos rfl, ends_close]
      constructor
      · rintro ⟨-, herror⟩ -
        cases hreply : kernel.answer h (.close current) with
        | ok u => rfl
        | error e =>
            have hzero : ({d} : Multiset ℕ) = 0 := hclosed.unique (herror e hreply)
            exact absurd hzero (Multiset.singleton_ne_zero d)
      · intro hreply
        refine ⟨fun _ _ => hclosed, fun e he => ?_⟩
        rw [hreply rfl] at he
        cases he

theorem conserves_openRegular_iff {part : PyText} {fileError : SystemError → OpenError}
    {irregular : OpenError} {w : Walk} {h : History} (hh : Holds h w.held) :
    Conserves (closingFinally kernel.answer (do
        let opened ← within w (openRegularChecked kernel.answer part w.current fileError irregular)
        pure (opened, w))) (fun opened => {opened.1}) h ↔
      Releases kernel part w h := by
  obtain ⟨hgoes, hfails⟩ :=
    @Holds.log_open kernel.answer h w.held (.openRegular part w.current) _ hh rfl
  rw [Conserves, closingFinally, Routine.ends_bind, Routine.ends_attempt]
  simp only [within, openRegularChecked, Routine.ends_bind, Routine.ends_mapError,
    Routine.ends_attempt, ends_openRegular, fstat, ends_fstatOr, Routine.ends_raiseIf,
    Routine.ends_pure]
  refine Iff.trans (and_iff_left fun e he =>
    ends_closeOwned_raise (hfails e he) fun _ h => h) ?_
  have hdiscard {d : ℕ} {h' : History} (hh' : Holds h' (d ::ₘ w.held)) :
      Holds (log kernel.answer h' (.close d)) w.held := hh'.log_close
  constructor
  · intro hall howns d hd h' m hm hregular
    have hlooked := @Holds.log_fstat kernel.answer _ _ (hgoes d hd) d
    exact (ends_closeOwned_keep_iff hlooked).mp (((hall d hd).1 m hm).2 (not_not.mpr hregular)) howns
  · intro hreleases d hd
    have hlooked := @Holds.log_fstat kernel.answer _ _ (hgoes d hd) d
    refine ⟨fun m hm => ⟨fun _ => ?_, fun hregular => ?_⟩, fun e he => ?_⟩
    · exact ends_close_of (ends_closeOwned_raise (hdiscard hlooked) fun _ h => h)
        fun _ => ends_closeOwned_raise (hdiscard hlooked) fun _ h => h
    · exact (ends_closeOwned_keep_iff hlooked).mpr fun howns =>
        hreleases howns d hd m hm (not_not.mp hregular)
    · exact ends_close_of (ends_closeOwned_raise (hdiscard hlooked) fun _ h => h)
        fun _ => ends_closeOwned_raise (hdiscard hlooked) fun _ h => h

theorem conserves_regularBody_iff {parts : List PyText}
    {directoryError fileError : SystemError → OpenError} {irregular : OpenError} {w : Walk}
    {h : History} (hh : Holds h w.held) :
    Conserves (closingFinally kernel.answer
        (regularBody kernel.answer parts directoryError fileError irregular w))
        (fun opened => {opened.1}) h ↔
      HandsOver kernel (Releases kernel (parts.getLastD [])) parts.dropLast w h :=
  conserves_descend_iff (fun _ _ => rfl) (fun _ _ _ hh => conserves_openRegular_iff hh) hh

/-! ### The three functions -/

theorem conserves_lift_iff {α β : Type} {x : Except OpenError β} {f : β → Run α}
    {kept : α → Multiset ℕ} {P : β → Prop}
    (hf : ∀ b, Conserves (f b) kept [] ↔ P b) :
    Conserves (lift x >>= f) kept [] ↔ ∀ b, x = .ok b → P b := by
  rw [Conserves, Routine.ends_bind, Routine.ends_lift]
  constructor
  · rintro ⟨hok, -⟩ b hb
    exact (hf b).mp (hok b hb)
  · intro hP
    exact ⟨fun b hb => (hf b).mpr (hP b hb), fun _ _ => rfl⟩

/-- Every descriptor that the functions open is returned or closed exactly once, and no other is
closed, exactly if the look at the anchor does not fail, no directory is left open by a failed
close once its successor is open, and where a regular file is returned its directory could be
closed. Every other call may fail. -/
theorem secure_opens_conserve_iff (kernel : Kernel) (library : Library) (supported : Bool)
    (path : PyText) (context : String) (errorType : ErrorType) (rootDescriptor : ℕ) :
    (Conserves (openDirectoryPathSecure kernel.answer supported path context errorType)
        (fun d => {d}) [] ↔
      ∀ anchored, pathToOpen supported path context errorType true = .ok anchored →
        AnchorChecked kernel anchored.1 fun first h =>
          HandsOver kernel (fun _ _ => True) anchored.2 ⟨first, true⟩ h) ∧
    (Conserves (openRegularPathSecure kernel.answer supported path context errorType)
        (fun opened => {opened.1}) [] ↔
      ∀ anchored, pathToOpen supported path context errorType false = .ok anchored →
        AnchorChecked kernel anchored.1 fun first h =>
          HandsOver kernel (Releases kernel (anchored.2.getLastD [])) anchored.2.dropLast
            ⟨first, true⟩ h) ∧
    (Conserves (openRelativeRegularSecure kernel.answer library rootDescriptor path)
        (fun opened => {opened.1}) [] ↔
      ∀ parts, lockedParts library path = .ok parts →
        HandsOver kernel (Releases kernel (parts.getLastD [])) parts.dropLast
          ⟨rootDescriptor, false⟩ []) := by
  refine ⟨?_, ?_, ?_⟩
  · apply conserves_lift_iff
    intro anchored
    exact conserves_anchor_iff fun first h hh => conserves_directoryBody_iff hh
  · apply conserves_lift_iff
    intro anchored
    apply conserves_anchor_iff
    intro first h hh
    exact conserves_regularBody_iff hh
  · apply conserves_lift_iff
    intro parts
    exact conserves_regularBody_iff rfl

/-- The first call opens a descriptor, and every later call fails. -/
def failingKernel : Kernel where
  answer
    | [], .openAnchor _ => .ok 3
    | _, .openAnchor _ => .error (.os 5)
    | _, .openDirectory _ _ => .error (.os 5)
    | _, .openRegular _ _ => .error (.os 5)
    | _, .fstat _ => .error (.os 5)
    | _, .close _ => .error (.os 5)
  fresh := by
    intro h c d hacquires
    cases h with
    | nil => exact Multiset.notMem_zero d
    | cons e h => cases c <;> cases hacquires

/-- The root directory is opened, and the look at it fails: its descriptor is lost. -/
theorem open_directory_leaks_anchor :
    ¬ ∀ (kernel : Kernel) (library : Library) (supported : Bool) (path : PyText) (context : String)
      (errorType : ErrorType) (rootDescriptor : ℕ),
      Conserves (openDirectoryPathSecure kernel.answer supported path context errorType)
        (fun d => {d}) [] ∧
      Conserves (openRegularPathSecure kernel.answer supported path context errorType)
        (fun opened => {opened.1}) [] ∧
      Conserves (openRelativeRegularSecure kernel.answer library rootDescriptor path)
        (fun opened => {opened.1}) [] := by
  intro hall
  have hconserves := (hall failingKernel ⟨fun _ => false, fun _ => false, id, id, fun _ => false,
    fun _ => [], fun _ => none⟩ true (lit "/") "corpus" .verification 0).1
  have hleft : Holds [⟨.openAnchor (lit "/"), .ok 3⟩, ⟨.fstat 3, .error (.os 5)⟩] 0 :=
    Routine.Ends.of_error hconserves rfl
  have hthree : Holds [⟨.openAnchor (lit "/"), .ok 3⟩, ⟨.fstat 3, .error (.os 5)⟩] {3} := rfl
  exact absurd (hthree.unique hleft) (Multiset.singleton_ne_zero 3)

end MosaicArchive.Corpus
