import MosaicArchive.Authenticated.Integrity
import MosaicArchive.Core.PrefixFree

/-!
Neither decoder accepts an input that begins with another one it accepts. Of two
such envelopes the reader would load the same records up to the footer of the
shorter one, and there it looks for one more byte.
-/

namespace MosaicArchive.Authenticated

open FixedWidth Sha256 MosaicArchive.Core IoProgram

namespace EnvelopeState

theorem endsInput_ensureArchiveRoom (st : EnvelopeState) (additional : ℕ) :
    EndsInput (fun _ => True) (st.ensureArchiveRoom additional) := by
  apply (endsInput_checkedAdd _ _ _ _).bind
  intro next _
  exact endsInput_require _

theorem endsInput_readOuterExact (st : EnvelopeState) (n : ℕ) (message : String) :
    EndsInput (fun _ => True) (st.readOuterExact n message) := by
  apply (endsInput_ensureArchiveRoom st n).bind
  intro _ _
  apply (endsInput_readExactFormat n message).bind
  intro buffer _
  apply (endsInput_checkedAdd _ _ _ _).bind
  intro archiveBytes _
  trivial

theorem endsInput_requirePhysicalEof (st : EnvelopeState) :
    EndsInput (fun _ => False) st.requirePhysicalEof := by
  intro byte hbyte
  show NeverSucceeds (if byte.isEmpty then _ else _)
  rw [if_neg (by simpa using hbyte)]
  exact neverSucceeds_bind (fun _ => neverSucceeds_fail _) _

/-- Only a footer is accepted after the end was seen. -/
theorem endsInput_acceptRecord (st : EnvelopeState) (record : RecordHeader)
    (ciphertext plaintext : Bytes) :
    EndsInput (fun accepted => accepted.2 ≠ none) (st.acceptRecord record ciphertext plaintext) := by
  unfold acceptRecord
  split_ifs
  · apply (endsInput_ofExcept _).bind
    intro payload _
    apply (endsInput_checkedAdd _ _ _ _).bind
    intro corePlaintextBytes _
    apply (endsInput_checkedAdd _ _ _ _).bind
    intro dataRecords _
    apply (endsInput_checkedAdd _ _ _ _).bind
    intro paddingBytes _
    exact Option.some_ne_none _
  · apply (endsInput_ofExcept _).bind
    intro footer _
    apply (endsInput_require _).bind
    intro _ _
    apply (endsInput_checkedAdd _ _ _ _).bind
    intro paddingBytes _
    apply (endsInput_requirePhysicalEof st).bind
    intro _ hfalse
    exact hfalse.elim
  · trivial

theorem endsInput_loadNextRecord (suite : Suite) (st : EnvelopeState) :
    EndsInput (fun loaded => loaded.2 ≠ none) (st.loadNextRecord suite) := by
  apply (endsInput_readOuterExact st _ _).bind
  intro recordBytes _
  apply (endsInput_ofExcept _).bind
  intro record _
  apply (endsInput_require _).bind
  intro _ _
  apply (endsInput_ofExcept _).bind
  intro _ _
  apply (endsInput_ensureArchiveRoom _ _).bind
  intro _ _
  apply (endsInput_readOuterExact _ _ _).bind
  intro ciphertext _
  apply (endsInput_ofOption _ _).bind
  intro plaintext _
  apply (endsInput_checkedAdd _ _ _ _).bind
  intro authenticationBytes _
  apply (endsInput_acceptRecord _ _ _ _).bind
  intro accepted haccepted
  apply (endsInput_checkedAdd _ _ _ _).bind
  intro nextIndex _
  exact haccepted

end EnvelopeState

theorem endsInput_openEnvelope (suite : Suite) (password : Bytes)
    (options : AuthenticatedDecodeOptions) :
    EndsInput (fun _ => True) (openEnvelope suite password options) := by
  unfold openEnvelope
  apply (endsInput_require _).bind
  intro _ _
  apply (endsInput_require _).bind
  intro _ _
  apply (endsInput_require _).bind
  intro _ _
  apply (endsInput_require _).bind
  intro _ _
  apply (endsInput_readExactFormat _ _).bind
  intro headerBytes _
  apply (endsInput_ofExcept _).bind
  intro header _
  apply (endsInput_require _).bind
  intro _ _
  apply (endsInput_ofExcept _).bind
  intro key _
  trivial

/-! ### The records of an envelope -/

/-- A record is loaded by a reader that has not accepted the footer. -/
def LoadStep (suite : Suite) (r r' : EnvelopeState × ByteSource) : Prop :=
  r.1.finished = false ∧ ∃ x w, (r.1.loadNextRecord suite).Yields r.2 (r'.1, x) w r'.2

variable {suite : Suite} {codecs : Codecs} {password : Bytes} {options : AuthenticatedDecodeOptions}

theorem LoadStep.footer {r r' : EnvelopeState × ByteSource} (h : LoadStep suite r r')
    (hfooter : r.1.footer = none) : r'.1.footer ≠ none → r'.1.finished = true := by
  obtain ⟨-, x, w, hyields⟩ := h
  intro hne
  rcases r with ⟨st, s⟩
  rcases r' with ⟨st', s'⟩
  cases EnvelopeState.loadNextRecord_inv hyields with
  | data => exact absurd hfooter hne
  | footer => rfl

/-- Two readers in one state, one with more input than the other, do not both reach a footer. -/
theorem not_both_finished {st : EnvelopeState} {s t : ByteSource} {more : Bytes} (hmore : more ≠ [])
    (hbytes : t.bytes = s.bytes ++ more) {r r' : EnvelopeState × ByteSource}
    (hr : Relation.ReflTransGen (LoadStep suite) (st, s) r) (hfinished : r.1.finished = true)
    (hr' : Relation.ReflTransGen (LoadStep suite) (st, t) r') (hfinished' : r'.1.finished = true)
    (hstart : st.finished = false) : False := by
  generalize hstart' : (st, s) = start at hr
  induction hr using Relation.ReflTransGen.head_induction_on generalizing st s t with
  | refl =>
      subst hstart'
      rw [hstart] at hfinished
      cases hfinished
  | head hstep _ ih =>
      subst hstart'
      rename_i next _
      obtain ⟨st₁, s₁⟩ := next
      rcases Relation.ReflTransGen.cases_head hr' with rfl | ⟨⟨st₂, t₂⟩, hstep', hrest⟩
      · rw [hstart] at hfinished'
        cases hfinished'
      · obtain ⟨-, x, w, hyields⟩ := hstep
        obtain ⟨-, x', w', hyields'⟩ := hstep'
        -- with more input, the record was not the footer
        obtain ⟨hsome, hsame, hleft⟩ := (EnvelopeState.endsInput_loadNextRecord suite st).extend
          hmore hbytes hyields hyields'
        obtain ⟨payload, rfl⟩ := Option.ne_none_iff_exists'.mp hsome
        obtain ⟨rfl, -⟩ := Prod.mk.inj hsame
        obtain ⟨-, hunfinished, -⟩ := (EnvelopeState.loadNextRecord_inv hyields).payload
        exact ih hleft hrest (hunfinished.trans hstart) rfl

/-- An envelope that is accepted was opened and its records were loaded up to the footer. -/
theorem accepted_loads {ρ : Type} [LawfulReader ρ] {reader : ρ} {stats : AuthenticatedStats}
    (h : (decodeAuthenticated suite codecs password options reader).1 = .ok stats) :
    ∃ st s w r, (openEnvelope suite password options).Yields (LawfulReader.rest reader) st w s ∧
      st.finished = false ∧ Relation.ReflTransGen (LoadStep suite) (st, s) r ∧
      r.1.finished = true := by
  obtain ⟨hresult, -, hreader⟩ := (openEnvelope suite password options).run_rest reader
  rcases hrun : (openEnvelope suite password options).run reader with ⟨result, written, reader'⟩
  rw [hrun] at hresult hreader
  unfold decodeAuthenticated at h
  rw [hrun] at h
  rcases result with e | st
  · cases h
  dsimp only at h
  have hyields := yields_of_result hresult.symm
  rw [← hreader st rfl] at hyields
  obtain ⟨header, key, rest, -, -, -, -, rfl, -⟩ := openEnvelope_inv hyields
  -- Every record the reader loads is a step, and the state has a footer only at the end.
  have htracks : ((decodeWithOptions codecs options.core).run
      (.new reader' (.initial key header options) : AuthenticatedReader suite ρ)).reader.Tracks
      (fun st s => Relation.ReflTransGen (LoadStep suite)
        (.initial key header options, LawfulReader.rest reader') (st, s) ∧
        (st.footer ≠ none → st.finished = true)) True := by
    refine run_keeps (fun r n h => ?_) _ ⟨fun _ => ⟨.refl, fun hne => absurd rfl hne⟩, fun _ => trivial⟩
    apply AuthenticatedReader.Tracks.read _ (fun _ _ _ _ _ _ => trivial) n h
    rintro st₁ s₁ st₂ x w s₂ ⟨hsteps, hfooter⟩ hfinished hload
    have hstep : LoadStep suite (st₁, s₁) (st₂, s₂) := ⟨hfinished, x, w, hload⟩
    refine ⟨hsteps.tail hstep, hstep.footer ?_⟩
    by_contra hne
    rw [hfooter hne] at hfinished
    cases hfinished
  generalize (decodeWithOptions codecs options.core).run
    (.new reader' (.initial key header options) : AuthenticatedReader suite ρ) = run at h htracks
  rcases hfailure : run.reader.failure with _ | error
  · obtain ⟨hsteps, hfooter⟩ := htracks.1 hfailure
    refine ⟨_, _, _, _, hyields, rfl, hsteps, hfooter fun hnone => ?_⟩
    simp only [hfailure] at h
    rcases hcore : run.result with error | core
    · simp only [hcore] at h
      cases h
    · simp only [hcore, EnvelopeState.finish, hnone] at h
      cases h
  · simp only [hfailure] at h
    cases h

theorem decodeAuthenticated_prefix_free {ρ σ : Type} [LawfulReader ρ] [LawfulReader σ] {r : ρ}
    {r' : σ} {stats stats' : AuthenticatedStats}
    (hstarts : (LawfulReader.rest r).bytes <+: (LawfulReader.rest r').bytes)
    (hr : (decodeAuthenticated suite codecs password options r).1 = .ok stats)
    (hr' : (decodeAuthenticated suite codecs password options r').1 = .ok stats') :
    (LawfulReader.rest r').bytes = (LawfulReader.rest r).bytes := by
  obtain ⟨more, hmore⟩ := hstarts
  obtain ⟨st, s, w, final, hopen, hstart, hloads, hfinished⟩ := accepted_loads hr
  obtain ⟨st', s', w', final', hopen', -, hloads', hfinished'⟩ := accepted_loads hr'
  by_contra hne
  have hrest : more ≠ [] := by
    rintro rfl
    rw [List.append_nil] at hmore
    exact hne hmore.symm
  obtain ⟨-, rfl, hbytes⟩ :=
    (endsInput_openEnvelope suite password options).extend hrest hmore.symm hopen hopen'
  exact not_both_finished hrest hbytes hloads hfinished hloads' hfinished' hstart

/-- Whatever readers the bytes come from, and for every codec and cipher, an input that begins
with another one that is accepted is itself accepted only if it is the same: a byte cut off or
added makes the decoder fail. -/
theorem accepted_prefix_free (codecs : Codecs) :
    (∀ (options : DecodeOptions) (ρ σ : Type) [LawfulReader ρ] [LawfulReader σ] (r : ρ) (r' : σ)
      (stats stats' : StreamStats),
      ((decodeWithOptions codecs options).run r).result = .ok stats →
      ((decodeWithOptions codecs options).run r').result = .ok stats' →
      (LawfulReader.rest r).bytes <+: (LawfulReader.rest r').bytes →
      (LawfulReader.rest r').bytes = (LawfulReader.rest r).bytes) ∧
    ∀ (suite : Suite) (password : Bytes) (options : AuthenticatedDecodeOptions) (ρ σ : Type)
      [LawfulReader ρ] [LawfulReader σ] (r : ρ) (r' : σ) (stats stats' : AuthenticatedStats),
      (decodeAuthenticated suite codecs password options r).1 = .ok stats →
      (decodeAuthenticated suite codecs password options r').1 = .ok stats' →
      (LawfulReader.rest r).bytes <+: (LawfulReader.rest r').bytes →
      (LawfulReader.rest r').bytes = (LawfulReader.rest r).bytes :=
  ⟨fun options _ _ _ _ _ _ _ _ hr hr' hstarts =>
      (endsInput_decodeWithOptions codecs options).prefix_free hstarts hr hr',
    fun _ _ _ _ _ _ _ _ _ _ _ hr hr' hstarts => decodeAuthenticated_prefix_free hstarts hr hr'⟩

end MosaicArchive.Authenticated
