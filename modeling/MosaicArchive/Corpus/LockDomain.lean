import MosaicArchive.Corpus.Lock

/-!
What `load_competitive_corpus_lock` raises on the bytes of a file. Its own exception is the only
one, except where a check encodes a string with a surrogate, or where the decoder meets an
integer literal or a nesting beyond a limit of the interpreter.
-/

namespace MosaicArchive.Corpus

open FixedWidth
open Except (raiseIf)

/-! ### The domain of a computation -/

section

variable {α β : Type}

/-- Only `CorpusLockValidationError` is raised. -/
def Own (x : Except LockError α) : Prop := ∀ e, x = .error e → e.isValidation = true

/-- A condition on what is returned. -/
def After (x : Except LockError α) (C : α → Prop) : Prop := ∀ a, x = .ok a → C a

theorem own_ok (a : α) : Own (.ok a : Except LockError α) := nofun

theorem own_error_iff {e : LockError} :
    Own (.error e : Except LockError α) ↔ e.isValidation = true :=
  ⟨fun h => h e rfl, fun h _ he => Except.error.inj he ▸ h⟩

theorem own_raiseIf {c : Prop} [Decidable c] {e : LockError} (he : e.isValidation = true) :
    Own (raiseIf c e) := by
  rw [raiseIf]
  split_ifs
  · exact own_error_iff.mpr he
  · exact own_ok ()

/-- A sequence stays in the domain where the first part does, and the second after it. -/
theorem own_bind_iff {x : Except LockError α} {f : α → Except LockError β} {P : Prop}
    {C : α → Prop} (hx : Own x ↔ P) (hf : ∀ a, x = .ok a → (Own (f a) ↔ C a)) :
    Own (x >>= f) ↔ P ∧ After x C := by
  cases x with
  | error e =>
      rw [← hx]
      exact ⟨fun h => ⟨fun e' he => h e' (by rw [Except.error.inj he]; rfl), nofun⟩,
        fun h e' he => h.1 e' (by rw [Except.error.inj he])⟩
  | ok a =>
      have hafter : After (.ok a : Except LockError α) C ↔ C a :=
        ⟨fun h => h a rfl, fun h a' ha => Except.ok.inj ha ▸ h⟩
      rw [hafter, ← hx, ← hf a rfl]
      exact ⟨fun h => ⟨own_ok a, h⟩, fun h => h.2⟩

theorem own_bind_of {x : Except LockError α} {f : α → Except LockError β} {C : α → Prop}
    (hx : Own x) (hf : ∀ a, x = .ok a → (Own (f a) ↔ C a)) : Own (x >>= f) ↔ After x C := by
  rw [own_bind_iff (iff_true_intro hx) hf, true_and]

theorem own_bind {x : Except LockError α} {f : α → Except LockError β} (hx : Own x)
    (hf : ∀ a, x = .ok a → Own (f a)) : Own (x >>= f) :=
  (own_bind_of hx fun a ha => iff_true_intro (hf a ha)).mpr fun _ _ => trivial

/-- Nothing after a computation leaves the domain. -/
theorem own_bind_iff_left {x : Except LockError α} {f : α → Except LockError β} {P : Prop}
    (hx : Own x ↔ P) (hf : ∀ a, x = .ok a → Own (f a)) : Own (x >>= f) ↔ P := by
  rw [own_bind_iff hx fun a ha => iff_true_intro (hf a ha)]
  exact ⟨And.left, fun h => ⟨h, fun _ _ => trivial⟩⟩

theorem own_mapM {f : α → Except LockError β} {items : List α} (h : ∀ a ∈ items, Own (f a)) :
    Own (items.mapM f) := by
  induction items with
  | nil => exact own_ok []
  | cons a items ih =>
      rw [List.mapM_cons]
      apply own_bind (h a List.mem_cons_self)
      intro b hb
      apply own_bind (ih fun a' ha' => h a' (List.mem_cons_of_mem a ha'))
      exact fun bs hbs => own_ok (b :: bs)

end

section

variable (library : Library)

/-! ### Single values -/

/-- A string that the first conditions of `_expect_string` let through holds no surrogate. -/
def Encodable (value : Value) : Prop :=
  ∀ text, value = .str text → text ≠ [] → text = strip library text → isEncodable text = true

variable {library}

theorem own_expectText {value : Value} {error : LockError} (h : error.isValidation = true) :
    Own (expectText value error) := by
  cases value with
  | str text => exact own_ok text
  | null => exact own_error_iff.mpr h
  | bool b => exact own_error_iff.mpr h
  | int z => exact own_error_iff.mpr h
  | float literal => exact own_error_iff.mpr h
  | list items => exact own_error_iff.mpr h
  | dict entries => exact own_error_iff.mpr h

theorem expectText_eq_ok {value : Value} {error : LockError} {text : PyText} :
    expectText value error = .ok text ↔ value = .str text := by
  cases value with
  | str text' => simp [expectText]
  | null => simp [expectText]
  | bool b => simp [expectText]
  | int z => simp [expectText]
  | float literal => simp [expectText]
  | list items => simp [expectText]
  | dict entries => simp [expectText]

theorem own_encodeOrRaise {text : PyText} :
    Own (encodeOrRaise text) ↔ isEncodable text = true := by
  rw [encodeOrRaise, ← encodeUtf8_isSome]
  cases encodeUtf8 text with
  | none => simp [own_error_iff, LockError.isValidation]
  | some encoded => simp [own_ok]

theorem own_expectString {value : Value} {context : String} :
    Own (expectString library value context) ↔ Encodable library value := by
  rw [expectString]
  rw [own_bind_of (C := fun text => text ≠ [] → text = strip library text → isEncodable text = true)
    (own_expectText rfl)]
  · constructor
    · intro h text hvalue
      exact h text (expectText_eq_ok.mpr hvalue)
    · intro h text htext
      exact h text (expectText_eq_ok.mp htext)
  · intro text htext
    rw [own_bind_of (C := fun _ => isEncodable text = true) (own_raiseIf rfl)]
    · constructor
      · intro h hne hstrip
        refine h () (Except.raiseIf_eq_ok.mpr ?_)
        exact fun hor => hor.elim hne fun hne' => hne' hstrip
      · intro h u hu
        have hnot := Except.raiseIf_eq_ok.mp hu
        exact h (fun hnil => hnot (.inl hnil)) (not_not.mp fun hne => hnot (.inr hne))
    · intro u hu
      apply own_bind_iff_left own_encodeOrRaise
      intro encoded hencoded
      exact own_bind (own_raiseIf rfl) fun u' hu' => own_ok text

theorem expectString_isEncodable {value : Value} {context : String} {text : PyText}
    (h : expectString library value context = .ok text) : isEncodable text = true := by
  rw [expectString] at h
  simp only [Except.bind_eq_ok_iff] at h
  obtain ⟨text', -, u, -, encoded, hencoded, u', -, htext⟩ := h
  cases htext
  rw [← encodeUtf8_isSome]
  rw [encodeOrRaise] at hencoded
  split at hencoded
  · rename_i encoded' h
    rw [h]
    rfl
  · cases hencoded

theorem own_expectPositiveInt (value : Value) (context : String) :
    Own (expectPositiveInt value context) := by
  rw [expectPositiveInt.eq_def]
  split
  · split_ifs
    · exact own_error_iff.mpr rfl
    · exact own_ok _
  · exact own_error_iff.mpr rfl

theorem own_expectSha256 (value : Value) (context : String) : Own (expectSha256 value context) := by
  rw [expectSha256]
  apply own_bind (own_expectText rfl)
  intro text htext
  exact own_bind (own_raiseIf rfl) fun u hu => own_ok text

theorem own_checkComponents {error : LockError} (he : error.isValidation = true)
    {parts : List PyText} (h : ∀ part ∈ parts, isEncodable part = true) :
    Own (checkComponents error parts) := by
  induction parts with
  | nil => exact own_ok ()
  | cons part parts ih =>
      rw [checkComponents]
      apply own_bind (own_encodeOrRaise.mpr (h part List.mem_cons_self))
      intro encoded hencoded
      apply own_bind (own_raiseIf he)
      intro u hu
      exact ih fun part' hpart' => h part' (List.mem_cons_of_mem part hpart')

/-- After `_expect_string`, no other check of a path leaves the domain. -/
theorem own_expectRelativePath {value : Value} {context : String} :
    Own (expectRelativePath library value context) ↔ Encodable library value := by
  rw [expectRelativePath]
  apply own_bind_iff_left own_expectString
  intro path hpath
  have hencodable := expectString_isEncodable hpath
  apply own_bind (own_raiseIf rfl)
  intro u hu
  apply own_bind (own_encodeOrRaise.mpr hencodable)
  intro encoded hencoded
  apply own_bind (own_raiseIf rfl)
  intro u' hu'
  apply own_bind (own_checkComponents rfl fun part => isEncodable_of_mem_splitOn hencodable)
  intro u'' hu''
  exact own_bind (own_raiseIf rfl) fun _ _ => own_ok path

theorem own_expectHttpsUrl {value : Value} {context : String} :
    Own (expectHttpsUrl library value context) ↔ Encodable library value := by
  rw [expectHttpsUrl]
  apply own_bind_iff_left own_expectString
  intro url hurl
  apply own_bind (own_raiseIf rfl)
  intro u hu
  exact own_bind (own_raiseIf rfl) fun _ _ => own_ok url

theorem own_expectStableIdentifier {value : Value} {context : String} :
    Own (expectStableIdentifier library value context) ↔ Encodable library value := by
  rw [expectStableIdentifier]
  apply own_bind_iff_left own_expectString
  intro identifier hidentifier
  exact own_bind (own_raiseIf rfl) fun _ _ => own_ok identifier

theorem own_expectSnapshotId {value : Value} {context : String} :
    Own (expectSnapshotId library value context) ↔ Encodable library value := by
  rw [expectSnapshotId]
  apply own_bind_iff_left own_expectString
  intro identifier hidentifier
  exact own_bind (own_raiseIf rfl) fun _ _ => own_ok identifier

theorem own_parseParameterValue {value : Value} {context : String} :
    Own (parseParameterValue library value context) ↔ Encodable library value := by
  cases value with
  | str text =>
      rw [parseParameterValue]
      apply own_bind_iff_left own_expectString
      exact fun text' htext' => own_ok _
  | bool b => exact iff_of_true (own_ok _) nofun
  | int z => exact iff_of_true (own_ok _) nofun
  | null => exact iff_of_true (own_error_iff.mpr rfl) nofun
  | float literal => exact iff_of_true (own_error_iff.mpr rfl) nofun
  | list items => exact iff_of_true (own_error_iff.mpr rfl) nofun
  | dict entries => exact iff_of_true (own_error_iff.mpr rfl) nofun

theorem own_parseApprovalDate {value : Value} {context : String} :
    Own (parseApprovalDate library value context) ↔ Encodable library value := by
  rw [parseApprovalDate]
  apply own_bind_iff_left own_expectString
  intro raw hraw
  apply own_bind (own_raiseIf rfl)
  intro u hu
  split
  · exact own_ok _
  · exact own_error_iff.mpr rfl

/-! ### Objects -/

theorem own_expectArray (value : Value) (context : String) : Own (expectArray value context) := by
  rw [expectArray.eq_def]
  split
  · exact own_ok _
  · exact own_error_iff.mpr rfl

theorem own_expectObject (value : Value) (keys : List PyText) (context : String) :
    Own (expectObject value keys context) := by
  rw [expectObject.eq_def]
  split
  · rename_i entries
    exact own_bind (own_raiseIf rfl) fun u hu => own_ok entries
  · exact own_error_iff.mpr rfl

/-- A key that was expected is there. -/
theorem item_of_expectObject {value : Value} {keys : List PyText} {context key : String}
    {entries : Entries} (h : expectObject value keys context = .ok entries)
    (hkey : lit key ∈ keys) : ∃ item, entries.item key = .ok item := by
  rw [expectObject.eq_def] at h
  split at h
  · rename_i entries'
    simp only [Except.bind_eq_ok_iff, Except.raiseIf_eq_ok] at h
    obtain ⟨u, hnot, hentries⟩ := h
    cases hentries
    have hmem : lit key ∈ entries.map Prod.fst := by
      by_contra hmissing
      exact hnot (.inl ⟨lit key, hkey, hmissing⟩)
    obtain ⟨entry, hentry, hname⟩ := List.mem_map.mp hmem
    rw [Entries.item]
    cases hfind : entries.find? fun entry => entry.1 = lit key with
    | some found => exact ⟨found.2, rfl⟩
    | none =>
        have hne := List.find?_eq_none.mp hfind entry hentry
        exact absurd hname (by simpa using hne)
  · cases h

theorem own_item {entries : Entries} {key : String} (h : ∃ item, entries.item key = .ok item) :
    Own (entries.item key) := by
  obtain ⟨item, hitem⟩ := h
  rw [hitem]
  exact own_ok item

end

/-! ### Records -/

section

variable {α β : Type}

/-- The strings of a field are encodable, and what comes after its check where that returns. -/
def Field (entries : Entries) (key : String) (P : Value → Prop) (check : Value → Except LockError α)
    (C : α → Prop) : Prop :=
  After (entries.item key) fun value => P value ∧ After (check value) C

theorem own_field {entries : Entries} {key : String} {check : Value → Except LockError α}
    {f : α → Except LockError β} {P : Value → Prop} {C : α → Prop}
    (hitem : ∃ item, entries.item key = .ok item) (hcheck : ∀ value, Own (check value) ↔ P value)
    (hf : ∀ a, Own (f a) ↔ C a) :
    Own (do let value ← entries.item key; let a ← check value; f a) ↔
      Field entries key P check C := by
  apply own_bind_of (own_item hitem)
  intro value hvalue
  exact own_bind_iff (hcheck value) fun a ha => hf a

theorem own_field_end {entries : Entries} {key : String} {check : Value → Except LockError α}
    {f : α → Except LockError β} {P : Value → Prop}
    (hitem : ∃ item, entries.item key = .ok item) (hcheck : ∀ value, Own (check value) ↔ P value)
    (hf : ∀ a, Own (f a)) :
    Own (do let value ← entries.item key; let a ← check value; f a) ↔
      After (entries.item key) P := by
  apply own_bind_of (own_item hitem)
  intro value hvalue
  exact own_bind_iff_left (hcheck value) fun a ha => hf a

end

variable (library : Library)

/-- The strings of the path and the digest of a file that its checks reach are encodable. -/
def EncodableIdentity (entries : Entries) (context : String) (minimumBytes : ℕ) : Prop :=
  Field entries "bytes" (fun _ => True) (fun value => expectSize value context minimumBytes)
    fun _ => After (entries.item "path") (Encodable library)

def EncodableFile (raw : Value) (context : String) (minimumBytes : ℕ) : Prop :=
  After (expectObject raw lockedFileKeys context) fun entries =>
    EncodableIdentity library entries context minimumBytes

def EncodableSource (raw : Value) (context : String) : Prop :=
  After (expectObject raw sourceKeys context) fun entries =>
    EncodableIdentity library entries context 1 ∧
      After (parseIdentity library entries context 1) fun _ =>
        After (entries.item "url") (Encodable library)

def EncodableParameter (raw : Value) (context : String) (index : ℕ) (names : List PyText) : Prop :=
  let parameterContext := context ++ ".parameters[" ++ toString index ++ "]"
  After (expectObject raw parameterKeys parameterContext) fun entries =>
    Field entries "name" (Encodable library)
      (fun value => expectStableIdentifier library value (parameterContext ++ ".name"))
      fun name => name ∉ names → After (entries.item "value") (Encodable library)

def EncodableParameters (context : String) : ℕ → List PyText → List Value → Prop
  | _, _, [] => True
  | index, names, raw :: parametersRaw =>
      EncodableParameter library raw context index names ∧
        After (parseParameter library raw context index names) fun parameter =>
          EncodableParameters context (index + 1) (parameter.name :: names) parametersRaw

def EncodablePreparation (raw : Value) (context : String) : Prop :=
  After (expectObject raw preparationKeys context) fun entries =>
    Field entries "parameters" (fun _ => True)
      (fun value => expectArray value (context ++ ".parameters")) fun parametersRaw =>
        EncodableParameters library context 0 [] parametersRaw ∧
          After (parseParameters library context 0 [] parametersRaw) fun _ =>
            After (entries.item "recipe_id") (Encodable library)

def EncodableLicense (raw : Value) (context : String) : Prop :=
  After (expectObject raw licenseKeys context) fun entries =>
    After (parseTerms library entries context) fun _ =>
    Field entries "redistribution_approved" (fun _ => True)
      (fun value => requireApproved value context) fun _ =>
    Field entries "name" (Encodable library)
      (fun value => expectString library value (context ++ ".name")) fun _ =>
    Field entries "url" (Encodable library)
      (fun value => expectHttpsUrl library value (context ++ ".url")) fun _ =>
    Field entries "attribution" (Encodable library)
      (fun value => expectString library value (context ++ ".attribution")) fun _ =>
    Field entries "attribution_url" (Encodable library)
      (fun value => expectHttpsUrl library value (context ++ ".attribution_url")) fun _ =>
    Field entries "human_approver" (Encodable library)
      (fun value => expectString library value (context ++ ".human_approver")) fun _ =>
    Field entries "approval_date" (Encodable library)
      (fun value => parseApprovalDate library value (context ++ ".approval_date")) fun _ =>
    After (entries.item "evidence") fun evidence =>
      EncodableFile library evidence (context ++ ".evidence") 1

def EncodableCorpus (raw : Value) (index : ℕ) : Prop :=
  let context := "corpora[" ++ toString index ++ "]"
  After (expectObject raw corpusKeys context) fun entries =>
    Field entries "id" (Encodable library)
      (fun value => expectString library value (context ++ ".id")) fun _ =>
    Field entries "snapshot_id" (Encodable library)
      (fun value => expectSnapshotId library value (context ++ ".snapshot_id")) fun _ =>
    Field entries "source" (fun value => EncodableSource library value (context ++ ".source"))
      (fun value => parseSource library value (context ++ ".source")) fun _ =>
    Field entries "prepared"
      (fun value => EncodableFile library value (context ++ ".prepared") minPreparedBytes)
      (fun value => parseLockedFile library value (context ++ ".prepared") minPreparedBytes)
      fun _ =>
    Field entries "preparation"
      (fun value => EncodablePreparation library value (context ++ ".preparation"))
      (fun value => parsePreparation library value (context ++ ".preparation")) fun _ =>
    After (entries.item "license") fun value =>
      EncodableLicense library value (context ++ ".license")

def EncodableCorpora : ℕ → List Value → Prop
  | _, [] => True
  | index, raw :: rawCorpora =>
      EncodableCorpus library raw index ∧
        After (parseCorpus library raw index) fun _ => EncodableCorpora (index + 1) rawCorpora

/-- Every string of the document that a check encodes is free of surrogates. -/
def EncodableLock (parsed : Value) : Prop :=
  After (expectObject parsed topLevelKeys "corpus lock") fun entries =>
    Field entries "schema_version" (fun _ => True) requireSchemaVersion fun _ =>
    Field entries "contract_id" (fun _ => True) requireContractId fun _ =>
    Field entries "corpora" (fun _ => True) (fun value => expectArray value "corpora")
      fun rawCorpora => EncodableCorpora library 0 rawCorpora

variable {library}

theorem own_expectSize (value : Value) (context : String) (minimumBytes : ℕ) :
    Own (expectSize value context minimumBytes) := by
  rw [expectSize]
  apply own_bind (own_expectPositiveInt value _)
  intro byteLength hlength
  apply own_bind (own_raiseIf rfl)
  intro u hu
  exact own_bind (own_raiseIf rfl) fun u' hu' => own_ok byteLength

theorem own_parseIdentity {entries : Entries} {context : String} {minimumBytes : ℕ}
    (hpresent : ∀ key ∈ ["bytes", "path", "sha256"], ∃ item, entries.item key = .ok item) :
    Own (parseIdentity library entries context minimumBytes) ↔
      EncodableIdentity library entries context minimumBytes := by
  apply own_field (hpresent "bytes" (by simp))
    (fun value => iff_true_intro (own_expectSize value context minimumBytes))
  intro byteLength
  apply own_field_end (hpresent "path" (by simp)) (fun value => own_expectRelativePath)
  intro path
  apply own_bind (own_item (hpresent "sha256" (by simp)))
  intro value hvalue
  exact own_bind (own_expectSha256 value context) fun sha256 hsha => own_ok _

theorem own_parseLockedFile {raw : Value} {context : String} {minimumBytes : ℕ} :
    Own (parseLockedFile library raw context minimumBytes) ↔
      EncodableFile library raw context minimumBytes := by
  apply own_bind_of (own_expectObject raw lockedFileKeys context)
  intro entries hentries
  apply own_parseIdentity
  intro key hkey
  apply item_of_expectObject hentries
  fin_cases hkey <;> decide

theorem own_parseSource {raw : Value} {context : String} :
    Own (parseSource library raw context) ↔ EncodableSource library raw context := by
  apply own_bind_of (own_expectObject raw sourceKeys context)
  intro entries hentries
  have hpresent : ∀ key ∈ ["bytes", "path", "sha256", "url"],
      ∃ item, entries.item key = .ok item := by
    intro key hkey
    apply item_of_expectObject hentries
    fin_cases hkey <;> decide
  apply own_bind_iff (own_parseIdentity fun key hkey => hpresent key (by simp at hkey ⊢; tauto))
  intro file hfile
  apply own_field_end (hpresent "url" (by simp)) (fun value => own_expectHttpsUrl)
  exact fun url => own_ok _

theorem own_parseParameter {raw : Value} {context : String} {index : ℕ} {names : List PyText} :
    Own (parseParameter library raw context index names) ↔
      EncodableParameter library raw context index names := by
  apply own_bind_of (own_expectObject raw parameterKeys _)
  intro entries hentries
  apply own_field (item_of_expectObject hentries (by decide))
    (fun value => own_expectStableIdentifier)
  intro name
  rw [own_bind_of (C := fun _ => After (entries.item "value") (Encodable library))
    (own_raiseIf rfl)]
  · exact ⟨fun h hname => h () (Except.raiseIf_eq_ok.mpr hname),
      fun h u hu => h (Except.raiseIf_eq_ok.mp hu)⟩
  · intro u hu
    apply own_field_end (item_of_expectObject hentries (by decide))
      (fun value => own_parseParameterValue)
    exact fun value => own_ok _

theorem own_parseParameters {context : String} {index : ℕ} {names : List PyText}
    {parametersRaw : List Value} :
    Own (parseParameters library context index names parametersRaw) ↔
      EncodableParameters library context index names parametersRaw := by
  induction parametersRaw generalizing index names with
  | nil => exact iff_true_intro (own_ok [])
  | cons raw parametersRaw ih =>
      rw [parseParameters, EncodableParameters]
      apply own_bind_iff own_parseParameter
      intro parameter hparameter
      apply own_bind_iff_left ih
      exact fun parameters hparameters => own_ok _

theorem own_parsePreparation {raw : Value} {context : String} :
    Own (parsePreparation library raw context) ↔ EncodablePreparation library raw context := by
  apply own_bind_of (own_expectObject raw preparationKeys context)
  intro entries hentries
  apply own_field (item_of_expectObject hentries (by decide))
    (fun value => iff_true_intro (own_expectArray value _))
  intro parametersRaw
  apply own_bind_iff own_parseParameters
  intro parameters hparameters
  apply own_field_end (item_of_expectObject hentries (by decide))
    (fun value => own_expectStableIdentifier)
  exact fun recipeId => own_ok _

theorem own_expectOptionalText (value : Value) (context : String) :
    Own (expectOptionalText value context) := by
  rw [expectOptionalText.eq_def]
  split
  · exact own_ok _
  · exact own_ok _
  · exact own_error_iff.mpr rfl

theorem own_parseTerms {entries : Entries} {context : String}
    (hspdx : ∃ item, entries.item "spdx_id" = .ok item)
    (hexplanation : ∃ item, entries.item "non_spdx_explanation" = .ok item) :
    Own (parseTerms library entries context) := by
  apply own_bind (own_item hspdx)
  intro rawSpdxId h₁
  apply own_bind (own_item hexplanation)
  intro rawExplanation h₂
  apply own_bind (own_expectOptionalText rawSpdxId _)
  intro spdxText h₃
  apply own_bind (own_expectOptionalText rawExplanation _)
  intro explanationText h₄
  apply own_bind (own_raiseIf rfl)
  intro u hu
  exact own_bind (own_raiseIf rfl) fun u' hu' => own_ok _

theorem own_requireApproved (approved : Value) (context : String) :
    Own (requireApproved approved context) := by
  rw [requireApproved.eq_def]
  split
  · exact own_ok ()
  · exact own_error_iff.mpr rfl

theorem own_parseLicense {raw : Value} {context : String} :
    Own (parseLicense library raw context) ↔ EncodableLicense library raw context := by
  apply own_bind_of (own_expectObject raw licenseKeys context)
  intro entries hentries
  have hitem {key : String} (hkey : lit key ∈ licenseKeys) :
      ∃ item, entries.item key = .ok item := item_of_expectObject hentries hkey
  apply own_bind_of (own_parseTerms (hitem (by decide)) (hitem (by decide)))
  intro terms hterms
  apply own_field (hitem (by decide))
    (fun value => iff_true_intro (own_requireApproved value context))
  intro u
  apply own_field (hitem (by decide)) (fun value => own_expectString)
  intro name
  apply own_field (hitem (by decide)) (fun value => own_expectHttpsUrl)
  intro url
  apply own_field (hitem (by decide)) (fun value => own_expectString)
  intro attribution
  apply own_field (hitem (by decide)) (fun value => own_expectHttpsUrl)
  intro attributionUrl
  apply own_field (hitem (by decide)) (fun value => own_expectString)
  intro humanApprover
  apply own_field (hitem (by decide)) (fun value => own_parseApprovalDate)
  intro approvalDate
  apply own_field_end (hitem (by decide)) (fun value => own_parseLockedFile)
  exact fun evidence => own_ok _

theorem own_parseCorpus {raw : Value} {index : ℕ} :
    Own (parseCorpus library raw index) ↔ EncodableCorpus library raw index := by
  apply own_bind_of (own_expectObject raw corpusKeys _)
  intro entries hentries
  have hitem {key : String} (hkey : lit key ∈ corpusKeys) :
      ∃ item, entries.item key = .ok item := item_of_expectObject hentries hkey
  apply own_field (hitem (by decide)) (fun value => own_expectString)
  intro id
  apply own_field (hitem (by decide)) (fun value => own_expectSnapshotId)
  intro snapshotId
  apply own_field (hitem (by decide)) (fun value => own_parseSource)
  intro source
  apply own_field (hitem (by decide)) (fun value => own_parseLockedFile)
  intro prepared
  apply own_field (hitem (by decide)) (fun value => own_parsePreparation)
  intro preparation
  apply own_field_end (hitem (by decide)) (fun value => own_parseLicense)
  exact fun license => own_ok _

theorem own_parseCorpora {index : ℕ} {rawCorpora : List Value} :
    Own (parseCorpora library index rawCorpora) ↔ EncodableCorpora library index rawCorpora := by
  induction rawCorpora generalizing index with
  | nil => exact iff_true_intro (own_ok [])
  | cons raw rawCorpora ih =>
      rw [parseCorpora, EncodableCorpora]
      apply own_bind_iff own_parseCorpus
      intro corpus hcorpus
      apply own_bind_iff_left ih
      exact fun corpora hcorpora => own_ok _

/-! ### The whole lock -/

theorem own_byId {corpora : List CompetitiveCorpus} {corpusId : PyText}
    (h : corpusId ∈ corpora.map CompetitiveCorpus.id) : Own (byId corpora corpusId) := by
  obtain ⟨corpus, hcorpus, hid⟩ := List.mem_map.mp h
  rw [byId]
  cases hfind : corpora.reverse.find? fun corpus => corpus.id = corpusId with
  | some found => exact own_ok found
  | none =>
      have hne := List.find?_eq_none.mp hfind corpus (List.mem_reverse.mpr hcorpus)
      exact absurd hid (by simpa using hne)

/-- Every required ID is found once the IDs are checked. -/
theorem own_normalize (corpora : List CompetitiveCorpus) : Own (normalize corpora) := by
  apply own_bind (own_raiseIf rfl)
  intro u hu
  apply own_mapM
  intro corpusId hrequired
  apply own_byId
  by_contra hmissing
  exact Except.raiseIf_eq_ok.mp hu (.inr (.inr ⟨corpusId, hrequired, hmissing⟩))

theorem own_checkIdentities (identities : List (PyText × ℕ × PyText)) (files : List LockedFile) :
    Own (checkIdentities identities files) := by
  induction files generalizing identities with
  | nil => exact own_ok ()
  | cons file files ih =>
      rw [checkIdentities]
      split
      · exact ih _
      · split_ifs
        · exact own_error_iff.mpr rfl
        · exact ih identities

theorem own_requireSchemaVersion (value : Value) : Own (requireSchemaVersion value) := by
  rw [requireSchemaVersion.eq_def]
  split
  · exact own_raiseIf rfl
  · exact own_error_iff.mpr rfl

theorem own_requireContractId (value : Value) : Own (requireContractId value) := by
  apply own_bind (own_expectText rfl)
  intro contractId hcontract
  exact own_bind (own_raiseIf rfl) fun u hu => own_ok contractId

theorem own_parseLock {raw : Bytes} {parsed : Value} :
    Own (parseLock library raw parsed) ↔ EncodableLock library parsed := by
  apply own_bind_of (own_expectObject parsed topLevelKeys "corpus lock")
  intro entries hentries
  apply own_field (item_of_expectObject hentries (by decide))
    (fun value => iff_true_intro (own_requireSchemaVersion value))
  intro u
  apply own_field (item_of_expectObject hentries (by decide))
    (fun value => iff_true_intro (own_requireContractId value))
  intro contractId
  apply own_field (item_of_expectObject hentries (by decide))
    (fun value => iff_true_intro (own_expectArray value "corpora"))
  intro rawCorpora
  apply own_bind_iff_left own_parseCorpora
  intro corpora hcorpora
  apply own_bind (own_normalize corpora)
  intro normalizedCorpora hnormalized
  apply own_bind (own_bind (own_raiseIf rfl) fun u' hu' => own_raiseIf rfl)
  intro u' hu'
  apply own_bind (own_checkIdentities [] _)
  intro u'' hu''
  exact own_bind (own_raiseIf rfl) fun _ _ => own_ok _

/-- The exceptions of the decoder are the parser's own unless a limit is passed. -/
theorem own_loads {decoder : Decoder} {text : Utf8.Text} :
    Own ((loads decoder text).mapError LockError.ofDecoder) ↔
      ∀ m ∈ (readDocument decoder text).marks, m.error decoder = none := by
  rw [← List.findSome?_eq_none_iff, loads]
  cases hfirst : (readDocument decoder text).marks.findSome? (Mark.error decoder) with
  | some e =>
      refine iff_of_false (fun h => ?_) nofun
      obtain ⟨m, -, hm⟩ := List.exists_of_findSome?_eq_some hfirst
      have hvalidation := own_error_iff.mp h
      cases m with
      | integer digits =>
          rw [Mark.error, Option.ite_none_right_eq_some] at hm
          rw [← Option.some.inj hm.2] at hvalidation
          cases hvalidation
      | container depth =>
          rw [Mark.error, Option.ite_none_right_eq_some] at hm
          rw [← Option.some.inj hm.2] at hvalidation
          cases hvalidation
  | none =>
      refine iff_of_true ?_ rfl
      cases hresult : (readDocument decoder text).result with
      | ok value => exact own_ok value
      | error e =>
          apply own_error_iff.mpr
          cases e with
          | malformed => rfl
          | hook message values => rfl
          | outOfFuel => exact absurd hresult (readDocument_fueled decoder text)

/-- The decoder passes no limit, and no check encodes a string with a surrogate. -/
def WithinDomain (library : Library) (decoder : Decoder) (raw : Bytes) : Prop :=
  ∀ text, Utf8.decode raw = some text →
    (∀ m ∈ (readDocument decoder text).marks, m.error decoder = none) ∧
      ∀ parsed, loads decoder text = .ok parsed → EncodableLock library parsed

/-- No exception but the parser's own escapes, exactly where the text stays in the domain. -/
theorem load_lock_own_iff (library : Library) (decoder : Decoder) (raw : Bytes) :
    Own (loadLock library decoder raw) ↔ WithinDomain library decoder raw := by
  rw [loadLock, WithinDomain]
  cases Utf8.decode raw with
  | none => exact iff_of_true (own_error_iff.mpr rfl) nofun
  | some text =>
      dsimp only
      rw [own_bind_iff own_loads (fun parsed hparsed => own_parseLock)]
      constructor
      · rintro ⟨hmarks, hparse⟩ text' htext
        cases htext
        refine ⟨hmarks, fun parsed hparsed => hparse parsed ?_⟩
        rw [hparsed]
        rfl
      · intro h
        obtain ⟨hmarks, hparse⟩ := h text rfl
        refine ⟨hmarks, fun parsed hparsed => hparse parsed ?_⟩
        exact Except.mapError_eq_ok.mp hparsed

/-! ### A surrogate -/

/-- Only the spaces and controls of ASCII count. -/
def asciiLibrary : Library where
  isSpace c := oneOf " \t\n\r\x0b\x0c" c
  isControl c := decide (c.ord < 32 ∨ c.ord = 127)
  nfc text := text
  casefold text := text
  windowsIsAbsolute _ := false
  windowsDrive _ := []
  urlsplit _ := none

def thousandDeep : Decoder := ⟨fun _ => true, 1000⟩

/-- A lock whose only corpus has an escaped surrogate as its ID. -/
def surrogateLock : Utf8.Text :=
  "\x7b\"schema_version\":1,".toList ++
    "\"contract_id\":\"mosaic-competitive-contract-v1\",".toList ++
    "\"corpora\":[\x7b\"id\":\"\\ud800\",".toList ++
    "\"snapshot_id\":null,\"source\":null,".toList ++
    "\"prepared\":null,\"preparation\":null,".toList ++ "\"license\":null\x7d]\x7d".toList

def raised {α : Type} : Except LockError α → Option LockError
  | .ok _ => none
  | .error e => some e

theorem Own.of_raised {α : Type} {x : Except LockError α} {e : LockError} (h : Own x)
    (hraised : raised x = some e) : e.isValidation = true := by
  cases x with
  | ok a => cases hraised
  | error e' =>
      cases Option.some.inj hraised
      exact h e rfl

theorem raised_surrogateLock :
    raised (do
      let parsed ← (loads thousandDeep surrogateLock).mapError LockError.ofDecoder
      parseLock asciiLibrary (Utf8.encode surrogateLock) parsed) = some .unicodeEncode := by
  decide +kernel

/-- The bytes are short enough for the loader, and `UnicodeEncodeError` escapes. -/
theorem surrogate_lock_escapes :
    ¬ ∀ (library : Library) (decoder : Decoder) (raw : Bytes), raw.length ≤ maxLockBytes →
      Own (loadLock library decoder raw) := by
  intro h
  have hshort : (Utf8.encode surrogateLock).length ≤ maxLockBytes := by decide +kernel
  have hown := h asciiLibrary thousandDeep (Utf8.encode surrogateLock) hshort
  rw [loadLock, Utf8.decode_encode] at hown
  have hvalidation := hown.of_raised raised_surrogateLock
  cases hvalidation

end MosaicArchive.Corpus
