import MosaicArchive.Container.Frames
import MosaicArchive.Numbers.Rejection
import MosaicArchive.Report.Contract

/-!
The bootstrap stream of the Competitive Contract v1 (`mosaic_archive/competitive_contract.py`):
SHA-256 in counter mode over a length-prefixed identity, and resampling indices drawn from its
words by rejection. The hashed byte strings tell what they are made from, and every residue is
drawn from the same number of words.
-/

namespace MosaicArchive.Report

open Utf8 (Text encode)
open FixedWidth
open Manifest (PyError)
open Container (ofOption)

def bootstrapStreamDomain : Text := "mosaic-competitive-bootstrap-stream-v1".toList
/-- `_UINT64_RANGE` -/
def uint64Range : ℕ := 2 ^ 64

/-- `_length_prefixed_identity`, with its check of the lengths. -/
def checkedIdentity (domain : Text) (fields : List Text) : Except PyError Bytes := do
  Except.raiseIf (∃ field ∈ domain :: fields, 0xFFFFFFFF < (encode field).length)
    (.value "identity field exceeds the unsigned 32-bit length encoding")
  .ok (lengthPrefixedIdentity (domain :: fields))

/-- The bytes `derive_case_id` hashes. -/
def caseIdMaterial (i : CaseIdentity) : Except PyError Bytes := checkedIdentity caseIdDomain i.fields

/-- The bytes that are hashed with each counter. -/
def bootstrapMaterial (i : CaseIdentity) (comparator : Text) : Except PyError Bytes :=
  checkedIdentity bootstrapStreamDomain (i.fields ++ [comparator])

/-- `material + counter.to_bytes(8, "big")` -/
def counterInput (material : Bytes) (counter : ℕ) : Bytes := material ++ beBytes 8 counter

/-- The words of `_sha256_counter_words`, four from each digest. -/
def sha256CounterWord (material : Bytes) (index : ℕ) : ℕ :=
  beNat (slice (sha256 (counterInput material (index / 4))) (index % 4 * 8) (index % 4 * 8 + 8))

/-- The number of words of the stream. -/
def streamLength : ℕ := 4 * uint64Range

def acceptanceLimit (upperBound : ℕ) : ℕ := uint64Range - uint64Range % upperBound

def requireBindingComparatorId (comparatorId : Text) : Except PyError Text := do
  Except.raiseIf (comparatorId ∉ bindingTools) (.value ("comparator_id must be one of " ++
    "('7zip_raw', '7zip_aes256_headers', 'zstd_raw', 'zstd_age_passphrase')"))
  .ok comparatorId

/-- `_bootstrap_indices` over the words of a stream. -/
def bootstrapFrom (word : Bytes → ℕ → ℕ) (i : CaseIdentity) (comparatorId : Text)
    (count upperBound : ℤ) : Except PyError (List ℕ) := do
  let comparator ← requireBindingComparatorId comparatorId
  Except.raiseIf (count < 0) (.value "count must be a nonnegative integer")
  Except.raiseIf (¬ (0 < upperBound ∧ upperBound ≤ uint64Range))
    (.value "upper_bound must be an integer from 1 through 2^64")
  let material ← bootstrapMaterial i comparator
  if count = 0 then .ok []
  else ofOption (Rejection.draw (word material) (acceptanceLimit upperBound.toNat) upperBound.toNat
    count.toNat streamLength 0 []) (.runtime "SHA-256 counter stream exhausted")

/-- `_bootstrap_indices` -/
def bootstrapIndices : CaseIdentity → Text → ℤ → ℤ → Except PyError (List ℕ) :=
  bootstrapFrom sha256CounterWord

/-! ### The hashed bytes -/

theorem checkedIdentity_eq_ok {domain : Text} {fields : List Text} {b : Bytes} :
    checkedIdentity domain fields = .ok b ↔
      (∀ field ∈ domain :: fields, (encode field).length < 256 ^ 4) ∧
        b = lengthPrefixedIdentity (domain :: fields) := by
  simp only [checkedIdentity, Except.bind_eq_ok_iff, Except.raiseIf_eq_ok, Except.ok.injEq, exists_const,
    not_exists, not_and, not_lt, eq_comm (a := b)]
  apply and_congr_left
  intro _
  apply forall₂_congr
  intro field _
  omega

/-- A prefixed field is told from what follows it. -/
theorem prefixed_inj {field field' : Text} {rest rest' : Bytes} (h : (encode field).length < 256 ^ 4)
    (h' : (encode field').length < 256 ^ 4)
    (heq : beBytes 4 (encode field).length ++ encode field ++ rest =
      beBytes 4 (encode field').length ++ encode field' ++ rest') : field = field' ∧ rest = rest' := by
  rw [List.append_assoc, List.append_assoc] at heq
  obtain ⟨hfront, htail⟩ := List.append_inj heq (by rw [beBytes_length, beBytes_length])
  obtain ⟨hfield, hrest⟩ := List.append_inj htail (beBytes_inj h h' hfront)
  exact ⟨Utf8.encode_inj hfield, hrest⟩

theorem lengthPrefixedIdentity_cons (field : Text) (fields : List Text) (rest : Bytes) :
    lengthPrefixedIdentity (field :: fields) ++ rest =
      beBytes 4 (encode field).length ++ encode field ++ (lengthPrefixedIdentity fields ++ rest) := by
  rw [lengthPrefixedIdentity, List.flatMap_cons, List.append_assoc]
  rfl

/-- As many fields are told from what follows them. -/
theorem lengthPrefixedIdentity_inj {fields fields' : List Text} {rest rest' : Bytes}
    (h : ∀ field ∈ fields, (encode field).length < 256 ^ 4)
    (h' : ∀ field ∈ fields', (encode field).length < 256 ^ 4) (hlength : fields.length = fields'.length)
    (heq : lengthPrefixedIdentity fields ++ rest = lengthPrefixedIdentity fields' ++ rest') :
    fields = fields' ∧ rest = rest' := by
  induction fields generalizing fields' with
  | nil =>
      obtain rfl := List.eq_nil_of_length_eq_zero hlength.symm
      exact ⟨rfl, heq⟩
  | cons field fields ih =>
      cases fields' with
      | nil => cases hlength
      | cons field' fields' =>
          rw [List.forall_mem_cons] at h h'
          rw [lengthPrefixedIdentity_cons, lengthPrefixedIdentity_cons] at heq
          obtain ⟨rfl, htail⟩ := prefixed_inj h.1 h'.1 heq
          obtain ⟨rfl, hrest⟩ := ih h.2 h'.2 (Nat.succ.inj hlength) htail
          exact ⟨rfl, hrest⟩

theorem toString_inj {m n : ℕ} (h : (toString m).toList = (toString n).toList) : m = n := by
  rw [Nat.toString_eq_repr, Nat.toString_eq_repr, Nat.toList_repr, Nat.toList_repr] at h
  have hvalue : ∀ k : ℕ, Nat.ofDigitChars 10 (Nat.toDigits 10 k) 0 = k := fun _ =>
    Nat.ofDigitChars_toDigits (by omega) (by omega)
  rw [← hvalue m, h, hvalue]

/-- The fields tell the identity. -/
theorem CaseIdentity.fields_inj {i j : CaseIdentity} (hi : i.Checked) (hj : j.Checked)
    (h : i.fields = j.fields) : i = j := by
  simp only [CaseIdentity.fields, List.cons.injEq, and_true] at h
  obtain ⟨hcontract, hmanifest, hcorpus, hinput, hbytes, hthreads, hmetric⟩ := h
  have hthreadCount : i.threadCount = j.threadCount := by
    have hall : ∀ a ∈ threadTiers, ∀ b ∈ threadTiers, (toString a).toList = (toString b).toList → a = b := by
      decide
    exact hall _ hi.threadCount _ hj.threadCount hthreads
  rw [CaseIdentity.mk.injEq]
  exact ⟨hcontract, hmanifest, hcorpus, hinput, toString_inj hbytes, hthreadCount, hmetric⟩

/-- The identity, the comparator and the counter are told by the bytes that are hashed. -/
theorem counterInput_inj {i j : CaseIdentity} {comparator comparator' : Text} {m m' : Bytes} {n n' : ℕ}
    (hi : i.Checked) (hj : j.Checked) (hm : bootstrapMaterial i comparator = .ok m)
    (hm' : bootstrapMaterial j comparator' = .ok m') (hn : n < 256 ^ 8) (hn' : n' < 256 ^ 8)
    (h : counterInput m n = counterInput m' n') : i = j ∧ comparator = comparator' ∧ n = n' := by
  obtain ⟨hfits, rfl⟩ := checkedIdentity_eq_ok.mp hm
  obtain ⟨hfits', rfl⟩ := checkedIdentity_eq_ok.mp hm'
  obtain ⟨hfields, hcounter⟩ := lengthPrefixedIdentity_inj hfits hfits' rfl h
  obtain ⟨-, hfields⟩ := List.cons.inj hfields
  obtain ⟨hfields, hcomparator⟩ := List.append_inj hfields rfl
  exact ⟨CaseIdentity.fields_inj hi hj hfields, List.head_eq_of_cons_eq hcomparator,
    beBytes_inj hn hn' hcounter⟩

/-- The two domains differ, so no byte string is hashed for both. -/
theorem counterInput_ne_caseId {i j : CaseIdentity} {comparator : Text} {m m' : Bytes} (n : ℕ)
    (hm : bootstrapMaterial i comparator = .ok m) (hm' : caseIdMaterial j = .ok m') :
    counterInput m n ≠ m' := by
  obtain ⟨hfits, rfl⟩ := checkedIdentity_eq_ok.mp hm
  obtain ⟨hfits', rfl⟩ := checkedIdentity_eq_ok.mp hm'
  intro h
  rw [counterInput, ← List.append_nil (lengthPrefixedIdentity (caseIdDomain :: j.fields)),
    lengthPrefixedIdentity_cons, lengthPrefixedIdentity_cons] at h
  have hdomain := (prefixed_inj (hfits _ List.mem_cons_self) (hfits' _ List.mem_cons_self) h).1
  exact absurd hdomain (by decide)

/-- The name of a case is derived from its material. -/
theorem caseId_eq {i : CaseIdentity} {m : Bytes} (h : caseIdMaterial i = .ok m) :
    i.caseId = caseIdPrefix ++ hexDigest (sha256 m) := by
  obtain ⟨-, rfl⟩ := checkedIdentity_eq_ok.mp h
  rfl

/-! ### The drawn indices -/

/-- The first accepted words of a stream, reduced to their residues. -/
def residues (word : ℕ → ℕ) (count upperBound : ℕ) : List ℕ :=
  ((Rejection.accepted word (acceptanceLimit upperBound) 0 streamLength).take count).map (· % upperBound)

/-- The stream has enough words that are accepted. -/
def Enough (word : ℕ → ℕ) (count upperBound : ℕ) : Prop :=
  count ≤ (Rejection.accepted word (acceptanceLimit upperBound) 0 streamLength).length

instance (word : ℕ → ℕ) (count upperBound : ℕ) : Decidable (Enough word count upperBound) :=
  inferInstanceAs (Decidable (_ ≤ _))

theorem bootstrapFrom_eq {word : Bytes → ℕ → ℕ} {i : CaseIdentity} {comparator : Text} {m : Bytes}
    (hcomparator : comparator ∈ bindingTools) (hm : bootstrapMaterial i comparator = .ok m)
    (count : ℕ) {upperBound : ℕ} (hbound : 0 < upperBound ∧ upperBound ≤ uint64Range) :
    bootstrapFrom word i comparator count upperBound =
      if Enough (word m) count upperBound then .ok (residues (word m) count upperBound)
      else .error (.runtime "SHA-256 counter stream exhausted") := by
  have hcount : ¬ ((count : ℤ) < 0) := by omega
  have hvalid : ¬ ¬ (0 < (upperBound : ℤ) ∧ (upperBound : ℤ) ≤ uint64Range) := by omega
  have hrequired : requireBindingComparatorId comparator = .ok comparator := by
    rw [requireBindingComparatorId, Except.raiseIf, if_neg (not_not.mpr hcomparator)]
    rfl
  rw [bootstrapFrom, hrequired]
  show (Except.raiseIf ((count : ℤ) < 0) (PyError.value "count must be a nonnegative integer") >>= fun _ => _) = _
  rw [Except.raiseIf, if_neg hcount]
  show (Except.raiseIf (¬ (0 < (upperBound : ℤ) ∧ (upperBound : ℤ) ≤ uint64Range))
    (PyError.value "upper_bound must be an integer from 1 through 2^64") >>= fun _ => _) = _
  rw [Except.raiseIf, if_neg hvalid]
  show (bootstrapMaterial i comparator >>= fun _ => _) = _
  rw [hm]
  show (if (count : ℤ) = 0 then _ else _) = _
  cases count with
  | zero =>
      rw [if_pos Nat.cast_zero, if_pos (show Enough (word m) 0 upperBound from Nat.zero_le _)]
      rfl
  | succ count =>
      rw [if_neg (by omega), Int.toNat_natCast, Int.toNat_natCast, Rejection.draw_start (Nat.succ_pos count)]
      show ofOption (if Enough (word m) (count + 1) upperBound then
        some (residues (word m) (count + 1) upperBound) else none) _ = _
      split_ifs <;> rfl

/-- Residues are in range, and as many as were asked for where the stream has enough words. -/
theorem residues_spec {word : ℕ → ℕ} {count upperBound : ℕ} (hbound : 0 < upperBound)
    (h : Enough word count upperBound) : (residues word count upperBound).length = count ∧
      ∀ r ∈ residues word count upperBound, r < upperBound := by
  refine ⟨?_, ?_⟩
  · rw [residues, List.length_map, List.length_take]
    exact Nat.min_eq_left h
  · rw [residues, List.forall_mem_map]
    exact fun word _ => Nat.mod_lt word hbound

/-- The bytes hashed for the stream tell the identity, the comparator and the counter, and are
never those hashed for a case name. From any stream of words the indices are the residues of the
first accepted ones, in order, where the stream has enough of them, and an error otherwise; and
each residue comes from the same number of accepted 64-bit words. -/
theorem bootstrap_stream_exact (word : Bytes → ℕ → ℕ) :
    (∀ i j comparator comparator' m m' n n', i.Checked → j.Checked →
      bootstrapMaterial i comparator = .ok m → bootstrapMaterial j comparator' = .ok m' →
      n < uint64Range → n' < uint64Range → counterInput m n = counterInput m' n' →
      i = j ∧ comparator = comparator' ∧ n = n') ∧
    (∀ i j comparator m m' n, bootstrapMaterial i comparator = .ok m → caseIdMaterial j = .ok m' →
      counterInput m n ≠ m') ∧
    (∀ i comparator m (count upperBound : ℕ), comparator ∈ bindingTools →
      bootstrapMaterial i comparator = .ok m → 0 < upperBound → upperBound ≤ uint64Range →
      bootstrapFrom word i comparator count upperBound =
        (if Enough (word m) count upperBound then .ok (residues (word m) count upperBound)
        else .error (.runtime "SHA-256 counter stream exhausted")) ∧
      (Enough (word m) count upperBound → (residues (word m) count upperBound).length = count ∧
        ∀ r ∈ residues (word m) count upperBound, r < upperBound)) ∧
    ∀ upperBound residue, residue < upperBound → upperBound ≤ uint64Range →
      ((Finset.range uint64Range).filter fun word =>
        word < acceptanceLimit upperBound ∧ word % upperBound = residue).card =
          uint64Range / upperBound := by
  have hrange : uint64Range = 256 ^ 8 := rfl
  refine ⟨?_, ?_, ?_, ?_⟩
  · intro i j comparator comparator' m m' n n' hi hj hm hm' hn hn'
    rw [hrange] at hn hn'
    exact counterInput_inj hi hj hm hm' hn hn'
  · intro i j comparator m m' n
    exact counterInput_ne_caseId n
  · intro i comparator m count upperBound hcomparator hm hpos hle
    exact ⟨bootstrapFrom_eq hcomparator hm count ⟨hpos, hle⟩, residues_spec hpos⟩
  · intro upperBound residue hresidue _
    rw [← Rejection.card_residue uint64Range hresidue]
    apply congrArg Finset.card
    ext word
    rw [Finset.mem_filter, Finset.mem_filter, Finset.mem_range, Finset.mem_range, acceptanceLimit]
    omega

/-- The identity of a case. -/
def sampleIdentity : CaseIdentity where
  contractSha256 := contractSha256
  corpusManifestSha256 := List.replicate 64 '0'
  corpusId := "a".toList
  inputSha256 := List.replicate 64 '0'
  inputBytes := minimumInputBytes
  threadCount := 1
  metric := "encode_wall_seconds".toList

theorem sampleIdentity_checked : sampleIdentity.Checked := by
  refine ⟨rfl, by decide, by decide +kernel, by decide, by decide, le_rfl, by decide, by decide⟩

theorem sampleIdentity_material : ∃ m, bootstrapMaterial sampleIdentity "7zip_raw".toList = .ok m := by
  refine ⟨_, checkedIdentity_eq_ok.mpr ⟨?_, rfl⟩⟩
  decide +kernel

theorem accepted_of_rejected {word limit : ℕ} (h : ¬ word < limit) (index length : ℕ) :
    Rejection.accepted (fun _ => word) limit index length = [] := by
  rw [Rejection.accepted, List.filter_eq_nil_iff, List.forall_mem_map]
  intro _ _ hlt
  exact h (of_decide_eq_true hlt)

/-- A stream whose words are all rejected runs out. -/
theorem bootstrap_stream_exhausted : sampleIdentity.Checked ∧
    bootstrapFrom (fun _ _ => 2 ^ 64 - 1) sampleIdentity "7zip_raw".toList (1 : ℕ) (3 : ℕ) =
      .error (.runtime "SHA-256 counter stream exhausted") := by
  refine ⟨sampleIdentity_checked, ?_⟩
  obtain ⟨m, hm⟩ := sampleIdentity_material
  have hfew : ¬ Enough (fun _ => 2 ^ 64 - 1) 1 3 := by
    rw [Enough, accepted_of_rejected (by decide)]
    decide
  rw [bootstrapFrom_eq (by decide) hm 1 ⟨by decide, by decide⟩, if_neg hfew]

end MosaicArchive.Report
