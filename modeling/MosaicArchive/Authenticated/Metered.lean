import MosaicArchive.Authenticated.Integrity
import MosaicArchive.Bytes.Logged

/-!
The reader of the envelope with a meter: every counter that is raised and every buffer
that is allocated for a ciphertext is noted, in runs that fail as well. Without the
meter it is the reader.
-/

namespace MosaicArchive.Authenticated

open FixedWidth Sha256 MosaicArchive.Core IoProgram

inductive Counter where
  | nextIndex
  | corePlaintextBytes
  | archiveBytes
  | dataRecords
  | paddingBytes
  | authenticationBytes
  deriving DecidableEq, Repr

inductive Mark where
  /-- A counter was raised, from a value to another. -/
  | raised (counter : Counter) (before amount after : ℕ)
  /-- A buffer was allocated for a ciphertext, when so many bytes had been read. -/
  | allocated (archiveBytes size : ℕ)
  deriving DecidableEq, Repr

abbrev Metered := Logged Mark Error

/-- `checked_add`, with the new value assigned. -/
def raiseCounter (counter : Counter) (before amount : ℕ) (error : Error) : Metered ℕ := do
  let after ← .lift (checkedAdd 64 before amount error)
  .note (.raised counter before amount after)
  return after

namespace EnvelopeState

def readOuterExactMetered (st : EnvelopeState) (n : ℕ) (message : String) :
    Metered (Bytes × EnvelopeState) := do
  .lift (ensureArchiveRoom st n)
  let buffer ← .lift (readExactFormat n message)
  let archiveBytes ← raiseCounter .archiveBytes st.archiveBytes n
    (.invalidFormat "authenticated archive byte count overflows")
  return (buffer, { st with archiveBytes := archiveBytes })

def acceptDataMetered (st : EnvelopeState) (record : RecordHeader) (ciphertext plaintext : Bytes) :
    Metered (EnvelopeState × Option Bytes) := do
  let (payload, paddingBytes) ← .lift (.ofExcept (parseDataPlaintext plaintext))
  let corePlaintextBytes ← raiseCounter .corePlaintextBytes st.corePlaintextBytes payload.length
    (.invalidFormat "authenticated inner byte count overflows")
  let dataRecords ← raiseCounter .dataRecords st.dataRecords 1
    (.invalidFormat "authenticated data-record count overflows")
  let paddingBytes ← raiseCounter .paddingBytes st.paddingBytes paddingBytes
    (.invalidFormat "authenticated padding count overflows")
  return ({ st with
    transcript := st.transcript ++ (record.bytes ++ ciphertext)
    coreHashed := st.coreHashed ++ payload
    corePlaintextBytes := corePlaintextBytes
    dataRecords := dataRecords
    paddingBytes := paddingBytes }, some payload)

/-- The byte after the footer is counted without a check of its own. -/
def requirePhysicalEofMetered (st : EnvelopeState) : Metered Unit := do
  let byte ← .lift (.probe .io .ret)
  if byte.isEmpty then pure ()
  else do
    .lift (ensureArchiveRoom st 1)
    .note (.raised .archiveBytes st.archiveBytes 1 ((st.archiveBytes + 1) % 2 ^ 64))
    .lift (.fail (.invalidFormat "trailing bytes follow the authenticated footer"))

def acceptFooterMetered (st : EnvelopeState) (plaintext : Bytes) :
    Metered (EnvelopeState × Option Bytes) := do
  let (footer, paddingBytes) ← .lift (.ofExcept (parsePaddedFooter plaintext))
  .lift (.require (st.Confirms footer)
    (.invalidFormat "authenticated footer totals or digests are inconsistent"))
  let paddingBytes ← raiseCounter .paddingBytes st.paddingBytes paddingBytes
    (.invalidFormat "authenticated padding count overflows")
  requirePhysicalEofMetered st
  return ({ st with paddingBytes := paddingBytes, footer := some footer, finished := true }, none)

def acceptRecordMetered (st : EnvelopeState) (record : RecordHeader) (ciphertext plaintext : Bytes) :
    Metered (EnvelopeState × Option Bytes) :=
  if record.kind = dataRecordKind then st.acceptDataMetered record ciphertext plaintext
  else if record.kind = footerRecordKind then st.acceptFooterMetered plaintext
  else .lift (.fail (.invalidFormat "authenticated record kind is unsupported"))

def loadNextRecordMetered (suite : Suite) (st : EnvelopeState) :
    Metered (EnvelopeState × Option Bytes) := do
  let (recordBytes, st) ← st.readOuterExactMetered recordHeaderSize
    "authenticated record header is truncated"
  let record ← .lift (.ofExcept (RecordHeader.parse recordBytes))
  .lift (.require (record.index = st.nextIndex)
    (.invalidFormat "authenticated record index is inconsistent"))
  let _ ← .lift (.ofExcept (st.validateCiphertextBound record))
  .lift (st.ensureArchiveRoom record.ciphertextLen)
  .note (.allocated st.archiveBytes record.ciphertextLen)
  let (ciphertext, st) ← st.readOuterExactMetered record.ciphertextLen
    "authenticated record ciphertext is truncated"
  let plaintext ← .lift (.ofOption (suite.aead.decrypt st.key (nonce st.noncePrefix st.nextIndex)
    (aad st.header record) ciphertext) .authentication)
  let authenticationBytes ← raiseCounter .authenticationBytes st.authenticationBytes aeadTagSize
    (.invalidFormat "authentication-byte count overflows")
  let (st, payload) ← acceptRecordMetered { st with authenticationBytes := authenticationBytes }
    record ciphertext plaintext
  let nextIndex ← raiseCounter .nextIndex st.nextIndex 1
    (.invalidFormat "authenticated record index overflows")
  return ({ st with nextIndex := nextIndex }, payload)

end EnvelopeState

/-- The reader with what its meter has noted. -/
structure MeteredReader (suite : Suite) (ρ : Type) where
  reader : AuthenticatedReader suite ρ
  marks : List Mark

namespace MeteredReader

variable {suite : Suite} {ρ : Type}

def readLoop [Reader ρ] :
    ℕ → MeteredReader suite ρ → ℕ → Except IoError Bytes × MeteredReader suite ρ
  | 0, r, _ => (.ok [], r)
  | rounds + 1, r, n =>
      match r.reader.serve n with
      | some exit => (exit.1, { r with reader := exit.2 })
      | none =>
          match (r.reader.state.loadNextRecordMetered suite r.marks).run r.reader.reader with
          | { result := .error (error, marks), reader := reader, .. } =>
              (.error readFailed, ⟨{ r.reader with reader := reader, failure := some error }, marks⟩)
          | { result := .ok ((state, some payload), marks), reader := reader, .. } =>
              readLoop rounds ⟨{ r.reader with
                reader := reader, state := state, current := payload, currentOffset := 0 }, marks⟩ n
          | { result := .ok ((state, none), marks), reader := reader, .. } =>
              readLoop rounds ⟨{ r.reader with reader := reader, state := state }, marks⟩ n

def read [Reader ρ] (r : MeteredReader suite ρ) (n : ℕ) :
    Except IoError Bytes × MeteredReader suite ρ :=
  if n = 0 then (.ok [], r) else readLoop 2 r n

instance [Reader ρ] : Reader (MeteredReader suite ρ) where
  read := read

/-- The reader of an envelope that was opened; its header is counted. -/
def new (reader : ρ) (state : EnvelopeState) : MeteredReader suite ρ where
  reader := .new reader state
  marks := [.raised .archiveBytes 0 headerSize state.archiveBytes]

end MeteredReader

/-- `decode_authenticated`, and what its meter has noted. -/
def decodeAuthenticatedMetered {ρ : Type} [Reader ρ] (suite : Suite) (codecs : Codecs)
    (password : Bytes) (options : AuthenticatedDecodeOptions) (reader : ρ) :
    (Except Error AuthenticatedStats × List Bytes) × List Mark :=
  match (openEnvelope suite password options).run reader with
  | { result := .error error, .. } => ((.error error, []), [])
  | { result := .ok state, reader := reader, .. } =>
      let run := (decodeWithOptions codecs options.core).run
        (MeteredReader.new reader state : MeteredReader suite ρ)
      match run.reader.reader.failure, run.result with
      | some error, _ => ((.error error, run.written), run.reader.marks)
      | none, .error error => ((.error error, run.written), run.reader.marks)
      | none, .ok core => ((run.reader.reader.state.finish core, run.written), run.reader.marks)

/-! ### Without the meter -/

open Logged (Erases)

theorem raiseCounter_erases (counter : Counter) (before amount : ℕ) (error : Error) :
    Erases (raiseCounter counter before amount error) (checkedAdd 64 before amount error) := by
  intro log
  unfold raiseCounter checkedAdd
  split
  · rfl
  · rfl

namespace EnvelopeState

variable (st : EnvelopeState)

theorem readOuterExactMetered_erases (n : ℕ) (message : String) :
    Erases (st.readOuterExactMetered n message) (st.readOuterExact n message) := by
  refine (Erases.lift _).bind fun _ => (Erases.lift _).bind fun buffer => ?_
  exact (raiseCounter_erases _ _ _ _).bind fun archiveBytes => Erases.pure _

theorem acceptDataMetered_erases (record : RecordHeader) (ciphertext plaintext : Bytes) :
    Erases (st.acceptDataMetered record ciphertext plaintext)
      (st.acceptData record ciphertext plaintext) := by
  refine (Erases.lift _).bind fun x => ?_
  refine (raiseCounter_erases _ _ _ _).bind fun _ => (raiseCounter_erases _ _ _ _).bind fun _ => ?_
  exact (raiseCounter_erases _ _ _ _).bind fun _ => Erases.pure _

theorem requirePhysicalEofMetered_erases :
    Erases st.requirePhysicalEofMetered st.requirePhysicalEof := by
  refine (Erases.lift _).bind fun byte => ?_
  split
  · exact Erases.pure _
  · exact (Erases.lift _).bind fun _ => Erases.note_bind (Erases.lift _)

theorem acceptFooterMetered_erases (plaintext : Bytes) :
    Erases (st.acceptFooterMetered plaintext) (st.acceptFooter plaintext) := by
  refine (Erases.lift _).bind fun x => (Erases.lift _).bind fun _ => ?_
  refine (raiseCounter_erases _ _ _ _).bind fun _ => ?_
  exact (requirePhysicalEofMetered_erases st).bind fun _ => Erases.pure _

theorem acceptRecordMetered_erases (record : RecordHeader) (ciphertext plaintext : Bytes) :
    Erases (st.acceptRecordMetered record ciphertext plaintext)
      (st.acceptRecord record ciphertext plaintext) := by
  unfold acceptRecordMetered acceptRecord
  split
  · exact acceptDataMetered_erases st record ciphertext plaintext
  · split
    · exact acceptFooterMetered_erases st plaintext
    · exact Erases.lift _

theorem loadNextRecordMetered_erases (suite : Suite) :
    Erases (st.loadNextRecordMetered suite) (st.loadNextRecord suite) := by
  refine (readOuterExactMetered_erases st _ _).bind fun x => (Erases.lift _).bind fun record => ?_
  refine (Erases.lift _).bind fun _ => (Erases.lift _).bind fun _ => (Erases.lift _).bind fun _ => ?_
  refine Erases.note_bind ((readOuterExactMetered_erases _ _ _).bind fun y => ?_)
  refine (Erases.lift _).bind fun plaintext => (raiseCounter_erases _ _ _ _).bind fun _ => ?_
  refine (acceptRecordMetered_erases _ _ _ _).bind fun z => ?_
  exact (raiseCounter_erases _ _ _ _).bind fun _ => Erases.pure _

end EnvelopeState

namespace MeteredReader

variable {suite : Suite} {ρ : Type} [Reader ρ]

theorem readLoop_reader (rounds : ℕ) (r : MeteredReader suite ρ) (n : ℕ) :
    AuthenticatedReader.readLoop rounds r.reader n =
      ((readLoop rounds r n).1, (readLoop rounds r n).2.reader) := by
  induction rounds generalizing r with
  | zero => rfl
  | succ rounds ih =>
      rw [AuthenticatedReader.readLoop, readLoop]
      cases r.reader.serve n with
      | some exit => rfl
      | none =>
          have hload := (r.reader.state.loadNextRecordMetered_erases suite).run r.marks r.reader.reader
          dsimp only
          rw [hload]
          rcases (r.reader.state.loadNextRecordMetered suite r.marks).run r.reader.reader with
            ⟨⟨error, marks⟩ | ⟨⟨state, _ | payload⟩, marks⟩, written, reader⟩
          · rfl
          · exact ih ⟨{ r.reader with reader := reader, state := state }, marks⟩
          · exact ih ⟨{ r.reader with
              reader := reader, state := state, current := payload, currentOffset := 0 }, marks⟩

/-- The meter does not change what is read. -/
theorem read_reader (r : MeteredReader suite ρ) (n : ℕ) :
    (Reader.read r.reader n : Except IoError Bytes × AuthenticatedReader suite ρ) =
      ((Reader.read r n).1, (Reader.read r n).2.reader) := by
  show r.reader.read n = ((r.read n).1, (r.read n).2.reader)
  rw [AuthenticatedReader.read, read]
  split
  · rfl
  · exact readLoop_reader 2 r n

end MeteredReader

/-- The metered run is the run of the decoder. -/
theorem decodeAuthenticatedMetered_fst {ρ : Type} [Reader ρ] (suite : Suite) (codecs : Codecs)
    (password : Bytes) (options : AuthenticatedDecodeOptions) (reader : ρ) :
    (decodeAuthenticatedMetered suite codecs password options reader).1 =
      decodeAuthenticated suite codecs password options reader := by
  unfold decodeAuthenticatedMetered decodeAuthenticated
  rcases (openEnvelope suite password options).run reader with ⟨error | state, written, reader'⟩
  · rfl
  · have hrun := run_project (f := MeteredReader.reader) MeteredReader.read_reader
      (decodeWithOptions codecs options.core) (MeteredReader.new reader' state : MeteredReader suite ρ)
    have hnew : (MeteredReader.new reader' state : MeteredReader suite ρ).reader =
        .new reader' state := rfl
    rw [hnew] at hrun
    dsimp only
    rw [hrun]
    dsimp only
    cases ((decodeWithOptions codecs options.core).run
      (MeteredReader.new reader' state : MeteredReader suite ρ)).reader.reader.failure with
    | some error => rfl
    | none =>
        cases ((decodeWithOptions codecs options.core).run
          (MeteredReader.new reader' state : MeteredReader suite ρ)).result with
        | error error => rfl
        | ok core => rfl

/-! ### What the meter notes -/

/-- No counter wraps, the bytes read stay within the limit, and no buffer is allocated that
would go over it. -/
def Mark.Sound (maxArchiveBytes : ℕ) : Mark → Prop
  | raised counter before amount after =>
      after = before + amount ∧ after < 2 ^ 64 ∧ (counter = .archiveBytes → after ≤ maxArchiveBytes)
  | allocated archiveBytes size => archiveBytes + size ≤ maxArchiveBytes

def Sound (maxArchiveBytes : ℕ) (marks : List Mark) : Prop := ∀ m ∈ marks, m.Sound maxArchiveBytes

theorem Sound.append {maxArchiveBytes : ℕ} {marks : List Mark} {m : Mark}
    (h : Sound maxArchiveBytes marks) (hm : m.Sound maxArchiveBytes) :
    Sound maxArchiveBytes (marks ++ [m]) := by
  intro m' hm'
  rcases List.mem_append.mp hm' with hm' | hm'
  · exact h m' hm'
  · rwa [List.mem_singleton.mp hm']

open Logged (Ensures)

section

variable {limit : ℕ}

theorem always_checkedAdd {before amount : ℕ} {error : Error} :
    (checkedAdd 64 before amount error).Always
      (fun after => after = before + amount ∧ after < 2 ^ 64) fun _ => True := by
  unfold checkedAdd
  split
  · rename_i h
    exact ⟨rfl, h⟩
  · exact True.intro

theorem raiseCounter_ensures {counter : Counter} {before amount : ℕ} {error : Error}
    (h : counter = .archiveBytes → before + amount ≤ limit) :
    Ensures (Sound limit) (raiseCounter counter before amount error)
      (fun after marks => after = before + amount ∧ Sound limit marks) (Sound limit) := by
  refine Ensures.bind (Ensures.lift always_checkedAdd fun _ h => h) fun after => ?_
  refine Ensures.note_bind (Ensures.pure ?_)
  rintro _ ⟨marks, ⟨⟨rfl, hlt⟩, hmarks⟩, rfl⟩
  exact ⟨rfl, hmarks.append ⟨rfl, hlt, h⟩⟩

/-- Nothing is promised of the result of a part that notes nothing. -/
theorem lift_ensures {α : Type} (p : IoProgram Error α) :
    Ensures (Sound limit) (Logged.lift p) (fun _ => Sound limit) (Sound limit) :=
  Ensures.mono (Ensures.lift (Always.trivial p) fun _ h => h) (fun _ h => h) fun _ _ h => h.2

end

namespace EnvelopeState

/-- The state has read no more than it may, and has a record if it has the footer. -/
structure Within (limit : ℕ) (st : EnvelopeState) : Prop where
  options : st.options.maxArchiveBytes = limit
  archive : st.archiveBytes ≤ limit
  records : st.finished = true → 0 < st.dataRecords

variable {limit : ℕ} {st : EnvelopeState}

theorem ensureArchiveRoom_always (h : st.Within limit) (additional : ℕ) :
    (st.ensureArchiveRoom additional).Always
      (fun _ => st.archiveBytes + additional ≤ limit ∧ st.archiveBytes + additional < 2 ^ 64)
      fun _ => True := by
  refine Always.bind always_checkedAdd fun next hnext => ?_
  obtain ⟨rfl, hlt⟩ := hnext
  refine Always.require (fun hle => ⟨?_, hlt⟩) fun _ => True.intro
  rwa [h.options] at hle

theorem readOuterExactMetered_ensures (h : st.Within limit) (n : ℕ) (message : String) :
    Ensures (Sound limit) (st.readOuterExactMetered n message)
      (fun x marks => x.2 = { st with archiveBytes := st.archiveBytes + n } ∧ x.2.Within limit ∧
        Sound limit marks) (Sound limit) := by
  refine Ensures.bind (Ensures.lift (ensureArchiveRoom_always h n) fun _ h => h) fun _ => ?_
  refine Ensures.of_fact fun hroom => ?_
  refine Ensures.bind (lift_ensures _) fun buffer => ?_
  refine Ensures.bind (raiseCounter_ensures fun _ => hroom.1) fun archiveBytes => ?_
  refine Ensures.of_fact ?_
  rintro rfl
  exact Ensures.pure fun marks hmarks => ⟨rfl, ⟨h.options, hroom.1, h.records⟩, hmarks⟩

theorem acceptDataMetered_ensures (h : st.Within limit) (record : RecordHeader)
    (ciphertext plaintext : Bytes) (hfinished : st.finished = false) :
    Ensures (Sound limit) (st.acceptDataMetered record ciphertext plaintext)
      (fun x marks => x.1.Within limit ∧ Sound limit marks) (Sound limit) := by
  refine Ensures.bind (lift_ensures _) fun x => ?_
  refine Ensures.bind (raiseCounter_ensures fun h => nomatch h) fun _ => ?_
  refine Ensures.of_fact fun _ => ?_
  refine Ensures.bind (raiseCounter_ensures fun h => nomatch h) fun _ => ?_
  refine Ensures.of_fact fun _ => ?_
  refine Ensures.bind (raiseCounter_ensures fun h => nomatch h) fun _ => ?_
  refine Ensures.of_fact fun _ => Ensures.pure fun marks hmarks => ⟨⟨h.options, h.archive, ?_⟩, hmarks⟩
  intro htrue
  rw [hfinished] at htrue
  cases htrue

theorem requirePhysicalEofMetered_ensures (h : st.Within limit) :
    Ensures (Sound limit) st.requirePhysicalEofMetered (fun _ => Sound limit) (Sound limit) := by
  refine Ensures.bind (lift_ensures _) fun byte => ?_
  split
  · exact Ensures.pure fun _ h => h
  · refine Ensures.bind (Ensures.lift (ensureArchiveRoom_always h 1) fun _ h => h) fun _ => ?_
    refine Ensures.of_fact fun hroom => Ensures.note_bind ?_
    refine Ensures.mono (lift_ensures _) ?_ fun _ _ h => h
    rintro _ ⟨marks, hmarks, rfl⟩
    -- The room for the byte was checked, so that the sum does not wrap.
    have hsum : (st.archiveBytes + 1) % 2 ^ 64 = st.archiveBytes + 1 := Nat.mod_eq_of_lt hroom.2
    refine hmarks.append ⟨hsum, ?_, fun _ => ?_⟩
    · rw [hsum]
      exact hroom.2
    · rw [hsum]
      exact hroom.1

theorem acceptFooterMetered_ensures (h : st.Within limit) (plaintext : Bytes)
    (hrecords : 0 < st.dataRecords) :
    Ensures (Sound limit) (st.acceptFooterMetered plaintext)
      (fun x marks => x.1.Within limit ∧ Sound limit marks) (Sound limit) := by
  refine Ensures.bind (lift_ensures _) fun x => Ensures.bind (lift_ensures _) fun _ => ?_
  refine Ensures.bind (raiseCounter_ensures fun h => nomatch h) fun _ => Ensures.of_fact fun _ => ?_
  refine Ensures.bind (requirePhysicalEofMetered_ensures h) fun _ => ?_
  exact Ensures.pure fun marks hmarks => ⟨⟨h.options, h.archive, fun _ => hrecords⟩, hmarks⟩

theorem validateCiphertextBound_always (st : EnvelopeState) (record : RecordHeader) :
    (IoProgram.ofExcept (st.validateCiphertextBound record)).Always
      (fun _ => st.validateCiphertextBound record = .ok ()) fun _ => True :=
  Always.ofExcept (fun _ h => h) fun _ _ => True.intro

theorem validateCiphertextBound_footer {record : RecordHeader}
    (h : st.validateCiphertextBound record = .ok ()) (hkind : record.kind = footerRecordKind) :
    0 < st.dataRecords := by
  rw [validateCiphertextBound, hkind, if_neg footerRecordKind_ne, if_pos rfl] at h
  split_ifs at h with hbound
  rw [not_or, not_or] at hbound
  exact Nat.pos_of_ne_zero hbound.2.1

theorem acceptRecordMetered_ensures (h : st.Within limit) {record : RecordHeader}
    (ciphertext plaintext : Bytes) (hfinished : st.finished = false)
    (hfooter : record.kind = footerRecordKind → 0 < st.dataRecords) :
    Ensures (Sound limit) (st.acceptRecordMetered record ciphertext plaintext)
      (fun x marks => x.1.Within limit ∧ Sound limit marks) (Sound limit) := by
  unfold acceptRecordMetered
  split
  · exact acceptDataMetered_ensures h record ciphertext plaintext hfinished
  · split
    · rename_i hkind
      exact acceptFooterMetered_ensures h plaintext (hfooter hkind)
    · exact Ensures.mono (Ensures.lift (F := fun _ => False) True.intro fun _ h => h) (fun _ h => h)
        fun _ _ h => h.1.elim

/-- Loading a record keeps within the limit, whatever is read. -/
theorem loadNextRecordMetered_ensures (suite : Suite) (h : st.Within limit)
    (hfinished : st.finished = false) :
    Ensures (Sound limit) (st.loadNextRecordMetered suite)
      (fun x marks => x.1.Within limit ∧ Sound limit marks) (Sound limit) := by
  refine Ensures.bind (readOuterExactMetered_ensures h _ _) fun x => ?_
  obtain ⟨recordBytes, st₁⟩ := x
  refine Ensures.of_fact ?_
  rintro rfl
  refine Ensures.of_fact fun h₁ => ?_
  refine Ensures.bind (lift_ensures _) fun record => Ensures.bind (lift_ensures _) fun _ => ?_
  refine Ensures.bind (Ensures.lift (validateCiphertextBound_always _ _) fun _ h => h) fun _ => ?_
  refine Ensures.of_fact fun hbound => ?_
  refine Ensures.bind (Ensures.lift (ensureArchiveRoom_always h₁ _) fun _ h => h) fun _ => ?_
  refine Ensures.of_fact fun hroom => Ensures.note_bind ?_
  have hmarked : ∀ log, (∃ marks, Sound limit marks ∧
      log = marks ++ [.allocated (st.archiveBytes + recordHeaderSize) record.ciphertextLen]) →
        Sound limit log := by
    rintro _ ⟨marks, hmarks, rfl⟩
    exact hmarks.append hroom.1
  refine Ensures.mono ?_ hmarked fun _ _ h => h
  refine Ensures.bind (readOuterExactMetered_ensures h₁ _ _) fun y => ?_
  obtain ⟨ciphertext, st₂⟩ := y
  refine Ensures.of_fact ?_
  rintro rfl
  refine Ensures.of_fact fun h₂ => Ensures.bind (lift_ensures _) fun plaintext => ?_
  refine Ensures.bind (raiseCounter_ensures fun h => nomatch h) fun authenticationBytes => ?_
  refine Ensures.of_fact fun _ => ?_
  have h₃ : Within limit { st with
      archiveBytes := st.archiveBytes + recordHeaderSize + record.ciphertextLen
      authenticationBytes := authenticationBytes } := ⟨h₂.options, h₂.archive, h₂.records⟩
  refine Ensures.bind (acceptRecordMetered_ensures h₃ ciphertext plaintext hfinished
    (validateCiphertextBound_footer hbound)) fun z => Ensures.of_fact fun hz => ?_
  refine Ensures.bind (raiseCounter_ensures fun h => nomatch h) fun nextIndex => ?_
  refine Ensures.of_fact fun _ => Ensures.pure fun marks hmarks => ⟨?_, hmarks⟩
  exact ⟨hz.options, hz.archive, hz.records⟩

end EnvelopeState

end MosaicArchive.Authenticated
