import MosaicArchive.Authenticated.Records
import MosaicArchive.Authenticated.Reader

/-!
What loading a record can do. A load that succeeds has read one record in its
one encoding, opened it under the index of the reader and moved every counter
by it; the footer is accepted only at the physical end of the input.
-/

namespace MosaicArchive.Authenticated

open FixedWidth Sha256 MosaicArchive.Core IoProgram

namespace EnvelopeState

/-- The state after a data record. -/
def afterData (st : EnvelopeState) (ciphertext payload : Bytes) (padding : ℕ) : EnvelopeState :=
  { st with
    nextIndex := st.nextIndex + 1
    corePlaintextBytes := st.corePlaintextBytes + payload.length
    coreHashed := st.coreHashed ++ payload
    transcript := st.transcript ++ recordBytes st.nextIndex dataRecordKind ciphertext
    archiveBytes := st.archiveBytes + (recordHeaderSize + ciphertext.length)
    dataRecords := st.dataRecords + 1
    paddingBytes := st.paddingBytes + padding
    authenticationBytes := st.authenticationBytes + aeadTagSize }

/-- The state after the footer. -/
def afterFooter (st : EnvelopeState) (ciphertext : Bytes) (footer : Footer) (padding : ℕ) :
    EnvelopeState :=
  { st with
    nextIndex := st.nextIndex + 1
    archiveBytes := st.archiveBytes + (recordHeaderSize + ciphertext.length)
    paddingBytes := st.paddingBytes + padding
    authenticationBytes := st.authenticationBytes + aeadTagSize
    footer := some footer
    finished := true }

/-- The ciphertext opens under the index of the state. -/
def Opens (suite : Suite) (st : EnvelopeState) (kind : UInt8) (ciphertext plaintext : Bytes) :
    Prop :=
  suite.aead.decrypt st.key (nonce st.noncePrefix st.nextIndex)
    (aeadAadDomain ++ st.header.bytes ++
      (recordHeaderFields st.nextIndex kind ciphertext.length).flatten) ciphertext = some plaintext

/-- A load that succeeded. -/
inductive Loads (suite : Suite) (st : EnvelopeState) (s : ByteSource) :
    EnvelopeState → Option Bytes → ByteSource → Prop where
  | data (ciphertext plaintext payload rest : Bytes) (padding : ℕ)
      (hbytes : s.bytes = recordBytes st.nextIndex dataRecordKind ciphertext ++ rest)
      (hopens : st.Opens suite dataRecordKind ciphertext plaintext)
      (hparse : parseDataPlaintext plaintext = .ok (payload, padding))
      (hindex : st.nextIndex < 2 ^ 64) :
      Loads suite st s (st.afterData ciphertext payload padding) (some payload)
        { s with bytes := rest }
  | footer (ciphertext plaintext : Bytes) (footer : Footer) (padding : ℕ)
      (hbytes : s.bytes = recordBytes st.nextIndex footerRecordKind ciphertext)
      (hopens : st.Opens suite footerRecordKind ciphertext plaintext)
      (hparse : parsePaddedFooter plaintext = .ok (footer, padding))
      (hconfirms : st.Confirms footer) (hindex : st.nextIndex < 2 ^ 64) (hfault : s.fault = none) :
      Loads suite st s (st.afterFooter ciphertext footer padding) none
        { s with bytes := [], sawEnd := true }

variable {suite : Suite} {st st' : EnvelopeState}

theorem ensureArchiveRoom_bind_inv {β : Type} {additional : ℕ} {f : Unit → IoProgram Error β}
    {s s' : ByteSource} {b : β} {w : List Bytes}
    (h : ((st.ensureArchiveRoom additional).bind f).Yields s b w s') :
    (f ()).Yields s b w s' := by
  obtain ⟨_, w₁, s₁, w₂, hroom, hf, rfl⟩ := h.bind_inv
  obtain ⟨-, hroom⟩ := checkedAdd_bind_inv hroom
  unfold require at hroom
  split at hroom
  · obtain ⟨-, rfl, rfl⟩ := ret_inv hroom
    exact hf
  · cases hroom.result

theorem readOuterExact_bind_inv {β : Type} {n : ℕ} {message : String}
    {f : Bytes × EnvelopeState → IoProgram Error β} {s s' : ByteSource} {b : β} {w : List Bytes}
    (h : ((st.readOuterExact n message).bind f).Yields s b w s') :
    ∃ field rest, s.bytes = field ++ rest ∧ field.length = n ∧
      (f (field, { st with archiveBytes := st.archiveBytes + n })).Yields
        { s with bytes := rest } b w s' := by
  obtain ⟨pair, w₁, s₁, w₂, hread, hf, rfl⟩ := h.bind_inv
  obtain ⟨field, rest, hbytes, hlength, hread⟩ :=
    readExact_bind_inv (ensureArchiveRoom_bind_inv hread)
  obtain ⟨-, hread⟩ := checkedAdd_bind_inv hread
  obtain ⟨rfl, rfl, rfl⟩ := ret_inv hread
  exact ⟨field, rest, hbytes, hlength, hf⟩

theorem requirePhysicalEof_bind_inv {β : Type} {f : Unit → IoProgram Error β} {s s' : ByteSource}
    {b : β} {w : List Bytes} (h : (st.requirePhysicalEof.bind f).Yields s b w s') :
    s.bytes = [] ∧ s.fault = none ∧ (f ()).Yields { s with sawEnd := true } b w s' := by
  obtain ⟨_, w₁, s₁, w₂, hprobe, hf, rfl⟩ := h.bind_inv
  rcases probe_bind_inv hprobe with ⟨hend, hfault, hreturn⟩ | ⟨x, rest, -, htrailing⟩
  · obtain ⟨-, rfl, rfl⟩ := ret_inv hreturn
    exact ⟨hend, hfault, hf⟩
  · cases (ensureArchiveRoom_bind_inv htrailing).result

/-- The cases of a load that succeeded. -/
theorem loadNextRecord_inv {x : Option Bytes} {s s' : ByteSource} {w : List Bytes}
    (h : (st.loadNextRecord suite).Yields s (st', x) w s') : Loads suite st s st' x s' := by
  obtain ⟨headerBytes, rest, hbytes, hheader, h⟩ := readOuterExact_bind_inv h
  obtain ⟨record, hrecord, h⟩ := ofExcept_bind_inv h
  obtain ⟨hencoded, hraw, -⟩ := RecordHeader.parse_inv hrecord hheader
  obtain ⟨hindex, h⟩ := require_bind_inv h
  obtain ⟨_, -, h⟩ := ofExcept_bind_inv h
  obtain ⟨ciphertext, rest', hrest, hlength, h⟩ :=
    readOuterExact_bind_inv (ensureArchiveRoom_bind_inv h)
  obtain ⟨plaintext, hopens, h⟩ := ofOption_bind_inv h
  obtain ⟨-, h⟩ := checkedAdd_bind_inv h
  obtain ⟨⟨st₁, payload⟩, w₁, s₁, w₂, haccept, hreturn, rfl⟩ := h.bind_inv
  obtain ⟨hnext, hreturn⟩ := checkedAdd_bind_inv hreturn
  obtain ⟨hpair, rfl, rfl⟩ := ret_inv hreturn
  obtain ⟨rfl, rfl⟩ := Prod.mk.inj hpair
  dsimp only at hindex hrest hopens haccept
  rw [hindex, ← hlength] at hencoded
  have hwire : s.bytes = recordBytes st.nextIndex record.kind ciphertext ++ rest' := by
    rw [hbytes, hrest, hencoded, recordBytes, List.append_assoc]
  have hopens' : st.Opens suite record.kind ciphertext plaintext := by
    unfold Opens
    rw [← hencoded, ← hraw]
    exact hopens
  have hwhole : record.bytes ++ ciphertext = recordBytes st.nextIndex record.kind ciphertext := by
    rw [hraw, hencoded, recordBytes]
  unfold acceptRecord at haccept
  split_ifs at haccept with hdata hfooter
  · rw [hdata] at hwire hopens' hwhole
    obtain ⟨⟨payload', padding⟩, hparse, haccept⟩ := ofExcept_bind_inv haccept
    obtain ⟨-, haccept⟩ := checkedAdd_bind_inv haccept
    obtain ⟨-, haccept⟩ := checkedAdd_bind_inv haccept
    obtain ⟨-, haccept⟩ := checkedAdd_bind_inv haccept
    obtain ⟨hpair', rfl, rfl⟩ := ret_inv haccept
    obtain ⟨rfl, rfl⟩ := Prod.mk.inj hpair'
    dsimp only at hnext
    have hloads := Loads.data (s := s) ciphertext plaintext payload' rest' padding hwire hopens'
      hparse (by omega)
    unfold afterData at hloads
    rw [hlength, ← hwhole, ← Nat.add_assoc] at hloads
    exact hloads
  · rw [hfooter] at hwire hopens'
    obtain ⟨⟨footer, padding⟩, hparse, haccept⟩ := ofExcept_bind_inv haccept
    obtain ⟨hconfirms, haccept⟩ := require_bind_inv haccept
    obtain ⟨-, haccept⟩ := checkedAdd_bind_inv haccept
    obtain ⟨hend, hfault, haccept⟩ := requirePhysicalEof_bind_inv haccept
    obtain ⟨hpair', rfl, rfl⟩ := ret_inv haccept
    obtain ⟨rfl, rfl⟩ := Prod.mk.inj hpair'
    dsimp only at hend hfault hnext
    rw [hend, List.append_nil] at hwire
    have hloads := Loads.footer ciphertext plaintext footer padding hwire hopens' hparse hconfirms
      (by omega) hfault
    unfold afterFooter at hloads
    rw [hlength, ← Nat.add_assoc] at hloads
    rw [hend]
    exact hloads
  · cases haccept.result

end EnvelopeState

end MosaicArchive.Authenticated
