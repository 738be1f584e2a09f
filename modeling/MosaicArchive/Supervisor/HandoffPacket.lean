import MosaicArchive.Bytes.Parser
import MosaicArchive.Bytes.Struct
import MosaicArchive.Report.Contract

/-!
The handoff packet, which is laid out twice: the supervisor writes its fields into
byte ranges (`native/binding-supervisor/src/lib.rs`), the coordinator unpacks it by
a struct format (`competitive_binding_supervisor.py`). The packets the coordinator
accepts are the encodings of the fields it returns.
-/

namespace MosaicArchive.Supervisor

open FixedWidth (Bytes beBytes)
open Report (hexDigest)

/-! ### The supervisor -/

abbrev Nonce := { bytes : Bytes // bytes.length = 16 }

structure HandoffPacket where
  senderPid : UInt32
  senderUid : UInt32
  senderGid : UInt32
  rootDevice : UInt64
  rootInode : UInt64
  sessionNonce : Nonce
  deriving DecidableEq

def controlPacketBytes : ℕ := 88
def protocolMagic : Bytes := [0x4d, 0x53, 0x43, 0x42, 0x49, 0x4e, 0x44, 0x31]
def protocolVersion : UInt16 := 1
def protocolFlags : UInt16 := 0

def runnerPolicySha256 : Bytes :=
  [0xbd, 0x80, 0x39, 0x11, 0x9e, 0x7a, 0xb1, 0x7b, 0x57, 0x76, 0xfd, 0x20, 0x25, 0x53, 0x1f, 0xf2,
   0xcd, 0x22, 0x75, 0xce, 0x13, 0xc9, 0x12, 0x40, 0x57, 0x92, 0xee, 0xcc, 0x09, 0x38, 0x8e, 0x58]

/-- `packet[start..stop].copy_from_slice(bytes)` -/
def copyFromSlice (packet : Bytes) (start stop : ℕ) (bytes : Bytes) : Bytes :=
  packet.take start ++ bytes ++ packet.drop stop

/-- `HandoffPacket::encode` -/
def HandoffPacket.encode (p : HandoffPacket) : Bytes :=
  let packet := List.replicate controlPacketBytes 0
  let packet := copyFromSlice packet 0 8 protocolMagic
  let packet := copyFromSlice packet 8 10 (beBytes 2 protocolVersion.toNat)
  let packet := copyFromSlice packet 10 12 (beBytes 2 protocolFlags.toNat)
  let packet := copyFromSlice packet 12 16 (beBytes 4 p.senderPid.toNat)
  let packet := copyFromSlice packet 16 20 (beBytes 4 p.senderUid.toNat)
  let packet := copyFromSlice packet 20 24 (beBytes 4 p.senderGid.toNat)
  let packet := copyFromSlice packet 24 32 (beBytes 8 p.rootDevice.toNat)
  let packet := copyFromSlice packet 32 40 (beBytes 8 p.rootInode.toNat)
  let packet := copyFromSlice packet 40 72 runnerPolicySha256
  copyFromSlice packet 72 88 p.sessionNonce.val

/-- `is_valid_session_nonce` -/
def isValidSessionNonce (nonce : Nonce) : Bool := nonce.val.any (· ≠ 0)

/-! ### The coordinator -/

structure DelegatedRootProtocolError where
  message : String
  deriving DecidableEq, Repr

structure DelegatedRootIdentity where
  device : ℕ
  inode : ℕ
  device_pos : 0 < device
  inode_pos : 0 < inode
  deriving DecidableEq

/-- `_SupervisorPacket` -/
structure SupervisorPacket where
  supervisorPid : ℕ
  supervisorUid : ℕ
  supervisorGid : ℕ
  rootIdentity : DelegatedRootIdentity
  policyDigest : Utf8.Text
  nonce : Bytes
  deriving DecidableEq

def delegatedRootProtocolMagic : Bytes := [0x4d, 0x53, 0x43, 0x42, 0x49, 0x4e, 0x44, 0x31]
def delegatedRootProtocolVersion : ℕ := 1
def delegatedRootPacketBytes : ℕ := 88

def delegatedRootPolicySha256 : Utf8.Text :=
  "bd8039119e7ab17b5776fd2025531ff2cd2275ce13c912405792eecc09388e58".toList

/-- `_PACKET_STRUCT` -/
def packetStruct : Struct.Layout :=
  [.bytes 8, .uint 2, .uint 2, .uint 4, .uint 4, .uint 4, .uint 8, .uint 8, .bytes 32, .bytes 16]

def hexValue (c : Char) : ℕ := if c.isDigit then c.toNat - '0'.toNat else c.toNat - 'a'.toNat + 10

/-- `bytes.fromhex` on lower-case digits -/
def fromHex : Utf8.Text → Bytes
  | c :: d :: rest => UInt8.ofNat (16 * hexValue c + hexValue d) :: fromHex rest
  | _ => []

/-- The checks of `_parse_supervisor_packet` on the unpacked fields. -/
def checkSupervisorPacket : Struct.Values packetStruct →
    Except DelegatedRootProtocolError SupervisorPacket
  | (magic, version, flags, supervisorPid, supervisorUid, supervisorGid, rootDevice, rootInode,
      policyDigest, nonce, ()) => do
      Except.raiseIf (magic ≠ delegatedRootProtocolMagic) ⟨"delegated-root packet magic is invalid"⟩
      Except.raiseIf (version ≠ delegatedRootProtocolVersion)
        ⟨"delegated-root packet version is unsupported"⟩
      Except.raiseIf (flags ≠ 0) ⟨"delegated-root packet flags must be zero"⟩
      Except.raiseIf (supervisorPid = 0) ⟨"supervisor PID must be nonzero"⟩
      if h : rootDevice = 0 ∨ rootInode = 0 then
        .error ⟨"delegated-root identity must be nonzero"⟩
      else do
        let expectedDigest := fromHex delegatedRootPolicySha256
        Except.raiseIf (policyDigest ≠ expectedDigest)
          ⟨"delegated-root packet policy digest is invalid"⟩
        Except.raiseIf (nonce = List.replicate 16 0) ⟨"delegated-root session nonce must be nonzero"⟩
        pure {
          supervisorPid, supervisorUid, supervisorGid
          rootIdentity := ⟨rootDevice, rootInode, Nat.pos_of_ne_zero fun hz => h (.inl hz),
            Nat.pos_of_ne_zero fun hz => h (.inr hz)⟩
          policyDigest := hexDigest policyDigest
          nonce }

/-- `_parse_supervisor_packet` -/
def parseSupervisorPacket (payload : Bytes) : Except DelegatedRootProtocolError SupervisorPacket := do
  Except.raiseIf (payload.length ≠ delegatedRootPacketBytes)
    ⟨"delegated-root packet must be exactly 88 bytes"⟩
  checkSupervisorPacket (Struct.unpack packetStruct payload)

/-! ### One layout -/

/-- A slice copied behind what is already written. -/
theorem copyFromSlice_zeros {front bytes : Bytes} {start stop n : ℕ} (hstart : front.length = start)
    (hbytes : bytes.length = stop - start) (hle : start ≤ stop) :
    copyFromSlice (front ++ List.replicate n 0) start stop bytes =
      (front ++ bytes) ++ List.replicate (n - bytes.length) 0 := by
  have htake : (front ++ List.replicate n (0 : UInt8)).take start = front := List.take_left' hstart
  have hdrop : (front ++ List.replicate n (0 : UInt8)).drop stop = List.replicate (n - bytes.length) 0 := by
    have hstop : stop = front.length + bytes.length := by omega
    rw [hstop, List.drop_append, List.drop_of_length_le (by omega), List.nil_append,
      List.drop_replicate, Nat.add_sub_cancel_left]
  rw [copyFromSlice, htake, hdrop]

/-- The fields in their order fill the packet. -/
theorem HandoffPacket.encode_eq (p : HandoffPacket) :
    p.encode = protocolMagic ++ beBytes 2 protocolVersion.toNat ++ beBytes 2 protocolFlags.toNat ++
      beBytes 4 p.senderPid.toNat ++ beBytes 4 p.senderUid.toNat ++ beBytes 4 p.senderGid.toNat ++
      beBytes 8 p.rootDevice.toNat ++ beBytes 8 p.rootInode.toNat ++ runnerPolicySha256 ++
      p.sessionNonce.val := by
  have hnonce : p.sessionNonce.val.length = 16 := p.sessionNonce.property
  have hmagic : protocolMagic.length = 8 := rfl
  have hpolicy : runnerPolicySha256.length = 32 := rfl
  have hzeros : List.replicate controlPacketBytes (0 : UInt8) = [] ++ List.replicate 88 0 := rfl
  simp only [HandoffPacket.encode, hzeros]
  simp (disch := simp [hmagic, hpolicy, hnonce]) only [copyFromSlice_zeros]
  simp [hmagic, hpolicy, hnonce]

/-- The fields as the struct format orders them. -/
def HandoffPacket.values (p : HandoffPacket) : Struct.Values packetStruct :=
  (protocolMagic, 1, 0, p.senderPid.toNat, p.senderUid.toNat, p.senderGid.toNat, p.rootDevice.toNat,
    p.rootInode.toNat, runnerPolicySha256, p.sessionNonce.val, ())

namespace HandoffPacket

variable {p q : HandoffPacket}

theorem exact_values (p : HandoffPacket) : Struct.Exact packetStruct p.values :=
  ⟨rfl, show 1 < 256 ^ 2 by decide, show 0 < 256 ^ 2 by decide, p.senderPid.toNat_lt,
    p.senderUid.toNat_lt, p.senderGid.toNat_lt, p.rootDevice.toNat_lt, p.rootInode.toNat_lt, rfl,
    p.sessionNonce.property, trivial⟩

/-- The struct format packs the fields to what the supervisor encodes. -/
theorem pack_values (p : HandoffPacket) : Struct.pack packetStruct p.values = some p.encode := by
  have hnonce : Struct.pack [.bytes 16] (p.sessionNonce.val, ()) = some p.sessionNonce.val := by
    rw [Struct.pack_cons_eq (Struct.Field.pack_bytes p.sessionNonce.property) rfl, List.append_nil]
  rw [encode_eq]
  simp only [List.append_assoc]
  refine Struct.pack_cons_eq (Struct.Field.pack_bytes rfl) ?_
  refine Struct.pack_cons_eq (Struct.Field.pack_uint (show 1 < 256 ^ 2 by decide)) ?_
  refine Struct.pack_cons_eq (Struct.Field.pack_uint (show 0 < 256 ^ 2 by decide)) ?_
  refine Struct.pack_cons_eq (Struct.Field.pack_uint p.senderPid.toNat_lt) ?_
  refine Struct.pack_cons_eq (Struct.Field.pack_uint p.senderUid.toNat_lt) ?_
  refine Struct.pack_cons_eq (Struct.Field.pack_uint p.senderGid.toNat_lt) ?_
  refine Struct.pack_cons_eq (Struct.Field.pack_uint p.rootDevice.toNat_lt) ?_
  refine Struct.pack_cons_eq (Struct.Field.pack_uint p.rootInode.toNat_lt) ?_
  exact Struct.pack_cons_eq (Struct.Field.pack_bytes rfl) hnonce

theorem encode_length (p : HandoffPacket) : p.encode.length = 88 :=
  Struct.pack_length (pack_values p)

/-- The coordinator unpacks the fields. -/
theorem unpack_encode (p : HandoffPacket) : Struct.unpack packetStruct p.encode = p.values :=
  (Struct.unpack_eq_iff (encode_length p) p.values).mpr ⟨exact_values p, pack_values p⟩

/-- What the supervisor ensures of a packet before it sends it. -/
structure Sendable (p : HandoffPacket) : Prop where
  pid : p.senderPid.toNat ≠ 0
  device : p.rootDevice.toNat ≠ 0
  inode : p.rootInode.toNat ≠ 0
  nonce : isValidSessionNonce p.sessionNonce = true

/-- The fields are those the coordinator returned. -/
structure Matches (p : HandoffPacket) (packet : SupervisorPacket) : Prop where
  pid : packet.supervisorPid = p.senderPid.toNat
  uid : packet.supervisorUid = p.senderUid.toNat
  gid : packet.supervisorGid = p.senderGid.toNat
  device : packet.rootIdentity.device = p.rootDevice.toNat
  inode : packet.rootIdentity.inode = p.rootInode.toNat
  nonce : packet.nonce = p.sessionNonce.val

theorem Matches.unique {packet : SupervisorPacket} (hp : p.Matches packet) (hq : q.Matches packet) :
    p = q := by
  obtain ⟨pid, uid, gid, device, inode, nonce⟩ := p
  obtain ⟨pid', uid', gid', device', inode', nonce'⟩ := q
  rw [mk.injEq]
  exact ⟨UInt32.toNat.inj (hp.pid.symm.trans hq.pid), UInt32.toNat.inj (hp.uid.symm.trans hq.uid),
    UInt32.toNat.inj (hp.gid.symm.trans hq.gid), UInt64.toNat.inj (hp.device.symm.trans hq.device),
    UInt64.toNat.inj (hp.inode.symm.trans hq.inode), Subtype.ext (hp.nonce.symm.trans hq.nonce)⟩

theorem isValidSessionNonce_iff {nonce : Nonce} :
    isValidSessionNonce nonce = true ↔ nonce.val ≠ List.replicate 16 0 := by
  rw [isValidSessionNonce, List.any_eq_true, ne_eq, List.eq_replicate_iff]
  constructor
  · rintro ⟨byte, hbyte, hne⟩ ⟨-, hzero⟩
    exact of_decide_eq_true hne (hzero byte hbyte)
  · intro hnot
    by_contra hnone
    refine hnot ⟨nonce.property, fun byte hbyte => ?_⟩
    by_contra hne
    exact hnone ⟨byte, hbyte, decide_eq_true hne⟩

theorem fromHex_policy : fromHex delegatedRootPolicySha256 = runnerPolicySha256 := by decide

/-- The packet of given fields. -/
def packetOf (supervisorPid supervisorUid supervisorGid : ℕ) (rootIdentity : DelegatedRootIdentity)
    (nonce : Bytes) : SupervisorPacket :=
  ⟨supervisorPid, supervisorUid, supervisorGid, rootIdentity, hexDigest runnerPolicySha256, nonce⟩

/-- Every check passes exactly for the constants and the nonzero fields. -/
theorem checkSupervisorPacket_eq_ok {magic policyDigest nonce : Bytes}
    {version flags supervisorPid supervisorUid supervisorGid rootDevice rootInode : ℕ}
    {packet : SupervisorPacket} :
    checkSupervisorPacket (magic, version, flags, supervisorPid, supervisorUid, supervisorGid,
        rootDevice, rootInode, policyDigest, nonce, ()) = .ok packet ↔
      (magic = protocolMagic ∧ version = 1 ∧ flags = 0 ∧ policyDigest = runnerPolicySha256) ∧
        supervisorPid ≠ 0 ∧ nonce ≠ List.replicate 16 0 ∧
        ∃ identity : DelegatedRootIdentity, identity.device = rootDevice ∧ identity.inode = rootInode ∧
          packet = packetOf supervisorPid supervisorUid supervisorGid identity nonce := by
  simp only [checkSupervisorPacket, Except.bind_eq_ok_iff, Except.raiseIf_eq_ok, exists_const,
    fromHex_policy, not_not, ne_eq]
  constructor
  · rintro ⟨rfl, rfl, rfl, hpid, h⟩
    split at h
    · cases h
    · simp only [Except.bind_eq_ok_iff, Except.raiseIf_eq_ok, exists_const, not_not] at h
      obtain ⟨rfl, hnonce, hreturn⟩ := h
      obtain rfl := Except.ok.inj hreturn
      exact ⟨⟨rfl, rfl, rfl, rfl⟩, hpid, hnonce, _, rfl, rfl, rfl⟩
  · rintro ⟨⟨rfl, rfl, rfl, rfl⟩, hpid, hnonce, identity, rfl, rfl, rfl⟩
    have hidentity : ¬ (identity.device = 0 ∨ identity.inode = 0) :=
      not_or.mpr ⟨identity.device_pos.ne', identity.inode_pos.ne'⟩
    refine ⟨rfl, rfl, rfl, hpid, ?_⟩
    rw [dif_neg hidentity]
    simp only [Except.raiseIf, not_true_eq_false, hnonce, if_false, bind, Except.bind]
    rfl

/-- A packet that may be sent is accepted with its fields. -/
theorem parse_encode (h : p.Sendable) :
    ∃ packet, parseSupervisorPacket p.encode = .ok packet ∧ p.Matches packet := by
  let identity : DelegatedRootIdentity := ⟨p.rootDevice.toNat, p.rootInode.toNat,
    Nat.pos_of_ne_zero h.device, Nat.pos_of_ne_zero h.inode⟩
  refine ⟨packetOf p.senderPid.toNat p.senderUid.toNat p.senderGid.toNat identity p.sessionNonce.val,
    ?_, ⟨rfl, rfl, rfl, rfl, rfl, rfl⟩⟩
  have hlength : ¬ p.encode.length ≠ delegatedRootPacketBytes := not_not.mpr (encode_length p)
  rw [parseSupervisorPacket, Except.raiseIf, if_neg hlength, unpack_encode]
  exact checkSupervisorPacket_eq_ok.mpr ⟨⟨rfl, rfl, rfl, rfl⟩, h.pid,
    isValidSessionNonce_iff.mp h.nonce, identity, rfl, rfl, rfl⟩

/-- What is accepted is the encoding of the fields that are returned. -/
theorem encode_of_parse {payload : Bytes} {packet : SupervisorPacket}
    (h : parseSupervisorPacket payload = .ok packet) :
    ∃ p : HandoffPacket, p.Matches packet ∧ payload = p.encode := by
  simp only [parseSupervisorPacket, Except.bind_eq_ok_iff, Except.raiseIf_eq_ok, exists_const,
    not_not, ne_eq] at h
  obtain ⟨hlength, hcheck⟩ := h
  have hsize : payload.length = Struct.size packetStruct := hlength
  obtain ⟨hexact, hpack⟩ := (Struct.unpack_eq_iff hsize _).mp rfl
  -- The fields of the payload, each within its width.
  generalize Struct.unpack packetStruct payload = fields at hcheck hexact hpack
  obtain ⟨magic, version, flags, pid, uid, gid, device, inode, digest, nonce, ⟨⟩⟩ := fields
  obtain ⟨⟨rfl, rfl, rfl, rfl⟩, -, -, identity, rfl, rfl, rfl⟩ := checkSupervisorPacket_eq_ok.mp hcheck
  obtain ⟨-, -, -, hpid, huid, hgid, hdevice, hinode, -, hnonce, -⟩ := hexact
  let p : HandoffPacket := ⟨.ofNat pid, .ofNat uid, .ofNat gid, .ofNat identity.device,
    .ofNat identity.inode, ⟨nonce, hnonce⟩⟩
  have hmatches : p.Matches (packetOf pid uid gid identity nonce) :=
    ⟨(UInt32.toNat_ofNat_of_lt hpid).symm, (UInt32.toNat_ofNat_of_lt huid).symm,
      (UInt32.toNat_ofNat_of_lt hgid).symm, (UInt64.toNat_ofNat_of_lt hdevice).symm,
      (UInt64.toNat_ofNat_of_lt hinode).symm, rfl⟩
  refine ⟨p, hmatches, ?_⟩
  have hpacked := pack_values p
  rw [values, ← hmatches.pid, ← hmatches.uid, ← hmatches.gid, ← hmatches.device, ← hmatches.inode,
    ← hmatches.nonce] at hpacked
  exact Option.some.inj (hpack.symm.trans hpacked)

end HandoffPacket

end MosaicArchive.Supervisor
