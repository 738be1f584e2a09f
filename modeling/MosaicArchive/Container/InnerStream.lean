import MosaicArchive.Container.Headers
import MosaicArchive.Modes.Blocks

/-!
The encrypted payload of an MSC1 archive (`_parse_inner` of `mosaic_archive/archive.py`, the
structures of `container_format.py`): a prefix, the name and the digest of the file, and its
blocks. The parser accepts exactly the serializations of the streams that pass its checks.
-/

namespace MosaicArchive.Container

open FixedWidth Utf8 ByteParser MosaicArchive.Manifest MosaicArchive.Modes

/-- `b"MSCP"` -/
def innerMagic : Bytes := [0x4d, 0x53, 0x43, 0x50]
/-- `struct.Struct(">4sQH")` -/
def innerPrefix : Struct.Layout := [.bytes 4, .uint 8, .uint 2]
/-- `struct.Struct(">I")` -/
def blockCount : Struct.Layout := [.uint 4]
/-- `struct.Struct(">BII")` -/
def blockHeader : Struct.Layout := [.uint 1, .uint 4, .uint 4]
def sha256Size : ℕ := 32
def maxBlockCount : ℕ := 16777216

/-- `_EncodedRecord` -/
structure EncodedRecord where
  modeId : ℕ
  originalSize : ℕ
  payload : Bytes
  deriving DecidableEq

def EncodedRecord.pack (r : EncodedRecord) : Option Bytes :=
  (Struct.pack blockHeader (r.modeId, r.originalSize, r.payload.length, ())).map (· ++ r.payload)

/-- What `_parse_inner` finds in the stream. -/
structure InnerStream where
  fileName : Text
  originalSize : ℕ
  expectedHash : Bytes
  records : List EncodedRecord
  deriving DecidableEq

/-- The serialized stream; `none` where a field does not fit its width. -/
def InnerStream.pack (s : InnerStream) : Option Bytes := do
  let start ← Struct.pack innerPrefix (innerMagic, s.originalSize, (encode s.fileName).length, ())
  let count ← Struct.pack blockCount (s.records.length, ())
  let records ← encodeAll EncodedRecord.pack s.records
  pure (start ++ encode s.fileName ++ s.expectedHash ++ count ++ records)

/-- `PurePosixPath(path).name` -/
def posixName (path : Text) : Text := (posixParts path).getLastD []

/-- The limits a caller decodes with. -/
structure DecodeLimits where
  maxOutputSize : ℤ
  maxFrameCount : ℤ
  maxArchiveSize : ℤ

/-- The exception of `_read_exact`. -/
def innerTruncated (description : String) : PyError :=
  .archiveFormat ("encrypted metadata is truncated at " ++ description)

/-! ### Parsing -/

def parseFileName (nameLength : ℕ) : ByteParser PyError Text := do
  let nameBytes ← exactly nameLength (innerTruncated "filename")
  let fileName ← lift ((decode nameBytes).elim
    (.error (.archiveFormat "encrypted filename is not valid UTF-8")) .ok)
  raiseIf (fileName = [] ∨ posixName fileName ≠ fileName)
    (.archiveFormat "encrypted filename is unsafe")
  pure fileName

/-- The variables of the loop over the blocks. -/
structure RecordTable where
  records : List EncodedRecord := []
  totalOriginalSize : ℕ := 0

def RecordTable.push (t : RecordTable) (r : EncodedRecord) : RecordTable :=
  ⟨t.records ++ [r], t.totalOriginalSize + r.originalSize⟩

def parseRecord (chunkSize index : ℕ) (t : RecordTable) : ByteParser PyError RecordTable := do
  let (modeId, blockSize, payloadSize, ()) ←
    record blockHeader (innerTruncated ("block " ++ toString index ++ " header"))
  let _ ← lift (getMode modeId)
  raiseIf (blockSize = 0 ∨ chunkSize < blockSize)
    (.archiveFormat ("block " ++ toString index ++ " has an invalid original size"))
  let payload ← exactly payloadSize (innerTruncated ("block " ++ toString index ++ " payload"))
  pure (t.push ⟨modeId, blockSize, payload⟩)

/-- The checks after the blocks, in order. -/
def checkInner (originalSize count totalOriginalSize : ℕ) (trailing : Bytes) :
    Except PyError Unit := do
  Except.raiseIf (trailing ≠ [])
    (.archiveFormat "encrypted payload contains trailing manifest data")
  Except.raiseIf (totalOriginalSize ≠ originalSize)
    (.archiveFormat "block sizes do not add up to the original file size")
  Except.raiseIf (originalSize = 0 ∧ count ≠ 0)
    (.archiveFormat "empty archive unexpectedly contains blocks")

def parseInnerFrom (limits : DecodeLimits) (chunkSize : ℕ) : ByteParser PyError InnerStream := do
  let (magic, originalSize, nameLength, ()) ←
    record innerPrefix (innerTruncated "manifest prefix")
  raiseIf (magic ≠ innerMagic) (.archiveFormat "encrypted payload has invalid inner magic")
  raiseIf (limits.maxOutputSize < originalSize)
    (.archiveFormat "MSC1 restored size exceeds the decode limit")
  let fileName ← parseFileName nameLength
  let expectedHash ← exactly sha256Size (innerTruncated "SHA-256 digest")
  let (count, ()) ← record blockCount (innerTruncated "block count")
  raiseIf (maxBlockCount < count ∨ limits.maxFrameCount < count)
    (.archiveFormat "archive declares too many blocks")
  let t ← forRange (parseRecord chunkSize) count 0 {}
  let trailing ← read 1
  lift (checkInner originalSize count t.totalOriginalSize trailing)
  pure ⟨fileName, originalSize, expectedHash, t.records⟩

/-- `_parse_inner`: the fields it reads from the stream -/
def parseInner (limits : DecodeLimits) (chunkSize : ℕ) (inner : Bytes) :
    Except PyError InnerStream :=
  (parseInnerFrom limits chunkSize inner).map Prod.fst

/-! ### Names -/

theorem not_mem_of_mem_splitOn {c : Char} {text part : Text} (h : part ∈ text.splitOn c) :
    c ∉ part := by
  induction text generalizing part with
  | nil =>
      rw [List.splitOn_nil, List.mem_singleton] at h
      rw [h]
      exact List.not_mem_nil
  | cons d text ih =>
      rw [List.splitOn_cons_eq_if_modifyHead] at h
      split_ifs at h with hd
      · rcases List.mem_cons.mp h with rfl | h
        · exact List.not_mem_nil
        · exact ih h
      · obtain ⟨first, rest, hsplit⟩ := List.exists_cons_of_ne_nil (List.splitOn_ne_nil c text)
        rw [hsplit] at h ih
        rcases List.mem_cons.mp h with rfl | h
        · have hne : c ≠ d := fun heq => hd (beq_iff_eq.mpr heq.symm)
          simpa [hne] using ih List.mem_cons_self
        · exact ih (List.mem_cons_of_mem first h)

/-- The last component of a path is a name of its own. -/
theorem posixName_idem {path : Text} (hpath : posixParts path ≠ []) :
    posixName path ≠ [] ∧ posixName (posixName path) = posixName path := by
  obtain ⟨name, hname⟩ : ∃ name, (posixParts path).getLast? = some name :=
    Option.ne_none_iff_exists'.mp fun h => hpath (List.getLast?_eq_none_iff.mp h)
  have hlast : posixName path = name := by
    rw [posixName, List.getLastD_eq_getLast?, hname, Option.getD_some]
  rw [hlast]
  obtain ⟨hsplit, hne, hdot⟩ := mem_posixParts.mp (List.mem_of_getLast? hname)
  have hslash : '/' ∉ name := not_mem_of_mem_splitOn hsplit
  have hparts : posixParts name = [name] := by
    rw [posixParts, List.splitOn_eq_singleton hslash]
    simp [hne, hdot]
  refine ⟨hne, ?_⟩
  rw [posixName, hparts]
  rfl

/-! ### What is accepted -/

/-- A block of a known mode, neither empty nor longer than a chunk. -/
structure EncodedRecord.Valid (chunkSize : ℕ) (r : EncodedRecord) : Prop where
  mode : ∃ mode : ModeId, mode.toNat = r.modeId
  size : r.originalSize ≠ 0 ∧ r.originalSize ≤ chunkSize
  size_lt : r.originalSize < 256 ^ 4
  payload_lt : r.payload.length < 256 ^ 4

/-- The streams `_parse_inner` accepts. -/
structure InnerStream.Valid (limits : DecodeLimits) (chunkSize : ℕ) (s : InnerStream) : Prop where
  size_le : (s.originalSize : ℤ) ≤ limits.maxOutputSize
  size_lt : s.originalSize < 256 ^ 8
  fileName : s.fileName ≠ [] ∧ posixName s.fileName = s.fileName
  name_lt : (encode s.fileName).length < 256 ^ 2
  expectedHash : s.expectedHash.length = sha256Size
  count : s.records.length ≤ maxBlockCount ∧ (s.records.length : ℤ) ≤ limits.maxFrameCount
  records : ∀ r ∈ s.records, r.Valid chunkSize
  total : (s.records.map EncodedRecord.originalSize).sum = s.originalSize

theorem getMode_eq_ok {modeId : ℕ} {mode : ModeId} :
    getMode modeId = .ok mode ↔ mode.toNat = modeId := by
  constructor
  · intro h
    unfold getMode at h
    split at h
    · rename_i found hfind
      obtain rfl := Except.ok.inj h
      simpa using List.find?_some hfind
    · cases h
  · rintro rfl
    exact getMode_toNat mode

theorem EncodedRecord.pack_eq_some {r : EncodedRecord} {b : Bytes} :
    r.pack = some b ↔ ∃ header,
      Struct.pack blockHeader (r.modeId, r.originalSize, r.payload.length, ()) = some header ∧
        b = header ++ r.payload := by
  simp [pack, eq_comm]

theorem EncodedRecord.Valid.exact {chunkSize : ℕ} {r : EncodedRecord} (h : r.Valid chunkSize) :
    Struct.Exact blockHeader (r.modeId, r.originalSize, r.payload.length, ()) := by
  obtain ⟨mode, hmode⟩ := h.mode
  have hlt := mode.toNat_lt
  refine ⟨?_, h.size_lt, h.payload_lt, trivial⟩
  show r.modeId < 256 ^ 1
  omega

theorem EncodedRecord.Valid.packs {chunkSize : ℕ} {r : EncodedRecord} (h : r.Valid chunkSize) :
    ∃ b, r.pack = some b := by
  obtain ⟨header, hheader, -⟩ := Struct.unpack_pack h.exact
  exact ⟨header ++ r.payload, EncodedRecord.pack_eq_some.mpr ⟨header, hheader, rfl⟩⟩

theorem accepts_parseFileName {nameLength : ℕ} {input rest : Bytes} {fileName : Text} :
    (parseFileName nameLength).Accepts input fileName rest ↔
      (encode fileName).length = nameLength ∧ input = encode fileName ++ rest ∧
        fileName ≠ [] ∧ posixName fileName = fileName := by
  simp only [parseFileName, accepts_bind, accepts_exactly, accepts_lift, accepts_raiseIf,
    accepts_pure, not_or, not_not]
  have helim : ∀ {b : Bytes} {text : Text}, (decode b).elim
      (.error (.archiveFormat "encrypted filename is not valid UTF-8")) Except.ok =
        (.ok text : Except PyError Text) ↔ decode b = some text := by
    intro b text
    cases decode b <;> simp
  constructor
  · rintro ⟨b, _, ⟨rfl, rfl⟩, _, _, ⟨hdecode, rfl⟩, _, _, ⟨hsafe, rfl⟩, rfl, rfl⟩
    rw [helim] at hdecode
    rw [encode_of_decode hdecode]
    exact ⟨rfl, rfl, hsafe⟩
  · rintro ⟨hlength, rfl, hsafe⟩
    exact ⟨encode fileName, rest, ⟨hlength, rfl⟩, fileName, rest,
      ⟨helim.mpr (decode_encode fileName), rfl⟩, (), rest, ⟨hsafe, rfl⟩, rfl, rfl⟩

/-- The body of the loop accepts the encodings of the valid blocks. -/
theorem accepts_parseRecord (chunkSize index : ℕ) (t : RecordTable) (input : Bytes)
    (next : RecordTable) (rest : Bytes) :
    (parseRecord chunkSize index t).Accepts input next rest ↔
      ∃ r b, r.Valid chunkSize ∧ r.pack = some b ∧ next = t.push r ∧ input = b ++ rest := by
  simp only [parseRecord, accepts_bind, accepts_record]
  constructor
  · rintro ⟨⟨modeId, blockSize, payloadSize, ⟨⟩⟩, _, ⟨hexact, header, hheader, rfl⟩, hrest⟩
    simp only [accepts_bind, accepts_lift, accepts_raiseIf, accepts_exactly, accepts_pure,
      getMode_eq_ok, not_or, not_lt] at hrest
    obtain ⟨mode, _, ⟨hmode, rfl⟩, _, _, ⟨hsize, rfl⟩, payload, _, ⟨hpayload, rfl⟩, rfl, rfl⟩ :=
      hrest
    subst hpayload
    obtain ⟨-, hsizeLt, hpayloadLt, -⟩ := hexact
    exact ⟨⟨modeId, blockSize, payload⟩, header ++ payload,
      ⟨⟨mode, hmode⟩, hsize, hsizeLt, hpayloadLt⟩,
      EncodedRecord.pack_eq_some.mpr ⟨header, hheader, rfl⟩, rfl, (List.append_assoc ..).symm⟩
  · rintro ⟨r, b, hr, hb, rfl, rfl⟩
    obtain ⟨header, hheader, rfl⟩ := EncodedRecord.pack_eq_some.mp hb
    obtain ⟨mode, hmode⟩ := hr.mode
    refine ⟨(r.modeId, r.originalSize, r.payload.length, ()), _,
      ⟨hr.exact, header, hheader, List.append_assoc ..⟩, ?_⟩
    simp only [accepts_bind, accepts_lift, accepts_raiseIf, accepts_exactly, accepts_pure,
      getMode_eq_ok, not_or, not_lt]
    exact ⟨mode, _, ⟨hmode, rfl⟩, (), _, ⟨hr.size, rfl⟩, r.payload, rest, ⟨rfl, rfl⟩, rfl, rfl⟩

theorem pushAll_records {t : RecordTable} {index : ℕ} {rs : List EncodedRecord} :
    pushAll (fun _ => RecordTable.push) index t rs = ⟨t.records ++ rs,
      t.totalOriginalSize + (rs.map EncodedRecord.originalSize).sum⟩ := by
  induction rs generalizing t index with
  | nil => simp
  | cons r rs ih =>
      rw [pushAll_cons, ih, RecordTable.push]
      simp [Nat.add_assoc]

theorem along_records {chunkSize index : ℕ} {t : RecordTable} {rs : List EncodedRecord} :
    Along (fun _ _ (r : EncodedRecord) => r.Valid chunkSize) (fun _ => RecordTable.push) index t rs ↔
      ∀ r ∈ rs, r.Valid chunkSize := by
  induction rs generalizing t index with
  | nil => simp
  | cons r rs ih => rw [along_cons, ih, List.forall_mem_cons]

theorem accepts_parseRecords {chunkSize count : ℕ} {t : RecordTable} {input rest : Bytes} :
    (forRange (parseRecord chunkSize) count 0 {}).Accepts input t rest ↔
      ∃ rs b, rs.length = count ∧ (∀ r ∈ rs, r.Valid chunkSize) ∧
        encodeAll EncodedRecord.pack rs = some b ∧
        t = ⟨rs, (rs.map EncodedRecord.originalSize).sum⟩ ∧ input = b ++ rest := by
  rw [accepts_forRange (accepts_parseRecord chunkSize)]
  simp only [along_records, pushAll_records, List.nil_append, Nat.zero_add]

theorem checkInner_eq_ok {originalSize count total : ℕ} {trailing : Bytes} {r : Unit} :
    checkInner originalSize count total trailing = .ok r ↔
      trailing = [] ∧ total = originalSize ∧ (originalSize = 0 → count = 0) := by
  simp only [checkInner, Except.bind_eq_ok_iff, Except.raiseIf_eq_ok, not_not, not_and,
    exists_and_left, exists_const]

theorem InnerStream.pack_eq_some {s : InnerStream} {b : Bytes} :
    s.pack = some b ↔ ∃ start count records,
      Struct.pack innerPrefix (innerMagic, s.originalSize, (encode s.fileName).length, ()) =
        some start ∧
      Struct.pack blockCount (s.records.length, ()) = some count ∧
      encodeAll EncodedRecord.pack s.records = some records ∧
      b = start ++ encode s.fileName ++ s.expectedHash ++ count ++ records := by
  simp only [pack, Option.bind_eq_bind, Option.bind_eq_some_iff, Option.pure_def,
    Option.some.injEq, exists_and_left]
  constructor
  · rintro ⟨start, hstart, count, hcount, records, hrecords, rfl⟩
    exact ⟨start, hstart, count, hcount, records, hrecords, rfl⟩
  · rintro ⟨start, hstart, count, hcount, records, hrecords, rfl⟩
    exact ⟨start, hstart, count, hcount, records, hrecords, rfl⟩

section

variable {limits : DecodeLimits} {chunkSize : ℕ} {s : InnerStream}

theorem InnerStream.Valid.exact_prefix (h : s.Valid limits chunkSize) :
    Struct.Exact innerPrefix (innerMagic, s.originalSize, (encode s.fileName).length, ()) :=
  ⟨rfl, h.size_lt, h.name_lt, trivial⟩

theorem InnerStream.Valid.exact_count (h : s.Valid limits chunkSize) :
    Struct.Exact blockCount (s.records.length, ()) := by
  have hcount := h.count.1
  rw [maxBlockCount] at hcount
  refine ⟨?_, trivial⟩
  show s.records.length < 256 ^ 4
  omega

/-- An empty file has no blocks. -/
theorem InnerStream.Valid.empty (h : s.Valid limits chunkSize) (hsize : s.originalSize = 0) :
    s.records.length = 0 := by
  rw [List.length_eq_zero_iff, List.eq_nil_iff_forall_not_mem]
  intro r hr
  have htotal := h.total
  rw [hsize, List.sum_eq_zero_iff] at htotal
  exact (h.records r hr).size.1 (htotal r.originalSize (List.mem_map_of_mem hr))

/-- A valid stream is serialized. -/
theorem InnerStream.Valid.packs (h : s.Valid limits chunkSize) : ∃ b, s.pack = some b := by
  obtain ⟨start, hstart, -⟩ := Struct.unpack_pack h.exact_prefix
  obtain ⟨count, hcount, -⟩ := Struct.unpack_pack h.exact_count
  obtain ⟨records, hrecords⟩ := encodeAll_isSome fun r hr => (h.records r hr).packs
  exact ⟨_, InnerStream.pack_eq_some.mpr ⟨start, count, records, hstart, hcount, hrecords, rfl⟩⟩

/-- The parser accepts exactly the serializations of the valid streams. -/
theorem parseInner_eq_ok {b : Bytes} :
    parseInner limits chunkSize b = .ok s ↔ s.Valid limits chunkSize ∧ s.pack = some b := by
  have haccepts : parseInner limits chunkSize b = .ok s ↔
      ∃ rest, (parseInnerFrom limits chunkSize).Accepts b s rest := by
    unfold parseInner Accepts
    rcases parseInnerFrom limits chunkSize b with e | ⟨s', rest⟩ <;> simp [Except.map]
  rw [haccepts]
  simp only [parseInnerFrom, accepts_bind, accepts_record]
  constructor
  · rintro ⟨_, ⟨magic, originalSize, nameLength, ⟨⟩⟩, _, ⟨hexact, start, hstart, rfl⟩, hrest⟩
    simp only [accepts_bind, accepts_raiseIf, accepts_exactly, accepts_parseFileName,
      accepts_record, not_not, not_lt] at hrest
    obtain ⟨_, _, ⟨rfl, rfl⟩, _, _, ⟨hlimit, rfl⟩, fileName, _, ⟨hname, rfl, hsafe⟩, expectedHash, _,
      ⟨hhash, rfl⟩, ⟨count, ⟨⟩⟩, _, ⟨-, countBytes, hcount, rfl⟩, hrest⟩ := hrest
    simp only [accepts_bind, accepts_raiseIf, accepts_parseRecords, accepts_read, accepts_lift,
      accepts_pure, checkInner_eq_ok, not_or, not_lt] at hrest
    obtain ⟨_, _, ⟨hmany, rfl⟩, _, rest, ⟨records, recordBytes, rfl, hrecords, hbytes, rfl, rfl⟩,
      trailing, _, ⟨rfl, rfl⟩, _, _, ⟨⟨htrailing, htotal, -⟩, rfl⟩, rfl, rfl⟩ := hrest
    subst hname
    obtain ⟨-, hsize, hnameLt, -⟩ := hexact
    refine ⟨⟨hlimit, hsize, hsafe, hnameLt, hhash, hmany, hrecords, htotal⟩, ?_⟩
    rw [InnerStream.pack_eq_some]
    refine ⟨start, countBytes, recordBytes, hstart, hcount, hbytes, ?_⟩
    obtain rfl : rest = [] := by simpa using htrailing
    simp
  · rintro ⟨h, hb⟩
    obtain ⟨start, count, records, hstart, hcount, hrecords, rfl⟩ := InnerStream.pack_eq_some.mp hb
    refine ⟨[], (innerMagic, s.originalSize, (encode s.fileName).length, ()),
      encode s.fileName ++ (s.expectedHash ++ (count ++ (records ++ []))),
      ⟨h.exact_prefix, start, hstart, by simp⟩, ?_⟩
    simp only [accepts_bind, accepts_raiseIf, accepts_exactly, accepts_parseFileName,
      accepts_record, not_not, not_lt]
    refine ⟨(), _, ⟨trivial, rfl⟩, (), _, ⟨h.size_le, rfl⟩, s.fileName, _, ⟨rfl, rfl, h.fileName⟩,
      s.expectedHash, _, ⟨h.expectedHash, rfl⟩, (s.records.length, ()), _,
      ⟨h.exact_count, count, hcount, rfl⟩, ?_⟩
    simp only [accepts_bind, accepts_raiseIf, accepts_parseRecords, accepts_read, accepts_lift,
      accepts_pure, checkInner_eq_ok, not_or, not_lt]
    exact ⟨(), _, ⟨h.count, rfl⟩, _, [], ⟨s.records, records, rfl, h.records, hrecords, rfl, rfl⟩,
      [], [], ⟨rfl, rfl⟩, (), [], ⟨⟨rfl, h.total, h.empty⟩, rfl⟩, rfl, rfl⟩

end

end MosaicArchive.Container
