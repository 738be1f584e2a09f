import MosaicArchive.Bytes.Parser
import MosaicArchive.Manifest.Paths

/-!
What the two manifest formats share: the entries
(`struct.Struct(">BHIqQQI32s")` and the name, in both), the loop that reads
them, and the check that every parent is listed as a directory. The loop gives
conditions on a running table; they are turned into conditions on the list of
entries.
-/

namespace MosaicArchive.Manifest

open FixedWidth Utf8 ByteParser

def kindFile : ℕ := 1
def kindFolder : ℕ := 2
def entryFile : ℕ := 1
def entryDirectory : ℕ := 2
/-- The limit of both manifest formats (`MAX_ENTRY_COUNT`). -/
def maxEntryCount : ℕ := 1000000
def zeroHash : Bytes := List.replicate 32 0

/-- `struct.Struct(">BHIqQQI32s")` -/
def entryFixed : Struct.Layout :=
  [.uint 1, .uint 2, .uint 4, .int64, .uint 8, .uint 8, .uint 4, .bytes 32]

/-- An entry of a manifest. Its range `first`, `count` is `first_chunk`,
`chunk_count` in a `DedupEntry` and `first_frame`, `frame_count` in a
`ManifestEntry`. -/
structure Entry where
  entryType : ℕ
  relativePath : Text
  mode : ℕ
  mtimeNs : ℤ
  size : ℕ
  first : ℕ
  count : ℕ
  digest : Bytes
  deriving DecidableEq

def Entry.isFile (e : Entry) : Bool := e.entryType = entryFile
def Entry.isDirectory (e : Entry) : Bool := e.entryType = entryDirectory

/-- The record an entry starts with. -/
def Entry.fixed (e : Entry) : Struct.Values entryFixed :=
  (e.entryType, (encode e.relativePath).length, e.mode, e.mtimeNs, e.size, e.first, e.count,
    e.digest, ())

/-- The bytes of an entry; `none` where a field does not fit. -/
def Entry.pack (e : Entry) : Option Bytes :=
  (Struct.pack entryFixed e.fixed).map (· ++ encode e.relativePath)

/-- The fields that must fit their width besides the name. -/
structure Entry.Fits (e : Entry) : Prop where
  mtimeNs : -2 ^ 63 ≤ e.mtimeNs ∧ e.mtimeNs < 2 ^ 63
  size : e.size < 256 ^ 8
  first : e.first < 256 ^ 8
  count : e.count < 256 ^ 4
  digest : e.digest.length = 32

theorem Entry.pack_eq_some {e : Entry} {b : Bytes} :
    e.pack = some b ↔
      ∃ fixed, Struct.pack entryFixed e.fixed = some fixed ∧ b = fixed ++ encode e.relativePath := by
  simp [pack, eq_comm]

/-- The parsers accept the types 1 and 2 and modes up to `0o777`, so for these
the record is exact as soon as the other fields fit. -/
theorem Entry.exact_fixed {e : Entry} (htype : e.entryType ∈ [entryFile, entryDirectory])
    (hmode : e.mode ≤ 511) (hlen : (encode e.relativePath).length < 256 ^ 2) :
    Struct.Exact entryFixed e.fixed ↔ e.Fits := by
  have htype' : e.entryType < 256 ^ 1 := by
    have hall : ∀ t ∈ [entryFile, entryDirectory], t < 256 ^ 1 := by decide
    exact hall _ htype
  have hmode' : e.mode < 256 ^ 4 := by omega
  simp only [entryFixed, Entry.fixed, Struct.exact_cons, Struct.Field.exact_uint,
    Struct.Field.exact_int64, Struct.Field.exact_bytes, Struct.exact_nil]
  constructor
  · rintro ⟨-, -, -, hmtime, hsize, hfirst, hcount, hdigest, -⟩
    exact ⟨hmtime, hsize, hfirst, hcount, hdigest⟩
  · rintro ⟨hmtime, hsize, hfirst, hcount, hdigest⟩
    exact ⟨htype', hlen, hmode', hmtime, hsize, hfirst, hcount, hdigest, trivial⟩

/-! ### Names -/

/-- Reads a name of the given length and validates it: the raw name with the
validated one. -/
def parsePath (u : Unicode) (length : ℕ) (truncated invalid : PyError) :
    ByteParser PyError (Text × Text) := do
  let bytes ← exactly length truncated
  match decode bytes with
  | none => throw invalid
  | some raw =>
      match validateRelativePath u raw with
      | .error _ => throw invalid
      | .ok relative => pure (raw, relative)

@[simp] theorem accepts_parsePath {u : Unicode} {length : ℕ} {truncated invalid : PyError}
    {input rest : Bytes} {raw relative : Text} :
    (parsePath u length truncated invalid).Accepts input (raw, relative) rest ↔
      (encode raw).length = length ∧ input = encode raw ++ rest ∧
        validateRelativePath u raw = .ok relative := by
  simp only [parsePath, accepts_bind, accepts_exactly]
  constructor
  · rintro ⟨bytes, mid, ⟨hlen, rfl⟩, h⟩
    rcases hdecode : decode bytes with _ | raw'
    · rw [hdecode] at h
      exact absurd h accepts_throw
    · rw [hdecode] at h
      rcases hvalid : validateRelativePath u raw' with e | relative'
      · simp only [hvalid] at h
        exact absurd h accepts_throw
      · simp only [hvalid, accepts_pure, Prod.mk.injEq] at h
        obtain ⟨⟨rfl, rfl⟩, rfl⟩ := h
        obtain rfl := encode_of_decode hdecode
        exact ⟨hlen, rfl, hvalid⟩
  · rintro ⟨hlen, rfl, hvalid⟩
    refine ⟨encode raw, rest, ⟨hlen, rfl⟩, ?_⟩
    rw [decode_encode]
    simp [hvalid]

/-! ### Parents -/

/-- Some entry's parent is not listed as a directory. -/
def OmitsParent (entries : List Entry) : Prop :=
  ∃ e ∈ entries, parentPosix e.relativePath ≠ ['.'] ∧
    parentPosix e.relativePath ∉ (entries.filter Entry.isDirectory).map Entry.relativePath

instance (entries : List Entry) : Decidable (OmitsParent entries) :=
  inferInstanceAs (Decidable (∃ e ∈ entries, _))

/-- The only entry is a file with the root's name. -/
def SingleFile (entries : List Entry) (rootName : Text) : Prop :=
  entries.length = 1 ∧ ∀ e ∈ entries, e.isFile ∧ e.relativePath = rootName

instance (entries : List Entry) (rootName : Text) : Decidable (SingleFile entries rootName) :=
  inferInstanceAs (Decidable (_ ∧ ∀ e ∈ entries, _))

theorem singleFile_iff {entries : List Entry} {rootName : Text} :
    SingleFile entries rootName ↔ ∃ e, entries = [e] ∧ e.isFile ∧ e.relativePath = rootName := by
  rw [SingleFile, List.length_eq_one_iff]
  constructor
  · rintro ⟨⟨e, he⟩, hall⟩
    exact ⟨e, he, hall e (by simp [he])⟩
  · rintro ⟨e, he, hfile, hpath⟩
    exact ⟨⟨e, he⟩, by simp [he, hfile, hpath]⟩

theorem not_omitsParent_iff {entries : List Entry} : ¬ OmitsParent entries ↔
    ∀ e ∈ entries, parentPosix e.relativePath = ['.'] ∨
      ∃ d ∈ entries, d.isDirectory ∧ d.relativePath = parentPosix e.relativePath := by
  simp only [OmitsParent, List.mem_map, List.mem_filter, and_assoc, or_iff_not_imp_left]
  push Not
  rfl

/-- A canonical name without a slash is at the root. -/
theorem parentPosix_of_no_slash {u : Unicode} {path : Text} (h : Canonical u path)
    (hslash : '/' ∉ path) : parentPosix path = ['.'] := by
  have hportable := h.portable
  have hparts : posixParts path = [path] := by
    rw [posixParts, List.splitOn_eq_singleton hslash]
    have hdots := hportable.not_dots
    simp only [List.mem_cons, List.not_mem_nil, or_false, not_or] at hdots
    simp [hportable.nonempty, hdots.1]
  rw [parentPosix, hparts]
  rfl

/-! ### The entry loop -/

/-- The variables of the entry loop: the entries read, their case-folded names
and the start of the next file's range. -/
structure EntryTable where
  entries : List Entry := []
  collisions : List Text := []
  next : ℕ := 0

def EntryTable.push (u : Unicode) (t : EntryTable) (e : Entry) : EntryTable where
  entries := t.entries ++ [e]
  collisions := u.casefold e.relativePath :: t.collisions
  next := if e.entryType = entryDirectory then t.next else t.next + e.count

/-- What an entry satisfies on its own; `fileOk` is the check of a file's size
and range that differs between the formats. -/
structure Listed (u : Unicode) (fileOk : Entry → Prop) (e : Entry) : Prop where
  entryType : e.entryType = entryFile ∨ e.entryType = entryDirectory
  mode : e.mode ≤ 511
  path : Canonical u e.relativePath
  directory : e.isDirectory → e.size = 0 ∧ e.first = 0 ∧ e.count = 0 ∧ e.digest = zeroHash
  file : e.isFile → fileOk e
  fits : e.Fits

/-- An entry that may follow the entries of the table. -/
structure EntryOk (u : Unicode) (fileOk : Entry → Prop) (t : EntryTable) (e : Entry) : Prop where
  listed : Listed u fileOk e
  fresh : u.casefold e.relativePath ∉ t.collisions
  first : e.isFile → e.first = t.next

/-- The files' ranges follow one another from `start` to `stop`. -/
def Consecutive : ℕ → List Entry → ℕ → Prop
  | start, [], stop => start = stop
  | start, e :: es, stop => e.first = start ∧ Consecutive (start + e.count) es stop

theorem isFile_or_isDirectory {e : Entry}
    (h : e.entryType = entryFile ∨ e.entryType = entryDirectory) :
    e.isFile = true ∧ e.isDirectory = false ∨ e.isFile = false ∧ e.isDirectory = true := by
  rcases h with h | h
  · left
    simp only [Entry.isFile, Entry.isDirectory, h]
    decide
  · right
    simp only [Entry.isFile, Entry.isDirectory, h]
    decide

theorem isDirectory_iff {e : Entry} : e.isDirectory = true ↔ e.entryType = entryDirectory := by
  simp [Entry.isDirectory]

theorem isFile_iff {e : Entry} (h : e.entryType = entryFile ∨ e.entryType = entryDirectory) :
    e.isFile = true ↔ e.entryType ≠ entryDirectory := by
  rw [ne_eq, ← isDirectory_iff]
  rcases isFile_or_isDirectory h with ⟨hf, hd⟩ | ⟨hf, hd⟩ <;> simp [hf, hd]

theorem pushAll_entries (u : Unicode) (index : ℕ) (t : EntryTable) (es : List Entry) :
    (pushAll (fun _ => EntryTable.push u) index t es).entries = t.entries ++ es := by
  induction es generalizing index t with
  | nil => simp
  | cons e es ih => simp [ih, EntryTable.push]

theorem EntryTable.push_next {u : Unicode} {t : EntryTable} {e : Entry}
    (h : e.entryType = entryFile ∨ e.entryType = entryDirectory) :
    (t.push u e).next = if e.isFile then t.next + e.count else t.next := by
  by_cases hd : e.entryType = entryDirectory
  · have hf : e.isFile ≠ true := fun hf => (isFile_iff h).mp hf hd
    simp [push, hd, hf]
  · simp [push, hd, (isFile_iff h).mpr hd]

/-- The first entry of a list starts its ranges. -/
theorem consecutive_cons {u : Unicode} {t : EntryTable} {e : Entry} {es : List Entry}
    {stop : ℕ} (h : e.entryType = entryFile ∨ e.entryType = entryDirectory) :
    Consecutive t.next ((e :: es).filter Entry.isFile) stop ↔
      (e.isFile → e.first = t.next) ∧
        Consecutive (t.push u e).next (es.filter Entry.isFile) stop := by
  rw [EntryTable.push_next h]
  rcases isFile_or_isDirectory h with ⟨hf, _⟩ | ⟨hf, _⟩
  · simp [hf, Consecutive]
  · simp [hf]

/-- Running the entry loop along a list is possible exactly when every entry is
fine, the folded names are distinct and new, and the files' ranges follow one
another from the next chunk or frame. -/
theorem along_entryOk {u : Unicode} {fileOk : Entry → Prop} {index : ℕ} {t : EntryTable}
    {es : List Entry} :
    Along (fun _ => EntryOk u fileOk) (fun _ => EntryTable.push u) index t es ↔
      (∀ e ∈ es, Listed u fileOk e) ∧ (es.map fun e => u.casefold e.relativePath).Nodup ∧
        (∀ e ∈ es, u.casefold e.relativePath ∉ t.collisions) ∧
        Consecutive t.next (es.filter Entry.isFile)
          (pushAll (fun _ => EntryTable.push u) index t es).next := by
  induction es generalizing index t with
  | nil => simp [Consecutive]
  | cons e es ih =>
      have hcollisions : ∀ e' : Entry, u.casefold e'.relativePath ∉ (t.push u e).collisions ↔
          u.casefold e'.relativePath ≠ u.casefold e.relativePath ∧
            u.casefold e'.relativePath ∉ t.collisions := by
        intro e'
        simp [EntryTable.push]
      simp only [along_cons, ih, pushAll_cons, List.forall_mem_cons, List.map_cons,
        List.nodup_cons, hcollisions, List.mem_map, not_exists, not_and]
      constructor
      · rintro ⟨⟨hlisted, hfresh, hfirst⟩, hall, hnodup, hnew, hranges⟩
        exact ⟨⟨hlisted, hall⟩, ⟨fun e' he' => (hnew e' he').1, hnodup⟩,
          ⟨hfresh, fun e' he' => (hnew e' he').2⟩,
          (consecutive_cons hlisted.entryType).mpr ⟨hfirst, hranges⟩⟩
      · rintro ⟨⟨hlisted, hall⟩, ⟨hdistinct, hnodup⟩, ⟨hfresh, hnew⟩, hranges⟩
        obtain ⟨hfirst, hranges⟩ := (consecutive_cons (u := u) hlisted.entryType).mp hranges
        exact ⟨⟨hlisted, hfresh, hfirst⟩, hall, hnodup,
          fun e' he' => ⟨hdistinct e' he', hnew e' he'⟩, hranges⟩

/-- Where the ranges are consecutive, the loop ends at their end. -/
theorem pushAll_next {u : Unicode} {index : ℕ} {t : EntryTable} {es : List Entry}
    {stop : ℕ} (htypes : ∀ e ∈ es, e.entryType = entryFile ∨ e.entryType = entryDirectory)
    (h : Consecutive t.next (es.filter Entry.isFile) stop) :
    (pushAll (fun _ => EntryTable.push u) index t es).next = stop := by
  induction es generalizing index t with
  | nil => exact h
  | cons e es ih =>
      rw [List.forall_mem_cons] at htypes
      exact ih htypes.2 ((consecutive_cons htypes.1).mp h).2

theorem Consecutive.bounds {start stop : ℕ} {es : List Entry} (h : Consecutive start es stop) :
    start ≤ stop ∧ ∀ e ∈ es, start ≤ e.first ∧ e.first + e.count ≤ stop := by
  induction es generalizing start with
  | nil =>
      have heq : start = stop := h
      simp [heq]
  | cons e es ih =>
      obtain ⟨hfirst, hrest⟩ := h
      obtain ⟨hle, hall⟩ := ih hrest
      refine ⟨by omega, ?_⟩
      rw [List.forall_mem_cons]
      refine ⟨by omega, ?_⟩
      intro e' he'
      have := hall e' he'
      omega

/-- An entry on a list is serialized. -/
theorem Listed.packs {u : Unicode} {fileOk : Entry → Prop} {e : Entry} (h : Listed u fileOk e) :
    ∃ b, e.pack = some b := by
  have htype : e.entryType ∈ [entryFile, entryDirectory] := by simpa using h.entryType
  obtain ⟨fixed, hfixed, -⟩ := Struct.unpack_pack
    ((Entry.exact_fixed htype h.mode h.path.length_lt).mpr h.fits)
  exact ⟨_, Entry.pack_eq_some.mpr ⟨fixed, hfixed, rfl⟩⟩

end MosaicArchive.Manifest
