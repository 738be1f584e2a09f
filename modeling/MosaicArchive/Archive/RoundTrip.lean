import MosaicArchive.Archive.Authenticity
import MosaicArchive.Source.Listed

/-!
The MSC2 round trip. The frames that a run of the encoder has written are read back in their order,
each to the block it was made of, so the decoder restores exactly the blocks that were encoded; it
refuses an archive of the encoder only where the manifest overhangs the limit of its frame.
-/

namespace MosaicArchive.Archive

open CallHistory MosaicArchive.Manifest MosaicArchive.Container MosaicArchive.Modes
open MosaicArchive.Encoder MosaicArchive.Source MosaicArchive.Restore
open FixedWidth (Bytes)
open Utf8 (Text)

/-! ### One frame -/

/-- The ciphertexts are those of the scheme. -/
def SealsWith (cipher : Aead) (key nonce associatedData padded ciphertext : Bytes) : Prop :=
  cipher.encrypt key nonce associatedData padded = some ciphertext

section

variable {cipher : Aead} {urandom : Urandom} {f : FrameFormat} {key : Bytes} {index : ℕ}
  {x : SealedFrame}

/-- A frame that the scheme has sealed is the one that `_write_frame` writes. -/
theorem writeFrame_eq_bytes (hf : f.Valid) (hx : FrameOk (SealsWith cipher) urandom f key index x) :
    writeFrame cipher urandom f key index x.frameType x.payload = .ok x.bytes := by
  obtain ⟨hmade, hsealed⟩ := hx
  have hnonce := frameNonce_eq hf.noncePrefix hmade.index_lt
  have hpack : ofOption (FrameHeader.pack ⟨index, x.frameType, x.padded.length + aeadTagLength⟩)
      PyError.struct = .ok x.frameBytes := ofOption_eq_ok.mpr hmade.frameBytes
  have hencrypt : ofOption (cipher.encrypt key (f.noncePrefix ++ FixedWidth.beBytes 8 index)
      (f.globalHeader ++ x.frameBytes) x.padded) (.runtime "encrypt") = .ok x.ciphertext :=
    ofOption_eq_ok.mpr hsealed
  simp only [writeFrame, hmade.padded, hpack, hnonce, hencrypt, bind, Except.bind]
  rfl

theorem accepts_of_readsBack (hf : f.Valid) (hx : FrameOk (SealsWith cipher) urandom f key index x)
    (hback : ReadsBack cipher urandom f key index x.frameType x.payload) :
    ∃ padded, ∀ rest, (readFrame cipher f key index x.frameType).Accepts (x.bytes ++ rest)
      (x.payload, padded) rest := by
  obtain ⟨frame, padded, hwrite, haccepts⟩ := hback
  obtain rfl := Except.ok.inj ((writeFrame_eq_bytes hf hx).symm.trans hwrite)
  exact ⟨padded, haccepts⟩

end

/-! ### One block -/

theorem streamPayload_eq_ok {zlib : Zlib} {position : ℕ} {block payload : Bytes} :
    streamPayload zlib position block = .ok payload ↔ ∃ selected start,
      chooseBestMode zlib.encoder block = .ok selected ∧
      Struct.pack streamDataPrefix (position, block.length, selected.mode.toNat, ()) = some start ∧
      payload = start ++ selected.payload := by
  simp only [streamPayload, Except.bind_eq_ok_iff, ofOption_eq_ok, Except.ok.injEq, exists_and_left,
    @eq_comm _ payload]

section

variable {zlib : Zlib} (hzlib : zlib.Inverts)

include hzlib

/-- The payload of a data frame opens to the block, where the decoder expects a block of this
size. -/
theorem openBlock_streamPayload {h : Msc2Header} (hchunk : h.chunkSize ≤ maxBlockSize)
    {frameIndex position localFrame : ℕ} {e : Entry} {block payload : Bytes} (hne : block ≠ [])
    (hlength : (block.length : ℤ) = min (h.chunkSize : ℤ) ((e.size : ℤ) - localFrame * h.chunkSize))
    (hpayload : streamPayload zlib position block = .ok payload) :
    openBlock zlib h frameIndex position e localFrame payload = .ok block := by
  have hsize : block.length ≤ maxBlockSize := by
    have hle := min_le_left (h.chunkSize : ℤ) ((e.size : ℤ) - localFrame * h.chunkSize)
    omega
  obtain ⟨selected, start, hselected, hstart, rfl⟩ := streamPayload_eq_ok.mp hpayload
  obtain ⟨selected', hselected', hdecode⟩ := chooseBestMode_decode hzlib hne hsize
  obtain rfl := Except.ok.inj (hselected.symm.trans hselected')
  have hexact : Struct.Exact streamDataPrefix (position, block.length, selected.mode.toNat, ()) := by
    obtain ⟨_, _, hposition, ⟨_, _, hblock, ⟨_, _, hmode, -, -⟩, -⟩, -⟩ := by
      simpa only [streamDataPrefix, Struct.pack_cons] using hstart
    exact ⟨Solid.lt_of_pack_uint hposition, Solid.lt_of_pack_uint hblock, Solid.lt_of_pack_uint hmode,
      trivial⟩
  have hstartLength := Struct.pack_length hstart
  have hunpack : Struct.unpack streamDataPrefix (start ++ selected.payload) =
      (position, block.length, selected.mode.toNat, ()) := by
    obtain ⟨b, hb, hback⟩ := Struct.unpack_pack hexact
    obtain rfl := Option.some.inj (hb.symm.trans hstart)
    rw [Struct.unpack_append hstartLength, hback]
  have hdrop : (start ++ selected.payload).drop (Struct.size streamDataPrefix) = selected.payload :=
    List.drop_left' hstartLength
  have hlong : ¬ (start ++ selected.payload).length < Struct.size streamDataPrefix := by
    rw [List.length_append]
    omega
  have hconsistent : ¬ (position ≠ position ∨
      (block.length : ℤ) ≠ min (h.chunkSize : ℤ) ((e.size : ℤ) - localFrame * h.chunkSize)) := by
    rw [hlength]
    simp
  simp only [openBlock, hunpack, hdrop, Except.raiseIf, if_neg hlong, if_neg hconsistent,
    getMode_toNat, hdecode, bind, Except.bind]

variable {cipher : Aead} (hcipher : cipher.Inverts) {urandom : Urandom} {opened : OpenedStream}
  (hheader : opened.header.Valid)

include hcipher hheader

/-- The frame of a block is read back to the block. -/
theorem readBlock_frame {position index localFrame : ℕ} {e : Entry} {block rest : Bytes}
    {x : SealedFrame}
    (hx : FrameOk (SealsWith cipher) urandom (opened.header.frameFormat opened.globalHeader)
      opened.key index x) (hholds : HoldsBlock zlib (position, block) x) (hne : block ≠ [])
    (hlength : (block.length : ℤ) =
      min (opened.header.chunkSize : ℤ) ((e.size : ℤ) - localFrame * opened.header.chunkSize)) :
    readBlock zlib cipher opened position e localFrame ⟨x.bytes ++ rest, index⟩ =
      .ok (block, ⟨rest, index + 1⟩) := by
  have hf := hheader.frameFormat opened.globalHeader
  obtain ⟨htype, hpayload⟩ := hholds
  have hblock : block.length ≤ opened.header.chunkSize := by
    have hle := min_le_left (opened.header.chunkSize : ℤ)
      ((e.size : ℤ) - localFrame * opened.header.chunkSize)
    omega
  have hshort : x.payload.length ≤ Struct.size streamDataPrefix + opened.header.chunkSize := by
    obtain ⟨selected, start, hselected, hstart, heq⟩ := streamPayload_eq_ok.mp hpayload
    rw [heq, List.length_append, Struct.pack_length hstart]
    exact Nat.add_le_add_left ((chooseBestMode_length_le hselected).trans hblock) _
  have hback := data_readsBack hcipher urandom hf opened.key rfl hheader.chunkSize.2 (by decide)
    hx.1.index_lt hshort
  rw [← htype] at hback
  obtain ⟨padded, haccepts⟩ := accepts_of_readsBack hf hx hback
  have hread := ByteParser.accepts_iff.mp (haccepts rest)
  rw [htype] at hread
  have hopen : openBlock zlib opened.header index position e localFrame x.payload = .ok block :=
    openBlock_streamPayload hzlib hheader.chunkSize.2 hne hlength hpayload
  simp only [readBlock, hread, hopen, bind, Except.bind]
  rfl

end

/-! ### The loops -/

theorem readBlocks_length {chunkSize : ℕ} (hchunk : 1 ≤ chunkSize) (data : Bytes) :
    (readBlocks chunkSize data).length = (data.length + chunkSize - 1) / chunkSize := by
  induction data using readBlocks.induct chunkSize with
  | case1 data hstop =>
      obtain rfl := hstop.resolve_left (by omega)
      rw [readBlocks, if_pos (.inr rfl), List.length_nil, List.length_nil, Nat.zero_add,
        Nat.div_eq_of_lt (by omega)]
  | case2 data hmore ih =>
      push Not at hmore
      have hpos : 0 < data.length := List.length_pos_iff.mpr hmore.2
      rw [readBlocks, if_neg (by push Not; exact hmore), List.length_cons, ih, List.length_drop]
      by_cases hlong : chunkSize ≤ data.length
      · have heq : data.length + chunkSize - 1 = data.length - chunkSize + chunkSize - 1 + chunkSize := by
          omega
        rw [heq, Nat.add_div_right _ (by omega)]
      · have hzero : data.length - chunkSize + chunkSize - 1 < chunkSize := by omega
        have hone : data.length + chunkSize - 1 = data.length - 1 + chunkSize := by omega
        have hlast : data.length - 1 < chunkSize := by omega
        rw [Nat.div_eq_of_lt hzero, hone, Nat.add_div_right _ (by omega), Nat.div_eq_of_lt hlast]

theorem forall₂_append_left {α β : Type} {R : α → β → Prop} {first second : List α} {bs : List β}
    (h : List.Forall₂ R (first ++ second) bs) :
    ∃ cs ds, bs = cs ++ ds ∧ List.Forall₂ R first cs ∧ List.Forall₂ R second ds := by
  refine ⟨bs.take first.length, bs.drop first.length, (List.take_append_drop _ _).symm, ?_, ?_⟩
  · exact (List.forall₂_take_append bs first second h.flip).flip
  · exact (List.forall₂_drop_append bs first second h.flip).flip

/-- What the decoder makes of an entry with these blocks. -/
def restoredItem (kind : ℕ) (e : Entry) (blocks : Option (List Bytes)) : TreeItem Text :=
  ⟨target kind e, blocks, e.mode, e.mtimeNs⟩

section

variable {zlib : Zlib} {cipher : Aead} {opened : OpenedStream}
  {system : Environment Restore.Call Restore.Reply}

theorem writeBlock_settles {position i : ℕ} {e : Entry} {before : List Bytes} {block : Bytes}
    {reader reader' : FrameReader}
    (h : readBlock zlib cipher opened position e i reader = .ok (block, reader')) :
    Settles (writeBlock system none (streamJob zlib cipher opened) position e (before, reader) i)
      (.ok (before ++ [block], reader')) := by
  have hblock : Settles ((streamJob zlib cipher opened).block position e i reader)
      (.ok (block, reader')) := by
    rw [← h]
    exact Settles.lift
  refine hblock.bind (Settles.bind (a := ()) ?_ Settles.pure)
  exact Settles.pure

variable (hzlib : zlib.Inverts) (hcipher : cipher.Inverts) {urandom : Urandom}
  (hheader : opened.header.Valid)

include hzlib hcipher hheader

/-- The loop over the frames of a file gives back its blocks. -/
theorem writeBlocks_settles {position : ℕ} {e : Entry} {data tail : Bytes} {i index : ℕ}
    {before : List Bytes} {ys : List SealedFrame}
    (hframes : List.Forall₂ (HoldsBlock zlib)
      ((readBlocks opened.header.chunkSize data).map fun block => (position, block)) ys)
    (hvalid : (frames (SealsWith cipher) urandom (opened.header.frameFormat opened.globalHeader)
      opened.key).Valid index ys)
    (hsize : data ≠ [] → i * opened.header.chunkSize + data.length = e.size) :
    Settles (Routine.forEach (writeBlock system none (streamJob zlib cipher opened) position e)
        (List.range' i (readBlocks opened.header.chunkSize data).length)
        (before, ⟨ys.flatMap SealedFrame.bytes ++ tail, index⟩))
      (.ok (before ++ readBlocks opened.header.chunkSize data, ⟨tail, index + ys.length⟩)) := by
  induction data using readBlocks.induct opened.header.chunkSize generalizing i index before ys with
  | case1 data hstop =>
      rw [readBlocks, if_pos hstop] at hframes ⊢
      cases hframes
      rw [List.append_nil]
      exact Settles.pure
  | case2 data hmore ih =>
      rw [readBlocks, if_neg hmore] at hframes ⊢
      push Not at hmore
      obtain ⟨x, rest, hx, hrest, rfl⟩ := List.forall₂_cons_left_iff.mp hframes
      rw [Emission.valid_cons] at hvalid
      have htotal := hsize hmore.2
      have hfirst : readBlock zlib cipher opened position e i
          ⟨x.bytes ++ (rest.flatMap SealedFrame.bytes ++ tail), index⟩ =
            .ok (data.take opened.header.chunkSize,
              ⟨rest.flatMap SealedFrame.bytes ++ tail, index + 1⟩) := by
        refine readBlock_frame hzlib hcipher hheader hvalid.1 hx ?_ ?_
        · intro hnil
          rcases List.take_eq_nil_iff.mp hnil with hzero | hempty
          · exact hmore.1 hzero
          · exact hmore.2 hempty
        · rw [List.length_take, Nat.cast_min, ← htotal]
          push_cast
          congr 1
          ring
      have hdrop : data.drop opened.header.chunkSize ≠ [] →
          (i + 1) * opened.header.chunkSize + (data.drop opened.header.chunkSize).length = e.size := by
        intro hne
        have hlong : opened.header.chunkSize < data.length := by
          by_contra hle
          exact hne (List.drop_eq_nil_of_le (Nat.not_lt.mp hle))
        rw [List.length_drop, Nat.succ_mul]
        omega
      rw [List.append_cons before, List.length_cons, List.range'_succ, List.flatMap_cons,
        List.append_assoc, List.length_cons, Nat.add_comm rest.length, ← Nat.add_assoc]
      exact (writeBlock_settles hfirst).bind (ih hrest hvalid.2 hdrop)

/-- An entry is restored from the frames of its blocks. -/
theorem restoreEntry_settles {u : Unicode} {position index : ℕ} {e : Entry}
    {blocks : Option (List Bytes)} {done : List (TreeItem Text)} {tail : Bytes} {ys : List SealedFrame}
    (hlisted : Listed u (HasFrames opened.header.chunkSize) e)
    (hblocks : BlocksOf opened.header.chunkSize (e, position) blocks)
    (hframes : List.Forall₂ (HoldsBlock zlib)
      ((blocks.getD []).map fun block => (position, block)) ys)
    (hvalid : (frames (SealsWith cipher) urandom (opened.header.frameFormat opened.globalHeader)
      opened.key).Valid index ys) :
    Settles (restoreEntry system none (streamJob zlib cipher opened)
        ⟨done, ⟨ys.flatMap SealedFrame.bytes ++ tail, index⟩⟩ (e, position))
      (.ok ⟨done ++ [restoredItem opened.manifest.kind e blocks], ⟨tail, index + ys.length⟩⟩) := by
  rw [BlocksOf] at hblocks
  dsimp only at hblocks
  rcases hlisted.entryType with hfile | hdirectory
  · rw [if_neg (not_not.mpr hfile)] at hblocks
    obtain ⟨data, rfl, hsize, hdigest⟩ := hblocks
    have hisFile : e.isFile = true := by
      rw [isFile_iff hlisted.entryType, hfile]
      decide
    have hcount : e.count = (readBlocks opened.header.chunkSize data).length := by
      rw [(hlisted.file hisFile).2, readBlocks_length hheader.chunkSize.1, ← hsize,
        readBlocks_flatten hheader.chunkSize.1]
    have hloop : Settles (writeBlocks system none (streamJob zlib cipher opened) position e
        ⟨ys.flatMap SealedFrame.bytes ++ tail, index⟩)
        (.ok (readBlocks opened.header.chunkSize data, ⟨tail, index + ys.length⟩)) := by
      rw [writeBlocks, List.range_eq_range', hcount]
      refine writeBlocks_settles hzlib hcipher hheader hframes hvalid fun _ => ?_
      rw [Nat.zero_mul, Nat.zero_add, ← hsize, readBlocks_flatten hheader.chunkSize.1]
    have hverify : verifyFile e (readBlocks opened.header.chunkSize data).flatten = .ok () :=
      if_neg (not_or.mpr ⟨not_not.mpr hsize, not_not.mpr hdigest⟩)
    have hparent : Settles (inFolder opened.manifest.kind (publishing none
        (call system (.deed (.mkdirParent (target opened.manifest.kind e)))))) (.ok ()) := by
      rw [inFolder]
      split
      · exact Settles.pure
      · exact Settles.pure
    have hrun : Settles (restoreFile system none (streamJob zlib cipher opened) position e
        ⟨done, ⟨ys.flatMap SealedFrame.bytes ++ tail, index⟩⟩)
        (.ok ⟨done ++ [restoredItem opened.manifest.kind e
          (some (readBlocks opened.header.chunkSize data))], ⟨tail, index + ys.length⟩⟩) := by
      have hchecked : Settles (Routine.lift ((streamJob zlib cipher opened).verify e
          (readBlocks opened.header.chunkSize data).flatten) : Restore.Run Unit) (.ok ()) := by
        rw [← hverify]
        exact Settles.lift
      refine hparent.bind (Settles.bind (a := ()) Settles.pure ((hloop.finally' Settles.pure).bind ?_))
      exact hchecked.bind (Settles.bind (a := ()) Settles.pure Settles.pure)
    rw [restoreEntry]
    dsimp only
    rw [if_neg ((isFile_iff hlisted.entryType).mp hisFile)]
    exact hrun
  · have hnotFile : e.entryType ≠ entryFile := by
      rw [hdirectory]
      decide
    rw [if_pos hnotFile] at hblocks
    subst hblocks
    cases hframes
    rw [restoreEntry]
    dsimp only
    rw [if_pos hdirectory]
    exact Settles.bind (a := ()) Settles.pure Settles.pure

/-- The decoder restores the blocks of the entries, in their order. -/
theorem restoreEntries_settles {u : Unicode} {items : List (Entry × ℕ)}
    {blocks : List (Option (List Bytes))} {index : ℕ} {done : List (TreeItem Text)}
    {ys : List SealedFrame}
    (hlisted : ∀ item ∈ items, Listed u (HasFrames opened.header.chunkSize) item.1)
    (hblocks : List.Forall₂ (BlocksOf opened.header.chunkSize) items blocks)
    (hframes : List.Forall₂ (HoldsBlock zlib) (dataBlocks items blocks) ys)
    (hvalid : (frames (SealsWith cipher) urandom (opened.header.frameFormat opened.globalHeader)
      opened.key).Valid index ys) :
    Settles (Routine.forEach (restoreEntry system none (streamJob zlib cipher opened)) items
        ⟨done, ⟨ys.flatMap SealedFrame.bytes, index⟩⟩)
      (.ok ⟨done ++ List.zipWith (restoredItem opened.manifest.kind) (items.map Prod.fst) blocks,
        ⟨[], index + ys.length⟩⟩) := by
  induction hblocks generalizing index done ys with
  | nil =>
      cases hframes
      rw [List.map_nil, List.zipWith_nil_left, List.append_nil]
      exact Settles.pure
  | @cons item bs items blocks hfirst hrest ih =>
      obtain ⟨e, position⟩ := item
      rw [List.forall_mem_cons] at hlisted
      have hcut : dataBlocks ((e, position) :: items) (bs :: blocks) =
          (bs.getD []).map (fun block => (position, block)) ++ dataBlocks items blocks := by
        rw [dataBlocks, List.zip_cons_cons, List.flatMap_cons, dataBlocks]
      rw [hcut] at hframes
      obtain ⟨ys, zs, rfl, hys, hzs⟩ := forall₂_append_left hframes
      rw [Emission.valid_append] at hvalid
      rw [List.flatMap_append]
      refine (restoreEntry_settles hzlib hcipher hheader hlisted.1 hfirst hys hvalid.1).bind ?_
      have hlast := @ih (index + ys.length) (done ++ [restoredItem opened.manifest.kind e bs]) zs
        hlisted.2 hzs hvalid.2
      rwa [List.append_assoc, List.singleton_append, Nat.add_assoc, ← List.length_append] at hlast

/-- Without a destination, everything is read and nothing is done. -/
theorem restore_settles {u : Unicode} {blocks : List (Option (List Bytes))} {ys : List SealedFrame}
    {prepare : Restore.Run Unit} (hparsed : StreamParsed u opened.header opened.manifest)
    (hblocks : List.Forall₂ (BlocksOf opened.header.chunkSize) opened.manifest.entries.zipIdx blocks)
    (hframes : List.Forall₂ (HoldsBlock zlib) (dataBlocks opened.manifest.entries.zipIdx blocks) ys)
    (hvalid : (frames (SealsWith cipher) urandom (opened.header.frameFormat opened.globalHeader)
      opened.key).Valid 1 ys) (hcount : 1 + ys.length = opened.header.frameCount) :
    Settles (restore system none (streamJob zlib cipher opened) prepare
        ⟨ys.flatMap SealedFrame.bytes, 1⟩)
      (.ok ⟨List.zipWith (restoredItem opened.manifest.kind) opened.manifest.entries blocks,
        ⟨[], opened.header.frameCount⟩⟩) := by
  have hlisted : ∀ item ∈ opened.manifest.entries.zipIdx,
      Listed u (HasFrames opened.header.chunkSize) item.1 :=
    fun item hitem => hparsed.entries item.1 (List.fst_mem_of_mem_zipIdx hitem)
  have hloop := @restoreEntries_settles _ _ _ system hzlib hcipher _ hheader u _ blocks 1 [] ys hlisted
    hblocks hframes hvalid
  rw [List.zipIdx_map_fst, List.nil_append, hcount] at hloop
  have hfinish : Settles (Routine.lift ((streamJob zlib cipher opened).finish
      ⟨[], opened.header.frameCount⟩) : Restore.Run Unit) (.ok ()) := by
    have hok : (streamJob zlib cipher opened).finish ⟨[], opened.header.frameCount⟩ = .ok () := by
      simp [streamJob, finishStream, Except.raiseIf, bind, Except.bind]
    rw [← hok]
    exact Settles.lift
  have hdirectories : Settles (inFolder (streamJob zlib cipher opened).kind (publishing none
      (Routine.forEach (fun _ e => applyMetadata system
        (directoryItem (streamJob zlib cipher opened).kind e))
        (directoriesByDepth (streamJob zlib cipher opened).entries) ()))) (.ok ()) := by
    rw [inFolder]
    split
    · exact Settles.pure
    · exact Settles.pure
  refine Settles.bind (a := ()) Settles.pure (Settles.onError ?_)
  refine hloop.bind (hfinish.bind (hdirectories.bind (Settles.bind (a := ()) ?_ Settles.pure)))
  exact Settles.pure

end

/-! ### The frame of the manifest -/

/-- The frame of a manifest that the encoder admits is read exactly if the manifest does not
overhang. -/
theorem readFrame_manifest {cipher : Aead} (hcipher : cipher.Inverts) {urandom : Urandom}
    {f : FrameFormat} (hf : f.Valid) {key : Bytes} {x : SealedFrame}
    (hx : FrameOk (SealsWith cipher) urandom f key 0 x) (htype : x.frameType = frameManifest)
    (hlength : x.payload.length ≤ maxManifestCiphertext - f.paddingSize - aeadTagLength) :
    ∃ padded, ∀ rest, readFrame cipher f key 0 frameManifest (x.bytes ++ rest) =
      if Overhangs f.paddingSize x.payload.length then
        .error (.archiveFormat (f.name ++ " frame " ++ toString 0 ++ " exceeds its resource limit"))
      else .ok ((x.payload, padded), rest) := by
  have hpos : 0 < f.paddingSize := by
    have hsize := hf.paddingSize
    omega
  have hround := roundUp_lt (lengthSize + x.payload.length) hpos
  have hfits : roundUp (lengthSize + x.payload.length) f.paddingSize + aeadTagLength < 256 ^ 4 := by
    have hsize := hf.paddingSize
    simp only [lengthSize, aeadTagLength, maxManifestCiphertext, maxPaddingSize] at *
    omega
  have hzero : 0 < 256 ^ 8 := by decide
  obtain ⟨frame, padded, hwrite, hread⟩ :=
    readFrame_writeFrame hcipher urandom hf key hzero (.inl rfl) hfits
  have hsame := writeFrame_eq_bytes hf hx
  rw [htype] at hsame
  obtain rfl := Except.ok.inj (hsame.symm.trans hwrite)
  refine ⟨padded, fun rest => ?_⟩
  have hlimit : f.limit frameManifest = maxManifestCiphertext := rfl
  rw [hread, hlimit, ← ite_not]
  exact if_congr (not_congr (padded_le_iff hf.paddingSize hlength) |>.trans not_not) rfl rfl

/-! ### Opening the archive -/

/-- The caller's limits admit what the manifest lists. -/
structure AdmitsContents (limits : DecodeLimits) (m : StreamManifest) : Prop where
  size : ((m.entries.map Entry.size).sum : ℤ) ≤ limits.maxOutputSize
  frames : 0 < limits.maxFrameCount ∧ ((m.files.map Entry.count).sum : ℤ) ≤ limits.maxFrameCount

theorem AdmitsContents.validate {limits : DecodeLimits} {m : StreamManifest}
    (h : AdmitsContents limits m) :
    validateDecodeLimits { limits with maxArchiveSize := defaultMaxLegacyArchiveSize } = .ok () := by
  have hsize := h.size
  have hframes := h.frames
  have harchive : ¬ defaultMaxLegacyArchiveSize ≤ 0 := by decide
  simp only [validateDecodeLimits, Except.bind_eq_ok_iff, Except.raiseIf_eq_ok, exists_and_left,
    exists_const]
  exact ⟨by omega, by omega, harchive⟩

/-- What the decoder knows of an archive once it has read the manifest. -/
def openedBy (p : StreamPlan) : OpenedStream := ⟨p.header, p.globalHeader, p.key, p.manifest⟩

section

variable {u : Unicode} {scrypt : Scrypt} {env : Environment Encoder.Call Encoder.Reply}
  {platform : Platform} {directories : ℕ} {inputPath : Text} {password : Password}
  {o : EncodeOptions} {draws : FramedDraws} {p : StreamPlan}
  (hmade : p.Made u scrypt env platform directories inputPath password o draws)
  {cipher : Aead} (hcipher : cipher.Inverts) {urandom : Urandom} {first : SealedFrame}
  (hfirst : FrameOk (SealsWith cipher) urandom p.format p.key 0 first)
  (htype : first.frameType = frameManifest) (hpayload : first.payload = p.payload)
  {limits : DecodeLimits} {rest : Bytes}

include hmade

theorem made_header : parseMsc2Header p.globalHeader = .ok p.header :=
  parseMsc2Header_eq_ok.mpr ⟨hmade.header_valid, hmade.packed⟩

theorem made_key : deriveKey scrypt password p.header.salt p.header.kdfLogN p.header.kdfR
    p.header.kdfP = .ok p.key := by
  rw [hmade.header]
  exact hmade.key

theorem made_frameCount : p.header.frameCount = 1 + (p.manifest.files.map Entry.count).sum := by
  rw [hmade.header]
  rfl

include hcipher hfirst htype hpayload

theorem readFrame_written :
    ∃ padded, ∀ rest, readFrame cipher p.format p.key 0 frameManifest (first.bytes ++ rest) =
      if Overhangs o.paddingSize p.payload.length then
        .error (.archiveFormat
          (p.format.name ++ " frame " ++ toString 0 ++ " exceeds its resource limit"))
      else .ok ((p.payload, padded), rest) := by
  have hf : p.format.Valid := hmade.header_valid.frameFormat p.globalHeader
  have hpadding : p.format.paddingSize = o.paddingSize := by
    rw [StreamPlan.format, hmade.header]
    rfl
  have hadmitted : first.payload.length ≤
      maxManifestCiphertext - p.format.paddingSize - aeadTagLength := by
    rw [hpayload]
    exact checkManifestSize_eq_ok.mp hmade.size
  have hread := readFrame_manifest hcipher hf hfirst htype hadmitted
  rwa [hpayload, hpadding] at hread

/-- The archive opens unless its manifest overhangs. -/
theorem openStream_written (hparsed : parseManifest u p.payload p.header = .ok p.manifest)
    (hlimits : AdmitsContents limits p.manifest)
    (hfits : ¬ Overhangs o.paddingSize p.payload.length) :
    openStream u cipher scrypt limits password (p.globalHeader ++ (first.bytes ++ rest)) =
      .ok (openedBy p, rest) := by
  obtain ⟨padded, hread⟩ := readFrame_written hmade hcipher hfirst htype hpayload
  have haccepts := hread rest
  rw [if_neg hfits] at haccepts
  have hcount := made_frameCount hmade
  have hframes := hlimits.frames.2
  refine openStream_eq_ok.mpr ⟨made_header hmade, ?_, made_key hmade, ?_, Int.not_lt.mpr hlimits.size⟩
  · show ¬ limits.maxFrameCount < (p.header.frameCount : ℤ) - 1
    rw [hcount, Nat.cast_add, Nat.cast_one]
    omega
  · exact ⟨first.bytes ++ rest, p.payload, padded, rfl, ByteParser.accepts_iff.mpr haccepts, hparsed⟩

/-- An archive whose manifest overhangs is never opened. -/
theorem openStream_overhangs (hoverhangs : Overhangs o.paddingSize p.payload.length)
    (result : OpenedStream × Bytes) :
    openStream u cipher scrypt limits password (p.globalHeader ++ (first.bytes ++ rest)) ≠
      .ok result := by
  obtain ⟨opened, rest'⟩ := result
  intro hopen
  have h := openStream_eq_ok.mp hopen
  obtain ⟨padded, hread⟩ := readFrame_written hmade hcipher hfirst htype hpayload
  obtain ⟨after, payload, padded', harchive, haccepts, -⟩ := h.manifest
  have hlength : p.globalHeader.length = opened.globalHeader.length := by
    rw [Struct.pack_length hmade.packed, Struct.pack_length (parseMsc2Header_eq_ok.mp h.header).2]
  obtain ⟨hglobal, rfl⟩ := List.append_inj harchive hlength
  -- the header and the key of the reader are those of the writer
  have hheader : p.header = opened.header := by
    have hsame := made_header hmade
    rw [hglobal, h.header] at hsame
    exact (Except.ok.inj hsame).symm
  have hkey : p.key = opened.key := by
    have hsame := made_key hmade
    rw [hheader, h.key] at hsame
    exact (Except.ok.inj hsame).symm
  have hrefused := hread rest
  rw [if_pos hoverhangs, StreamPlan.format, hheader, hglobal, hkey,
    ByteParser.accepts_iff.mp haccepts] at hrefused
  cases hrefused

end

/-! ### What is restored -/

/-- The items of a manifest with the blocks of its files. -/
def restoredItems (m : StreamManifest) (blocks : List (Option (List Bytes))) : List (TreeItem Text) :=
  List.zipWith (restoredItem m.kind) m.entries blocks

/-- What the temporary root is when it has been made. -/
def emptyRoot (kind : ℕ) : FileTree Text :=
  if kind = kindFolder then FileTree.emptyDirectory else FileTree.emptyFile

/-- The archive is inspected to a manifest and its items. Where every call succeeds it is decoded to
them; and however the system behaves, a run of the decoder that returns has left the tree of the
items in the place of the destination. -/
structure RestoredAs (u : Unicode) (zlib : Zlib) (cipher : Aead) (scrypt : Scrypt) (limits : DecodeLimits)
    (password : Password) (archive : Bytes) (m : StreamManifest) (items : List (TreeItem Text)) :
    Prop where
  ends : ∃ opened reader, opened.manifest = m ∧ ∀ system,
    Settles (decodeOrInspect u zlib cipher scrypt system none limits password archive)
      (.ok (opened, ⟨items, reader⟩)) ∧
    ∀ destination, Calm system →
      Settles (decodeOrInspect u zlib cipher scrypt system (some destination) limits password archive)
        (.ok (opened, ⟨items, reader⟩))
  publishes : ∀ system destination,
    Traces deedsOf
      (decodeOrInspect u zlib cipher scrypt system (some destination) limits password archive)
      (fun _ deeds => ∃ built, deeds = .rootMade :: built.map .tree ++ [.published] ∧
        FileTree.applyAll built (emptyRoot m.kind) =
          .ok (FileTree.setAll TreeItem.node items (emptyRoot m.kind)))
      fun _ deeds => Abandoned deeds

/-- The deeds of a finished run leave the tree of the items. -/
theorem applyAll_items {σ : Type} {job : Job σ} {items : List (TreeItem Text)} {u : Unicode}
    (hcatalog : Catalog u job.kind job.entries) (hkind : job.kind = kindFile ∨ job.kind = kindFolder)
    (hfolder : job.kind = kindFolder →
      (∀ e ∈ job.entries, Plain e.relativePath) ∧ Trace.Lawful ListedBefore job.entries)
    (hrestored : Restored job items) :
    FileTree.applyAll (allItemDeeds job items) (emptyRoot job.kind) =
      .ok (FileTree.setAll TreeItem.node items (emptyRoot job.kind)) := by
  rcases hkind with hfile | hkind
  · obtain ⟨e, hentries, hisFile⟩ := hcatalog.single hfile
    rw [Restored, hentries] at hrestored
    obtain ⟨i, rest, hi, hnil, rfl⟩ := List.forall₂_cons_left_iff.mp hrestored
    obtain rfl := List.forall₂_nil_left_iff.mp hnil
    have htype := hcatalog.entryType e (by rw [hentries]; exact List.mem_singleton_self e)
    rw [Restores, if_neg ((isFile_iff htype).mp hisFile)] at hi
    obtain ⟨blocks, rfl, -⟩ := hi
    have hnotFolder : job.kind ≠ kindFolder := by
      rw [hfile]
      decide
    have hroot : (fileItem job.kind e blocks).path = [] := if_pos hfile
    rw [emptyRoot, if_neg hnotFolder, allItemDeeds_file hfile, FileTree.applyAll_fill_root hroot,
      FileTree.setAll, List.foldl_cons, hroot]
    rfl
  · obtain ⟨hplain, hlawful⟩ := hfolder hkind
    rw [emptyRoot, if_pos hkind]
    exact (folder_tree hkind (hcatalog.plainFolder hkind hplain) hrestored).mpr ⟨hlawful, rfl⟩

section

variable {u : Unicode} {zlib : Zlib} {cipher : Aead} {scrypt : Scrypt} {limits : DecodeLimits}
  {password : Password} {archive rest : Bytes} {opened : OpenedStream} {reader : FrameReader}
  {items : List (TreeItem Text)}

/-- An archive that opens and is read to its end without a destination. -/
theorem restoredAs_of_restore (hlimits : AdmitsContents limits opened.manifest)
    (hpassword : ∃ normal, normalizePassword password = .ok normal)
    (hopen : openStream u cipher scrypt limits password archive = .ok (opened, rest))
    (hfolder : opened.manifest.kind = kindFolder →
      (∀ e ∈ opened.manifest.entries, Plain e.relativePath) ∧
        Trace.Lawful ListedBefore opened.manifest.entries)
    (hrestore : ∀ system prepare, Settles (restore system none (streamJob zlib cipher opened) prepare
      { rest }) (.ok ⟨items, reader⟩)) :
    RestoredAs u zlib cipher scrypt limits password archive opened.manifest items := by
  obtain ⟨normal, hnormal⟩ := hpassword
  have hinspect : ∀ system,
      Settles (decodeOrInspect u zlib cipher scrypt system none limits password archive)
        (.ok (opened, ⟨items, reader⟩)) := by
    intro system
    have hvalidate : Settles (Routine.lift (validateDecodeLimits
        { limits with maxArchiveSize := defaultMaxLegacyArchiveSize }) : Restore.Run Unit)
        (.ok ()) := by
      rw [hlimits.validate]
      exact Settles.lift
    have hnormalize : Settles (Routine.lift (normalizePassword password) : Restore.Run Bytes)
        (.ok normal) := by
      rw [hnormal]
      exact Settles.lift
    have hopened : Settles (Routine.lift (openStream u cipher scrypt limits password archive) :
        Restore.Run (OpenedStream × Bytes)) (.ok (opened, rest)) := by
      rw [hopen]
      exact Settles.lift
    refine hvalidate.bind (hnormalize.bind (Settles.bind (a := ()) Settles.pure (hopened.bind ?_)))
    exact (hrestore system _).bind Settles.pure
  have hcatalog := catalog_of_streamParsed (openStream_parsed hopen)
  have hkind := (openStream_parsed hopen).kind
  refine ⟨⟨opened, reader, rfl, fun system => ⟨hinspect system, fun destination hcalm => ?_⟩⟩,
    fun system destination => ?_⟩
  · obtain ⟨x, hx, hdecode, -⟩ := @decodeOrInspect_dryRun u zlib cipher scrypt system destination limits
      password archive
    have hsame : x = .ok (opened, ⟨items, reader⟩) := (hx []).symm.trans (hinspect system [])
    rw [← hsame]
    exact hdecode hcalm
  · obtain ⟨x, hx, -, hreturns⟩ := @decodeOrInspect_dryRun u zlib cipher scrypt system destination limits
      password archive
    have hsame : x = .ok (opened, ⟨items, reader⟩) := (hx []).symm.trans (hinspect system [])
    have hresult : Returns
        (decodeOrInspect u zlib cipher scrypt system (some destination) limits password archive)
        fun result _ => result = (opened, ⟨items, reader⟩) := by
      refine hreturns.mono fun result _ hr => ?_
      rw [hsame] at hr
      exact (Except.ok.inj hr).symm
    refine Traces.mono (decodeOrInspect_traces.returning hresult) ?_ fun _ _ h => h
    rintro _ deeds ⟨⟨-, hrestored, rfl⟩, rfl⟩
    exact ⟨_, rfl, applyAll_items hcatalog hkind hfolder hrestored⟩

end

/-! ### The round trip -/

section

variable {u : Unicode} {zlib : Zlib} {cipher : Aead} {scrypt : Scrypt}
  {env : Environment Encoder.Call Encoder.Reply} {platform : Platform} {directories : ℕ}
  {inputPath : Text} {password : Password} {o : EncodeOptions} {draws : FramedDraws}
  (hu : Normalizes u) (hnames : ∀ before, ScansNames (inner env before))

include hu hnames

/-- The manifest of a plan is one that the parser accepts. -/
theorem made_parsed {p : StreamPlan}
    (hmade : p.Made u scrypt env platform directories inputPath password o draws) :
    StreamParsed u p.header p.manifest ∧ (p.manifest.kind = kindFolder →
      (∀ e ∈ p.manifest.entries, Plain e.relativePath) ∧
        Trace.Lawful ListedBefore p.manifest.entries) := by
  obtain ⟨s, ⟨before, hcapture⟩, ⟨before', hscan⟩⟩ := hmade.scanned
  have hsource : ∀ part ∈ posixParts inputPath, '/' ∉ part := fun part hpart =>
    not_mem_of_mem_splitOn (mem_posixParts.mp hpart).1
  have hchunk : p.header.chunkSize = o.chunkSize := by
    rw [hmade.header]
    rfl
  exact scan_parsed hu (hnames before) hsource (Prod.ext hcapture rfl) (Prod.ext hscan rfl)
    hmade.payload hchunk (made_frameCount hmade)

/-- Whatever a run of the encoder returns, the decoder restores from the archive it has written,
under the same password and within all limits that admit it, unless its manifest overhangs; then it
never returns. The blocks of each file have the size and the digest in the manifest. -/
theorem encodeStreamArchive_roundTrip (hzlib : zlib.Inverts) (hcipher : cipher.Inverts)
    (henv : Encrypts env (SealsWith cipher)) :
    Traces outputDeeds
      (encodeStreamArchive u zlib scrypt env platform directories inputPath password o draws)
      (fun result t => List.Forall₂ (BlocksOf o.chunkSize) result.1.entries.zipIdx result.2 ∧
        ∃ payload, serializeManifest result.1 = some payload ∧ ∀ limits, AdmitsContents limits result.1 →
          if Overhangs o.paddingSize payload.length then
            ∀ system destination, Returns (decodeOrInspect u zlib cipher scrypt system destination
              limits password (written t)) fun _ _ => False
          else RestoredAs u zlib cipher scrypt limits password (written t) result.1
            (restoredItems result.1 result.2))
      fun _ _ => True := by
  refine Traces.mono (encodeStreamArchive_traces henv) ?_ fun _ _ _ => trivial
  rintro ⟨m, blocks⟩ t ⟨p, rfl, hmade, xs, hvalid, rfl, hframes⟩
  obtain ⟨first, rest, rfl, htype, hpayload, hrest⟩ := hframes.frames
  obtain ⟨hparsed, hfolder⟩ := made_parsed hu hnames hmade
  have hparse : parseManifest u p.payload p.header = .ok p.manifest :=
    parseManifest_eq_ok.mpr ⟨hparsed, hmade.payload⟩
  rw [Emission.valid_cons] at hvalid
  have hwritten : written (.wrote p.globalHeader ::
      (frames (SealsWith cipher) draws.padding p.format p.key).deeds 0 (first :: rest)) =
      p.globalHeader ++ (first.bytes ++ rest.flatMap SealedFrame.bytes) := by
    have hdeeds := @frames_written (SealsWith cipher) draws.padding p.format p.key 0 (first :: rest)
    rw [List.flatMap_cons] at hdeeds
    rw [← hdeeds]
    rfl
  have hchunk : p.header.chunkSize = o.chunkSize := by
    rw [hmade.header]
    rfl
  have hcontents := hframes.contents
  rw [hchunk] at hcontents
  refine ⟨hcontents, p.payload, hmade.payload, fun limits hlimits => ?_⟩
  rw [hwritten]
  split_ifs with hoverhangs
  · intro system destination
    refine Returns.bind_lift fun _ _ => Returns.bind_lift fun _ _ => ?_
    refine Returns.bind (publishing_returns fun _ =>
      (Does.returns refuseSameFile_quietly).mono fun _ _ _ => trivial) fun _ _ _ => ?_
    refine Returns.bind_lift fun result hopen => ?_
    exact absurd hopen
      (openStream_overhangs hmade hcipher hvalid.1 htype hpayload hoverhangs result)
  · have hopen : openStream u cipher scrypt limits password
        (p.globalHeader ++ (first.bytes ++ rest.flatMap SealedFrame.bytes)) =
        .ok (openedBy p, rest.flatMap SealedFrame.bytes) :=
      openStream_written hmade hcipher hvalid.1 htype hpayload hparse hlimits hoverhangs
    have hcount : 1 + rest.length = p.header.frameCount := by
      rw [← hframes.count, List.length_cons, Nat.add_comm]
    have hrestore : ∀ system prepare, Settles
        (restore system none (streamJob zlib cipher (openedBy p)) prepare
          { rest := rest.flatMap SealedFrame.bytes })
        (.ok ⟨restoredItems p.manifest blocks, ⟨[], p.header.frameCount⟩⟩) := fun system prepare =>
      restore_settles hzlib hcipher hmade.header_valid hparsed hframes.contents hrest hvalid.2 hcount
    exact restoredAs_of_restore hlimits hmade.accepted hopen hfolder hrestore

end

/-! ### A run on a folder with one file -/

/-- The folder `d` with a file `a` of one byte, and every other call succeeds. -/
def oneFileReply : (c : Encoder.Call) → Encoder.Reply c
  | .inl c => oneFile ['a'] [] c
  | .inr (.encrypt _ _ _ padded) => (.ok (padded ++ List.replicate 16 0) : Except PyError Bytes)
  | .inr .makeParent => (.ok () : Except PyError Unit)
  | .inr .makeTemporary => (.ok () : Except PyError Unit)
  | .inr (.write _) => (.ok () : Except PyError Unit)
  | .inr .sync => (.ok () : Except PyError Unit)
  | .inr .replace => (.ok () : Except PyError Unit)
  | .inr .removeTemporary => (.ok () : Except PyError Unit)
  | .inr (.compressLane _) => (.ok (0, 0) : Except PyError (ℕ × ℕ))
  | .inr (.readLane _ _) => (.ok [] : Except PyError Bytes)

def oneFileRun : EncoderRun :=
  observe (encodeStreamArchive asciiUnicode storingZlib (fun _ _ _ _ _ => .ok [7])
    (fun _ => oneFileReply) posix 2 ['d'] (.text ['p']) {} emptyFolderDraws) []

theorem scansNames_oneFileReply (before : Encoder.History) :
    ScansNames (inner (fun _ => oneFileReply) before) :=
  scansNames_oneFile

theorem encrypts_oneFileReply : Encrypts (fun _ => oneFileReply) (SealsWith Aead.tagged) := by
  intro before key nonce associatedData padded ciphertext h
  exact congrArg some (Except.ok.inj h)

theorem encodeStreamArchive_roundTrip_oneFile : oneFileRun.returned = true ∧
    ∃ m blocks, ∀ limits, AdmitsContents limits m →
      RestoredAs asciiUnicode storingZlib Aead.tagged (fun _ _ _ _ _ => .ok [7]) limits (.text ['p'])
        oneFileRun.archive m (restoredItems m blocks) := by
  have hreturned : oneFileRun.returned = true := by decide +kernel
  rcases observe_traces (encodeStreamArchive_roundTrip normalizes_ascii scansNames_oneFileReply
    storingZlib_inverts Aead.tagged_inverts encrypts_oneFileReply) [] with
    ⟨-, result, -, payload, -, hrestored⟩ | ⟨hfailed, -⟩
  · refine ⟨hreturned, result.1, result.2, fun limits hlimits => ?_⟩
    have hrest := hrestored limits hlimits
    rwa [if_neg] at hrest
    rintro ⟨⟨hlow, -⟩, -⟩
    exact absurd hlow (by decide)
  · exact absurd (hreturned.symm.trans hfailed) Bool.true_eq_false_eq_False

end MosaicArchive.Archive
