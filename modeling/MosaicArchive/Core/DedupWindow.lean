import MosaicArchive.Core.Dedup
import MosaicArchive.Chunking.Gear

/-!
Both sides of deduplication hold a suffix of the same stream of chunks. What
the encoder refers to is therefore still held by the decoder, and the chunks of
the window are too few to fill the decoder's history.
-/

namespace MosaicArchive.Core

open FixedWidth Sha256

/-! ### What the window keeps -/

/-- The chunks whose distance to `offset` is within the window. -/
def withinWindow (offset : ℕ) (entries : List (ℕ × Bytes)) : List (ℕ × Bytes) :=
  entries.dropWhile fun p => dedupWindowSize < offset - p.1

theorem withinWindow_cons (offset : ℕ) (p : ℕ × Bytes) (rest : List (ℕ × Bytes)) :
    withinWindow offset (p :: rest) =
      if dedupWindowSize < offset - p.1 then withinWindow offset rest else p :: rest := by
  simp only [withinWindow, List.dropWhile_cons, decide_eq_true_eq]

/-- Keeping the window drops the oldest chunks and nothing else. -/
theorem withinWindow_placed (offset base : ℕ) (chunks : List Bytes) :
    ∃ old recent, chunks = old ++ recent ∧
      withinWindow offset (placed base chunks) = placed (base + total old) recent ∧
      (∀ p ∈ placed base old, dedupWindowSize < offset - p.1) ∧
      (recent ≠ [] → offset - (base + total old) ≤ dedupWindowSize) := by
  induction chunks generalizing base with
  | nil => exact ⟨[], [], rfl, rfl, by simp [placed], by simp⟩
  | cons chunk rest ih =>
      rw [placed, withinWindow_cons]
      by_cases hfar : dedupWindowSize < offset - base
      · obtain ⟨old, recent, rfl, hkept, hold, hrecent⟩ := ih (base + chunk.length)
        refine ⟨chunk :: old, recent, rfl, ?_, ?_, ?_⟩
        · rw [if_pos hfar, hkept, total_cons, Nat.add_assoc]
        · rintro p hp
          rcases List.mem_cons.mp hp with rfl | hp
          · exact hfar
          · exact hold p hp
        · simpa [Nat.add_assoc] using hrecent
      · exact ⟨[], chunk :: rest, rfl, by rw [if_neg hfar]; rfl, by simp [placed],
          fun _ => by simpa using hfar⟩

/-- The offsets of the chunks `old ++ recent` from which only `recent` is kept
at the given offset. -/
structure Keeps (offset : ℕ) (old recent : List Bytes) : Prop where
  dropped : ∀ p ∈ placed 0 old, dedupWindowSize < offset - p.1

theorem Keeps.mono {offset offset' : ℕ} {old recent recent' : List Bytes}
    (h : Keeps offset old recent) (hle : offset ≤ offset') : Keeps offset' old recent' := by
  refine ⟨fun p hp => ?_⟩
  have := h.dropped p hp
  omega

/-- A chunk that starts within the window is among the kept ones. -/
theorem Keeps.mem_recent {offset o : ℕ} {old recent : List Bytes} {chunk : Bytes}
    (h : Keeps offset old recent) (hmem : (o, chunk) ∈ placed 0 (old ++ recent))
    (hnear : offset - o ≤ dedupWindowSize) : (o, chunk) ∈ placed (total old) recent := by
  rw [placed_append, List.mem_append, Nat.zero_add] at hmem
  rcases hmem with hold | hrecent
  · have := h.dropped _ hold
    dsimp only at this
    omega
  · exact hrecent

/-- Moving the window forward. -/
theorem Keeps.advance {offset offset' : ℕ} {old recent : List Bytes} (h : Keeps offset old recent)
    (hle : offset ≤ offset') :
    ∃ old' recent', old ++ recent = old' ++ recent' ∧ Keeps offset' old' recent' ∧
      withinWindow offset' (placed (total old) recent) = placed (total old') recent' ∧
      (recent' ≠ [] → offset' - total old' ≤ dedupWindowSize) := by
  obtain ⟨gone, kept, rfl, hkept, hgone, hnear⟩ :=
    withinWindow_placed offset' (total old) recent
  refine ⟨old ++ gone, kept, by simp, ⟨fun p hp => ?_⟩, by simpa using hkept, by simpa using hnear⟩
  rw [placed_append, List.mem_append, Nat.zero_add] at hp
  rcases hp with hp | hp
  · have hlater : Keeps offset' old [] := h.mono hle
    exact hlater.dropped p hp
  · exact hgone p hp

/-! ### The encoder -/

def entryOf (p : ℕ × Bytes) : DedupEntry := { digest := sha256 p.2, offset := p.1, data := p.2 }

/-- The newest entry with a digest. -/
def newest (digest : Bytes) (entries : List DedupEntry) : Option DedupEntry :=
  entries.reverse.find? fun entry => entry.digest = digest

theorem newest_concat (digest : Bytes) (entries : List DedupEntry) (entry : DedupEntry) :
    newest digest (entries ++ [entry]) =
      if entry.digest = digest then some entry else newest digest entries := by
  simp only [newest, List.reverse_append, List.reverse_singleton, List.singleton_append,
    List.find?_cons]
  by_cases h : entry.digest = digest <;> simp [h]

theorem newest_cons (digest : Bytes) (entry : DedupEntry) (entries : List DedupEntry) :
    newest digest (entry :: entries) =
      (newest digest entries).or (if entry.digest = digest then some entry else none) := by
  simp only [newest, List.reverse_cons, List.find?_append, List.find?_cons, List.find?_nil]
  by_cases h : entry.digest = digest <;> simp [h]

theorem mem_of_newest {digest : Bytes} {entries : List DedupEntry} {entry : DedupEntry}
    (h : newest digest entries = some entry) : entry ∈ entries ∧ entry.digest = digest :=
  ⟨List.mem_reverse.mp (List.mem_of_find?_eq_some h), by simpa using List.find?_some h⟩

/-- Forgetting the oldest entry leaves the newest of each digest among the
others. -/
theorem forget_newest {entry : DedupEntry} {entries : List DedupEntry}
    (h : ∀ e ∈ entries, entry.offset < e.offset) :
    DedupWindow.forget (fun digest => newest digest (entry :: entries)) entry =
      fun digest => newest digest entries := by
  funext digest
  unfold DedupWindow.forget
  simp only [newest_cons, if_true]
  match hnewest : newest entry.digest entries with
  | some e =>
      have hnewer : e.offset ≠ entry.offset := by
        have := h e (mem_of_newest hnewest).1
        omega
      simp only [Option.some_or, if_neg hnewer]
      by_cases hdigest : entry.digest = digest
      · subst hdigest
        simp [hnewest]
      · simp [hdigest]
  | none =>
      simp only [Option.none_or, if_true]
      by_cases hdigest : entry.digest = digest
      · subst hdigest
        simp [hnewest]
      · rw [Function.update_of_ne (Ne.symm hdigest)]
        simp [hdigest]

/-- The loop that expires entries keeps the window and the newest of each
digest in it. -/
theorem expire_newest (offset : ℕ) (entries : List (ℕ × Bytes))
    (h : entries.Pairwise fun a b => a.1 < b.1) :
    DedupWindow.expire offset (fun digest => newest digest (entries.map entryOf))
        (entries.map entryOf) =
      { latest := fun digest => newest digest ((withinWindow offset entries).map entryOf)
        ordered := (withinWindow offset entries).map entryOf } := by
  induction entries with
  | nil => rfl
  | cons p rest ih =>
      obtain ⟨hfirst, hrest⟩ := List.pairwise_cons.mp h
      rw [List.map_cons, DedupWindow.expire, withinWindow_cons]
      by_cases hfar : dedupWindowSize < offset - p.1
      · rw [if_pos (show offset - (entryOf p).offset > dedupWindowSize from hfar), if_pos hfar,
          forget_newest ?_, ih hrest]
        intro e he
        obtain ⟨q, hq, rfl⟩ := List.mem_map.mp he
        exact hfirst q hq
      · rw [if_neg (show ¬ offset - (entryOf p).offset > dedupWindowSize from hfar), if_neg hfar]
        rfl

/-- The window holds the last chunks of the stream it has seen. -/
def DedupWindow.Tracks (w : DedupWindow) (stream : List Bytes) : Prop :=
  ∃ old recent, stream = old ++ recent ∧ Keeps (total stream) old recent ∧
    w.ordered = (placed (total old) recent).map entryOf ∧
    w.latest = fun digest => newest digest w.ordered

theorem DedupWindow.tracks_new : DedupWindow.new.Tracks [] :=
  ⟨[], [], rfl, ⟨by simp [placed]⟩, rfl, rfl⟩

/-- What a prepared record says about a chunk that follows the stream. -/
inductive Prepares (stream : List Bytes) (chunk : Bytes) : PreparedRecord → Prop where
  | data : Prepares stream chunk (.data chunk)
  | reference (before after : List Bytes) (hstream : stream = before ++ chunk :: after)
      (hnear : total (chunk :: after) ≤ dedupWindowSize) :
      Prepares stream chunk (.reference (chunk.length % 2 ^ 32) (total (chunk :: after)))

/-- The loop leaves the entries of the chunks within the window, and the newest of each digest. -/
theorem DedupWindow.Tracks.expire {w : DedupWindow} {stream : List Bytes} (h : w.Tracks stream)
    (hne : ∀ c ∈ stream, c ≠ []) :
    ∃ old recent, stream = old ++ recent ∧ Keeps (total stream) old recent ∧
      (recent ≠ [] → total stream - total old ≤ dedupWindowSize) ∧
      DedupWindow.expire (total stream) w.latest w.ordered =
        { latest := fun digest => newest digest ((placed (total old) recent).map entryOf)
          ordered := (placed (total old) recent).map entryOf } := by
  obtain ⟨old, recent, rfl, hkeeps, hordered, hlatest⟩ := h
  obtain ⟨old', recent', hstream, hkeeps', hkept, hnear⟩ := hkeeps.advance le_rfl
  have hsorted : (placed (total old) recent).Pairwise fun a b => a.1 < b.1 :=
    placed_pairwise fun c hc => hne c (List.mem_append_right _ hc)
  refine ⟨old', recent', hstream, hkeeps', hnear, ?_⟩
  rw [hlatest, hordered, expire_newest _ _ hsorted, hkept]

theorem DedupWindow.prepare_spec {w : DedupWindow} {stream : List Bytes} (h : w.Tracks stream)
    (hne : ∀ c ∈ stream, c ≠ []) (chunk : Bytes) :
    (w.prepare chunk (total stream)).1.Tracks (stream ++ [chunk]) ∧
      Prepares stream chunk (w.prepare chunk (total stream)).2 := by
  obtain ⟨old', recent', hstream, hkeeps', hnear, hexpire⟩ := h.expire hne
  have hplaced : placed (total old') (recent' ++ [chunk]) =
      placed (total old') recent' ++ [(total stream, chunk)] := by
    rw [placed_append, ← total_append, ← hstream]
    rfl
  constructor
  · refine ⟨old', recent' ++ [chunk], by rw [hstream, List.append_assoc],
      hkeeps'.mono (by simp), ?_, ?_⟩
    · simp only [prepare, hexpire, hplaced, List.map_append]
      rfl
    · simp only [prepare, hexpire]
      funext digest
      rw [newest_concat]
      by_cases hdigest : sha256 chunk = digest
      · subst hdigest
        simp
      · rw [Function.update_of_ne (Ne.symm hdigest), if_neg hdigest]
  · simp only [prepare, hexpire]
    match hnewest : newest (sha256 chunk) ((placed (total old') recent').map entryOf) with
    | none => exact Prepares.data
    | some entry =>
        dsimp only
        by_cases hsame : entry.data = chunk
        · rw [if_pos hsame]
          obtain ⟨p, hp, rfl⟩ := List.mem_map.mp (mem_of_newest hnewest).1
          obtain ⟨before, after, hrecent, hoffset⟩ := mem_placed_iff.mp hp
          have hdata : p.2 = chunk := hsame
          rw [hdata] at hrecent
          have hwhole : stream = (old' ++ before) ++ chunk :: after := by
            rw [hstream, hrecent, List.append_assoc]
          have hdistance : total stream - (entryOf p).offset = total (chunk :: after) := by
            have htotal := congrArg total hwhole
            rw [total_append (old' ++ before), total_append old'] at htotal
            simp only [entryOf, hoffset]
            omega
          have hfirst := hnear (by rw [hrecent]; simp)
          have hoff : (entryOf p).offset = total old' + total before := hoffset
          rw [hdistance]
          exact Prepares.reference _ _ hwhole (by omega)
        · rw [if_neg hsame]
          exact Prepares.data

/-! ### The decoder -/

/-- The history holds the last chunks of the stream it produced. -/
def DecodeHistory.Holds (h : DecodeHistory) (stream : List Bytes) : Prop :=
  ∃ old recent, stream = old ++ recent ∧ Keeps (total stream) old recent ∧
    h.ordered = (placed (total old) recent).map Prod.fst ∧
    h.byOffset = fun o => (placed (total old) recent).lookup o

namespace DecodeHistory

theorem holds_new : DecodeHistory.new.Holds [] :=
  ⟨[], [], rfl, ⟨by simp [placed]⟩, rfl, rfl⟩

theorem lookup_eq_none {o : ℕ} {entries : List (ℕ × Bytes)} (h : ∀ p ∈ entries, p.1 ≠ o) :
    entries.lookup o = none := by
  induction entries with
  | nil => rfl
  | cons p rest ih =>
      have hne : (o == p.1) = false := by simpa using (h p (by simp)).symm
      rw [List.lookup_cons, hne]
      exact ih fun q hq => h q (List.mem_cons_of_mem _ hq)

theorem lookup_of_mem {entries : List (ℕ × Bytes)} (h : entries.Pairwise fun a b => a.1 < b.1)
    {o : ℕ} {data : Bytes} (hmem : (o, data) ∈ entries) : entries.lookup o = some data := by
  induction entries with
  | nil => simp at hmem
  | cons p rest ih =>
      obtain ⟨hfirst, hrest⟩ := List.pairwise_cons.mp h
      rw [List.lookup_cons]
      rcases List.mem_cons.mp hmem with rfl | hmem
      · simp
      · have hne : (o == p.1) = false := by
          have := hfirst _ hmem
          simp only [beq_eq_false_iff_ne]
          omega
        rw [hne]
        exact ih hrest hmem

theorem expire_lookup (offset : ℕ) (entries : List (ℕ × Bytes))
    (h : entries.Pairwise fun a b => a.1 < b.1) :
    expire offset (entries.map Prod.fst) (fun o => entries.lookup o) =
      { ordered := (withinWindow offset entries).map Prod.fst
        byOffset := fun o => (withinWindow offset entries).lookup o } := by
  induction entries with
  | nil => rfl
  | cons p rest ih =>
      obtain ⟨hfirst, hrest⟩ := List.pairwise_cons.mp h
      rw [List.map_cons, expire, withinWindow_cons]
      by_cases hfar : dedupWindowSize < offset - p.1
      · have hupdate : Function.update (fun o => List.lookup o (p :: rest)) p.1 none =
            fun o => rest.lookup o := by
          funext o
          by_cases ho : o = p.1
          · subst ho
            rw [Function.update_self,
              lookup_eq_none fun q hq => Ne.symm (Nat.ne_of_lt (hfirst q hq))]
          · have hne : (o == p.1) = false := by simpa using ho
            rw [Function.update_of_ne ho, List.lookup_cons, hne]
        rw [if_pos (show offset - p.1 > dedupWindowSize from hfar), if_pos hfar, hupdate, ih hrest]
      · rw [if_neg (show ¬ offset - p.1 > dedupWindowSize from hfar), if_neg hfar]
        rfl

/-- A chunk within the window is resolved by its distance. -/
theorem resolve_spec {h : DecodeHistory} {before after : List Bytes} {chunk : Bytes}
    (hholds : h.Holds (before ++ chunk :: after)) (hne : ∀ c ∈ before ++ chunk :: after, c ≠ [])
    (hnear : total (chunk :: after) ≤ dedupWindowSize) :
    h.resolve (total (before ++ chunk :: after) - total (chunk :: after)) chunk.length =
      .ok chunk := by
  obtain ⟨old, recent, hstream, hkeeps, -, hlookup⟩ := hholds
  have hsource : total (before ++ chunk :: after) - total (chunk :: after) = total before := by
    rw [total_append]
    omega
  have hmem : (total before, chunk) ∈ placed (total old) recent := by
    refine hkeeps.mem_recent ?_ ?_
    · rw [← hstream]
      exact mem_placed_iff.mpr ⟨before, after, rfl, by simp⟩
    · rw [total_append]
      omega
  have hsorted : (placed (total old) recent).Pairwise fun a b => a.1 < b.1 := by
    refine placed_pairwise fun c hc => hne c ?_
    rw [hstream]
    exact List.mem_append_right _ hc
  have hfound : h.byOffset (total before) = some chunk := by
    rw [hlookup]
    exact lookup_of_mem hsorted hmem
  rw [resolve, hsource, hfound]
  simp [Option.filter]

/-- Inserting the next chunk never fails while all chunks before it have the
minimum size. -/
theorem insert_spec {h : DecodeHistory} {stream : List Bytes} (hholds : h.Holds stream)
    (hlong : ∀ c ∈ stream, Gear.minChunkSize ≤ c.length) (chunk : Bytes) :
    ∃ h', h.insert (total stream) chunk = .ok h' ∧ h'.Holds (stream ++ [chunk]) := by
  obtain ⟨old, recent, rfl, hkeeps, hordered, hlookup⟩ := hholds
  obtain ⟨old', recent', hstream, hkeeps', hkept, hnear⟩ := hkeeps.advance le_rfl
  have hmin : 0 < Gear.minChunkSize := by decide
  have hsorted : (placed (total old) recent).Pairwise fun a b => a.1 < b.1 :=
    placed_pairwise fun c hc => List.length_pos_iff.mp
      (hmin.trans_le (hlong c (List.mem_append_right _ hc)))
  have hexpire : expire (total (old ++ recent)) h.ordered h.byOffset =
      { ordered := (placed (total old') recent').map Prod.fst
        byOffset := fun o => (placed (total old') recent').lookup o } := by
    rw [hlookup, hordered, expire_lookup _ _ hsorted, hkept]
  have hfew : recent'.length < maxRecordsInDedupWindow := by
    rcases eq_or_ne recent' [] with rfl | hne
    · decide
    · have hdistance := hnear hne
      have hcount : recent'.length * Gear.minChunkSize ≤ total recent' :=
        length_mul_le_total fun c hc => hlong c (hstream ▸ List.mem_append_right _ hc)
      have htotal := congrArg total hstream
      rw [total_append old'] at htotal
      simp only [Gear.minChunkSize, dedupWindowSize, maxRecordsInDedupWindow] at *
      omega
  have hfresh : (placed (total old') recent').lookup (total (old ++ recent)) = none := by
    refine lookup_eq_none ?_
    rintro ⟨o, c⟩ hmem
    obtain ⟨before, after, hrecent, rfl⟩ := mem_placed_iff.mp hmem
    have hc : Gear.minChunkSize ≤ c.length := hlong c (by rw [hstream, hrecent]; simp)
    have htotal := congrArg total hstream
    rw [total_append old', hrecent, total_append before, total_cons] at htotal
    dsimp only
    omega
  have hplaced : placed (total old') (recent' ++ [chunk]) =
      placed (total old') recent' ++ [(total (old ++ recent), chunk)] := by
    rw [placed_append, ← total_append, ← hstream]
    rfl
  have hnext : Keeps (total (old ++ recent ++ [chunk])) old' (recent' ++ [chunk]) :=
    hkeeps'.mono (by simp)
  generalize total (old ++ recent) = offset at hexpire hfresh hplaced ⊢
  refine ⟨{
      ordered := (placed (total old') recent').map Prod.fst ++ [offset]
      byOffset := Function.update (fun o => (placed (total old') recent').lookup o)
        offset (some chunk) }, ?_, old', recent' ++ [chunk],
    by rw [hstream, List.append_assoc], hnext, ?_, ?_⟩
  · unfold insert
    rw [hexpire]
    exact if_neg (by simp [hfresh, hfew])
  · simp [hplaced]
  · funext o
    dsimp only
    rw [hplaced, List.lookup_append]
    by_cases ho : o = offset
    · subst ho
      rw [Function.update_self, hfresh]
      simp
    · have hne : (o == offset) = false := by simpa using ho
      rw [Function.update_of_ne ho, List.lookup_cons, hne]
      simp

end DecodeHistory

end MosaicArchive.Core
