import MosaicArchive.Core.DedupWindow

/-!
The dedup window over a whole stream. A chunk is referred to exactly when an equal
one started within the window, and then by its distance to the latest of these; the
window holds the chunks that started within it and the newest entry of each digest.
The history of the decoder, fed with the same chunks, resolves every reference.
-/

namespace MosaicArchive.Core

open FixedWidth Sha256

/-! ### The latest copy -/

/-- The start of the latest chunk of the stream that is equal to `chunk`, within the window. -/
structure LatestCopy (stream : List Bytes) (chunk : Bytes) (source : ℕ) : Prop where
  starts : (source, chunk) ∈ placed 0 stream
  near : total stream - source ≤ dedupWindowSize
  latest : ∀ s, (s, chunk) ∈ placed 0 stream → s ≤ source

theorem LatestCopy.unique {stream : List Bytes} {chunk : Bytes} {source source' : ℕ}
    (h : LatestCopy stream chunk source) (h' : LatestCopy stream chunk source') : source = source' :=
  le_antisymm (h'.latest source h.starts) (h.latest source' h'.starts)

/-- The newest entry of a digest is the one with the greatest offset. -/
theorem newest_eq_some_iff {digest : Bytes} {entries : List DedupEntry} {entry : DedupEntry}
    (h : entries.Pairwise fun a b => a.offset < b.offset) :
    newest digest entries = some entry ↔ entry ∈ entries ∧ entry.digest = digest ∧
      ∀ e ∈ entries, e.digest = digest → e.offset ≤ entry.offset := by
  induction entries using List.reverseRecOn with
  | nil => simp [newest]
  | append_singleton entries last ih =>
      obtain ⟨hentries, -, hbefore⟩ := List.pairwise_append.mp h
      have hlast : ∀ e ∈ entries, e.offset < last.offset := fun e he => hbefore e he last (by simp)
      rw [newest_concat]
      by_cases hdigest : last.digest = digest
      · rw [if_pos hdigest, Option.some.injEq]
        constructor
        · rintro rfl
          refine ⟨by simp, hdigest, ?_⟩
          intro e he _
          rcases List.mem_append.mp he with he | he
          · exact (hlast e he).le
          · rw [List.mem_singleton.mp he]
        · rintro ⟨hmem, -, hgreatest⟩
          rcases List.mem_append.mp hmem with hmem | hmem
          · exact absurd (hlast entry hmem) (not_lt.mpr (hgreatest last (by simp) hdigest))
          · exact (List.mem_singleton.mp hmem).symm
      · rw [if_neg hdigest, ih hentries]
        constructor
        · rintro ⟨hmem, hentry, hgreatest⟩
          refine ⟨List.mem_append_left _ hmem, hentry, ?_⟩
          intro e he hsame
          rcases List.mem_append.mp he with he | he
          · exact hgreatest e he hsame
          · rw [List.mem_singleton.mp he] at hsame
            exact absurd hsame hdigest
        · rintro ⟨hmem, hentry, hgreatest⟩
          refine ⟨?_, hentry, fun e he => hgreatest e (List.mem_append_left _ he)⟩
          rcases List.mem_append.mp hmem with hmem | hmem
          · exact hmem
          · rw [List.mem_singleton.mp hmem] at hentry
            exact absurd hentry hdigest

theorem map_entryOf_sorted {offset : ℕ} {chunks : List Bytes} (h : ∀ c ∈ chunks, c ≠ []) :
    ((placed offset chunks).map entryOf).Pairwise fun a b => a.offset < b.offset :=
  List.pairwise_map.mpr (placed_pairwise h)

/-- The kept chunks are those that started within the window. -/
theorem mem_kept_iff {old recent : List Bytes} (hkeeps : Keeps (total (old ++ recent)) old recent)
    (hnear : recent ≠ [] → total (old ++ recent) - total old ≤ dedupWindowSize) {p : ℕ × Bytes} :
    p ∈ placed (total old) recent ↔
      p ∈ placed 0 (old ++ recent) ∧ total (old ++ recent) - p.1 ≤ dedupWindowSize := by
  obtain ⟨source, chunk⟩ := p
  constructor
  · intro hmem
    refine ⟨?_, ?_⟩
    · rw [placed_append, Nat.zero_add]
      exact List.mem_append_right _ hmem
    · obtain ⟨before, after, hrecent, rfl⟩ := mem_placed_iff.mp hmem
      have hdistance := hnear (by rw [hrecent]; simp)
      dsimp only
      omega
  · rintro ⟨hmem, hdistance⟩
    exact hkeeps.mem_recent hmem hdistance

/-! ### The encoder -/

namespace DedupWindow

/-- A chunk is referred to when it has a copy within the window. -/
theorem Tracks.record {w : DedupWindow} {stream : List Bytes} (h : w.Tracks stream)
    (hne : ∀ c ∈ stream, c ≠ []) {chunk : Bytes}
    (hcollision : ∀ c ∈ stream, sha256 c = sha256 chunk → c = chunk) :
    (∃ source, LatestCopy stream chunk source ∧ (w.prepare chunk (total stream)).2 =
        .reference (chunk.length % 2 ^ 32) (total stream - source)) ∨
      (∀ source, (source, chunk) ∈ placed 0 stream → dedupWindowSize < total stream - source) ∧
        (w.prepare chunk (total stream)).2 = .data chunk := by
  obtain ⟨old, recent, rfl, hkeeps, hnear, hexpire⟩ := h.expire hne
  have hsorted : ((placed (total old) recent).map entryOf).Pairwise fun a b => a.offset < b.offset :=
    map_entryOf_sorted fun c hc => hne c (List.mem_append_right _ hc)
  simp only [prepare, hexpire]
  cases hnewest : newest (sha256 chunk) ((placed (total old) recent).map entryOf) with
  | none =>
      refine Or.inr ⟨?_, rfl⟩
      intro source hsource
      by_contra hclose
      have hkept := (mem_kept_iff hkeeps hnear).mpr ⟨hsource, not_lt.mp hclose⟩
      have hall := List.find?_eq_none.mp hnewest (entryOf (source, chunk))
        (List.mem_reverse.mpr (List.mem_map_of_mem hkept))
      exact hall (decide_eq_true rfl)
  | some entry =>
      obtain ⟨hmem, hdigest, hgreatest⟩ := (newest_eq_some_iff hsorted).mp hnewest
      obtain ⟨⟨source, c⟩, hkept, rfl⟩ := List.mem_map.mp hmem
      obtain ⟨hplaced, hdistance⟩ := (mem_kept_iff hkeeps hnear).mp hkept
      obtain ⟨before, after, hstream, -⟩ := mem_placed_iff.mp hplaced
      obtain rfl : c = chunk := hcollision c (by rw [hstream]; simp) hdigest
      refine Or.inl ⟨source, ⟨hplaced, hdistance, ?_⟩, ?_⟩
      · -- A later copy would be within the window too.
        intro s hs
        by_contra hlater
        have hkept' := (mem_kept_iff hkeeps hnear).mpr ⟨hs, show _ - s ≤ _ by
          dsimp only at hdistance
          omega⟩
        exact hlater (hgreatest (entryOf (s, c)) (List.mem_map_of_mem hkept') rfl)
      · simp [entryOf]

/-- The window after the chunks, which are prepared at the offsets they start at. -/
def feed (w : DedupWindow) (offset : ℕ) : List Bytes → DedupWindow
  | [] => w
  | chunk :: rest => feed (w.prepare chunk offset).1 (offset + chunk.length) rest

theorem Tracks.feed {w : DedupWindow} {stream chunks : List Bytes} (h : w.Tracks stream)
    (hne : ∀ c ∈ stream ++ chunks, c ≠ []) :
    (w.feed (total stream) chunks).Tracks (stream ++ chunks) := by
  induction chunks generalizing w stream with
  | nil => rwa [List.append_nil]
  | cons chunk rest ih =>
      have hstream : ∀ c ∈ stream, c ≠ [] := fun c hc => hne c (List.mem_append_left _ hc)
      have hnext := (prepare_spec h hstream chunk).1
      rw [List.append_cons] at hne ⊢
      have hfed := ih hnext hne
      rwa [total_append, total_cons, total_nil, Nat.add_zero] at hfed

/-- The window after a stream from its start. -/
def fed (chunks : List Bytes) : DedupWindow := new.feed 0 chunks

theorem fed_tracks {chunks : List Bytes} (hne : ∀ c ∈ chunks, c ≠ []) : (fed chunks).Tracks chunks :=
  tracks_new.feed hne

/-- What `prepare` makes of the chunk that follows `before`. -/
def recordAfter (before : List Bytes) (chunk : Bytes) : PreparedRecord :=
  ((fed before).prepare chunk (total before)).2

theorem feed_append (w : DedupWindow) (offset : ℕ) (chunks more : List Bytes) :
    w.feed offset (chunks ++ more) = (w.feed offset chunks).feed (offset + total chunks) more := by
  induction chunks generalizing w offset with
  | nil => simp [DedupWindow.feed]
  | cons chunk rest ih => simp [DedupWindow.feed, ih, Nat.add_assoc]

theorem fed_concat (before : List Bytes) (chunk : Bytes) :
    fed (before ++ [chunk]) = ((fed before).prepare chunk (total before)).1 := by
  rw [fed, feed_append, Nat.zero_add]
  rfl

/-- The latest map holds exactly the newest entry of each digest in the queue. -/
theorem Tracks.latest_eq_some_iff {w : DedupWindow} {stream : List Bytes} (h : w.Tracks stream)
    (hne : ∀ c ∈ stream, c ≠ []) {digest : Bytes} {entry : DedupEntry} :
    w.latest digest = some entry ↔ entry ∈ w.ordered ∧ entry.digest = digest ∧
      ∀ e ∈ w.ordered, e.digest = digest → e.offset ≤ entry.offset := by
  obtain ⟨old, recent, rfl, -, hordered, hlatest⟩ := h
  rw [hlatest, hordered]
  exact newest_eq_some_iff (map_entryOf_sorted fun c hc => hne c (List.mem_append_right _ hc))

/-- After a chunk the queue holds what started within the window of its offset. -/
theorem mem_ordered_iff {before : List Bytes} {chunk : Bytes} (hne : ∀ c ∈ before, c ≠ [])
    {e : DedupEntry} :
    e ∈ (fed (before ++ [chunk])).ordered ↔
      ∃ p ∈ placed 0 (before ++ [chunk]), total before - p.1 ≤ dedupWindowSize ∧ e = entryOf p := by
  obtain ⟨old, recent, rfl, hkeeps, hnear, hexpire⟩ := (fed_tracks hne).expire hne
  have hplaced : placed 0 (old ++ recent ++ [chunk]) =
      placed 0 (old ++ recent) ++ [(total (old ++ recent), chunk)] := by
    rw [placed_append, Nat.zero_add]
    rfl
  rw [fed_concat, hplaced]
  simp only [prepare, hexpire]
  constructor
  · intro hmem
    rcases List.mem_append.mp hmem with hmem | hmem
    · obtain ⟨p, hp, rfl⟩ := List.mem_map.mp hmem
      obtain ⟨hstarted, hdistance⟩ := (mem_kept_iff hkeeps hnear).mp hp
      exact ⟨p, List.mem_append_left _ hstarted, hdistance, rfl⟩
    · exact ⟨(total (old ++ recent), chunk), by simp, by simp, List.mem_singleton.mp hmem⟩
  · rintro ⟨p, hp, hdistance, rfl⟩
    rcases List.mem_append.mp hp with hp | hp
    · exact List.mem_append_left _ (List.mem_map_of_mem ((mem_kept_iff hkeeps hnear).mpr ⟨hp, hdistance⟩))
    · rw [List.mem_singleton.mp hp]
      exact List.mem_append_right _ (by simp [entryOf])

end DedupWindow

/-! ### The decoder -/

namespace DecodeHistory

/-- The history after the chunks, which are inserted at the offsets they start at. -/
def feed (h : DecodeHistory) (offset : ℕ) : List Bytes → Except Error DecodeHistory
  | [] => .ok h
  | chunk :: rest => do
      let h ← h.insert offset chunk
      feed h (offset + chunk.length) rest

/-- While all chunks but the last have the minimum size no insertion fails. -/
theorem Holds.feed {h : DecodeHistory} {stream chunks : List Bytes} (hholds : h.Holds stream)
    (hlong : ∀ c ∈ stream ++ chunks.dropLast, Gear.minChunkSize ≤ c.length) :
    ∃ h', h.feed (total stream) chunks = .ok h' ∧ h'.Holds (stream ++ chunks) := by
  induction chunks generalizing h stream with
  | nil => exact ⟨h, rfl, by rwa [List.append_nil]⟩
  | cons chunk rest ih =>
      obtain ⟨next, hinsert, hnext⟩ :=
        insert_spec hholds (fun c hc => hlong c (List.mem_append_left _ hc)) chunk
      have hoffset : total (stream ++ [chunk]) = total stream + chunk.length := by simp
      rw [List.append_cons, DecodeHistory.feed, hinsert]
      cases rest with
      | nil => exact ⟨next, rfl, by rwa [List.append_nil]⟩
      | cons second rest =>
          rw [List.dropLast_cons_cons, List.append_cons] at hlong
          obtain ⟨h', hfeed, hholds'⟩ := ih hnext hlong
          rw [hoffset] at hfeed
          exact ⟨h', hfeed, hholds'⟩

/-- The history after a stream from its start. -/
def fed (chunks : List Bytes) : Except Error DecodeHistory := new.feed 0 chunks

theorem fed_holds {chunks : List Bytes}
    (hlong : ∀ c ∈ chunks.dropLast, Gear.minChunkSize ≤ c.length) :
    ∃ h, fed chunks = .ok h ∧ h.Holds chunks :=
  holds_new.feed (by rwa [List.nil_append])

end DecodeHistory

theorem ne_nil_of_long {chunk : Bytes} (h : Gear.minChunkSize ≤ chunk.length) : chunk ≠ [] := by
  rintro rfl
  revert h
  decide

/-- What the decoder asks for is there, and is the chunk that was referred to. -/
theorem resolve_recordAfter {before : List Bytes} {chunk : Bytes}
    (hlong : ∀ c ∈ before, Gear.minChunkSize ≤ c.length) {rawLen distance : ℕ}
    (hrecord : DedupWindow.recordAfter before chunk = .reference rawLen distance) :
    ∃ h, DecodeHistory.fed before = .ok h ∧ h.resolve (total before - distance) rawLen = .ok chunk := by
  have hne : ∀ c ∈ before, c ≠ [] := fun c hc => ne_nil_of_long (hlong c hc)
  obtain ⟨h, hfed, hholds⟩ := DecodeHistory.fed_holds fun c hc => hlong c (List.mem_of_mem_dropLast hc)
  have hspec := (DedupWindow.prepare_spec (DedupWindow.fed_tracks hne) hne chunk).2
  rw [DedupWindow.recordAfter] at hrecord
  rw [hrecord] at hspec
  cases hspec with
  | reference front after hstream hnear =>
      subst hstream
      have hsmall : chunk.length % 2 ^ 32 = chunk.length := by
        rw [total_cons, dedupWindowSize] at hnear
        exact Nat.mod_eq_of_lt (by omega)
      refine ⟨h, hfed, ?_⟩
      rw [hsmall]
      exact DecodeHistory.resolve_spec hholds hne hnear

/-- The window refers to the latest copy within 8 MiB and to nothing else, its map holds exactly the
newest entries of what it keeps, and the history of the decoder resolves every reference. -/
theorem dedup_window_complete (chunks : List Bytes) (hne : ∀ c ∈ chunks, c ≠ []) :
    ((∀ c ∈ chunks, ∀ d ∈ chunks, sha256 c = sha256 d → c = d) →
        ∀ before chunk after, chunks = before ++ chunk :: after →
          ((∃ rawLen distance, DedupWindow.recordAfter before chunk = .reference rawLen distance) ↔
              ∃ source, (source, chunk) ∈ placed 0 before ∧
                total before - 8 * 1024 * 1024 ≤ source ∧ source < total before) ∧
            ∀ rawLen distance, DedupWindow.recordAfter before chunk = .reference rawLen distance →
              ∃ source, LatestCopy before chunk source ∧ distance = total before - source) ∧
      (∀ before chunk after, chunks = before ++ chunk :: after →
        (∀ e, e ∈ (DedupWindow.fed (before ++ [chunk])).ordered ↔
          ∃ p ∈ placed 0 (before ++ [chunk]), total before - p.1 ≤ dedupWindowSize ∧ e = entryOf p) ∧
        ∀ digest entry, (DedupWindow.fed (before ++ [chunk])).latest digest = some entry ↔
          entry ∈ (DedupWindow.fed (before ++ [chunk])).ordered ∧ entry.digest = digest ∧
            ∀ e ∈ (DedupWindow.fed (before ++ [chunk])).ordered, e.digest = digest →
              e.offset ≤ entry.offset) ∧
      ((∀ c ∈ chunks.dropLast, 16 * 1024 ≤ c.length) →
        (∃ h, DecodeHistory.fed chunks = .ok h) ∧
          ∀ before chunk after, chunks = before ++ chunk :: after →
            ∀ rawLen distance, DedupWindow.recordAfter before chunk = .reference rawLen distance →
              ∃ h, DecodeHistory.fed before = .ok h ∧
                h.resolve (total before - distance) rawLen = .ok chunk) := by
  refine ⟨?_, ?_, ?_⟩
  · rintro hcollision before chunk after rfl
    have hbefore : ∀ c ∈ before, c ≠ [] := fun c hc => hne c (List.mem_append_left _ hc)
    have hrecord := (DedupWindow.fed_tracks hbefore).record hbefore fun c hc =>
      hcollision c (List.mem_append_left _ hc) chunk (by simp)
    have hstart : ∀ source, (source, chunk) ∈ placed 0 before → source < total before := by
      intro source hsource
      obtain ⟨front, rest, rfl, rfl⟩ := mem_placed_iff.mp hsource
      have hpos := List.length_pos_iff.mpr (hne chunk (by simp))
      simp only [total_append, total_cons]
      omega
    rw [DedupWindow.recordAfter]
    rcases hrecord with ⟨source, hcopy, hreference⟩ | ⟨hfar, hdata⟩
    · have hnear := hcopy.near
      rw [dedupWindowSize] at hnear
      refine ⟨⟨fun _ => ⟨source, hcopy.starts, by omega, hstart source hcopy.starts⟩,
        fun _ => ⟨_, _, hreference⟩⟩, ?_⟩
      intro rawLen distance h
      rw [hreference] at h
      obtain ⟨-, rfl⟩ := PreparedRecord.reference.inj h
      exact ⟨source, hcopy, rfl⟩
    · refine ⟨⟨?_, ?_⟩, ?_⟩
      · rintro ⟨rawLen, distance, h⟩
        rw [hdata] at h
        cases h
      · rintro ⟨source, hsource, hnear, -⟩
        have hdistance := hfar source hsource
        rw [dedupWindowSize] at hdistance
        omega
      · intro rawLen distance h
        rw [hdata] at h
        cases h
  · rintro before chunk after rfl
    have hbefore : ∀ c ∈ before ++ [chunk], c ≠ [] := by
      intro c hc
      refine hne c ?_
      rw [List.append_cons]
      exact List.mem_append_left _ hc
    refine ⟨fun e => DedupWindow.mem_ordered_iff fun c hc => hbefore c (List.mem_append_left _ hc), ?_⟩
    intro digest entry
    exact (DedupWindow.fed_tracks hbefore).latest_eq_some_iff hbefore
  · intro hlong
    refine ⟨?_, ?_⟩
    · obtain ⟨h, hfed, -⟩ := DecodeHistory.fed_holds hlong
      exact ⟨h, hfed⟩
    · rintro before chunk after rfl rawLen distance hrecord
      refine resolve_recordAfter (fun c hc => hlong c ?_) hrecord
      rw [List.dropLast_append_cons]
      exact List.mem_append_left _ hc

theorem dedup_window_complete_at_repeat :
    ((∃ rawLen distance, DedupWindow.recordAfter [List.replicate 16384 0] (List.replicate 16384 0) =
          .reference rawLen distance) ↔
        ∃ source, (source, List.replicate 16384 0) ∈ placed 0 [List.replicate 16384 0] ∧
          total [List.replicate 16384 0] - 8 * 1024 * 1024 ≤ source ∧
          source < total [List.replicate 16384 0]) ∧
      ∃ h, DecodeHistory.fed [List.replicate 16384 0, List.replicate 16384 0] = .ok h := by
  have hlength : (List.replicate 16384 (0 : UInt8)).length = 16384 := List.length_replicate
  generalize List.replicate 16384 (0 : UInt8) = chunk at hlength ⊢
  have hsame : ∀ c ∈ [chunk, chunk], c = chunk := by simp
  have hne : ∀ c ∈ [chunk, chunk], c ≠ [] := by
    intro c hc
    rw [hsame c hc]
    exact List.ne_nil_of_length_pos (by omega)
  have hcollision : ∀ c ∈ [chunk, chunk], ∀ d ∈ [chunk, chunk], sha256 c = sha256 d → c = d :=
    fun c hc d hd _ => (hsame c hc).trans (hsame d hd).symm
  have hlong : ∀ c ∈ [chunk, chunk].dropLast, 16 * 1024 ≤ c.length := by
    intro c hc
    rw [hsame c (List.mem_of_mem_dropLast hc), hlength]
  have h := dedup_window_complete [chunk, chunk] hne
  exact ⟨(h.1 hcollision [chunk] chunk [] rfl).1, (h.2.2 hlong).1⟩

end MosaicArchive.Core
