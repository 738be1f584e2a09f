import MosaicArchive.Core.Options
import MosaicArchive.Crypto.Sha256

/-!
The two sides of deduplication. The encoder keeps the chunks of the last 8 MiB
in a queue with the newest entry of each digest; the decoder keeps the chunks
it produced, by offset. Both are windows on the same stream of chunks.
-/

namespace MosaicArchive.Core

open FixedWidth Sha256

/-! ### The encoder's window -/

structure DedupEntry where
  digest : Bytes
  offset : ℕ
  data : Bytes
  deriving DecidableEq

structure DedupWindow where
  latest : Bytes → Option DedupEntry
  ordered : List DedupEntry

def DedupWindow.new : DedupWindow := { latest := fun _ => none, ordered := [] }

inductive PreparedRecord where
  | data (data : Bytes)
  | reference (rawLen distance : ℕ)

namespace DedupWindow

/-- `latest.remove` for an expired entry, unless a newer one took its place. -/
def forget (latest : Bytes → Option DedupEntry) (expired : DedupEntry) :
    Bytes → Option DedupEntry :=
  match latest expired.digest with
  | some entry =>
      if entry.offset = expired.offset then Function.update latest expired.digest none else latest
  | none => latest

/-- The loop of `prepare` that drops what lies before the window. -/
def expire (offset : ℕ) : (Bytes → Option DedupEntry) → List DedupEntry → DedupWindow
  | latest, [] => { latest := latest, ordered := [] }
  | latest, entry :: rest =>
      if offset - entry.offset > dedupWindowSize then expire offset (forget latest entry) rest
      else { latest := latest, ordered := entry :: rest }

def prepare (w : DedupWindow) (chunk : Bytes) (offset : ℕ) : DedupWindow × PreparedRecord :=
  let w := expire offset w.latest w.ordered
  let digest := sha256 chunk
  let duplicate : Option ℕ :=
    match w.latest digest with
    | some entry => if entry.data = chunk then some (offset - entry.offset) else none
    | none => none
  let entry : DedupEntry := { digest := digest, offset := offset, data := chunk }
  ({ latest := Function.update w.latest digest (some entry), ordered := w.ordered ++ [entry] },
    match duplicate with
    | none => .data chunk
    | some distance => .reference (chunk.length % 2 ^ 32) distance)

end DedupWindow

/-! ### The decoder's history -/

structure DecodeHistory where
  ordered : List ℕ
  byOffset : ℕ → Option Bytes

def DecodeHistory.new : DecodeHistory := { ordered := [], byOffset := fun _ => none }

namespace DecodeHistory

/-- The loop of `insert` that drops what lies before the window. -/
def expire (offset : ℕ) : List ℕ → (ℕ → Option Bytes) → DecodeHistory
  | [], byOffset => { ordered := [], byOffset := byOffset }
  | old :: rest, byOffset =>
      if offset - old > dedupWindowSize then expire offset rest (Function.update byOffset old none)
      else { ordered := old :: rest, byOffset := byOffset }

def insert (h : DecodeHistory) (offset : ℕ) (data : Bytes) : Except Error DecodeHistory :=
  let h := expire offset h.ordered h.byOffset
  if h.ordered.length ≥ maxRecordsInDedupWindow ∨ (h.byOffset offset).isSome then
    .error (.invalidFormat "dedup history contains too many or duplicate records")
  else
    .ok { ordered := h.ordered ++ [offset], byOffset := Function.update h.byOffset offset (some data) }

def resolve (h : DecodeHistory) (sourceOffset rawLen : ℕ) : Except Error Bytes :=
  match (h.byOffset sourceOffset).filter (fun data => data.length = rawLen) with
  | some data => .ok data
  | none => .error (.invalidFormat "dedup reference is outside the bounded history")

theorem resolve_length {h : DecodeHistory} {sourceOffset rawLen : ℕ} {data : Bytes}
    (hr : h.resolve sourceOffset rawLen = .ok data) : data.length = rawLen := by
  unfold resolve at hr
  split at hr
  · rename_i found hfound
    cases hr
    simpa using (Option.filter_eq_some_iff.mp hfound).2
  · cases hr

end DecodeHistory

/-! ### Chunks with their offsets -/

/-- The chunks of a stream, each with the offset it starts at. -/
def placed : ℕ → List Bytes → List (ℕ × Bytes)
  | _, [] => []
  | offset, chunk :: rest => (offset, chunk) :: placed (offset + chunk.length) rest

/-- The number of bytes of some chunks. -/
def total (chunks : List Bytes) : ℕ := chunks.flatten.length

@[simp] theorem total_nil : total [] = 0 := rfl

@[simp] theorem total_cons (chunk : Bytes) (rest : List Bytes) :
    total (chunk :: rest) = chunk.length + total rest := by
  simp [total]

@[simp] theorem total_append (before after : List Bytes) :
    total (before ++ after) = total before + total after := by
  simp [total]

theorem total_eq_sum (chunks : List Bytes) : total chunks = (chunks.map List.length).sum := by
  simp [total, List.length_flatten]

@[simp] theorem placed_length (offset : ℕ) (chunks : List Bytes) :
    (placed offset chunks).length = chunks.length := by
  induction chunks generalizing offset with
  | nil => rfl
  | cons chunk rest ih => simp [placed, ih]

theorem placed_append (offset : ℕ) (before after : List Bytes) :
    placed offset (before ++ after) =
      placed offset before ++ placed (offset + total before) after := by
  induction before generalizing offset with
  | nil => simp [placed]
  | cons chunk rest ih => simp [placed, ih, Nat.add_assoc]

theorem mem_placed_iff {offset o : ℕ} {chunks : List Bytes} {chunk : Bytes} :
    (o, chunk) ∈ placed offset chunks ↔
      ∃ before after, chunks = before ++ chunk :: after ∧ o = offset + total before := by
  induction chunks generalizing offset with
  | nil => simp [placed]
  | cons c rest ih =>
      rw [placed, List.mem_cons, ih]
      constructor
      · rintro (h | ⟨before, after, rfl, rfl⟩)
        · obtain ⟨rfl, rfl⟩ := Prod.mk.inj h
          exact ⟨[], rest, rfl, by simp⟩
        · exact ⟨c :: before, after, rfl, by simp [Nat.add_assoc]⟩
      · rintro ⟨before, after, hchunks, rfl⟩
        cases before with
        | nil =>
            obtain ⟨rfl, rfl⟩ := List.cons.inj hchunks
            exact Or.inl (by simp)
        | cons b before =>
            obtain ⟨rfl, rfl⟩ := List.cons.inj hchunks
            exact Or.inr ⟨before, after, rfl, by simp [Nat.add_assoc]⟩

/-- The offsets of non-empty chunks grow strictly. -/
theorem placed_pairwise {offset : ℕ} {chunks : List Bytes} (h : ∀ c ∈ chunks, c ≠ []) :
    (placed offset chunks).Pairwise fun a b => a.1 < b.1 := by
  induction chunks generalizing offset with
  | nil => exact List.Pairwise.nil
  | cons chunk rest ih =>
      refine List.Pairwise.cons ?_ (ih fun c hc => h c (List.mem_cons_of_mem _ hc))
      rintro ⟨o, c⟩ hmem
      obtain ⟨before, after, -, rfl⟩ := mem_placed_iff.mp hmem
      have : 0 < chunk.length := List.length_pos_iff.mpr (h chunk (by simp))
      dsimp only
      omega

/-- Chunks that are long are few. -/
theorem length_mul_le_total {m : ℕ} {chunks : List Bytes} (h : ∀ c ∈ chunks, m ≤ c.length) :
    chunks.length * m ≤ total chunks := by
  induction chunks with
  | nil => simp
  | cons chunk rest ih =>
      have hhead := h chunk (by simp)
      have htail := ih fun c hc => h c (List.mem_cons_of_mem _ hc)
      simp only [List.length_cons, total_cons, Nat.succ_mul]
      omega

end MosaicArchive.Core
