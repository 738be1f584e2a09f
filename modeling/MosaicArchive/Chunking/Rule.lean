import Mathlib.Tactic

/-!
Splitting a stream by a rule that reads one item at a time. The rule keeps a
state that is reset at every boundary, so what follows a boundary is split as
if it stood alone. Nothing here depends on what the rule looks at.
-/

/-- A boundary rule: after each item it says whether the chunk ends there. -/
structure ChunkRule (σ α : Type) where
  start : σ
  step : σ → α → σ × Bool

namespace ChunkRule

variable {σ τ α : Type}

/-- Run the rule over some input. The result is the list of completed chunks,
the state of the rule and the items of the open chunk. -/
def feed (r : ChunkRule σ α) : σ → List α → List α → List (List α) × σ × List α
  | s, acc, [] => ([], s, acc)
  | s, acc, a :: as =>
      if (r.step s a).2 then
        ((acc ++ [a]) :: (r.feed r.start [] as).1, (r.feed r.start [] as).2)
      else
        r.feed (r.step s a).1 (acc ++ [a]) as

/-- The open chunk is emitted at the end of the input unless it is empty. -/
def flush (acc : List α) : List (List α) := if acc.isEmpty then [] else [acc]

/-- All chunks of the input, from a given state and open chunk. -/
def chunksFrom (r : ChunkRule σ α) (s : σ) (acc input : List α) : List (List α) :=
  (r.feed s acc input).1 ++ flush (r.feed s acc input).2.2

/-- All chunks of a stream. -/
def chunks (r : ChunkRule σ α) (input : List α) : List (List α) :=
  r.chunksFrom r.start [] input

@[simp] theorem feed_nil (r : ChunkRule σ α) (s : σ) (acc : List α) :
    r.feed s acc [] = ([], s, acc) := rfl

theorem feed_cons_cut (r : ChunkRule σ α) {s : σ} {a : α} (h : (r.step s a).2 = true)
    (acc as : List α) :
    r.feed s acc (a :: as) =
      ((acc ++ [a]) :: (r.feed r.start [] as).1, (r.feed r.start [] as).2) := by
  rw [feed, if_pos h]

theorem feed_cons_keep (r : ChunkRule σ α) {s : σ} {a : α} (h : (r.step s a).2 = false)
    (acc as : List α) :
    r.feed s acc (a :: as) = r.feed (r.step s a).1 (acc ++ [a]) as := by
  rw [feed, if_neg (by simp [h])]

/-- Feeding two blocks is feeding their concatenation: the rule cannot see
where a read ended. -/
theorem feed_append (r : ChunkRule σ α) (s : σ) (acc x y : List α) :
    r.feed s acc (x ++ y) =
      ((r.feed s acc x).1 ++ (r.feed (r.feed s acc x).2.1 (r.feed s acc x).2.2 y).1,
        (r.feed (r.feed s acc x).2.1 (r.feed s acc x).2.2 y).2) := by
  induction x generalizing s acc with
  | nil => simp
  | cons a x ih =>
      cases hcut : (r.step s a).2 with
      | true =>
          rw [List.cons_append, feed_cons_cut r hcut, feed_cons_cut r hcut, ih]
          simp
      | false => rw [List.cons_append, feed_cons_keep r hcut, feed_cons_keep r hcut, ih]

theorem chunksFrom_nil (r : ChunkRule σ α) (s : σ) (acc : List α) :
    r.chunksFrom s acc [] = flush acc := by
  simp [chunksFrom]

theorem chunksFrom_cons_cut (r : ChunkRule σ α) {s : σ} {a : α} (h : (r.step s a).2 = true)
    (acc as : List α) :
    r.chunksFrom s acc (a :: as) = (acc ++ [a]) :: r.chunks as := by
  simp [chunksFrom, chunks, feed_cons_cut r h]

theorem chunksFrom_cons_keep (r : ChunkRule σ α) {s : σ} {a : α} (h : (r.step s a).2 = false)
    (acc as : List α) :
    r.chunksFrom s acc (a :: as) = r.chunksFrom (r.step s a).1 (acc ++ [a]) as := by
  simp [chunksFrom, feed_cons_keep r h]

/-- Chunks completed so far followed by the chunks of the rest. -/
theorem chunksFrom_append (r : ChunkRule σ α) (s : σ) (acc x y : List α) :
    r.chunksFrom s acc (x ++ y) =
      (r.feed s acc x).1 ++ r.chunksFrom (r.feed s acc x).2.1 (r.feed s acc x).2.2 y := by
  simp [chunksFrom, feed_append, List.append_assoc]

@[simp] theorem flush_flatten (acc : List α) : (flush acc).flatten = acc := by
  cases acc <;> simp [flush]

@[simp] theorem chunks_nil (r : ChunkRule σ α) : r.chunks [] = [] := by
  simp [chunks, chunksFrom_nil, flush]

theorem chunksFrom_flatten (r : ChunkRule σ α) (s : σ) (acc input : List α) :
    (r.chunksFrom s acc input).flatten = acc ++ input := by
  induction input generalizing s acc with
  | nil => simp [chunksFrom_nil]
  | cons a as ih =>
      cases hcut : (r.step s a).2 with
      | true =>
          have hrest : (r.chunks as).flatten = as := ih r.start []
          rw [chunksFrom_cons_cut r hcut, List.flatten_cons, hrest]
          simp
      | false =>
          rw [chunksFrom_cons_keep r hcut, ih]
          simp

/-- The chunks concatenate to the stream. -/
@[simp] theorem chunks_flatten (r : ChunkRule σ α) (input : List α) :
    (r.chunks input).flatten = input :=
  r.chunksFrom_flatten r.start [] input

theorem ne_nil_of_mem_chunksFrom (r : ChunkRule σ α) {s : σ} {acc input c : List α}
    (h : c ∈ r.chunksFrom s acc input) : c ≠ [] := by
  induction input generalizing s acc with
  | nil =>
      cases acc with
      | nil => simp [chunksFrom_nil, flush] at h
      | cons b bs =>
          have hc : c = b :: bs := by simpa [chunksFrom_nil, flush] using h
          simp [hc]
  | cons a as ih =>
      cases hcut : (r.step s a).2 with
      | true =>
          rw [chunksFrom_cons_cut r hcut] at h
          rcases List.mem_cons.mp h with rfl | h
          · simp
          · exact ih h
      | false =>
          rw [chunksFrom_cons_keep r hcut] at h
          exact ih h

/-- No chunk is empty. -/
theorem ne_nil_of_mem_chunks (r : ChunkRule σ α) {input c : List α}
    (h : c ∈ r.chunks input) : c ≠ [] :=
  r.ne_nil_of_mem_chunksFrom h

theorem chunks_flatten_of_chunksFrom (r : ChunkRule σ α) {s : σ} {acc input c : List α}
    {cs : List (List α)} (h : r.chunksFrom s acc input = c :: cs) :
    r.chunks cs.flatten = cs := by
  induction input generalizing s acc with
  | nil =>
      rw [chunksFrom_nil] at h
      cases acc with
      | nil => simp [flush] at h
      | cons b bs =>
          have hcs : cs = [] := by simpa [flush, eq_comm] using (List.cons.inj h).2
          simp [hcs]
  | cons a as ih =>
      cases hcut : (r.step s a).2 with
      | true =>
          rw [chunksFrom_cons_cut r hcut] at h
          obtain ⟨-, rfl⟩ := List.cons.inj h
          rw [chunks_flatten]
      | false =>
          rw [chunksFrom_cons_keep r hcut] at h
          exact ih h

/-- What follows a boundary is split as if it were a stream of its own. -/
theorem chunks_suffix (r : ChunkRule σ α) {input : List α} {before after : List (List α)}
    (h : r.chunks input = before ++ after) : r.chunks after.flatten = after := by
  induction before generalizing input with
  | nil => rw [← List.nil_append after, ← h, chunks_flatten]
  | cons c before ih =>
      exact ih (r.chunks_flatten_of_chunksFrom h)

/-- Bounds on the chunks from an invariant between the state and the length of
the open chunk: `opened` holds while a chunk is open, `closed` where one ends. -/
theorem chunksFrom_bounds (r : ChunkRule σ α) (opened : σ → ℕ → Prop) (closed : ℕ → Prop)
    (hstart : opened r.start 0)
    (hcut : ∀ s n a, opened s n → (r.step s a).2 = true → closed (n + 1))
    (hkeep : ∀ s n a, opened s n → (r.step s a).2 = false → opened (r.step s a).1 (n + 1))
    {s : σ} {acc : List α} (hs : opened s acc.length) (input : List α) :
    (∀ c ∈ (r.chunksFrom s acc input).dropLast, closed c.length) ∧
      ∀ c ∈ r.chunksFrom s acc input, closed c.length ∨ ∃ t, opened t c.length := by
  induction input generalizing s acc with
  | nil =>
      rw [chunksFrom_nil]
      cases acc with
      | nil => simp [flush]
      | cons b bs =>
          refine ⟨by simp [flush], ?_⟩
          intro c hc
          have hc : c = b :: bs := by simpa [flush] using hc
          exact Or.inr ⟨s, by simpa [hc] using hs⟩
  | cons a as ih =>
      cases hstep : (r.step s a).2 with
      | true =>
          have hclosed : closed (acc ++ [a]).length := by
            simpa using hcut s acc.length a hs hstep
          obtain ⟨hlast, hall⟩ := @ih r.start [] (by simpa using hstart)
          rw [chunksFrom_cons_cut r hstep]
          constructor
          · intro c hc
            cases hrest : r.chunks as with
            | nil => simp [hrest] at hc
            | cons d ds =>
                have hmem : c = acc ++ [a] ∨ c ∈ (r.chunks as).dropLast := by
                  simpa [hrest] using hc
                rcases hmem with rfl | hmem
                · exact hclosed
                · exact hlast c hmem
          · intro c hc
            rcases List.mem_cons.mp hc with rfl | hc
            · exact Or.inl hclosed
            · exact hall c hc
      | false =>
          rw [chunksFrom_cons_keep r hstep]
          exact ih (by simpa using hkeep s acc.length a hs hstep)

theorem chunks_bounds (r : ChunkRule σ α) (opened : σ → ℕ → Prop) (closed : ℕ → Prop)
    (hstart : opened r.start 0)
    (hcut : ∀ s n a, opened s n → (r.step s a).2 = true → closed (n + 1))
    (hkeep : ∀ s n a, opened s n → (r.step s a).2 = false → opened (r.step s a).1 (n + 1))
    (input : List α) :
    (∀ c ∈ (r.chunks input).dropLast, closed c.length) ∧
      ∀ c ∈ r.chunks input, closed c.length ∨ ∃ t, opened t c.length :=
  @chunksFrom_bounds σ α r opened closed hstart hcut hkeep r.start [] hstart input

/-- Two rules that agree on every cut, through a relation between their
states, split every stream alike. -/
theorem chunksFrom_congr (r : ChunkRule σ α) (q : ChunkRule τ α) (rel : σ → τ → Prop)
    (hstart : rel r.start q.start)
    (hcut : ∀ s t a, rel s t → (r.step s a).2 = (q.step t a).2)
    (hkeep : ∀ s t a, rel s t → (r.step s a).2 = false → rel (r.step s a).1 (q.step t a).1)
    {s : σ} {t : τ} (hst : rel s t) (acc input : List α) :
    r.chunksFrom s acc input = q.chunksFrom t acc input := by
  induction input generalizing s t acc with
  | nil => simp [chunksFrom_nil]
  | cons a as ih =>
      have hsame := hcut s t a hst
      cases hstep : (r.step s a).2 with
      | true =>
          rw [chunksFrom_cons_cut r hstep, chunksFrom_cons_cut q (hsame ▸ hstep), chunks,
            ih hstart [], chunks]
      | false =>
          rw [chunksFrom_cons_keep r hstep, chunksFrom_cons_keep q (hsame ▸ hstep)]
          exact ih (hkeep s t a hst hstep) _

/-- A run of items on which the rule never cuts only moves the state. -/
theorem feed_of_iterate (r : ChunkRule σ α) (states : ℕ → σ) (block : List α)
    (hkeep : ∀ i (hi : i < block.length),
      r.step (states i) (block.get ⟨i, hi⟩) = (states (i + 1), false)) (acc rest : List α) :
    r.feed (states 0) acc (block ++ rest) =
      r.feed (states block.length) (acc ++ block) rest := by
  induction block generalizing states acc with
  | nil => simp
  | cons a as ih =>
      have hfirst : r.step (states 0) a = (states 1, false) := by
        simpa using hkeep 0 (by simp)
      rw [List.cons_append, feed_cons_keep r (by rw [hfirst]), hfirst]
      rw [ih (fun i => states (i + 1)) (fun i hi => hkeep (i + 1) (by simpa using hi))]
      simp

end ChunkRule
