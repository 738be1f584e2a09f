import Mathlib.Tactic

/-!
A parallel map that collects results in the order of its items. The workers
may finish the items in any order; what they return does not depend on it.
-/

/-- A pool of workers. For a job of `n` items, `order n` is the order in which
the items are finished. -/
structure WorkerPool where
  threads : ℕ
  order : ℕ → List ℕ
  order_perm : ∀ n, (order n).Perm (List.range n)

/-- One worker that takes the items from the front. -/
def WorkerPool.sequential : WorkerPool where
  threads := 1
  order := List.range
  order_perm _ := List.Perm.refl _

namespace WorkerPool

variable {α β ε : Type}

/-- Finish the items in the given order, each into the slot of its index. The
first error stops the job. -/
def fillSlots (f : α → Except ε β) (items : List α) :
    List ℕ → List (Option β) → Except ε (List (Option β))
  | [], slots => .ok slots
  | i :: rest, slots =>
      match items[i]? with
      | none => fillSlots f items rest slots
      | some item =>
          match f item with
          | .error e => .error e
          | .ok result => fillSlots f items rest (slots.set i (some result))

/-- `par_iter().map(f).collect::<Result<Vec<_>, _>>()` on a pool. -/
def tryCollect (pool : WorkerPool) (f : α → Except ε β) (items : List α) : Except ε (List β) :=
  match fillSlots f items (pool.order items.length) (List.replicate items.length none) with
  | .error e => .error e
  | .ok slots => .ok slots.reduceOption

/-- A finished index holds its result, any other index what it held before. -/
theorem fillSlots_ok {f : α → Except ε β} {items : List α} {results : List β}
    (h : List.Forall₂ (fun item result => f item = .ok result) items results)
    (order : List ℕ) (slots : List (Option β)) (hslots : slots.length = items.length) :
    ∃ slots', fillSlots f items order slots = .ok slots' ∧ slots'.length = items.length ∧
      ∀ j, slots'[j]? = if j ∈ order then (results[j]?).map some else slots[j]? := by
  have hlength := h.length_eq
  induction order generalizing slots with
  | nil => exact ⟨slots, rfl, hslots, by simp⟩
  | cons i rest ih =>
      rcases Nat.lt_or_ge i items.length with hi | hi
      · have hi' : i < results.length := by omega
        have hitem : f items[i] = .ok results[i] := h.get hi hi'
        obtain ⟨slots', hfill, hlen, hget⟩ :=
          ih (slots.set i (some results[i])) (by simpa using hslots)
        refine ⟨slots', ?_, hlen, ?_⟩
        · simp only [fillSlots, List.getElem?_eq_getElem hi, hitem]
          exact hfill
        · intro j
          rw [hget j, List.getElem?_set]
          by_cases hj : j ∈ rest
          · simp [hj]
          · by_cases hij : i = j
            · subst hij
              simp [hj, hslots, hi, List.getElem?_eq_getElem hi']
            · simp [hj, hij, Ne.symm hij]
      · obtain ⟨slots', hfill, hlen, hget⟩ := ih slots hslots
        refine ⟨slots', ?_, hlen, ?_⟩
        · simp only [fillSlots, List.getElem?_eq_none hi]
          exact hfill
        · intro j
          rw [hget j]
          by_cases hij : j = i
          · subst hij
            have hresult : results[j]? = none := List.getElem?_eq_none (by omega)
            have hslot : slots[j]? = none := List.getElem?_eq_none (by omega)
            simp [hresult, hslot]
          · simp [hij]

/-- The results are those of the items one by one, whatever the pool. -/
theorem tryCollect_ok {f : α → Except ε β} {items : List α} {results : List β}
    (h : List.Forall₂ (fun item result => f item = .ok result) items results)
    (pool : WorkerPool) : pool.tryCollect f items = .ok results := by
  have hlength := h.length_eq
  obtain ⟨slots, hfill, hlen, hget⟩ :=
    fillSlots_ok h (pool.order items.length) (List.replicate items.length none) (by simp)
  have hslots : slots = results.map some := by
    refine List.ext_getElem? fun j => ?_
    have hmem : j ∈ pool.order items.length ↔ j < items.length := by
      rw [(pool.order_perm items.length).mem_iff, List.mem_range]
    rw [hget j, List.getElem?_map]
    by_cases hj : j < items.length
    · rw [if_pos (hmem.mpr hj)]
    · have hresult : results[j]? = none := List.getElem?_eq_none (by omega)
      have hslot : (List.replicate items.length (none : Option β))[j]? = none :=
        List.getElem?_eq_none (by simpa using hj)
      rw [if_neg (fun hmem' => hj (hmem.mp hmem')), hresult, hslot, Option.map_none]
  rw [tryCollect, hfill, hslots]
  change Except.ok ((results.map some).filterMap id) = .ok results
  rw [List.filterMap_map]
  exact congrArg Except.ok List.filterMap_some

end WorkerPool
