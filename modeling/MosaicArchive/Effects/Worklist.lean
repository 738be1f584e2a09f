import Mathlib.Data.List.Nodup
import Mathlib.Tactic.Common

/-!
Traversal of a tree with a stack. A node is seen when its parent is taken from the
stack, and goes on the stack itself if it may have children. In a tree no node is
met twice, so a traversal that empties the stack has seen every node once.
-/

namespace Worklist

variable {α : Type} (children : α → List α) (root : α)

inductive Reachable : α → Prop where
  | root : Reachable root
  | child {n c : α} (h : Reachable n) (hc : c ∈ children n) : Reachable c

/-- Every node but the root is the child of one node, once. -/
structure IsTree : Prop where
  nodup : ∀ n, (children n).Nodup
  parent : ∀ m n c, c ∈ children m → c ∈ children n → m = n
  root : ∀ n, root ∉ children n

/-- Between two steps: what is seen, and what of it waits on the stack. -/
structure Traversed (pending seen : List α) : Prop where
  root_seen : root ∈ seen
  reachable : ∀ n ∈ seen, Reachable children root n
  pending_seen : ∀ n ∈ pending, n ∈ seen
  /-- What is no longer on the stack has its children seen. -/
  closed : ∀ n ∈ seen, n ∈ pending ∨ ∀ c ∈ children n, c ∈ seen
  /-- Nothing is seen before its parent was taken from the stack. -/
  parent_done : ∀ n, ∀ c ∈ children n, c ∈ seen → n ∈ seen ∧ n ∉ pending
  seen_nodup : seen.Nodup
  pending_nodup : pending.Nodup

variable {children root} {pending seen : List α} {n : α}

theorem traversed_start (h : IsTree children root) : Traversed children root [root] [root] where
  root_seen := by simp
  reachable m hm := by
    rw [List.mem_singleton.mp hm]
    exact .root
  pending_seen _ hm := hm
  closed _ hm := Or.inl hm
  parent_done m c hc hseen := by
    rw [List.mem_singleton.mp hseen] at hc
    exact absurd hc (h.root m)
  seen_nodup := List.nodup_singleton root
  pending_nodup := List.nodup_singleton root

/-- The children of what waits were not seen. -/
theorem Traversed.fresh (ht : Traversed children root (n :: pending) seen) :
    ∀ c ∈ children n, c ∉ seen :=
  fun c hc hseen => (ht.parent_done n c hc hseen).2 List.mem_cons_self

/-- One node is taken from the stack; those of its children that have no children may be left off. -/
theorem Traversed.step (h : IsTree children root) (ht : Traversed children root (n :: pending) seen)
    {pushed : List α} (hpushed : ∀ c, c ∈ pushed → c ∈ children n)
    (hskipped : ∀ c ∈ children n, c ∉ pushed → children c = []) (hnodup : pushed.Nodup) :
    Traversed children root (pushed ++ pending) (seen ++ children n) := by
  have hn : n ∈ seen := ht.pending_seen n List.mem_cons_self
  have hfresh := ht.fresh
  have hnotin : n ∉ pending := (List.nodup_cons.mp ht.pending_nodup).1
  have hnself : n ∉ children n := fun hself => hfresh n hself hn
  refine ⟨List.mem_append_left _ ht.root_seen, ?_, ?_, ?_, ?_, ?_, ?_⟩
  · intro m hm
    rcases List.mem_append.mp hm with hm | hm
    · exact ht.reachable m hm
    · exact (ht.reachable n hn).child hm
  · intro m hm
    rcases List.mem_append.mp hm with hm | hm
    · exact List.mem_append_right _ (hpushed m hm)
    · exact List.mem_append_left _ (ht.pending_seen m (List.mem_cons_of_mem n hm))
  · intro m hm
    rcases List.mem_append.mp hm with hm | hm
    · rcases ht.closed m hm with hpending | hall
      · rcases List.mem_cons.mp hpending with rfl | hpending
        · exact Or.inr fun c hc => List.mem_append_right _ hc
        · exact Or.inl (List.mem_append_right _ hpending)
      · exact Or.inr fun c hc => List.mem_append_left _ (hall c hc)
    · by_cases hmem : m ∈ pushed
      · exact Or.inl (List.mem_append_left _ hmem)
      · right
        rw [hskipped m hm hmem]
        exact fun c hc => nomatch hc
  · intro m c hc hseen
    rcases List.mem_append.mp hseen with hseen | hseen
    · obtain ⟨hm, hdone⟩ := ht.parent_done m c hc hseen
      refine ⟨List.mem_append_left _ hm, ?_⟩
      intro hpending
      rcases List.mem_append.mp hpending with hpending | hpending
      · exact hfresh m (hpushed m hpending) hm
      · exact hdone (List.mem_cons_of_mem n hpending)
    · obtain rfl := h.parent m n c hc hseen
      refine ⟨List.mem_append_left _ hn, ?_⟩
      intro hpending
      rcases List.mem_append.mp hpending with hpending | hpending
      · exact hnself (hpushed m hpending)
      · exact hnotin hpending
  · rw [List.nodup_append]
    refine ⟨ht.seen_nodup, h.nodup n, ?_⟩
    rintro m hm c hc rfl
    exact hfresh m hc hm
  · rw [List.nodup_append]
    refine ⟨hnodup, (List.nodup_cons.mp ht.pending_nodup).2, ?_⟩
    rintro c hc m hm rfl
    exact hfresh c (hpushed c hc) (ht.pending_seen c (List.mem_cons_of_mem n hm))

/-- With nothing left on the stack, what is seen is what can be reached. -/
theorem Traversed.mem_iff (ht : Traversed children root [] seen) :
    n ∈ seen ↔ Reachable children root n := by
  refine ⟨ht.reachable n, ?_⟩
  intro hreach
  induction hreach with
  | root => exact ht.root_seen
  | child _ hc ih =>
      rcases ht.closed _ ih with hpending | hall
      · cases hpending
      · exact hall _ hc

end Worklist
