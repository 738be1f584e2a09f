import Mathlib.Tactic

/-!
Lists cut into pieces of one size. The last piece may be shorter; it is empty only where
the list is.
-/

namespace Cut

variable {α : Type} {size : ℕ} {xs : List α}

def cut (size : ℕ) (xs : List α) : List (List α) :=
  if 0 < size ∧ size < xs.length then xs.take size :: cut size (xs.drop size) else [xs]
  termination_by xs.length
  decreasing_by
    rw [List.length_drop]
    omega

theorem cut_of_le (h : xs.length ≤ size) : cut size xs = [xs] := by
  rw [cut, if_neg]
  omega

theorem cut_of_lt (hsize : 0 < size) (h : size < xs.length) :
    cut size xs = xs.take size :: cut size (xs.drop size) := by
  rw [cut, if_pos ⟨hsize, h⟩]

theorem cut_ne_nil (size : ℕ) (xs : List α) : cut size xs ≠ [] := by
  rw [cut]
  split
  · exact List.cons_ne_nil _ _
  · exact List.cons_ne_nil _ _

/-- What is cut off first does not depend on what comes later. -/
theorem cut_append (hsize : 0 < size) (h : size < xs.length) (ys : List α) :
    cut size (xs ++ ys) = xs.take size :: cut size (xs.drop size ++ ys) := by
  rw [cut_of_lt hsize (by rw [List.length_append]; omega), List.take_append_of_le_length (by omega),
    List.drop_append_of_le_length (by omega)]

theorem cut_flatten (size : ℕ) (xs : List α) : (cut size xs).flatten = xs := by
  induction xs using cut.induct size with
  | case1 xs h ih =>
      rw [cut_of_lt h.1 h.2, List.flatten_cons, ih, List.take_append_drop]
  | case2 xs h =>
      rw [cut, if_neg h, List.flatten_singleton]

/-- All pieces but the last are full. -/
inductive Full (size : ℕ) : List (List α) → Prop where
  | last {x : List α} (h : x.length ≤ size) : Full size [x]
  | more {x y : List α} {rest : List (List α)} (h : x.length = size) (hrest : Full size (y :: rest)) :
      Full size (x :: y :: rest)

theorem cut_full (hsize : 0 < size) (xs : List α) : Full size (cut size xs) := by
  induction xs using cut.induct size with
  | case1 xs h ih =>
      rw [cut_of_lt h.1 h.2]
      have hlength : (xs.take size).length = size := by
        rw [List.length_take]
        omega
      cases hcut : cut size (xs.drop size) with
      | nil => exact absurd hcut (cut_ne_nil _ _)
      | cons y rest =>
          rw [hcut] at ih
          exact .more hlength ih
  | case2 xs h =>
      rw [cut, if_neg h]
      exact .last (by omega)

/-- A sum over the pieces counts the full ones, and the rest if there is one. -/
theorem sum_cut (hsize : 0 < size) (f : ℕ → ℕ) (hxs : xs ≠ []) :
    ((cut size xs).map fun x => f x.length).sum =
      xs.length / size * f size + if xs.length % size = 0 then 0 else f (xs.length % size) := by
  induction xs using cut.induct size with
  | case1 xs h ih =>
      have hlength : (xs.take size).length = size := by
        rw [List.length_take]
        omega
      have hrest : xs.drop size ≠ [] := by
        apply List.ne_nil_of_length_pos
        rw [List.length_drop]
        omega
      have hdiv : xs.length / size = (xs.length - size) / size + 1 := by
        rw [← Nat.add_div_right _ hsize, Nat.sub_add_cancel (Nat.le_of_lt h.2)]
      have hmod : xs.length % size = (xs.length - size) % size := by
        rw [← Nat.mod_eq_sub_mod (Nat.le_of_lt h.2)]
      rw [cut_of_lt h.1 h.2, List.map_cons, List.sum_cons, ih hrest, hlength, List.length_drop, hdiv,
        hmod, Nat.add_mul, Nat.one_mul]
      omega
  | case2 xs h =>
      have hpos := List.length_pos_iff.mpr hxs
      rw [cut, if_neg h, List.map_singleton, List.sum_singleton]
      rcases Nat.lt_or_ge xs.length size with hlt | hge
      · rw [Nat.div_eq_of_lt hlt, Nat.mod_eq_of_lt hlt, if_neg (by omega), Nat.zero_mul, Nat.zero_add]
      · have heq : xs.length = size := by omega
        rw [heq, Nat.div_self hsize, Nat.mod_self, if_pos rfl, Nat.one_mul, Nat.add_zero]

end Cut
