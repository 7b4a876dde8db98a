/-
A circular buffer of `N` cells with an index where the next element is read and one where the next is written. When they
are equal the buffer is empty, so it holds at most `N - 1` elements.
-/
import Mathlib.Logic.Function.Basic
import Mathlib.Tactic

namespace Jos.Lib.Ring

variable {α : Type*} {N r w k : Nat} {buf : Nat → α} {x : α}

/-- The index after `i`. -/
def next (N i : Nat) : Nat := if i + 1 = N then 0 else i + 1

/-- The number of elements between the indices. -/
def size (N r w : Nat) : Nat := if r ≤ w then w - r else w + N - r

/-- The `k`-th index from `r` on. -/
def index (N r k : Nat) : Nat := if r + k < N then r + k else r + k - N

/-- The elements, the one that is read next first. -/
def contents (N : Nat) (buf : Nat → α) (r w : Nat) : List α := (List.range (size N r w)).map fun k => buf (index N r k)

theorem next_lt (h : w < N) : next N w < N := by
  unfold next
  split <;> omega

theorem length_contents : (contents N buf r w).length = size N r w := by simp [contents]

theorem contents_eq_nil (hr : r < N) : contents N buf r w = [] ↔ r = w := by
  rw [← List.length_eq_zero_iff, length_contents]
  unfold size
  split <;> omega

theorem size_push (hr : r < N) (h : size N r w + 1 < N) : size N r (next N w) = size N r w + 1 := by
  unfold size next at *
  split_ifs at * <;> omega

theorem index_size (hr : r < N) (hw : w < N) : index N r (size N r w) = w := by
  unfold size index
  split_ifs <;> omega

theorem index_ne (hr : r < N) (hk : k < size N r w) : index N r k ≠ w := by
  unfold size at hk
  unfold index
  split_ifs at * <;> omega

theorem contents_push (hr : r < N) (hw : w < N) (h : size N r w + 1 < N) :
    contents N (Function.update buf w x) r (next N w) = contents N buf r w ++ [x] := by
  unfold contents
  rw [size_push hr h, List.range_succ, List.map_append, List.map_singleton, index_size hr hw, Function.update_self]
  congr 1
  refine List.map_congr_left fun k hk => Function.update_of_ne ?_ _ _
  exact index_ne hr (List.mem_range.1 hk)

theorem size_pop (hr : r < N) (hw : w < N) (hne : r ≠ w) : size N r w = size N (next N r) w + 1 := by
  unfold size next
  split_ifs <;> omega

theorem contents_pop (buf : Nat → α) (hr : r < N) (hw : w < N) (hne : r ≠ w) :
    contents N buf r w = buf r :: contents N buf (next N r) w := by
  unfold contents
  have hsize := size_pop hr hw hne
  rw [hsize, List.range_succ_eq_map, List.map_cons, List.map_map]
  congr 1
  · rw [index, if_pos (show r + 0 < N from hr), Nat.add_zero]
  · refine List.map_congr_left fun k hk => congrArg buf ?_
    have hk := List.mem_range.1 hk
    show index N r (k + 1) = index N (next N r) k
    unfold size at hk
    unfold next index at *
    split_ifs at * <;> omega

end Jos.Lib.Ring
