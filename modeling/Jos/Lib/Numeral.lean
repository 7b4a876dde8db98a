/-
The digits of a number in the order in which they are written, and the value that is read back from them.
-/
import Mathlib.Data.Nat.Digits.Lemmas
import Mathlib.Tactic

namespace Jos.Lib

/-- The digits of `n`, the highest first; 0 has one. -/
def numeral (b n : Nat) : List Nat := if n = 0 then [0] else (Nat.digits b n).reverse

variable {b n d k : Nat}

theorem numeral_of_lt (h : n < b) : numeral b n = [n] := by
  unfold numeral
  by_cases h0 : n = 0
  · rw [if_pos h0, h0]
  · rw [if_neg h0, Nat.digits_of_lt b n h0 h, List.reverse_singleton]

theorem numeral_of_ge (hb : 2 ≤ b) (h : b ≤ n) : numeral b n = numeral b (n / b) ++ [n % b] := by
  have hdiv : n / b ≠ 0 := (Nat.div_pos h (by omega)).ne'
  unfold numeral
  rw [if_neg (by omega), if_neg hdiv, Nat.digits_def' (by omega) (by omega), List.reverse_cons]

/-- Induction on the digits, from the last one. -/
theorem numeral_induction {P : Nat → Prop} (hb : 2 ≤ b) (lt : ∀ n, n < b → P n) (ge : ∀ n, b ≤ n → P (n / b) → P n)
    (n : Nat) : P n := by
  induction n using Nat.strong_induction_on with
  | _ n ih =>
    by_cases h : n < b
    · exact lt n h
    · exact ge n (by omega) (ih _ (Nat.div_lt_self (by omega) hb))

theorem numeral_lt (hb : 2 ≤ b) (h : d ∈ numeral b n) : d < b := by
  unfold numeral at h
  split at h
  · rw [List.mem_singleton.1 h]
    omega
  · exact Nat.digits_lt_base (by omega) (List.mem_reverse.1 h)

theorem numeral_length_pos (b n : Nat) : 0 < (numeral b n).length := by
  unfold numeral
  split
  · exact Nat.one_pos
  · rename_i h
    rw [List.length_reverse, List.length_pos_iff]
    exact Nat.digits_ne_nil_iff_ne_zero.2 h

theorem numeral_length_le (hb : 2 ≤ b) (hk : 0 < k) (h : n < b ^ k) : (numeral b n).length ≤ k := by
  unfold numeral
  split
  · exact hk
  · rw [List.length_reverse]
    exact (Nat.digits_length_le_iff (by omega) n).2 h

/-- A number other than 0 does not begin with a 0. -/
theorem numeral_head (hb : 2 ≤ b) (hn : 0 < n) : ∃ d ds, numeral b n = d :: ds ∧ d ≠ 0 := by
  induction n using numeral_induction hb with
  | lt n h => exact ⟨n, [], numeral_of_lt h, by omega⟩
  | ge n h ih =>
    obtain ⟨d, ds, hd, h0⟩ := ih (Nat.div_pos h (by omega))
    exact ⟨d, ds ++ [n % b], by rw [numeral_of_ge hb h, hd]; rfl, h0⟩

/-- The value is accumulated from the front. -/
theorem foldl_numeral (hb : 2 ≤ b) (n : Nat) : (numeral b n).foldl (fun v d => v * b + d) 0 = n := by
  induction n using numeral_induction hb with
  | lt n h =>
    rw [numeral_of_lt h]
    show 0 * b + n = n
    omega
  | ge n h ih =>
    rw [numeral_of_ge hb h, List.foldl_append, ih]
    exact Nat.div_add_mod' n b

end Jos.Lib
