/-
Trial division by the primes in order: the least number that the first `k` primes do not divide is the next prime.
-/
import Mathlib.NumberTheory.PrimeCounting

namespace Jos.Lib

open Nat

/-- A number that none of the first `k` primes divides. -/
def Unsieved (k x : ℕ) : Prop := 2 ≤ x ∧ ∀ q < k, ¬ nth Nat.Prime q ∣ x

variable {k x : ℕ}

@[simp] theorem unsieved_zero : Unsieved 0 x ↔ 2 ≤ x := by simp [Unsieved]

theorem unsieved_succ : Unsieved (k + 1) x ↔ Unsieved k x ∧ ¬ nth Nat.Prime k ∣ x := by
  constructor
  · rintro ⟨h2, h⟩
    exact ⟨⟨h2, fun q hq => h q (by omega)⟩, h k (by omega)⟩
  · rintro ⟨⟨h2, h⟩, hk⟩
    refine ⟨h2, fun q hq => ?_⟩
    by_cases hqk : q = k
    · rw [hqk]
      exact hk
    · exact h q (by omega)

theorem Unsieved.pred (h : Unsieved (k + 1) x) : Unsieved k x := (unsieved_succ.1 h).1

theorem unsieved_nth (k : ℕ) : Unsieved k (nth Nat.Prime k) := by
  have hk := prime_nth_prime k
  refine ⟨hk.two_le, fun q hq hdvd => ?_⟩
  have heq := (prime_dvd_prime_iff_eq (prime_nth_prime q) hk).1 hdvd
  exact hq.ne (nth_injective infinite_setOfPred_prime heq)

/-- The least prime factor of a number that is left over comes after the first `k` primes. -/
theorem Unsieved.nth_le (h : Unsieved k x) : nth Nat.Prime k ≤ x := by
  obtain ⟨h2, hdvd⟩ := h
  have hp : x.minFac.Prime := minFac_prime (by omega)
  have hnth : nth Nat.Prime (count Nat.Prime x.minFac) = x.minFac := nth_count hp
  have hle : k ≤ count Nat.Prime x.minFac := by
    by_contra hlt
    refine hdvd _ (Nat.not_le.1 hlt) ?_
    rw [hnth]
    exact minFac_dvd x
  calc nth Nat.Prime k ≤ nth Nat.Prime (count Nat.Prime x.minFac) := nth_monotone infinite_setOfPred_prime hle
    _ = x.minFac := hnth
    _ ≤ x := minFac_le (by omega)

/-- The first number that is left over. -/
theorem nth_prime_least (h : Unsieved k x) (hfirst : ∀ y, Unsieved k y → x ≤ y) : x = nth Nat.Prime k :=
  le_antisymm (hfirst _ (unsieved_nth k)) h.nth_le

end Jos.Lib
