/-
`stab_binsearch` on any table: the loop ends after a number of turns that is bounded by the length of the interval, and
what it reads and leaves is in the interval.
-/
import Jos.Debug.EipReads

namespace Jos

section Turn

variable (stabs : Int → Stab) (type : Int)

/-- One turn of the outer loop. -/
def Search.turn (s : Search) : Search :=
  let trueM := (s.l + s.r) / 2
  let m := scan stabs type (s.l - 1) trueM
  if m < s.l then { s with l := trueM + 1 }
  else if (stabs m).nValue < s.addr then { s with anyMatches := true, left := m, l := trueM + 1 }
  else if (stabs m).nValue > s.addr then { s with anyMatches := true, right := m - 1, r := m - 1 }
  else { s with anyMatches := true, left := m, l := m, addr := s.addr + 1#32 }

/-- The outer loop, for at most this number of turns. -/
def searchRun : Nat → Search → Option Search
  | 0, _ => none
  | k + 1, s => if s.l ≤ s.r then searchRun k (s.turn stabs type) else some s

/-- Twice the length of the interval, and one more while the entry at its left end can match. -/
def Search.rank (s : Search) : Nat := 2 * (s.r + 1 - s.l).toNat + if (stabs s.l).nValue = s.addr then 1 else 0

end Turn

variable {stabs : Int → Stab} {type : Int} {s : Search} {addr : Word} {L R : Int}

theorem turn_rank (stabs : Int → Stab) (type : Int) (h : s.l ≤ s.r) : (s.turn stabs type).rank stabs < s.rank stabs := by
  have hle := scan_le stabs type (s.l - 1) ((s.l + s.r) / 2)
  unfold Search.turn
  dsimp only
  split
  · unfold Search.rank
    dsimp only
    split <;> split <;> omega
  split
  · unfold Search.rank
    dsimp only
    split <;> split <;> omega
  split
  · unfold Search.rank
    dsimp only
    omega
  · rename_i hm hlt hgt
    -- an entry that has matched does not match again: the interval may stay, but the key has moved on
    have heq := BitVec.le_antisymm (BitVec.not_lt.1 hgt) (BitVec.not_lt.1 hlt)
    generalize scan stabs type (s.l - 1) ((s.l + s.r) / 2) = m at *
    unfold Search.rank
    dsimp only
    have hne : (stabs m).nValue ≠ s.addr + 1#32 := by
      rw [heq]
      bv_omega
    rw [if_neg hne]
    by_cases hml : m = s.l
    · rw [← hml, if_pos heq]
      omega
    · split <;> omega

theorem stabLoop_turn (h : s.l ≤ s.r) : stabLoop stabs type s = stabLoop stabs type (s.turn stabs type) := by
  rw [stabLoop, if_pos h]
  unfold Search.turn
  dsimp only
  split_ifs <;> rfl

theorem searchRun_eq : ∀ {k : Nat} {s : Search}, s.rank stabs < k → searchRun stabs type k s = some (stabLoop stabs type s)
  | k + 1, s, hk => by
    unfold searchRun
    by_cases h : s.l ≤ s.r
    · have := turn_rank stabs type h
      rw [if_pos h, stabLoop_turn h]
      exact searchRun_eq (by omega)
    · rw [if_neg h, stabLoop, if_neg h]

/-! ## The interval -/

/-- The interval of a turn is inside the one before. -/
theorem turn_interval (stabs : Int → Stab) (type : Int) (h : s.l ≤ s.r) :
    s.l ≤ (s.turn stabs type).l ∧ (s.turn stabs type).r ≤ s.r := by
  have hle := scan_le stabs type (s.l - 1) ((s.l + s.r) / 2)
  unfold Search.turn
  dsimp only
  split_ifs <;> dsimp only <;> omega

/-- The sums whose halves are taken. They are not too large for an `int` when `2 * R` is not. -/
def searchSums (stabs : Int → Stab) (type : Int) : Nat → Search → List Int
  | 0, _ => []
  | k + 1, s => if s.l ≤ s.r then (s.l + s.r) :: searchSums stabs type k (s.turn stabs type) else []

theorem searchSums_bounds (stabs : Int → Stab) (type : Int) : ∀ (k : Nat) (s : Search), L ≤ s.l → s.r ≤ R →
    ∀ x ∈ searchSums stabs type k s, 2 * L ≤ x ∧ x ≤ 2 * R
  | 0, _, _, _, x, hx => by simp [searchSums] at hx
  | k + 1, s, hl, hr, x, hx => by
    unfold searchSums at hx
    by_cases h : s.l ≤ s.r
    · rw [if_pos h] at hx
      rcases List.mem_cons.1 hx with rfl | hx
      · omega
      · have := turn_interval stabs type h
        exact searchSums_bounds stabs type k _ (hl.trans this.1) (this.2.trans hr) x hx
    · rw [if_neg h] at hx
      simp at hx

theorem binsearch_left (h : (stabLoop stabs type ⟨L, R, false, L, R, addr⟩).anyMatches = false) :
    (stabBinsearch stabs type L R addr).1 = L := by
  have hleft := loop_left stabs type ⟨L, R, false, L, R, addr⟩
  rw [h] at hleft
  unfold stabBinsearch
  dsimp only
  rw [h]
  exact hleft.resolve_right (by simp)

/-- On any table the search ends, reads entries of `[L, R]` only, and leaves bounds in `[L - 1, R]`. -/
theorem binsearch_in_bounds (stabs : Int → Stab) (type : Int) (addr : Word) (hLR : L ≤ R) :
    (∀ k, 2 * (R + 1 - L).toNat + 2 ≤ k →
      searchRun stabs type k ⟨L, R, false, L, R, addr⟩ = some (stabLoop stabs type ⟨L, R, false, L, R, addr⟩)) ∧
    (∀ k, ∀ x ∈ searchSums stabs type k ⟨L, R, false, L, R, addr⟩, 2 * L ≤ x ∧ x ≤ 2 * R) ∧
    (∀ x ∈ binsearchReads stabs type L R addr, L ≤ x.1 ∧ x.1 ≤ R) ∧
    (L - 1 ≤ (stabBinsearch stabs type L R addr).1 ∧ (stabBinsearch stabs type L R addr).1 ≤ R) ∧
    L - 1 ≤ (stabBinsearch stabs type L R addr).2 ∧ (stabBinsearch stabs type L R addr).2 ≤ R := by
  obtain ⟨hany, hreads⟩ := binsearch_bounds stabs type addr hLR
  refine ⟨fun k hk => searchRun_eq ?_, fun k => searchSums_bounds stabs type k _ le_rfl le_rfl, hreads, ?_⟩
  · unfold Search.rank
    dsimp only
    split <;> omega
  · cases hm : (stabLoop stabs type ⟨L, R, false, L, R, addr⟩).anyMatches with
    | true =>
      obtain ⟨hge, -, hle, hlast, -⟩ := hany hm
      omega
    | false =>
      have hleft := binsearch_left hm
      have hnone := binsearch_none hm
      omega

/-- Entries of two types, with addresses that fall. -/
def fallingStabs (i : Int) : Stab := ⟨if i % 3 = 0 then 0x24#8 else 0x44#8, 0x1000#32 - BitVec.ofInt 32 i⟩

theorem binsearch_in_bounds_falling :
    searchRun fallingStabs 0x24 18 ⟨0, 7, false, 0, 7, 0xffd#32⟩ =
      some (stabLoop fallingStabs 0x24 ⟨0, 7, false, 0, 7, 0xffd#32⟩) ∧
      ∀ x ∈ binsearchReads fallingStabs 0x24 0 7 0xffd#32, 0 ≤ x.1 ∧ x.1 ≤ 7 := by
  obtain ⟨hrun, -, hreads, -⟩ := binsearch_in_bounds fallingStabs 0x24 0xffd#32 (show (0 : Int) ≤ 7 by decide)
  exact ⟨hrun 18 (by decide), hreads⟩

end Jos
