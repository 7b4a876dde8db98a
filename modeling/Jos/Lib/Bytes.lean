/-
A flat memory of bytes with 32-bit addresses, and words in it, lowest byte first. Addresses wrap
around, so a distance is a difference taken modulo `2^32`.
-/
import Mathlib.Tactic

namespace Jos.Lib

abbrev Bytes := BitVec 32 → BitVec 8

def byteOf (w : BitVec 32) (k : Nat) : BitVec 8 := w.extractLsb' (8 * k) 8

def Bytes.read (m : Bytes) (a : BitVec 32) : BitVec 32 := m (a + 3#32) ++ m (a + 2#32) ++ m (a + 1#32) ++ m a

def Bytes.write (m : Bytes) (a w : BitVec 32) : Bytes :=
  fun b => if (b - a).toNat < 4 then byteOf w (b - a).toNat else m b

/-- Words one after the other, upwards from `a`. -/
def Bytes.writes (m : Bytes) (a : BitVec 32) : List (BitVec 32) → Bytes
  | [] => m
  | w :: ws => (m.write a w).writes (a + 4#32) ws

variable {m m' : Bytes} {a b w : BitVec 32} {ws : List (BitVec 32)} {k : Nat}

theorem toNat_offset (a : BitVec 32) (h : k < 2 ^ 32) : (a + BitVec.ofNat 32 k - a).toNat = k := by
  rw [BitVec.add_comm, BitVec.add_sub_cancel, BitVec.toNat_ofNat, Nat.mod_eq_of_lt h]

theorem byteOf_append (w : BitVec 32) : byteOf w 3 ++ byteOf w 2 ++ byteOf w 1 ++ byteOf w 0 = w := by
  have h₁ : byteOf w 3 ++ byteOf w 2 = w.extractLsb' 16 16 := BitVec.extractLsb'_append_extractLsb'_eq_extractLsb' rfl
  have h₂ : w.extractLsb' 16 16 ++ byteOf w 1 = w.extractLsb' 8 24 := BitVec.extractLsb'_append_extractLsb'_eq_extractLsb' rfl
  have h₃ : w.extractLsb' 8 24 ++ byteOf w 0 = w.extractLsb' 0 32 := BitVec.extractLsb'_append_extractLsb'_eq_extractLsb' rfl
  rw [h₁, h₂, h₃]
  simp

theorem write_other (h : 4 ≤ (b - a).toNat) : m.write a w b = m b := if_neg (by omega)

theorem read_congr (h : ∀ j : Nat, j < 4 → m (a + BitVec.ofNat 32 j) = m' (a + BitVec.ofNat 32 j)) : m.read a = m'.read a := by
  have h0 := h 0 (by omega)
  rw [BitVec.add_zero] at h0
  unfold Bytes.read
  rw [h0, show m (a + 1#32) = m' (a + 1#32) from h 1 (by omega), show m (a + 2#32) = m' (a + 2#32) from h 2 (by omega),
    show m (a + 3#32) = m' (a + 3#32) from h 3 (by omega)]

@[simp] theorem read_write : (m.write a w).read a = w := by
  have hbyte : ∀ j : Nat, j < 4 → m.write a w (a + BitVec.ofNat 32 j) = byteOf w j := by
    intro j hj
    have hd : (a + BitVec.ofNat 32 j - a).toNat = j := toNat_offset a (by omega)
    unfold Bytes.write
    rw [hd, if_pos hj]
  have h0 := hbyte 0 (by omega)
  rw [BitVec.add_zero] at h0
  unfold Bytes.read
  rw [h0, show m.write a w (a + 1#32) = _ from hbyte 1 (by omega), show m.write a w (a + 2#32) = _ from hbyte 2 (by omega),
    show m.write a w (a + 3#32) = _ from hbyte 3 (by omega)]
  exact byteOf_append w

/-- Words that do not overlap. -/
theorem read_write_other (h₁ : 4 ≤ (b - a).toNat) (h₂ : 4 ≤ (a - b).toNat) : (m.write a w).read b = m.read b := by
  refine read_congr fun j hj => write_other ?_
  have hj' : (BitVec.ofNat 32 j).toNat = j := by rw [BitVec.toNat_ofNat, Nat.mod_eq_of_lt (by omega)]
  generalize BitVec.ofNat 32 j = x at hj'
  bv_omega

theorem writes_other (h : 4 * ws.length ≤ (b - a).toNat) : m.writes a ws b = m b := by
  induction ws generalizing m a with
  | nil => rfl
  | cons w ws ih =>
    rw [List.length_cons] at h
    unfold Bytes.writes
    rw [ih (by bv_omega), write_other (by omega)]

theorem writes_congr (h : m b = m' b) : m.writes a ws b = m'.writes a ws b := by
  induction ws generalizing m m' a with
  | nil => exact h
  | cons w ws ih =>
    refine ih ?_
    unfold Bytes.write
    rw [h]

theorem read_writes (h : 4 * ws.length ≤ 2 ^ 32) (hk : k < ws.length) :
    (m.writes a ws).read (a + BitVec.ofNat 32 (4 * k)) = ws[k] := by
  induction ws generalizing m a k with
  | nil => simp at hk
  | cons w ws ih =>
    rw [List.length_cons] at h hk
    unfold Bytes.writes
    cases k with
    | zero =>
      rw [Nat.mul_zero, BitVec.add_zero]
      refine (read_congr fun j hj => writes_other ?_).trans read_write
      have hj' : (BitVec.ofNat 32 j).toNat = j := by rw [BitVec.toNat_ofNat, Nat.mod_eq_of_lt (by omega)]
      generalize BitVec.ofNat 32 j = x at hj'
      bv_omega
    | succ k =>
      have hstep : a + BitVec.ofNat 32 (4 * (k + 1)) = a + 4#32 + BitVec.ofNat 32 (4 * k) := by
        rw [BitVec.add_assoc]
        congr 1
        rw [Nat.mul_succ, Nat.add_comm, BitVec.ofNat_add]
      rw [hstep, ih (by omega) (by omega)]
      rfl

end Jos.Lib
