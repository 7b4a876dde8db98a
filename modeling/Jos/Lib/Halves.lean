/-
An array of 16-bit words in memory, lowest byte first.
-/
import Jos.Lib.Blit

namespace Jos.Lib

/-- The address of the word with this index. -/
def halfAt (base : BitVec 32) (i : Nat) : BitVec 32 := base + BitVec.ofNat 32 (2 * i)

def Bytes.half (m : Bytes) (base : BitVec 32) (i : Nat) : BitVec 16 := m (halfAt base i + 1#32) ++ m (halfAt base i)

def Bytes.setHalf (m : Bytes) (base : BitVec 32) (i : Nat) (v : BitVec 16) : Bytes :=
  Function.update (Function.update m (halfAt base i) (v.extractLsb' 0 8)) (halfAt base i + 1#32) (v.extractLsb' 8 8)

variable {m mem : Bytes} {base : BitVec 32} {i j k n : Nat} {v : BitVec 16} {b : BitVec 32}

/-- The words from the base on that do not wrap around. -/
def Halves (base : BitVec 32) (size : Nat) : Prop := base.toNat + 2 * size ≤ 2 ^ 32

theorem halfAt_toNat (h : Halves base n) (hi : i < n) : (halfAt base i).toNat = base.toNat + 2 * i := by
  unfold Halves at h
  unfold halfAt
  bv_omega

@[simp] theorem half_setHalf : (m.setHalf base i v).half base i = v := by
  have hne : halfAt base i ≠ halfAt base i + 1#32 := by bv_omega
  unfold Bytes.half Bytes.setHalf
  rw [Function.update_self, Function.update_of_ne hne, Function.update_self]
  exact (BitVec.extractLsb'_append_extractLsb'_eq_extractLsb' rfl).trans BitVec.extractLsb'_eq_self

theorem half_setHalf_ne (h : Halves base n) (hi : i < n) (hj : j < n) (hij : j ≠ i) :
    (m.setHalf base i v).half base j = m.half base j := by
  have hia := halfAt_toNat h hi
  have hja := halfAt_toNat h hj
  unfold Halves at h
  unfold Bytes.half Bytes.setHalf
  rw [Function.update_of_ne (by bv_omega), Function.update_of_ne (by bv_omega), Function.update_of_ne (by bv_omega),
    Function.update_of_ne (by bv_omega)]

theorem setHalf_other (h : Halves base n) (hi : i < n) (hb : ¬ (base.toNat ≤ b.toNat ∧ b.toNat < base.toNat + 2 * n)) :
    m.setHalf base i v b = m b := by
  have hia := halfAt_toNat h hi
  unfold Halves at h
  unfold Bytes.setHalf
  rw [Function.update_of_ne (by bv_omega), Function.update_of_ne (by bv_omega)]

/-- The words behind the first `k` have been copied to the front. -/
theorem half_copied (h : Halves base (n + k)) (hc : Copied mem base (halfAt base k) 0 (2 * n) m) (hi : i < n) :
    m.half base i = mem.half base (i + k) := by
  have hbyte : ∀ o < 2, m (halfAt base i + BitVec.ofNat 32 o) = mem (halfAt base (i + k) + BitVec.ofNat 32 o) := by
    intro o ho
    have hsrc : halfAt base (i + k) + BitVec.ofNat 32 o = halfAt base k + BitVec.ofNat 32 (2 * i + o) := by
      unfold halfAt
      bv_omega
    have hdst : halfAt base i + BitVec.ofNat 32 o = base + BitVec.ofNat 32 (2 * i + o) := by
      unfold halfAt
      bv_omega
    unfold Halves at h
    rw [hsrc, hdst, hc.byte (by omega) (by omega)]
  have h0 := hbyte 0 (by omega)
  have h1 := hbyte 1 (by omega)
  rw [BitVec.add_zero, BitVec.add_zero] at h0
  unfold Bytes.half
  rw [h0]
  exact congrArg (· ++ mem (halfAt base (i + k))) h1

end Jos.Lib
