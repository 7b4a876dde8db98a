/-
Copying an interval of memory in pieces, upwards or downwards, where the intervals may overlap.
-/
import Jos.Lib.Bytes

namespace Jos.Lib

/-- `w` bytes at `s` are read, and then stored at `d`. -/
def Bytes.blit (m : Bytes) (w : Nat) (d s : BitVec 32) : Bytes :=
  fun b => if (b - d).toNat < w then m (s + (b - d)) else m b

/-- From `mem`, the bytes `lo` to `hi` of the source have been copied, and nothing else is different. -/
def Copied (mem : Bytes) (dst src : BitVec 32) (lo hi : Nat) (m : Bytes) : Prop :=
  ∀ b, m b = if lo ≤ (b - dst).toNat ∧ (b - dst).toNat < hi then mem (src + (b - dst)) else mem b

variable {mem m : Bytes} {dst src : BitVec 32} {n lo hi k w : Nat}

theorem blit_one (m : Bytes) (d s : BitVec 32) : m.blit 1 d s = Function.update m d (m s) := by
  funext b
  unfold Bytes.blit
  by_cases hb : b = d
  · rw [hb, Function.update_self, BitVec.sub_self, if_pos (by decide), BitVec.add_zero]
  · rw [Function.update_of_ne hb, if_neg (by bv_omega)]

theorem byteOf_read (m : Bytes) (a : BitVec 32) : ∀ j < 4, byteOf (m.read a) j = m (a + BitVec.ofNat 32 j)
  | 0, _ => by unfold byteOf Bytes.read; ext; simp; grind
  | 1, _ => by unfold byteOf Bytes.read; ext; simp; grind
  | 2, _ => by unfold byteOf Bytes.read; ext; simp; grind
  | 3, _ => by unfold byteOf Bytes.read; ext; simp; grind

theorem blit_four (m : Bytes) (d s : BitVec 32) : m.blit 4 d s = m.write d (m.read s) := by
  funext b
  unfold Bytes.blit Bytes.write
  split
  · rename_i hb
    rw [byteOf_read m s _ hb, BitVec.ofNat_toNat, BitVec.setWidth_eq]
  · rfl

theorem Copied.nothing (h : hi ≤ lo) : Copied mem dst src lo hi mem := fun b => by rw [if_neg (by omega)]

/-- A piece is copied whose source is not yet changed. -/
theorem Copied.blit_eq (h : Copied mem dst src lo hi m) (hn : dst.toNat + n ≤ 2 ^ 32) (hk : k + w ≤ n)
    (hsrc : ∀ j < w, ¬ (lo ≤ (src + BitVec.ofNat 32 (k + j) - dst).toNat ∧ (src + BitVec.ofNat 32 (k + j) - dst).toNat < hi))
    (b : BitVec 32) : m.blit w (dst + BitVec.ofNat 32 k) (src + BitVec.ofNat 32 k) b =
      if k ≤ (b - dst).toNat ∧ (b - dst).toNat < k + w then mem (src + (b - dst)) else m b := by
  have hoff : ((b - (dst + BitVec.ofNat 32 k)).toNat < w) ↔ (k ≤ (b - dst).toNat ∧ (b - dst).toNat < k + w) := by bv_omega
  unfold Bytes.blit
  by_cases hb : k ≤ (b - dst).toNat ∧ (b - dst).toNat < k + w
  · have ha : src + BitVec.ofNat 32 k + (b - (dst + BitVec.ofNat 32 k)) = src + (b - dst) := by bv_omega
    have hj := hsrc ((b - dst).toNat - k) (by omega)
    have he : src + BitVec.ofNat 32 (k + ((b - dst).toNat - k)) = src + (b - dst) := by
      rw [Nat.add_sub_cancel' hb.1, BitVec.ofNat_toNat, BitVec.setWidth_eq]
    rw [he] at hj
    rw [if_pos (hoff.2 hb), if_pos hb, ha, h, if_neg hj]
  · rw [if_neg (hoff.not.2 hb), if_neg hb]

section Moves

variable (hs : src.toNat + n ≤ 2 ^ 32) (hd : dst.toNat + n ≤ 2 ^ 32)
include hs hd

/-- The next piece of an upward copy: the source does not begin in front of the destination and reach into it. -/
theorem Copied.up (hup : ¬ (src.toNat < dst.toNat ∧ dst.toNat < src.toNat + n)) (h : Copied mem dst src 0 k m) (hk : k + w ≤ n) :
    Copied mem dst src 0 (k + w) (m.blit w (dst + BitVec.ofNat 32 k) (src + BitVec.ofNat 32 k)) := by
  intro b
  rw [h.blit_eq hd hk (fun j hj => by bv_omega) b, h b]
  split_ifs <;> first | rfl | omega

/-- The next piece of a downward copy. -/
theorem Copied.down (hdown : src.toNat < dst.toNat) (h : Copied mem dst src (k + w) n m) (hk : k + w ≤ n) :
    Copied mem dst src k n (m.blit w (dst + BitVec.ofNat 32 k) (src + BitVec.ofNat 32 k)) := by
  intro b
  rw [h.blit_eq hd hk (fun j hj => by bv_omega) b, h b]
  split_ifs <;> first | rfl | omega

end Moves

theorem Copied.byte (h : Copied mem dst src 0 n m) (hn : n ≤ 2 ^ 32) (hk : k < n) :
    m (dst + BitVec.ofNat 32 k) = mem (src + BitVec.ofNat 32 k) := by
  have hoff : dst + BitVec.ofNat 32 k - dst = BitVec.ofNat 32 k := by rw [BitVec.add_comm, BitVec.add_sub_cancel]
  rw [h, hoff, BitVec.toNat_ofNat, Nat.mod_eq_of_lt (by omega), if_pos ⟨Nat.zero_le _, hk⟩]

theorem Copied.frame (h : Copied mem dst src 0 n m) {b : BitVec 32} (hb : n ≤ (b - dst).toNat) : m b = mem b := by
  rw [h, if_neg (by omega)]

/-- The two copies of the same bytes are the same memory. -/
theorem Copied.unique {m' : Bytes} (h : Copied mem dst src lo hi m) (h' : Copied mem dst src lo hi m') : m = m' :=
  funext fun b => (h b).trans (h' b).symm

end Jos.Lib
