/-
The two versions of `memmove` of lib/string.c: the string instructions of the processor, a word or a byte at a time, and
the plain loops.
-/
import Jos.Lib.Blit
import Jos.Mmu.Word

namespace Jos

open Lib

/-! ## String instructions -/

/-- The memory, the direction flag and the registers that a string instruction uses. -/
structure StrCpu where
  mem : Bytes
  df : Bool
  edi : Word := 0#32
  esi : Word := 0#32
  ecx : Word := 0#32

/-- `movsb` and `movsl`. -/
inductive Movs where
  | b | l

def Movs.size : Movs → Nat
  | .b => 1
  | .l => 4

def Movs.copy : Movs → Bytes → Word → Word → Bytes
  | .b, m, d, s => Function.update m d (m s)
  | .l, m, d, s => m.write d (m.read s)

/-- One `movs` behind a `rep`. -/
def StrCpu.movs (op : Movs) (c : StrCpu) : StrCpu :=
  let delta := BitVec.ofNat 32 op.size
  { c with
    mem := op.copy c.mem c.edi c.esi
    edi := if c.df then c.edi - delta else c.edi + delta
    esi := if c.df then c.esi - delta else c.esi + delta
    ecx := c.ecx - 1#32 }

def StrCpu.repeated (op : Movs) : Nat → StrCpu → StrCpu
  | 0, c => c
  | k + 1, c => (c.movs op).repeated op k

/-- `rep movs`. -/
def StrCpu.rep (op : Movs) (c : StrCpu) : StrCpu := c.repeated op c.ecx.toNat

/-- `cld; rep movs`. -/
def StrCpu.repUp (c : StrCpu) (op : Movs) (d s n : Word) : StrCpu := { c with df := false, edi := d, esi := s, ecx := n }.rep op

/-- `std; rep movs`. -/
def StrCpu.repDown (c : StrCpu) (op : Movs) (d s n : Word) : StrCpu := { c with df := true, edi := d, esi := s, ecx := n }.rep op

/-! ## The code -/

/-- `(int)s%4 == 0 && (int)d%4 == 0 && n%4 == 0`. -/
def longCopy (s d n : Word) : Bool := s.srem 4#32 = 0#32 && d.srem 4#32 = 0#32 && n % 4#32 = 0#32

/-- `memmove`, with `ASM`. -/
def memmoveAsm (dst src n : Word) (c : StrCpu) : Word × StrCpu :=
  let s := src
  let d := dst
  if s < d ∧ s + n > d then
    let s := s + n
    let d := d + n
    let c := if longCopy s d n then c.repDown .l (d - 4#32) (s - 4#32) (n / 4#32) else c.repDown .b (d - 1#32) (s - 1#32) n
    (dst, { c with df := false })
  else (dst, if longCopy s d n then c.repUp .l d s (n / 4#32) else c.repUp .b d s n)

/-- `while (n-- > 0) *--d = *--s`. -/
def copyDown : Nat → Word → Word → Bytes → Bytes
  | 0, _, _, m => m
  | n + 1, d, s, m => copyDown n (d - 1#32) (s - 1#32) (Function.update m (d - 1#32) (m (s - 1#32)))

/-- `while (n-- > 0) *d++ = *s++`. -/
def copyUp : Nat → Word → Word → Bytes → Bytes
  | 0, _, _, m => m
  | n + 1, d, s, m => copyUp n (d + 1#32) (s + 1#32) (Function.update m d (m s))

/-- `memmove`, without `ASM`. -/
def memmoveC (dst src n : Word) (m : Bytes) : Word × Bytes :=
  let s := src
  let d := dst
  if s < d ∧ s + n > d then (dst, copyDown n.toNat (d + n) (s + n) m) else (dst, copyUp n.toNat d s m)

/-! ## Copies -/

variable {op : Movs} {mem m : Bytes} {c : StrCpu} {dst src n : Word} {k t : Nat}

theorem Movs.copy_eq : ∀ (op : Movs) (m : Bytes) (d s : Word), op.copy m d s = m.blit op.size d s
  | .b, m, d, s => (blit_one m d s).symm
  | .l, m, d, s => (blit_four m d s).symm

theorem repeated_df : ∀ (t : Nat) (c : StrCpu), (c.repeated op t).df = c.df
  | 0, _ => rfl
  | t + 1, c => repeated_df t (c.movs op)

theorem add_toNat (p n : Word) : p + BitVec.ofNat 32 n.toNat = p + n := by rw [BitVec.ofNat_toNat, BitVec.setWidth_eq]

theorem longCopy_length (s d n : Word) : longCopy s d n = true → n.toNat % 4 = 0 := by
  intro h
  have hn : n % 4#32 = 0#32 := by simpa using (Bool.and_eq_true_iff.1 h).2
  simpa [BitVec.toNat_umod] using congrArg BitVec.toNat hn

theorem overlap_iff (hs : src.toNat + n.toNat ≤ 2 ^ 32) (hd : dst.toNat + n.toNat ≤ 2 ^ 32) :
    (src < dst ∧ src + n > dst) ↔ (src.toNat < dst.toNat ∧ dst.toNat < src.toNat + n.toNat) := by bv_omega

section Moves

variable (hs : src.toNat + n.toNat ≤ 2 ^ 32) (hd : dst.toNat + n.toNat ≤ 2 ^ 32)
include hs hd

theorem repeated_up (hup : ¬ (src.toNat < dst.toNat ∧ dst.toNat < src.toNat + n.toNat)) :
    ∀ (t : Nat) {k : Nat} {c : StrCpu}, Copied mem dst src 0 k c.mem → c.df = false → c.edi = dst + BitVec.ofNat 32 k →
      c.esi = src + BitVec.ofNat 32 k → k + t * op.size = n.toNat → Copied mem dst src 0 n.toNat (c.repeated op t).mem
  | 0, k, c, h, _, _, _, ht => by
    rw [Nat.zero_mul, Nat.add_zero] at ht
    exact ht ▸ h
  | t + 1, k, c, h, hdf, hdi, hsi, ht => by
    rw [Nat.succ_mul] at ht
    have hstep := h.up (w := op.size) hs hd hup (by omega)
    refine repeated_up hup t (k := k + op.size) ?_ hdf ?_ ?_ (by omega)
    · show Copied mem dst src 0 (k + op.size) (op.copy c.mem c.edi c.esi)
      rw [op.copy_eq, hdi, hsi]
      exact hstep
    · show (if c.df then _ else _) = _
      rw [hdf, hdi, BitVec.ofNat_add, ← BitVec.add_assoc]
      rfl
    · show (if c.df then _ else _) = _
      rw [hdf, hsi, BitVec.ofNat_add, ← BitVec.add_assoc]
      rfl

theorem repeated_down (hdown : src.toNat < dst.toNat) :
    ∀ (t : Nat) {c : StrCpu}, Copied mem dst src (t * op.size) n.toNat c.mem → c.df = true →
      c.edi = dst + BitVec.ofNat 32 (t * op.size) - BitVec.ofNat 32 op.size →
      c.esi = src + BitVec.ofNat 32 (t * op.size) - BitVec.ofNat 32 op.size → t * op.size ≤ n.toNat →
      Copied mem dst src 0 n.toNat (c.repeated op t).mem
  | 0, c, h, _, _, _, _ => by
    rw [Nat.zero_mul] at h
    exact h
  | t + 1, c, h, hdf, hdi, hsi, ht => by
    rw [Nat.succ_mul] at h ht hdi hsi
    rw [BitVec.ofNat_add, ← BitVec.add_assoc, BitVec.add_sub_cancel] at hdi hsi
    have hstep := h.down hs hd hdown ht
    refine repeated_down hdown t ?_ hdf ?_ ?_ (by omega)
    · show Copied mem dst src (t * op.size) n.toNat (op.copy c.mem c.edi c.esi)
      rw [op.copy_eq, hdi, hsi]
      exact hstep
    · show (if c.df then _ else _) = _
      rw [hdf, hdi]
      rfl
    · show (if c.df then _ else _) = _
      rw [hdf, hsi]
      rfl

theorem copyUp_copied (hup : ¬ (src.toNat < dst.toNat ∧ dst.toNat < src.toNat + n.toNat)) :
    ∀ (t : Nat) {k : Nat} {m : Bytes}, Copied mem dst src 0 k m → k + t = n.toNat →
      Copied mem dst src 0 n.toNat (copyUp t (dst + BitVec.ofNat 32 k) (src + BitVec.ofNat 32 k) m)
  | 0, k, m, h, ht => by
    rw [Nat.add_zero] at ht
    exact ht ▸ h
  | t + 1, k, m, h, ht => by
    have hstep := h.up (w := 1) hs hd hup (by omega)
    rw [blit_one] at hstep
    have ih := copyUp_copied hup t hstep (by omega)
    rw [BitVec.ofNat_add, ← BitVec.add_assoc, ← BitVec.add_assoc] at ih
    exact ih

theorem copyDown_copied (hdown : src.toNat < dst.toNat) :
    ∀ (t : Nat) {m : Bytes}, Copied mem dst src t n.toNat m → t ≤ n.toNat →
      Copied mem dst src 0 n.toNat (copyDown t (dst + BitVec.ofNat 32 t) (src + BitVec.ofNat 32 t) m)
  | 0, m, h, _ => h
  | t + 1, m, h, ht => by
    have hstep := h.down (w := 1) hs hd hdown ht
    rw [blit_one] at hstep
    have ih := copyDown_copied hdown t hstep (by omega)
    unfold copyDown
    have hpred : ∀ p : Word, p + BitVec.ofNat 32 (t + 1) - 1#32 = p + BitVec.ofNat 32 t := fun p => by bv_omega
    rw [hpred, hpred]
    exact ih

end Moves

/-! ## The two versions -/

theorem memmoveAsm_copied (hs : src.toNat + n.toNat ≤ 2 ^ 32) (hd : dst.toNat + n.toNat ≤ 2 ^ 32) (c : StrCpu) :
    Copied c.mem dst src 0 n.toNat (memmoveAsm dst src n c).2.mem ∧ (memmoveAsm dst src n c).2.df = false := by
  have hn0 := n.isLt
  have hdiv : (n / 4#32).toNat = n.toNat / 4 := BitVec.toNat_udiv
  unfold memmoveAsm
  dsimp only
  by_cases hover : src < dst ∧ src + n > dst
  · have hdown := ((overlap_iff hs hd).1 hover).1
    rw [if_pos hover]
    refine ⟨?_, rfl⟩
    dsimp only
    split
    · rename_i hlong
      have h4 := longCopy_length _ _ _ hlong
      have ht : n.toNat / 4 * Movs.l.size = n.toNat := Nat.div_mul_cancel (Nat.dvd_of_mod_eq_zero h4)
      show Copied _ _ _ _ _ (StrCpu.repeated Movs.l (n / 4#32).toNat _).mem
      rw [hdiv]
      refine repeated_down hs hd hdown (n.toNat / 4) (Copied.nothing ht.ge) rfl ?_ ?_ ht.le
      · rw [ht, add_toNat]
        rfl
      · rw [ht, add_toNat]
        rfl
    · have ht : n.toNat * Movs.b.size = n.toNat := Nat.mul_one _
      refine repeated_down hs hd hdown n.toNat (Copied.nothing ht.ge) rfl ?_ ?_ ht.le
      · rw [ht, add_toNat]
        rfl
      · rw [ht, add_toNat]
        rfl
  · have hup := (overlap_iff hs hd).not.1 hover
    rw [if_neg hover]
    dsimp only
    split
    · rename_i hlong
      have h4 := longCopy_length _ _ _ hlong
      refine ⟨?_, repeated_df _ _⟩
      show Copied _ _ _ _ _ (StrCpu.repeated Movs.l (n / 4#32).toNat _).mem
      rw [hdiv]
      refine repeated_up hs hd hup (n.toNat / 4) (Copied.nothing le_rfl) rfl (BitVec.add_zero _).symm (BitVec.add_zero _).symm ?_
      rw [Nat.zero_add]
      exact Nat.div_mul_cancel (Nat.dvd_of_mod_eq_zero h4)
    · refine ⟨?_, repeated_df _ _⟩
      refine repeated_up hs hd hup n.toNat (Copied.nothing le_rfl) rfl (BitVec.add_zero _).symm (BitVec.add_zero _).symm ?_
      rw [Nat.zero_add]
      exact Nat.mul_one _

theorem memmoveC_copied (hs : src.toNat + n.toNat ≤ 2 ^ 32) (hd : dst.toNat + n.toNat ≤ 2 ^ 32) (m : Bytes) :
    Copied m dst src 0 n.toNat (memmoveC dst src n m).2 := by
  unfold memmoveC
  dsimp only
  by_cases hover : src < dst ∧ src + n > dst
  · rw [if_pos hover, ← add_toNat, ← add_toNat src]
    exact copyDown_copied hs hd ((overlap_iff hs hd).1 hover).1 n.toNat (Copied.nothing le_rfl) le_rfl
  · rw [if_neg hover]
    have hrun := copyUp_copied hs hd ((overlap_iff hs hd).not.1 hover) n.toNat (k := 0) (m := m) (Copied.nothing le_rfl)
      (Nat.zero_add _)
    rw [BitVec.add_zero, BitVec.add_zero] at hrun
    exact hrun

/-- The string instructions copy the bytes that the source had, change no other byte, leave the direction flag clear, and
have the memory and the result of the plain loops. -/
theorem memmoveAsm_eq_memmoveC (hs : src.toNat + n.toNat ≤ 2 ^ 32) (hd : dst.toNat + n.toNat ≤ 2 ^ 32) (c : StrCpu) :
    (∀ i < n.toNat, (memmoveAsm dst src n c).2.mem (dst + BitVec.ofNat 32 i) = c.mem (src + BitVec.ofNat 32 i)) ∧
    (∀ b, ¬ (dst.toNat ≤ b.toNat ∧ b.toNat < dst.toNat + n.toNat) → (memmoveAsm dst src n c).2.mem b = c.mem b) ∧
    (memmoveAsm dst src n c).2.df = false ∧ memmoveC dst src n c.mem = (dst, (memmoveAsm dst src n c).2.mem) ∧
    (memmoveAsm dst src n c).1 = dst := by
  obtain ⟨hasm, hdf⟩ := memmoveAsm_copied hs hd c
  refine ⟨fun i hi => hasm.byte (by omega) hi, fun b hb => hasm.frame (by bv_omega), hdf, ?_, ?_⟩
  · refine Prod.ext ?_ ((memmoveC_copied hs hd c.mem).unique hasm)
    unfold memmoveC
    dsimp only
    split <;> rfl
  · unfold memmoveAsm
    dsimp only
    split <;> rfl

theorem memmoveAsm_eq_memmoveC_overlap : memmoveC 0x1004#32 0x1000#32 8#32 (fun a => a.setWidth 8) =
    (0x1004#32, (memmoveAsm 0x1004#32 0x1000#32 8#32 ⟨fun a => a.setWidth 8, true, 0#32, 0#32, 0#32⟩).2.mem) :=
  (memmoveAsm_eq_memmoveC (by decide) (by decide) ⟨fun a => a.setWidth 8, true, 0#32, 0#32, 0#32⟩).2.2.2.1

end Jos
