/-
Words of the x86 paging unit, as inc/mmu.h, inc/memlayout.h and inc/types.h compute them: the
flags of an entry, the address map, the fields of a linear address, and the rounding macros. A
`uint32_t`, `pte_t`, `pde_t`, `physaddr_t`, `uintptr_t` or pointer is a 32-bit word.
-/
import Mathlib.Data.Nat.Bitwise
import Mathlib.Tactic

namespace Jos

abbrev Word := BitVec 32

/-- An index into a page directory or a page table (`NPDENTRIES = NPTENTRIES = 1024`). -/
abbrev Idx := Fin 1024

instance neZeroNptentries : NeZero 1024 := ⟨by decide⟩

/-! ## Page table/directory entry flags -/

def pteP : Word := 0x001#32
def pteW : Word := 0x002#32
def pteU : Word := 0x004#32
def ptePWT : Word := 0x008#32
def ptePCD : Word := 0x010#32
def pteAvail : Word := 0xE00#32

/-- Flags that may be used in system calls. -/
def pteSyscall : Word := pteAvail ||| pteP ||| pteW ||| pteU

/-- `PTE_USER` has no definition in inc/mmu.h; kern/syscall.c gives it in a comment. -/
def pteUser : Word := pteU ||| pteP ||| pteW ||| pteAvail

/-- `PTE_COW` of lib/fork.c, one of the `PTE_AVAIL` bits. -/
def pteCow : Word := 0x800#32

/-! ## The address map -/

def pgsize : Word := 4096#32
def ptsize : Word := pgsize * 1024#32
def kernbase : Word := 0xF0000000#32
def kstacktop : Word := kernbase
def mmiolim : Word := kstacktop - ptsize
def mmiobase : Word := mmiolim - ptsize
def ulim : Word := mmiobase
def uvpt : Word := ulim - ptsize
def upages : Word := uvpt - ptsize
def uenvs : Word := upages - ptsize
def utop : Word := uenvs
def uxstacktop : Word := utop
def ustacktop : Word := utop - 2#32 * pgsize
def utext : Word := 2#32 * ptsize
def utemp : Word := ptsize
def pftemp : Word := utemp + ptsize - pgsize

/-! ## Fields of a linear address -/

/-- `PGNUM(la)`. -/
def pgnum (la : Word) : Nat := (la >>> 12).toNat

/-- `PDX(la)`. -/
def pdx (la : Word) : Idx := Fin.ofNat 1024 ((la >>> 22) &&& 0x3FF#32).toNat

/-- `PTX(la)`. -/
def ptx (la : Word) : Idx := Fin.ofNat 1024 ((la >>> 12) &&& 0x3FF#32).toNat

/-- `PGADDR(d, t, o)`. -/
def pgaddr (d t : Idx) (o : Nat) : Word := BitVec.ofNat 32 (d.val <<< 22 ||| t.val <<< 12 ||| o)

/-- `PTE_ADDR(pte)`. -/
def pteAddr (pte : Word) : Word := pte &&& ~~~0xFFF#32

/-- `page2pa(pp)`, a page being its index in `pages`. -/
def page2pa (pp : Nat) : Word := BitVec.ofNat 32 pp <<< 12

/-- `ROUNDDOWN(a, n)`. -/
def rounddown (a n : Word) : Word := a - a % n

/-- `ROUNDUP(a, n)`. -/
def roundup (a n : Word) : Word := rounddown (a + n - 1#32) n

/-- `*pte & PTE_P`. -/
def present (w : Word) : Bool := w &&& pteP != 0#32

/-- The frame a present entry points at. -/
def dec (w : Word) : Option Nat := if present w then some (pgnum w) else none

/-- The first page directory entry that does not belong to the user part. -/
def userIdx (i : Idx) : Prop := i < pdx utop

instance : DecidablePred userIdx := fun i => inferInstanceAs (Decidable (i < pdx utop))

/-! ## The fields as numbers -/

/-- `x & ~(2^k - 1)`. -/
theorem clearLow_toNat (x : Word) (k : Nat) : (x &&& ~~~BitVec.ofNat 32 (2 ^ k - 1)).toNat = x.toNat / 2 ^ k * 2 ^ k := by
  have key : x &&& ~~~BitVec.ofNat 32 (2 ^ k - 1) = (x >>> k) <<< k := by
    apply BitVec.eq_of_getLsbD_eq
    intro i hi
    have hmask : (~~~BitVec.ofNat 32 (2 ^ k - 1)).getLsbD i = decide (k ≤ i) := by
      rw [BitVec.getLsbD_not, BitVec.getLsbD_ofNat, Nat.testBit_two_pow_sub_one]
      by_cases h : i < k
      · simp [h, hi, Nat.not_le.2 h]
      · simp [h, hi, Nat.not_lt.1 h]
    rw [BitVec.getLsbD_and, hmask, BitVec.getLsbD_shiftLeft, BitVec.getLsbD_ushiftRight]
    by_cases h : i < k
    · simp [h, Nat.not_le.2 h]
    · have e : k + (i - k) = i := by omega
      simp [h, Nat.not_lt.1 h, e, hi]
  have hle : x.toNat / 2 ^ k * 2 ^ k ≤ x.toNat := Nat.div_mul_le_self ..
  have := x.isLt
  rw [key, BitVec.toNat_shiftLeft, BitVec.toNat_ushiftRight, Nat.shiftRight_eq_div_pow, Nat.shiftLeft_eq,
    Nat.mod_eq_of_lt (by omega)]

theorem pgnum_eq (la : Word) : pgnum la = la.toNat / 4096 := by
  unfold pgnum; rw [BitVec.toNat_ushiftRight, Nat.shiftRight_eq_div_pow]

theorem pdx_val (la : Word) : (pdx la).val = la.toNat / 4194304 := by
  unfold pdx
  rw [Fin.val_ofNat, BitVec.toNat_and, BitVec.toNat_ushiftRight, Nat.shiftRight_eq_div_pow]
  have h : (0x3FF#32).toNat = 2 ^ 10 - 1 := by decide
  rw [h, Nat.and_two_pow_sub_one_eq_mod]
  have := la.isLt
  omega

theorem ptx_val (la : Word) : (ptx la).val = la.toNat / 4096 % 1024 := by
  unfold ptx
  rw [Fin.val_ofNat, BitVec.toNat_and, BitVec.toNat_ushiftRight, Nat.shiftRight_eq_div_pow]
  have h : (0x3FF#32).toNat = 2 ^ 10 - 1 := by decide
  rw [h, Nat.and_two_pow_sub_one_eq_mod]
  omega

/-- The directory and table indices of an address are its page number. -/
theorem pgnum_eq_idx (la : Word) : pgnum la = (pdx la).val * 1024 + (ptx la).val := by
  rw [pgnum_eq, pdx_val, ptx_val]; omega

theorem pgaddr_toNat (d t : Idx) : (pgaddr d t 0).toNat = d.val * 4194304 + t.val * 4096 := by
  have ht : t.val <<< 12 < 2 ^ 22 := by rw [Nat.shiftLeft_eq]; omega
  unfold pgaddr
  rw [Nat.or_zero, ← Nat.shiftLeft_add_eq_or_of_lt ht, BitVec.toNat_ofNat, Nat.shiftLeft_eq, Nat.shiftLeft_eq]
  omega

/-- `PGADDR` puts an address together from its fields. -/
theorem pdx_pgaddr (d t : Idx) : pdx (pgaddr d t 0) = d := by
  apply Fin.ext
  rw [pdx_val, pgaddr_toNat]; omega

theorem ptx_pgaddr (d t : Idx) : ptx (pgaddr d t 0) = t := by
  apply Fin.ext
  rw [ptx_val, pgaddr_toNat]; omega

theorem idx_eq_iff (a b : Word) : pdx a = pdx b ∧ ptx a = ptx b ↔ pgnum a = pgnum b := by
  rw [Fin.ext_iff, Fin.ext_iff, pgnum_eq_idx, pgnum_eq_idx]
  have := (ptx a).isLt
  have := (ptx b).isLt
  omega

theorem utop_toNat : utop.toNat = 0xeec00000 := by decide

theorem pdx_utop : (pdx utop).val = 955 := by decide

theorem userIdx_iff (i : Idx) : userIdx i ↔ i.val < 955 := by
  unfold userIdx; rw [Fin.lt_def, pdx_utop]

/-- `UTOP` is a multiple of `PTSIZE`: an address is below it exactly when its directory index is. -/
theorem userIdx_pdx (va : Word) : userIdx (pdx va) ↔ va < utop := by
  rw [userIdx_iff, pdx_val, BitVec.lt_def, utop_toNat]; omega

end Jos
