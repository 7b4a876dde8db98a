/-
The algebra of page table entries `page2pa(pp)|perm|PTE_P`: what an entry made from a page and a
permission points at, and which flags it carries. With `perm` in the low twelve bits the entry
points at the page and carries `perm|PTE_P`; a `perm` with higher bits is OR-ed into the address.
-/
import Jos.Mmu.Word

namespace Jos

/-- The entry `page2pa(pp)|perm|PTE_P`. -/
def entry (pp : Nat) (perm : Word) : Word := page2pa pp ||| perm ||| pteP

/-- The permission lies in the low twelve bits of an entry. -/
def LowPerm (perm : Word) : Prop := perm.toNat < 4096

instance : DecidablePred LowPerm := fun perm => inferInstanceAs (Decidable (perm.toNat < 4096))

theorem page2pa_toNat {pp : Nat} (h : pp < 2 ^ 20) : (page2pa pp).toNat = pp * 4096 := by
  unfold page2pa
  rw [BitVec.toNat_shiftLeft, BitVec.toNat_ofNat, Nat.shiftLeft_eq]
  omega

theorem pgnum_page2pa {pp : Nat} (h : pp < 2 ^ 20) : pgnum (page2pa pp) = pp := by
  rw [pgnum_eq, page2pa_toNat h]; omega

theorem pgnum_or (a b : Word) : pgnum (a ||| b) = pgnum a ||| pgnum b := by
  unfold pgnum; rw [BitVec.ushiftRight_or_distrib, BitVec.toNat_or]

theorem pgnum_pteP : pgnum pteP = 0 := by decide

/-- An entry points at the page number of `pp` with the high bits of `perm` OR-ed in. -/
theorem pgnum_entry {pp : Nat} (h : pp < 2 ^ 20) (perm : Word) : pgnum (entry pp perm) = pp ||| pgnum perm := by
  unfold entry; rw [pgnum_or, pgnum_or, pgnum_pteP, pgnum_page2pa h, Nat.or_zero]

theorem pgnum_low {perm : Word} (h : LowPerm perm) : pgnum perm = 0 := by
  unfold LowPerm at h; rw [pgnum_eq]; omega

theorem pgnum_entry_low {pp : Nat} (h : pp < 2 ^ 20) {perm : Word} (hp : LowPerm perm) :
    pgnum (entry pp perm) = pp := by
  rw [pgnum_entry h, pgnum_low hp, Nat.or_zero]

theorem pteAddr_toNat (w : Word) : (pteAddr w).toNat = pgnum w * 4096 := by
  rw [pgnum_eq]
  exact clearLow_toNat w 12

theorem pgnum_pteAddr (w : Word) : pgnum (pteAddr w) = pgnum w := by
  rw [pgnum_eq (pteAddr w), pteAddr_toNat]; omega

theorem pteAddr_eq_page2pa {w : Word} {pp : Nat} (h : pp < 2 ^ 20) : pteAddr w = page2pa pp ↔ pgnum w = pp := by
  constructor
  · intro e
    rw [← pgnum_pteAddr, e, pgnum_page2pa h]
  · intro e
    apply BitVec.eq_of_toNat_eq
    rw [pteAddr_toNat, page2pa_toNat h, e]

/-! ## Flags -/

/-- Testing a single-bit flag reads that bit. -/
theorem and_flag_eq_zero (w : Word) {k : Nat} (hk : k < 32) :
    w &&& BitVec.twoPow 32 k = 0#32 ↔ w.getLsbD k = false := by
  rw [BitVec.and_twoPow]
  split
  · rename_i h
    have : BitVec.twoPow 32 k ≠ 0#32 := fun hc => by
      have := congrArg (fun x : Word => x.getLsbD k) hc
      simp [hk] at this
    simp [h, this]
  · rename_i h
    simpa using h

theorem pteP_eq : pteP = BitVec.twoPow 32 0 := by decide
theorem pteW_eq : pteW = BitVec.twoPow 32 1 := by decide
theorem pteU_eq : pteU = BitVec.twoPow 32 2 := by decide
theorem present_eq (w : Word) : present w = w.getLsbD 0 := by
  have h := and_flag_eq_zero w (show 0 < 32 by decide)
  rw [← pteP_eq] at h
  unfold present
  cases hw : w.getLsbD 0
  · rw [h.2 hw]; rfl
  · rw [bne_iff_ne]
    intro hc
    rw [h.1 hc] at hw; cases hw

@[simp] theorem present_zero : present 0#32 = false := by decide

@[simp] theorem dec_zero : dec 0#32 = none := by decide

@[simp] theorem present_entry (pp : Nat) (perm : Word) : present (entry pp perm) = true := by
  rw [present_eq]; unfold entry; simp [pteP]

theorem dec_entry {pp : Nat} (h : pp < 2 ^ 20) (perm : Word) : dec (entry pp perm) = some (pp ||| pgnum perm) := by
  unfold dec; rw [present_entry, if_pos rfl, pgnum_entry h]

theorem dec_entry_low {pp : Nat} (h : pp < 2 ^ 20) {perm : Word} (hp : LowPerm perm) :
    dec (entry pp perm) = some pp := by
  rw [dec_entry h, pgnum_low hp, Nat.or_zero]

theorem dec_eq_some {w : Word} {f : Nat} : dec w = some f ↔ present w = true ∧ pgnum w = f := by
  unfold dec; split <;> simp_all

end Jos
