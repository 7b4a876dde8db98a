/-
The page functions of kern/pmap.c and kern/pmap.h: the page allocator with its reference counts,
the two-level walk, mapping and unmapping, and the check of user memory.
-/
import Jos.Kern.State

namespace Jos

open Kern

/-- `ALLOC_ZERO`. -/
def allocZero : Word := 1#32

/-! ## Kernel addresses -/

/-- `KADDR(pa)`: the frame of `pa`; it panics on a physical address outside memory. -/
def kaddr (pa : Word) : Kern Nat := do
  let s ← get
  if pgnum pa ≥ s.npages then panic else return pgnum pa

/-- `pa2page(pa)`. -/
def pa2page (pa : Word) : Kern Nat := do
  let s ← get
  if pgnum pa ≥ s.npages then panic else return pgnum pa

/-- `page2kva(pp)`. -/
def page2kva (pp : Nat) : Kern Nat := kaddr (page2pa pp)

/-- `PADDR(kva)` of a page pointer: it panics on a null pointer. -/
def paddr (kva : Option Nat) : Kern Word :=
  match kva with
  | some f => pure (page2pa f)
  | none => panic

/-! ## The page allocator -/

def pageAlloc (allocFlags : Word) : Kern (Option Nat) := do
  let s ← get
  match s.pageFreeList with
  | none => return none
  | some p =>
    set { s with pageFreeList := (s.pages p).ppLink }
    if allocFlags &&& allocZero ≠ 0#32 then
      let q ← page2kva p
      zeroPage q
    return some p

def pageFree (pp : Nat) : Kern Unit := do
  let s ← get
  if (s.pages pp).ppRef = 0#16 then
    set { s.setPage pp { s.pages pp with ppLink := s.pageFreeList } with pageFreeList := some pp }

def pageDecref (pp : Nat) : Kern Unit := do
  modify fun s => s.setRef pp ((s.pages pp).ppRef - 1#16)
  let s ← get
  if (s.pages pp).ppRef = 0#16 then
    pageFree pp

/-! ## The processor's view -/

/-- `lcr3(pa)`: load the page directory, which empties the TLB. -/
def lcr3 (pa : Word) : Kern Unit :=
  modify fun s => s.setCpu { s.cpus s.cpunum with cr3 := pa, tlb := [] }

/-- `invlpg(va)`: drop the entries of the page of `va`. -/
def invlpg (va : Word) : Kern Unit :=
  modify fun s => s.setCpu
    { s.cpus s.cpunum with tlb := (s.cpus s.cpunum).tlb.filter fun x => x.1 != pgnum va }

def tlbInvalidate (pgdir : Nat) (va : Word) : Kern Unit := do
  let s ← get
  match s.curenv with
  | none => invlpg va
  | some e => if (s.envs e).envPgdir = some pgdir then invlpg va

/-! ## Page tables -/

/-- A `pte_t *` is the address of a word of a page table. -/
def pgdirWalk (pgdir : Nat) (va : Word) (create : Bool) : Kern (Option (Nat × Idx)) := do
  let pde ← load (pgdir, pdx va)
  if present pde then
    let pgtab ← kaddr (pteAddr pde)
    return some (pgtab, ptx va)
  else if create = false then
    return none
  else
    match ← pageAlloc allocZero with
    | none => return none
    | some temp =>
      modify fun s => s.setRef temp 1#16
      let pgtab ← page2kva temp
      store (pgdir, pdx va) (page2pa temp ||| pteP ||| pteU ||| pteW)
      return some (pgtab, ptx va)

/-- Returns the page and the `pte_t *` it stores in `*pte_store`. -/
def pageLookup (pgdir : Nat) (va : Word) : Kern (Option Nat × Option (Nat × Idx)) := do
  match ← pgdirWalk pgdir va false with
  | none => return (none, none)
  | some temp =>
    let pte ← load temp
    if present pte then
      let pp ← pa2page (pteAddr pte)
      return (some pp, some temp)
    else
      return (none, some temp)

def pageRemove (pgdir : Nat) (va : Word) : Kern Unit := do
  match ← pageLookup pgdir va with
  | (some temp, some pte) =>
    pageDecref temp
    tlbInvalidate pgdir va
    store pte 0#32
  | _ => return ()

def pageInsert (pgdir pp : Nat) (va perm : Word) : Kern Int := do
  match ← pgdirWalk pgdir va true with
  | none => return -eNoMem
  | some pte =>
    let old ← load pte
    if present old then
      if pteAddr old = page2pa pp then
        modify fun s => s.setRef pp ((s.pages pp).ppRef - 1#16)
        tlbInvalidate pgdir va
      else
        pageRemove pgdir va
    modify fun s => s.setRef pp ((s.pages pp).ppRef + 1#16)
    store pte (page2pa pp ||| perm ||| pteP)
    return 0

/-! ## Checking user memory -/

theorem start_lt_next {start : Word} (h : ¬ ulim ≤ start) :
    start.toNat < (rounddown start pgsize + pgsize).toNat := by
  have hlt : start.toNat < 0xef800000 := by
    have := BitVec.lt_def.1 (BitVec.not_le.1 h)
    exact this
  have hp : pgsize.toNat = 4096 := rfl
  have hmod : (start % pgsize).toNat = start.toNat % 4096 := by rw [BitVec.toNat_umod, hp]
  unfold rounddown
  rw [BitVec.toNat_add, BitVec.toNat_sub, hmod, hp]
  omega

/-- `pte==NULL || (*pte & perm)!= perm`. -/
def pteLacks (pte : Option (Nat × Idx)) (perm : Word) : Kern Bool := do
  match pte with
  | none => return true
  | some p =>
    let w ← load p
    return w &&& perm != perm

/-- The loop of `user_mem_check`; `perm` already holds `PTE_U|PTE_P`. -/
def userMemCheckLoop (pgdir : Option Nat) (start stop perm : Word) : Kern Int :=
  if start < stop then
    if _h : ulim ≤ start then do
      modify fun s => { s with userMemCheckAddr := start }
      return -eFault
    else do
      let d ← derefPage pgdir
      let pte ← pgdirWalk d start false
      if ← pteLacks pte perm then
        modify fun s => { s with userMemCheckAddr := start }
        return -eFault
      else
        userMemCheckLoop pgdir (rounddown start pgsize + pgsize) stop perm
  else
    return 0
termination_by 2 ^ 32 - start.toNat
decreasing_by
  have := start_lt_next _h
  have := (rounddown start pgsize + pgsize).isLt
  omega

def userMemCheck (e : Slot) (va len perm : Word) : Kern Int := do
  let v ← env e
  userMemCheckLoop v.envPgdir va (va + len) (perm ||| pteU ||| pteP)

end Jos
