/-
A machine of 512 pages as `mem_init` and `env_init` leave it: 128 pages are free, the page directory
of the kernel and its page tables lie above them, and all environments are free.
-/
import Jos.Run.Ops

namespace Jos

open Lib Kern

/-! ## The machine -/

/-- The pages `n`, ..., 1. -/
def pagesDown : Nat → List Nat
  | 0 => []
  | n + 1 => (n + 1) :: pagesDown n

/-- The entry `pgdir_walk` writes for a new page table. -/
def tablePde (n : Nat) : Word := page2pa n ||| pteP ||| pteU ||| pteW

/-- Physical memory: `kern_pgdir` is page 256, the tables that map `envs[]`, `pages[]` and the kernel
stacks are 257, 258 and 259, and the tables that map all memory at `KERNBASE` come after them. -/
def bootMem (f : Nat) (i : Idx) : Word :=
  if f = 256 then
    if i = pdx uvpt then page2pa 256 ||| pteU ||| pteP
    else if i = pdx uenvs then tablePde 257
    else if i = pdx upages then tablePde 258
    else if i = pdx mmiolim then tablePde 259
    else if pdx kernbase ≤ i then tablePde (260 + (i.val - (pdx kernbase).val))
    else 0#32
  else if f = 257 then if i.val < 32 then entry (330 + i.val) pteU else 0#32
  else if f = 258 then if i.val < 1 then entry 362 pteU else 0#32
  else if f = 259 then if 1016 ≤ i.val then entry (364 + (i.val - 1016)) pteW else 0#32
  else if 260 ≤ f ∧ f < 324 then entry ((f - 260) * 1024 + i.val) pteW
  else 0#32

/-- `pages[]`: pages 1 to 128 are linked downwards, and the page tables of the kernel have a reference. -/
def bootPage (f : Nat) : PageInfo :=
  { ppLink := if 2 ≤ f ∧ f ≤ 128 then some (f - 1) else none
    ppRef := if 257 ≤ f ∧ f < 324 then 1#16 else 0#16 }

/-- The slot after `e` in an array of `n`. -/
def nextSlot {n : Nat} (e : Fin n) : Option (Fin n) := if h : e.val + 1 < n then some ⟨e.val + 1, h⟩ else none

/-- `envs[]`, linked upwards. -/
def bootEnv (e : Slot) : Env := { envLink := nextSlot e }

def bootState : State where
  npages := 512
  npages_le := by decide
  pages := bootPage
  pageFreeList := some 128
  mem := bootMem
  kernPgdir := 256
  envs := bootEnv
  envFreeList := some 0

/-! ## It is a start of runs -/

theorem mem_pagesDown {n f : Nat} : f ∈ pagesDown n ↔ 1 ≤ f ∧ f ≤ n := by
  induction n with
  | zero => simp [pagesDown]; omega
  | succ n ih => rw [pagesDown, List.mem_cons, ih]; omega

theorem nodup_pagesDown (n : Nat) : (pagesDown n).Nodup := by
  induction n with
  | zero => exact List.nodup_nil
  | succ n ih => exact ih.cons (by rw [mem_pagesDown]; omega)

theorem chain_pagesDown {n : Nat} (hn : n ≤ 128) :
    Chain (fun p => (bootPage p).ppLink) (if n = 0 then none else some n) (pagesDown n) := by
  induction n with
  | zero => rfl
  | succ n ih =>
    refine ⟨by rw [if_neg (by omega)], ?_⟩
    have hlink : (bootPage (n + 1)).ppLink = if n = 0 then none else some n := by
      unfold bootPage
      by_cases h0 : n = 0
      · subst h0; rfl
      · simp [h0]; omega
    beta_reduce
    rw [hlink]
    exact ih (by omega)

theorem chain_nextSlot {n : Nat} (h : 0 < n) : Chain nextSlot (some ⟨0, h⟩) (slotOrder n) := by
  refine chain_slotOrder _ rfl (fun i j hij => ?_) fun i hi => ?_
  · unfold nextSlot
    rw [dif_pos (by omega)]
    exact congrArg some (Fin.ext hij.symm)
  · unfold nextSlot
    exact dif_neg (by omega)

theorem bootState_booted : Booted bootState (pagesDown 128) where
  chain := chain_pagesDown (le_refl 128)
  nodup := nodup_pagesDown 128
  freeM _ hf := hf
  freeRef f hf := by
    rw [mem_pagesDown] at hf
    show (bootPage f).ppRef = 0#16
    have hn : ¬ (257 ≤ f ∧ f < 324) := by omega
    simp [bootPage, hn]
  managed f hf := by
    rw [mem_pagesDown] at hf
    show f < 512
    omega
  kernM h := by
    rw [mem_pagesDown] at h
    exact absurd h.2 (by decide)
  envChain := chain_nextSlot (by decide)
  envFree _ := rfl

/-- The machine after its first environment was created. -/
def firstEnv : State := bootState.spawn 0 128 0#32

end Jos
