/-
What the page functions of kern/pmap.c return, as equations: the allocator, the walk in each of
its cases, and lookup and removal at a user address of an environment, read off the views.
-/
import Jos.Vm.Moves

namespace Jos

open Lib

variable {b s : State} {M l : List Nat}

/-! ## Addresses -/

theorem run_kaddr (pa : Word) :
    (kaddr pa).run s = if pgnum pa < s.npages then .ok (pgnum pa) s else .error .panic s := by
  unfold kaddr
  rw [run_bind_ok (EStateM.run_get _)]
  by_cases h : pgnum pa < s.npages
  · rw [if_pos h, if_neg (by omega)]; rfl
  · rw [if_neg h, if_pos (by omega)]; rfl

theorem pa2page_eq (pa : Word) : pa2page pa = kaddr pa := rfl

theorem run_page2kva {p : Nat} (h : p < s.npages) : (page2kva p).run s = .ok p s := by
  have := s.npages_le
  have hp : pgnum (page2pa p) = p := pgnum_page2pa (by omega)
  unfold page2kva
  rw [run_kaddr, hp, if_pos h]

/-! ## The allocator -/

theorem pageAlloc_none (h : s.pageFreeList = none) (flags : Word) : (pageAlloc flags).run s = .ok none s := by
  simp [pageAlloc, h]

theorem pageAlloc_plain {p : Nat} (h : s.pageFreeList = some p) :
    (pageAlloc 0#32).run s = .ok (some p) (s.pop p) := by
  simp [pageAlloc, h, State.pop]

/-- `page_alloc(ALLOC_ZERO)` also clears the page. -/
theorem pageAlloc_zero {p : Nat} (h : s.pageFreeList = some p) (hp : p < s.npages) :
    (pageAlloc allocZero).run s = .ok (some p) ((s.pop p).setMem p fun _ => 0#32) := by
  have hk : (page2kva p).run (s.pop p) = .ok p (s.pop p) := run_page2kva hp
  unfold State.pop at hk ⊢
  simp [pageAlloc, h, hk, allocZero]

/-- `page_decref` as a function of the state. -/
def State.decref (s : State) (p : Nat) : State :=
  if (s.pages p).ppRef - 1#16 = 0#16 then (s.setRef p ((s.pages p).ppRef - 1#16)).push p
  else s.setRef p ((s.pages p).ppRef - 1#16)

theorem pageFree_push {p : Nat} (h : (s.pages p).ppRef = 0#16) : (pageFree p).run s = .ok () (s.push p) := by
  simp [pageFree, h, State.push]

@[simp] theorem run_pageDecref (p : Nat) : (pageDecref p).run s = .ok () (s.decref p) := by
  have href : ((s.setRef p ((s.pages p).ppRef - 1#16)).pages p).ppRef = (s.pages p).ppRef - 1#16 := by
    rw [setRef_ppRef, if_pos rfl]
  unfold pageDecref State.decref
  rw [run_bind_ok (EStateM.run_modify _ _), run_bind_ok (EStateM.run_get _), href]
  split
  · rename_i h0
    exact pageFree_push (href.trans h0)
  · rfl

/-! ## The TLB -/

/-- `tlb_invalidate` as a function of the state. -/
def State.tlbInval (s : State) (pgdir : Nat) (va : Word) : State :=
  { s with
    cpus := if s.curenv.all (fun e => (s.envs e).envPgdir = some pgdir) then
        Function.update s.cpus s.cpunum
          (CpuInfo.mk (s.cpus s.cpunum).cpuStatus (s.cpus s.cpunum).cpuEnv (s.cpus s.cpunum).cr3
            ((s.cpus s.cpunum).tlb.filter fun x => x.1 != pgnum va))
      else s.cpus }

@[simp] theorem run_tlbInvalidate (pgdir : Nat) (va : Word) :
    (tlbInvalidate pgdir va).run s = .ok () (s.tlbInval pgdir va) := by
  unfold tlbInvalidate State.tlbInval
  rw [run_bind_ok (EStateM.run_get _)]
  cases hc : s.curenv with
  | none => rfl
  | some e =>
    by_cases hp : (s.envs e).envPgdir = some pgdir
    · simp only [hp, if_true, Option.all_some, decide_true]; rfl
    · simp only [hp, if_false, Option.all_some, decide_false]; rfl

/-! ## The walk -/

theorem pgdirWalk_present {d : Nat} {va : Word} (hp : present (s.mem d (pdx va)) = true)
    (hn : pgnum (s.mem d (pdx va)) < s.npages) (create : Bool) :
    (pgdirWalk d va create).run s = .ok (some (pgnum (s.mem d (pdx va)), ptx va)) s := by
  simp [pgdirWalk, hp, run_kaddr, pgnum_pteAddr, hn]

theorem pgdirWalk_absent {d : Nat} {va : Word} (hp : present (s.mem d (pdx va)) = false) :
    (pgdirWalk d va false).run s = .ok none s := by
  simp [pgdirWalk, hp]

theorem pgdirWalk_noMem {d : Nat} {va : Word} (hp : present (s.mem d (pdx va)) = false)
    (hl : s.pageFreeList = none) : (pgdirWalk d va true).run s = .ok none s := by
  simp [pgdirWalk, hp, pageAlloc_none hl]

/-- A new page table `p` hung up at entry `i` of directory `d`. -/
def State.hang (s : State) (d : Nat) (i : Idx) (p : Nat) : State :=
  (((s.pop p).setMem p fun _ => 0#32).setRef p 1#16).setWord d i (page2pa p ||| pteP ||| pteU ||| pteW)

theorem pgdirWalk_create {d p : Nat} {va : Word} (hp : present (s.mem d (pdx va)) = false)
    (hl : s.pageFreeList = some p) (hn : p < s.npages) :
    (pgdirWalk d va true).run s = .ok (some (p, ptx va)) (s.hang d (pdx va) p) := by
  have hk : (page2kva p).run (((s.pop p).setMem p fun _ => 0#32).setRef p 1#16) =
      .ok p (((s.pop p).setMem p fun _ => 0#32).setRef p 1#16) := run_page2kva hn
  simp [pgdirWalk, hp, pageAlloc_zero hl hn, hk, State.hang]

end Jos
