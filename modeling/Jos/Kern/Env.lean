/-
Environments, as kern/env.c and kern/sched.c handle them: resolving an envid, creating an
environment with its address space, freeing and destroying it, choosing the next one and running
it. `env_run` and `sched_yield` do not return: control leaves through `env_pop_tf`, or the CPU
stays in the monitor.
-/
import Jos.Kern.Pmap

namespace Jos

open Kern

/-- `ENVX(envid)`. -/
def envx (envid : Word) : Slot := Fin.ofNat nenv (envid &&& 1023#32).toNat

/-- Returns the code and the environment stored in `*env_store`. -/
def envid2env (envid : Word) (checkperm : Bool) : Kern (Int × Option Slot) := do
  let s ← get
  if envid = 0#32 then
    return (0, s.curenv)
  let e := envx envid
  let v ← env e
  if v.envStatus = .free ∨ v.envId ≠ envid then
    return (-eBadEnv, none)
  if checkperm = true ∧ some e ≠ s.curenv then
    let cur ← env (← deref s.curenv)
    if v.envParentId ≠ cur.envId then
      return (-eBadEnv, none)
  return (0, some e)

/-- One turn of the loop of `env_init`: `env_free_list` points at the last slot linked so far. -/
def envInitSlot (i : Slot) : Kern Unit := do
  modifyEnv i fun v => { v with envStatus := .free, envId := 0#32 }
  let last ← deref (← get).envFreeList
  modifyEnv last fun v => { v with envLink := some i }
  modify fun s => { s with envFreeList := some i }

def envInit : Kern Unit := do
  modify fun s => { s with envFreeList := some 0 }
  (List.finRange nenv).forM envInitSlot
  let last ← deref (← get).envFreeList
  modifyEnv last fun v => { v with envLink := none }
  modify fun s => { s with envFreeList := some 0 }

/-! ## Creating an environment -/

/-- The page directory `env_setup_vm` builds in frame `p`: empty below `UTOP`, the entries of
`kern_pgdir` above it, and the directory itself at `UVPT`. -/
def envPgdirPage (kern : Idx → Word) (p : Nat) : Idx → Word := fun i =>
  if i = pdx uvpt then page2pa p ||| pteP ||| pteU
  else if i < pdx utop then 0#32
  else kern i

def envSetupVm (e : Slot) : Kern Int := do
  match ← pageAlloc allocZero with
  | none => return -eNoMem
  | some p =>
    modify fun s => s.setRef p ((s.pages p).ppRef + 1#16)
    let kva ← page2kva p
    modifyEnv e fun v => { v with envPgdir := some kva }
    modify fun s => s.setMem kva (envPgdirPage (s.mem s.kernPgdir) p)
    return 0

/-- `generation` of `env_alloc`, a signed 32-bit number. -/
def envGeneration (id : Word) : Word :=
  let generation := (id + (1#32 <<< 12)) &&& ~~~1023#32
  if generation.toInt ≤ 0 then 1#32 <<< 12 else generation

def gdUt : BitVec 16 := 0x18#16
def gdUd : BitVec 16 := 0x20#16
def flIf : Word := 0x200#32

/-- The trap frame of a new environment. -/
def newTf : Trapframe :=
  { tfDs := gdUd ||| 3#16, tfEs := gdUd ||| 3#16, tfSs := gdUd ||| 3#16, tfEsp := ustacktop,
    tfCs := gdUt ||| 3#16, tfEflags := flIf }

/-- What `env_alloc` writes to the record of slot `e` once its directory is set up. -/
def newEnv (e : Slot) (parentId : Word) (v : Env) : Env :=
  { v with
    envId := envGeneration v.envId ||| BitVec.ofNat 32 e.val
    envParentId := parentId
    envType := .user
    envStatus := .runnable
    envRuns := 0#32
    envTf := newTf
    envPgfaultUpcall := 0#32
    envIpcRecving := false }

/-- Returns the code and the environment stored in `*newenv_store`. -/
def envAlloc (parentId : Word) : Kern (Int × Option Slot) := do
  match (← get).envFreeList with
  | none => return (-eNoFreeEnv, none)
  | some e =>
    let r ← envSetupVm e
    if r < 0 then
      return (r, none)
    modifyEnv e (newEnv e parentId)
    modify fun s => { s with envFreeList := (s.envs e).envLink }
    return (0, some e)

/-! ## Freeing an environment -/

/-- One turn of the inner loop of `env_free`: unmap an entry of the page table `pt`. -/
def envFreePte (pgdir : Nat) (pdeno : Idx) (pt : Nat) (pteno : Idx) : Kern Unit := do
  if present (← load (pt, pteno)) then
    pageRemove pgdir (pgaddr pdeno pteno 0)

/-- One turn of the outer loop of `env_free`. -/
def envFreePde (pgdir : Nat) (pdeno : Idx) : Kern Unit := do
  let pde ← load (pgdir, pdeno)
  if present pde then
    let pa := pteAddr pde
    let pt ← kaddr pa
    (List.finRange 1024).forM (envFreePte pgdir pdeno pt)
    store (pgdir, pdeno) 0#32
    pageDecref (← pa2page pa)

/-- Flush all mapped pages in the user portion of the address space. -/
def envFlush (e : Slot) : Kern Unit := do
  let pgdir ← derefPage (← env e).envPgdir
  ((List.finRange 1024).filter (· < pdx utop)).forM (envFreePde pgdir)

/-- Free the page directory and return the environment to the free list. -/
def envRetire (e : Slot) : Kern Unit := do
  let pa ← paddr (← env e).envPgdir
  modifyEnv e fun v => { v with envPgdir := none }
  pageDecref (← pa2page pa)
  modify fun s =>
    { s.setEnv e { s.envs e with envStatus := .free, envLink := s.envFreeList } with envFreeList := some e }

def envFree (e : Slot) : Kern Unit := do
  let s ← get
  if s.curenv = some e then
    lcr3 (page2pa s.kernPgdir)
  envFlush e
  envRetire e

/-! ## Running an environment -/

def unlockKernel : Kern Unit := do
  let s ← get
  if s.kernelLock ≠ some s.cpunum then panic
  set { s with kernelLock := none }

def envPopTf : Kern Unit := do
  let s ← get
  let e ← deref s.curenv
  modifyEnv e fun v => { v with envCpunum := s.cpunum }
  throw Stop.envPopTf

def envRun (e : Slot) : Kern Unit := do
  match (← get).curenv with
  | none => pure ()
  | some c =>
    if (← env c).envStatus = .running then
      modifyEnv c fun v => { v with envStatus := .runnable }
  modify fun s => s.setCurenv (some e)
  modifyEnv e fun v => { v with envStatus := .running, envRuns := v.envRuns + 1#32 }
  lcr3 (← paddr (← env e).envPgdir)
  unlockKernel
  envPopTf

/-- The search loop of `sched_yield`: `rounds` turns are left and `ptr` is the slot `curenvptr`
points at. Wrapping around skips slot 0, which is tried after the loop. -/
def schedLoop : Nat → Nat → Kern Unit
  | 0, _ => pure ()
  | rounds + 1, ptr => do
    let ptr := if ptr ≥ nenv then 1 else ptr
    let e : Slot := Fin.ofNat nenv ptr
    if (← env e).envStatus = .runnable then
      envRun e
    schedLoop rounds (ptr + 1)

def schedYield : Kern Unit := do
  let s ← get
  let ptr := match s.curenv with
    | none => 0
    | some e => e.val
  schedLoop nenv (ptr + 1)
  if (← env 0).envStatus = .runnable then
    envRun 0
  else
    throw Stop.monitor

/-! ## Destroying an environment -/

def envDestroy (e : Slot) : Kern Unit := do
  let s ← get
  if (s.envs e).envStatus = .running ∧ s.curenv ≠ some e then
    modifyEnv e fun v => { v with envStatus := .dying }
  else
    envFree e
    if (← get).curenv = some e then
      modify fun s => s.setCurenv none
      schedYield

def userMemAssert (e : Slot) (va len perm : Word) : Kern Unit := do
  let r ← userMemCheck e va len (perm ||| pteU)
  if r < 0 then
    envDestroy e

end Jos
