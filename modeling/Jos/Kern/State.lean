/-
The state of the kernel: physical memory, `pages[]` with its free list, `envs[]` with its free
list, the CPUs and the big kernel lock, and the programs of the kernel over it. Physical memory is
a word for each frame number and index, so that a page directory, a page table and a user page are
the same kind of thing. A kernel virtual address of a page (`page2kva(pp)`, `env_pgdir`) is the
frame number of the page, and a `struct PageInfo *` or `struct Env *` the index in its array.
-/
import Jos.Lib.EState
import Jos.Mmu.Word

namespace Jos

/-- `NENV`. -/
abbrev nenv : Nat := 1024

/-- A slot of `envs[]`. -/
abbrev Slot := Fin nenv

/-- A CPU (`NCPU` is 8). -/
abbrev Cpu := Fin 8

instance neZeroNcpu : NeZero 8 := ⟨by decide⟩

/-- `struct PageInfo`. -/
structure PageInfo where
  ppLink : Option Nat := none
  ppRef : BitVec 16 := 0#16
  deriving DecidableEq

/-- `struct PushRegs`. -/
structure PushRegs where
  regEdi : Word := 0#32
  regEsi : Word := 0#32
  regEbp : Word := 0#32
  regOesp : Word := 0#32
  regEbx : Word := 0#32
  regEdx : Word := 0#32
  regEcx : Word := 0#32
  regEax : Word := 0#32
  deriving DecidableEq

/-- `struct Trapframe`, less its padding. -/
structure Trapframe where
  tfRegs : PushRegs := {}
  tfEs : BitVec 16 := 0#16
  tfDs : BitVec 16 := 0#16
  tfTrapno : Word := 0#32
  tfErr : Word := 0#32
  tfEip : Word := 0#32
  tfCs : BitVec 16 := 0#16
  tfEflags : Word := 0#32
  tfEsp : Word := 0#32
  tfSs : BitVec 16 := 0#16
  deriving DecidableEq

/-- Values of `env_status`. -/
inductive EnvStatus where
  | free
  | dying
  | runnable
  | running
  | notRunnable
  deriving DecidableEq

/-- `enum EnvType`. -/
inductive EnvType where
  | user
  deriving DecidableEq

/-- `struct Env`. -/
structure Env where
  envTf : Trapframe := {}
  envLink : Option Slot := none
  envId : Word := 0#32
  envParentId : Word := 0#32
  envType : EnvType := .user
  envStatus : EnvStatus := .free
  envRuns : Word := 0#32
  envCpunum : Cpu := 0
  envPgdir : Option Nat := none
  envPgfaultUpcall : Word := 0#32
  envIpcRecving : Bool := false
  envIpcDstva : Word := 0#32
  envIpcValue : Word := 0#32
  envIpcFrom : Word := 0#32
  envIpcPerm : Word := 0#32
  deriving DecidableEq

/-- Values of `cpu_status`. -/
inductive CpuStatus where
  | unused
  | started
  | halted
  deriving DecidableEq

/-- `struct CpuInfo` with the paging registers of the CPU: `cr3` and the translations its TLB holds
(page number and entry). -/
structure CpuInfo where
  cpuStatus : CpuStatus := .unused
  cpuEnv : Option Slot := none
  cr3 : Word := 0#32
  tlb : List (Nat × Word) := []

/-- The state of the machine as the kernel sees it. `cpunum` is the CPU that is executing kernel
code. All physical memory is mapped above `KERNBASE`, so there are at most `2^16` pages. -/
structure State where
  npages : Nat
  npages_le : npages ≤ 2 ^ 16
  pages : Nat → PageInfo
  pageFreeList : Option Nat
  mem : Nat → Idx → Word
  kernPgdir : Nat
  envs : Slot → Env
  envFreeList : Option Slot
  cpus : Cpu → CpuInfo := fun _ => {}
  cpunum : Cpu := 0
  kernelLock : Option Cpu := none
  userMemCheckAddr : Word := 0#32

/-- How control leaves the kernel other than by returning. -/
inductive Stop where
  | panic
  | envPopTf
  | monitor
  deriving DecidableEq

/-- A kernel program: it returns, or control leaves it, in some state. -/
abbrev Kern := EStateM Stop State

/-! ## Error codes -/

def eBadEnv : Int := 2
def eInval : Int := 3
def eNoMem : Int := 4
def eNoFreeEnv : Int := 5
def eFault : Int := 6
def eIpcNotRecv : Int := 7

/-! ## Access to the state -/

/-- `thiscpu->cpu_env`. -/
def State.curenv (s : State) : Option Slot := (s.cpus s.cpunum).cpuEnv

def State.setMem (s : State) (f : Nat) (p : Idx → Word) : State :=
  { s with mem := Function.update s.mem f p }

def State.setWord (s : State) (f : Nat) (i : Idx) (w : Word) : State :=
  s.setMem f (Function.update (s.mem f) i w)

def State.setPage (s : State) (pp : Nat) (p : PageInfo) : State :=
  { s with pages := Function.update s.pages pp p }

def State.setRef (s : State) (pp : Nat) (r : BitVec 16) : State :=
  s.setPage pp { s.pages pp with ppRef := r }

def State.setEnv (s : State) (e : Slot) (v : Env) : State :=
  { s with envs := Function.update s.envs e v }

def State.setCpu (s : State) (c : CpuInfo) : State :=
  { s with cpus := Function.update s.cpus s.cpunum c }

/-- `curenv = e`. -/
def State.setCurenv (s : State) (e : Option Slot) : State :=
  s.setCpu { s.cpus s.cpunum with cpuEnv := e }

namespace Kern

def panic {α : Type} : Kern α := throw Stop.panic

/-- `*p` for a word of physical memory. -/
def load (p : Nat × Idx) : Kern Word := fun s => .ok (s.mem p.1 p.2) s

/-- `*p = w`. -/
def store (p : Nat × Idx) (w : Word) : Kern Unit := modify fun s => s.setWord p.1 p.2 w

/-- `memset(kva, 0, PGSIZE)` on a page. -/
def zeroPage (f : Nat) : Kern Unit := modify fun s => s.setMem f fun _ => 0#32

/-- `envs[e]`. -/
def env (e : Slot) : Kern Env := fun s => .ok (s.envs e) s

def modifyEnv (e : Slot) (f : Env → Env) : Kern Unit := modify fun s => s.setEnv e (f (s.envs e))

/-- A dereference through `curenv` or an `env_store`: a null pointer faults in the kernel. -/
def deref (e : Option Slot) : Kern Slot :=
  match e with
  | some e => pure e
  | none => panic

/-- A dereference through a kernel address of a page. -/
def derefPage (kva : Option Nat) : Kern Nat :=
  match kva with
  | some f => pure f
  | none => panic

section

variable {s : State}

@[simp] theorem run_panic {α : Type} : (panic : Kern α).run s = .error .panic s := rfl
@[simp] theorem run_load (p : Nat × Idx) : (load p).run s = .ok (s.mem p.1 p.2) s := rfl
@[simp] theorem run_store (p : Nat × Idx) (w : Word) : (store p w).run s = .ok () (s.setWord p.1 p.2 w) := rfl
@[simp] theorem run_zeroPage (f : Nat) : (zeroPage f).run s = .ok () (s.setMem f fun _ => 0#32) := rfl
@[simp] theorem run_env (e : Slot) : (env e).run s = .ok (s.envs e) s := rfl
@[simp] theorem run_modifyEnv (e : Slot) (f : Env → Env) :
    (modifyEnv e f).run s = .ok () (s.setEnv e (f (s.envs e))) := rfl
@[simp] theorem run_deref_some (e : Slot) : (deref (some e)).run s = .ok e s := rfl
@[simp] theorem run_deref_none : (deref none).run s = .error .panic s := rfl
@[simp] theorem run_derefPage_some (f : Nat) : (derefPage (some f)).run s = .ok f s := rfl
@[simp] theorem run_derefPage_none : (derefPage none).run s = .error .panic s := rfl

end

end Kern

end Jos
