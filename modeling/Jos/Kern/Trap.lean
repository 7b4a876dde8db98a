/-
Traps from user mode, as kern/trap.c handles them: the lock is taken, a zombie is collected, the
trap frame is saved in `curenv` and the trap is dispatched. The console and CR2 are outside the
state and come as arguments. What `T_SYSCALL` calls is an argument of `trap`, since `syscall` of
kern/syscall.c dispatches four of the `sys_*` functions only.
-/
import Jos.Kern.Syscall

namespace Jos

open Kern

/-! ## Trap numbers -/

def tBrkpt : Word := 3#32
def tPgflt : Word := 14#32
def tSyscall : Word := 48#32
def irqOffset : Word := 32#32
def irqTimer : Word := 0#32
def irqSpurious : Word := 7#32
def gdKt : BitVec 16 := 8#16

/-! ## The kernel lock -/

/-- `spin_lock(&kernel_lock)`, at the moment at which no other CPU holds it: the CPU spins until then. -/
def lockKernel : Kern Unit := do
  let s ← get
  if s.kernelLock = some s.cpunum then panic
  set { s with kernelLock := some s.cpunum }

/-! ## The user trap frame -/

/-- `struct UTrapframe`. -/
structure UTrapframe where
  utfFaultVa : Word
  utfErr : Word
  utfRegs : PushRegs
  utfEip : Word
  utfEflags : Word
  utfEsp : Word
  deriving DecidableEq

/-- `sizeof(struct UTrapframe)`. -/
def utfSize : Word := 52#32

/-- The words of a `struct UTrapframe`, from its lowest address up. -/
def UTrapframe.words (u : UTrapframe) : List Word :=
  [u.utfFaultVa, u.utfErr, u.utfRegs.regEdi, u.utfRegs.regEsi, u.utfRegs.regEbp, u.utfRegs.regOesp, u.utfRegs.regEbx,
    u.utfRegs.regEdx, u.utfRegs.regEcx, u.utfRegs.regEax, u.utfEip, u.utfEflags, u.utfEsp]

/-- The frame `page_fault_handler` fills in. -/
def faultFrame (tf : Trapframe) (faultVa : Word) : UTrapframe :=
  { utfFaultVa := faultVa, utfErr := tf.tfErr, utfRegs := tf.tfRegs, utfEip := tf.tfEip, utfEflags := tf.tfEflags,
    utfEsp := tf.tfEsp }

/-- Where the frame goes: below the stack pointer when that is on the exception stack, with a word
of scratch space in between, and at the top of the exception stack otherwise. -/
def utfAddr (esp : Word) : Word :=
  if uxstacktop - pgsize ≤ esp ∧ esp < uxstacktop then esp - utfSize - 4#32 else uxstacktop - utfSize

/-- The word of memory that a kernel access to `va` reaches through CR3: the page has to be present
and writable. -/
def State.translate (s : State) (va : Word) : Option (Nat × Idx) :=
  let pde := s.mem (pgnum (s.cpus s.cpunum).cr3) (pdx va)
  let pte := s.mem (pgnum pde) (ptx va)
  if present pde ∧ present pte ∧ pte &&& pteW ≠ 0#32 then
    some (pgnum pte, Fin.ofNat 1024 (va.toNat / 4 % 1024))
  else none

/-- The word with byte `k` replaced. -/
def setByte (w : Word) (k : Nat) (x : BitVec 8) : Word :=
  (w &&& ~~~(0xFF#32 <<< (8 * k))) ||| (x.setWidth 32 <<< (8 * k))

/-- A store of a byte by the kernel to a user address; a fault there is a kernel-mode page fault. -/
def storeByte (va : Word) (x : BitVec 8) : Kern Unit := do
  let s ← get
  match s.translate va with
  | some p => store p (setByte (s.mem p.1 p.2) (va.toNat % 4) x)
  | none => panic

/-- A store of a word, which need not be aligned. -/
def storeWord (va w : Word) : Kern Unit :=
  [0, 1, 2, 3].forM fun k => storeByte (va + BitVec.ofNat 32 k) (getByte w k)

def storeUtf (utf : Word) (u : UTrapframe) : Kern Unit :=
  (u.words.zipIdx).forM fun wi => storeWord (utf + BitVec.ofNat 32 (4 * wi.2)) wi.1

/-! ## Traps -/

def pageFaultHandler (tf : Trapframe) (faultVa : Word) : Kern Unit := do
  if tf.tfCs &&& 3#16 = 0#16 then
    panic
  let cur ← deref (← get).curenv
  let upcall := (← env cur).envPgfaultUpcall
  if upcall ≠ 0#32 then
    let utf := utfAddr tf.tfEsp
    userMemAssert cur utf utfSize (pteU ||| pteW)
    storeUtf utf (faultFrame tf faultVa)
    modifyEnv cur fun v => { v with envTf := { v.envTf with tfEip := upcall, tfEsp := utf } }
    envRun cur
  envDestroy cur

/-- `syscall` with the registers in which `trap_dispatch` passes its arguments; `cons` is the character
that `cons_getc` delivers. -/
def syscall (cons : Int) (regs : PushRegs) : Kern Int := do
  if regs.regEax = 0#32 then
    sysCputs regs.regEdx regs.regEcx
    return 0
  else if regs.regEax = 1#32 then
    return cons
  else if regs.regEax = 2#32 then
    return (← sysGetenvid).toInt
  else if regs.regEax = 3#32 then
    sysEnvDestroy regs.regEdx
  else
    return -eInval

/-- The result of a system call goes to the saved `eax`. -/
def setEax (r : Int) (v : Env) : Env :=
  { v with envTf := { v.envTf with tfRegs := { v.envTf.tfRegs with regEax := BitVec.ofInt 32 r } } }

/-- `trap_dispatch` for a frame that has been saved in `curenv`. After a breakpoint the CPU stays in the monitor,
since no command of the monitor leaves it. -/
def trapDispatch (sys : Kern Int) (tf : Trapframe) (faultVa : Word) : Kern Unit := do
  if tf.tfTrapno = irqOffset + irqSpurious then
    return
  if tf.tfTrapno = irqOffset + irqTimer then
    schedYield
  if tf.tfTrapno = tPgflt then
    pageFaultHandler tf faultVa
  if tf.tfTrapno = tBrkpt then
    throw Stop.monitor
  if tf.tfTrapno = tSyscall then
    let cur ← deref (← get).curenv
    let r ← sys
    modifyEnv cur (setEax r)
    return
  if tf.tfCs = gdKt then
    panic
  else
    envDestroy (← deref (← get).curenv)

/-- The end of `trap`: back to the current environment if that makes sense. -/
def trapReturn : Kern Unit := do
  match (← get).curenv with
  | none => schedYield
  | some c =>
    if (← env c).envStatus = .running then
      envRun c
    else
      schedYield

/-- `trap` for a frame from user mode. -/
def trap (sys : Kern Int) (tf : Trapframe) (faultVa : Word) : Kern Unit := do
  let cpu := (← get).cpus (← get).cpunum
  modify fun s => s.setCpu { cpu with cpuStatus := .started }
  if cpu.cpuStatus = .halted then
    lockKernel
  lockKernel
  let cur ← deref (← get).curenv
  if (← env cur).envStatus = .dying then
    envFree cur
    modify fun s => s.setCurenv none
    schedYield
  modifyEnv cur fun v => { v with envTf := tf }
  trapDispatch sys tf faultVa
  trapReturn

end Jos
