/-
The system calls of kern/syscall.c, as functions of the calling environment `curenv`. An `int` or
`unsigned` argument is a 32-bit word; where the code compares it with zero, the comparison is the
signed one for an `int` and the unsigned one for an `unsigned`. `sys_page_alloc` is read as taking
its page from `page_alloc(0)` and failing when there is none.
-/
import Jos.Kern.Env

namespace Jos

open Kern

/-- `ENV_RUNNABLE` and `ENV_NOT_RUNNABLE` as the `int` that `sys_env_set_status` takes. -/
def statusOfInt (status : Word) : Option EnvStatus :=
  if status = 2#32 then some .runnable else if status = 4#32 then some .notRunnable else none

/-- `(perm & PTE_U) == 0 || (perm & PTE_P) == 0`. -/
def permUnset (perm : Word) : Prop := perm &&& pteU = 0#32 ∨ perm &&& pteP = 0#32

instance : DecidablePred permUnset := fun perm =>
  inferInstanceAs (Decidable (perm &&& pteU = 0#32 ∨ perm &&& pteP = 0#32))

/-! ## The string that sys_cputs prints -/

/-- What the loop for `%s` does: it reads a byte, prints a character, or ends; or it faults. -/
inductive PrintEvent where
  | read (va : Word)
  | putch (ch : Int)
  | fault
  | done
  deriving DecidableEq

/-- `for (; (ch = *p++) != '\0' && (precision < 0 || --precision >= 0); width--) putch(ch, putdat)`, up to
`n` bytes; `mem` is memory as the kernel reads it. A `char` is signed. -/
def strLoop (mem : Word → Option (BitVec 8)) : Nat → Word → Int → List PrintEvent
  | 0, _, _ => []
  | n + 1, p, precision =>
    match mem p with
    | none => [.read p, .fault]
    | some b =>
      if b.toInt ≠ 0 ∧ (precision < 0 ∨ 0 ≤ precision - 1) then
        .read p :: .putch b.toInt :: strLoop mem n (p + 1#32) (if precision < 0 then precision else precision - 1)
      else [.read p, .done]

/-- `"(null)"`, which is printed for a null pointer. -/
def nullString (i : Word) : Option (BitVec 8) :=
  some ([40#8, 110#8, 117#8, 108#8, 108#8, 41#8].getD i.toNat 0#8)

/-- `cprintf("%.*s", len, s)`, up to `n` bytes of the string: `.` makes the width 0, so nothing is padded, and
`*` takes `len` for the precision. The bytes of `"(null)"` are the kernel's and not counted as read. -/
def cprintfStr (mem : Word → Option (BitVec 8)) (len s : Word) (n : Nat) : List PrintEvent :=
  if s = 0#32 then (strLoop nullString n 0#32 len.toInt).filter fun ev => ∀ va, ev ≠ .read va
  else strLoop mem n s len.toInt

/-- Byte `k` of a word. -/
def getByte (w : Word) (k : Nat) : BitVec 8 := (w >>> (8 * k)).setWidth 8

/-- The byte that the kernel reads at `va` through CR3. -/
def State.fetch (s : State) (va : Word) : Option (BitVec 8) :=
  let pde := s.mem (pgnum (s.cpus s.cpunum).cr3) (pdx va)
  let pte := s.mem (pgnum pde) (ptx va)
  if present pde ∧ present pte then
    some (getByte (s.mem (pgnum pte) (Fin.ofNat 1024 (va.toNat / 4 % 1024))) (va.toNat % 4))
  else none

/-- `cprintf("%.*s", len, s)`, of which the state keeps nothing: a byte that is not mapped is a page fault in kernel
mode. -/
def cprintf (len str : Word) : Kern Unit := do
  if PrintEvent.fault ∈ cprintfStr (← get).fetch len str (2 ^ 32) then
    panic

/-! ## System calls -/

def sysCputs (str len : Word) : Kern Unit := do
  let cur ← deref (← get).curenv
  userMemAssert cur str len pteU
  cprintf len str

def sysGetenvid : Kern Word := do
  let cur ← deref (← get).curenv
  return (← env cur).envId

def sysEnvDestroy (envid : Word) : Kern Int := do
  let (r, e) ← envid2env envid true
  if r < 0 then
    return r
  envDestroy (← deref e)
  return 0

def sysYield : Kern Unit := schedYield

/-- The record of a child: not runnable, with the registers of its parent, and 0 as the result. -/
def forkEnv (cur v : Env) : Env :=
  { v with envStatus := .notRunnable,
           envTf := { cur.envTf with tfRegs := { cur.envTf.tfRegs with regEax := 0#32 } } }

def sysExofork : Kern Int := do
  let (r, newenv) ← envAlloc (← sysGetenvid)
  if r < 0 then
    return r
  let child ← deref newenv
  let cur ← env (← deref (← get).curenv)
  modifyEnv child (forkEnv cur)
  return (← env child).envId.toInt

def sysEnvSetStatus (envid status : Word) : Kern Int := do
  match statusOfInt status with
  | none => return -eInval
  | some st =>
    let (r, e) ← envid2env envid true
    if r < 0 then
      return r
    modifyEnv (← deref e) fun v => { v with envStatus := st }
    return 0

def sysEnvSetPgfaultUpcall (envid func : Word) : Kern Int := do
  let (r, e) ← envid2env envid true
  if r < 0 then
    return -eBadEnv
  modifyEnv (← deref e) fun v => { v with envPgfaultUpcall := func }
  return 0

def sysPageAlloc (envid va perm : Word) : Kern Int := do
  if utop ≤ va then
    return -eInval
  if permUnset perm then
    return -eInval
  if 0 < (perm &&& ~~~pteUser).toInt then
    return -eInval
  let (r, e) ← envid2env envid true
  if r < 0 then
    return -eBadEnv
  match ← pageAlloc 0#32 with
  | none => return -eNoMem
  | some p =>
    let pgdir ← derefPage (← env (← deref e)).envPgdir
    let r ← pageInsert pgdir p va perm
    if r < 0 then
      pageFree p
      return -eNoMem
    zeroPage (← page2kva p)
    return 0

def sysPageMap (srcenvid srcva dstenvid dstva perm : Word) : Kern Int := do
  if utop ≤ srcva ∨ roundup srcva pgsize ≠ srcva ∨ utop ≤ dstva ∨ roundup dstva pgsize ≠ dstva then
    return -eInval
  if permUnset perm then
    return -eInval
  if 0 < (perm &&& ~~~pteUser).toInt then
    return -eInval
  let (r, srcenv) ← envid2env srcenvid true
  if r < 0 then
    return -eBadEnv
  let (r, dstenv) ← envid2env dstenvid true
  if r < 0 then
    return -eBadEnv
  let srcPgdir ← derefPage (← env (← deref srcenv)).envPgdir
  match ← pageLookup srcPgdir srcva with
  | (some p, some pte) =>
    if 0 < (perm &&& pteW).toInt ∧ (← load pte) &&& pteW = 0#32 then
      return -eInval
    let dstPgdir ← derefPage (← env (← deref dstenv)).envPgdir
    let r ← pageInsert dstPgdir p dstva perm
    if r < 0 then
      return -eNoMem
    return 0
  | _ => return -eInval

def sysPageUnmap (envid va : Word) : Kern Int := do
  if utop ≤ va ∨ roundup va pgsize ≠ va then
    return -eInval
  let (r, e) ← envid2env envid true
  if r < 0 then
    return -eBadEnv
  let pgdir ← derefPage (← env (← deref e)).envPgdir
  pageRemove pgdir va
  return 0

/-- The record of a receiver that has been sent `value`: its IPC fields are set and it is runnable. -/
def ipcReceived (cur : Env) (value : Word) (v : Env) : Env :=
  { v with envIpcFrom := cur.envId, envIpcValue := value, envStatus := .runnable, envIpcRecving := false,
           envTf := { v.envTf with tfRegs := { v.envTf.tfRegs with regEax := 0#32 } } }

/-- The end of a send. -/
def ipcDeliver (dst : Slot) (value : Word) : Kern Int := do
  let cur ← env (← deref (← get).curenv)
  modifyEnv dst (ipcReceived cur value)
  return 0

/-- A send with `srcva >= UTOP` offers no page; otherwise the page at `srcva` goes to the
`env_ipc_dstva` of the target, unless that is 0. -/
def sysIpcTrySend (envid value srcva perm : Word) : Kern Int := do
  let (r, dstenv) ← envid2env envid false
  if r < 0 then
    return -eBadEnv
  let dst ← deref dstenv
  let v ← env dst
  if v.envIpcRecving = false ∨ v.envIpcFrom ≠ 0#32 then
    return -eIpcNotRecv
  if srcva < utop then
    if rounddown srcva pgsize ≠ srcva then
      return -eInval
    if permUnset perm then
      return -eInval
    if 0 < (perm &&& ~~~pteUser).toNat then
      return -eInval
    let cur ← env (← deref (← get).curenv)
    let curPgdir ← derefPage cur.envPgdir
    match ← pageLookup curPgdir srcva with
    | (some p, some pte) =>
      if (← load pte) &&& pteW = 0#32 ∧ 0 < (perm &&& pteW).toNat then
        return -eInval
      if v.envIpcDstva ≠ 0#32 then
        let dstPgdir ← derefPage v.envPgdir
        let r ← pageInsert dstPgdir p v.envIpcDstva perm
        if r < 0 then
          return -eNoMem
        modifyEnv dst fun v => { v with envIpcPerm := perm }
      ipcDeliver dst value
    | _ => return -eInval
  else
    ipcDeliver dst value

/-- The record of an environment that waits for a message. -/
def ipcWaiting (dstva : Word) (v : Env) : Env :=
  { v with envIpcDstva := dstva, envIpcRecving := true, envIpcFrom := 0#32, envStatus := .notRunnable }

def sysIpcRecv (dstva : Word) : Kern Int := do
  if dstva < utop ∧ rounddown dstva pgsize ≠ dstva then
    return -eInval
  let cur ← deref (← get).curenv
  modifyEnv cur (ipcWaiting dstva)
  schedYield
  return 0

/-! ## Calls -/

/-- A call of one of the `sys_*` functions with its arguments. The console is outside the state:
`cgetc` carries the character it delivers. -/
inductive Call where
  | cputs (str len : Word)
  | cgetc (c : Int)
  | getenvid
  | envDestroy (envid : Word)
  | yield
  | exofork
  | envSetStatus (envid status : Word)
  | envSetPgfaultUpcall (envid func : Word)
  | pageAlloc (envid va perm : Word)
  | pageMap (srcenvid srcva dstenvid dstva perm : Word)
  | pageUnmap (envid va : Word)
  | ipcTrySend (envid value srcva perm : Word)
  | ipcRecv (dstva : Word)
  deriving DecidableEq

/-- Running a call; a `void` function returns 0. -/
def Call.exec : Call → Kern Int
  | .cputs str len => do sysCputs str len; return 0
  | .cgetc c => return c
  | .getenvid => do return (← sysGetenvid).toInt
  | .envDestroy envid => sysEnvDestroy envid
  | .yield => do sysYield; return 0
  | .exofork => sysExofork
  | .envSetStatus envid status => sysEnvSetStatus envid status
  | .envSetPgfaultUpcall envid func => sysEnvSetPgfaultUpcall envid func
  | .pageAlloc envid va perm => sysPageAlloc envid va perm
  | .pageMap srcenvid srcva dstenvid dstva perm => sysPageMap srcenvid srcva dstenvid dstva perm
  | .pageUnmap envid va => sysPageUnmap envid va
  | .ipcTrySend envid value srcva perm => sysIpcTrySend envid value srcva perm
  | .ipcRecv dstva => sysIpcRecv dstva

/-- Environment `e` enters the kernel on CPU `c`, which takes the kernel lock. -/
def State.enter (s : State) (c : Cpu) (e : Slot) : State :=
  { { s with cpunum := c }.setCurenv (some e) with kernelLock := some c }

end Jos
