/-
System calls from the stubs of lib/syscall.c to the functions of kern/syscall.c and back: the registers the
stubs load, the pushes of the processor and of kern/trapentry.S, the fields of `struct Trapframe` read off the
stack, the switch of `syscall`, and the pops of `env_pop_tf`. The switch has four of the thirteen calls.
-/
import Jos.Run.Sane

namespace Jos

open Lib Kern

variable {s : State} {cur : Slot} {d : Nat}

/-! ## The stack -/

/-- Memory from the stack pointer up, in units of two bytes. -/
abbrev Stack := List (BitVec 16)

def Stack.pushw (k : Stack) (h : BitVec 16) : Stack := h :: k

def Stack.pushl (k : Stack) (w : Word) : Stack := w.extractLsb' 0 16 :: w.extractLsb' 16 16 :: k

/-- The two bytes at offset `off`. -/
def Stack.half (k : Stack) (off : Nat) : BitVec 16 := k.getD (off / 2) 0#16

/-- The four bytes at offset `off`. -/
def Stack.word (k : Stack) (off : Nat) : Word := k.half (off + 2) ++ k.half off

/-- The registers of a user program. -/
structure Regs where
  eax : Word := 0#32
  ecx : Word := 0#32
  edx : Word := 0#32
  ebx : Word := 0#32
  ebp : Word := 0#32
  esi : Word := 0#32
  edi : Word := 0#32
  esp : Word := 0#32
  eip : Word := 0#32
  eflags : Word := 0#32
  cs : BitVec 16 := 0#16
  ss : BitVec 16 := 0#16
  ds : BitVec 16 := 0#16
  es : BitVec 16 := 0#16
  deriving DecidableEq

/-! ## Into the kernel -/

/-- An interrupt in user mode: the processor switches to the kernel stack `k` and pushes the registers it
needs to come back. `eip` is the address of the next instruction. -/
def intGate (u : Regs) (k : Stack) : Stack :=
  ((((k.pushl (u.ss.setWidth 32)).pushl u.esp).pushl u.eflags).pushl (u.cs.setWidth 32)).pushl u.eip

/-- `pushal`, where the stack pointer is `oesp`. -/
def pushal (u : Regs) (oesp : Word) (k : Stack) : Stack :=
  (((((((k.pushl u.eax).pushl u.ecx).pushl u.edx).pushl u.ebx).pushl oesp).pushl u.ebp).pushl u.esi).pushl u.edi

/-- `_alltraps` up to the call of `trap`. -/
def alltraps (u : Regs) (oesp : Word) (k : Stack) : Stack :=
  pushal u oesp ((((k.pushw 0#16).pushw u.ds).pushw 0#16).pushw u.es)

/-- `routine_syscall`: `TRAPHANDLER_NOEC(routine_syscall, T_SYSCALL)`. -/
def routineSyscall (u : Regs) (oesp : Word) (k : Stack) : Stack :=
  alltraps u oesp ((k.pushl 0#32).pushl tSyscall)

/-- A `struct Trapframe` in memory. -/
def Trapframe.ofStack (k : Stack) : Trapframe :=
  { tfRegs :=
      { regEdi := k.word 0, regEsi := k.word 4, regEbp := k.word 8, regOesp := k.word 12, regEbx := k.word 16,
        regEdx := k.word 20, regEcx := k.word 24, regEax := k.word 28 }
    tfEs := k.half 32
    tfDs := k.half 36
    tfTrapno := k.word 40
    tfErr := k.word 44
    tfEip := k.word 48
    tfCs := k.half 52
    tfEflags := k.word 56
    tfEsp := k.word 60
    tfSs := k.half 64 }

/-- The trap frame that `trap` gets for `int $T_SYSCALL` in user state `u`. -/
def syscallTf (u : Regs) (oesp : Word) (k : Stack) : Trapframe := .ofStack (routineSyscall u oesp (intGate u k))

/-! ## Out of the kernel -/

/-- A `struct Trapframe` as it is stored. -/
def Trapframe.toStack (tf : Trapframe) : Stack :=
  let k : Stack := []
  let k : Stack := (((k.pushw 0#16).pushw tf.tfSs).pushl tf.tfEsp).pushl tf.tfEflags
  let k : Stack := ((((k.pushw 0#16).pushw tf.tfCs).pushl tf.tfEip).pushl tf.tfErr).pushl tf.tfTrapno
  let k : Stack := (((k.pushw 0#16).pushw tf.tfDs).pushw 0#16).pushw tf.tfEs
  let k : Stack := (((k.pushl tf.tfRegs.regEax).pushl tf.tfRegs.regEcx).pushl tf.tfRegs.regEdx).pushl tf.tfRegs.regEbx
  (((k.pushl tf.tfRegs.regOesp).pushl tf.tfRegs.regEbp).pushl tf.tfRegs.regEsi).pushl tf.tfRegs.regEdi

/-- The instructions of `env_pop_tf` with the stack pointer at `k`: `popal`, `popl %es`, `popl %ds`, the skip of
8 bytes and `iret`. -/
def envPopTfRegs (k : Stack) : Regs :=
  let esp := 0
  let u : Regs :=
    { edi := k.word esp, esi := k.word (esp + 4), ebp := k.word (esp + 8), ebx := k.word (esp + 16), edx := k.word (esp + 20),
      ecx := k.word (esp + 24), eax := k.word (esp + 28) }
  let esp := esp + 32
  let u := { u with es := (k.word esp).setWidth 16 }
  let esp := esp + 4
  let u := { u with ds := (k.word esp).setWidth 16 }
  let esp := esp + 4 + 8
  { u with eip := k.word esp, cs := (k.word (esp + 4)).setWidth 16, eflags := k.word (esp + 8), esp := k.word (esp + 12),
           ss := (k.word (esp + 16)).setWidth 16 }

/-! ## The stubs -/

/-- A stub of lib/syscall.c, or `sys_exofork` of inc/lib.h, with its arguments. -/
inductive Stub where
  | cputs (str len : Word)
  | cgetc
  | envDestroy (envid : Word)
  | getenvid
  | yield
  | pageAlloc (envid va perm : Word)
  | pageMap (srcenv srcva dstenv dstva perm : Word)
  | pageUnmap (envid va : Word)
  | exofork
  | envSetStatus (envid status : Word)
  | envSetPgfaultUpcall (envid upcall : Word)
  | ipcTrySend (envid value srcva perm : Word)
  | ipcRecv (dstva : Word)
  deriving DecidableEq

/-- The registers with which `syscall` of lib/syscall.c comes to its `int`. -/
def syscallRegs (num a1 a2 a3 a4 a5 : Word) (u : Regs) : Regs :=
  { u with eax := num, edx := a1, ecx := a2, ebx := a3, edi := a4, esi := a5 }

/-- The registers with which a stub that was called in `u` comes to its `int`. -/
def Stub.load (u : Regs) : Stub → Regs
  | .cputs str len => syscallRegs 0#32 str len 0#32 0#32 0#32 u
  | .cgetc => syscallRegs 1#32 0#32 0#32 0#32 0#32 0#32 u
  | .getenvid => syscallRegs 2#32 0#32 0#32 0#32 0#32 0#32 u
  | .envDestroy envid => syscallRegs 3#32 envid 0#32 0#32 0#32 0#32 u
  | .pageAlloc envid va perm => syscallRegs 4#32 envid va perm 0#32 0#32 u
  | .pageMap srcenv srcva dstenv dstva perm => syscallRegs 5#32 srcenv srcva dstenv dstva perm u
  | .pageUnmap envid va => syscallRegs 6#32 envid va 0#32 0#32 0#32 u
  | .exofork => { u with eax := 7#32 }
  | .envSetStatus envid status => syscallRegs 8#32 envid status 0#32 0#32 0#32 u
  | .envSetPgfaultUpcall envid upcall => syscallRegs 9#32 envid upcall 0#32 0#32 0#32 u
  | .yield => syscallRegs 10#32 0#32 0#32 0#32 0#32 0#32 u
  | .ipcTrySend envid value srcva perm => syscallRegs 11#32 envid value srcva perm 0#32 u
  | .ipcRecv dstva => syscallRegs 12#32 dstva 0#32 0#32 0#32 0#32 u

/-- The stub passes a `check` of 1. -/
def Stub.check : Stub → Bool
  | .cputs .. | .cgetc | .getenvid | .yield | .exofork | .ipcTrySend .. => false
  | _ => true

/-- What the stub returns when `eax` is `ret` after the `int`; with `check` a positive number is a panic. -/
def Stub.result (st : Stub) (ret : Word) : Option Word := if st.check ∧ 0 < ret.toInt then none else some ret

/-- The function of kern/syscall.c with the name of the stub, on its arguments. -/
def Stub.call (cons : Int) : Stub → Call
  | .cputs str len => .cputs str len
  | .cgetc => .cgetc cons
  | .envDestroy envid => .envDestroy envid
  | .getenvid => .getenvid
  | .yield => .yield
  | .pageAlloc envid va perm => .pageAlloc envid va perm
  | .pageMap srcenv srcva dstenv dstva perm => .pageMap srcenv srcva dstenv dstva perm
  | .pageUnmap envid va => .pageUnmap envid va
  | .exofork => .exofork
  | .envSetStatus envid status => .envSetStatus envid status
  | .envSetPgfaultUpcall envid upcall => .envSetPgfaultUpcall envid upcall
  | .ipcTrySend envid value srcva perm => .ipcTrySend envid value srcva perm
  | .ipcRecv dstva => .ipcRecv dstva

/-- The function that the switch of `syscall` calls, if any. -/
def syscallSwitch (cons : Int) (syscallno a1 a2 : Word) : Option Call :=
  if syscallno = 0#32 then some (.cputs a1 a2)
  else if syscallno = 1#32 then some (.cgetc cons)
  else if syscallno = 2#32 then some .getenvid
  else if syscallno = 3#32 then some (.envDestroy a1)
  else none

theorem syscall_switch (cons : Int) (regs : PushRegs) : syscall cons regs =
    match syscallSwitch cons regs.regEax regs.regEdx regs.regEcx with
    | some c => c.exec
    | none => pure (-eInval) := by
  rw [syscall_exec]
  unfold syscallCall syscallSwitch
  split_ifs <;> rfl

/-! ## The trap frame -/

theorem word_halves (w : Word) : w.extractLsb' 16 16 ++ w.extractLsb' 0 16 = w := by
  have h : w.extractLsb' 16 16 ++ w.extractLsb' 0 16 = w.extractLsb' 0 32 :=
    BitVec.extractLsb'_append_extractLsb'_eq_extractLsb' rfl
  rw [h]
  simp

theorem half_setWidth (h : BitVec 16) : (h.setWidth 32).extractLsb' 0 16 = h := by
  ext i hi
  simp only [BitVec.getElem_extractLsb', Nat.zero_add, BitVec.getLsbD_setWidth, BitVec.getLsbD_eq_getElem hi]
  simp [show i < 32 by omega]

theorem half_word (h : BitVec 16) : (0#16 ++ h).setWidth 16 = h := by
  rw [BitVec.setWidth_append]
  simp

/-- The frame that the pushes build, under the names of its fields. -/
theorem syscallTf_eq (u : Regs) (oesp : Word) (k : Stack) : syscallTf u oesp k =
    { tfRegs := { regEdi := u.edi, regEsi := u.esi, regEbp := u.ebp, regOesp := oesp, regEbx := u.ebx, regEdx := u.edx,
                  regEcx := u.ecx, regEax := u.eax }
      tfEs := u.es, tfDs := u.ds, tfTrapno := tSyscall, tfErr := 0#32, tfEip := u.eip, tfCs := u.cs, tfEflags := u.eflags,
      tfEsp := u.esp, tfSs := u.ss } := by
  simp only [syscallTf, Trapframe.ofStack, routineSyscall, alltraps, pushal, intGate, Stack.word, Stack.half, Stack.pushl,
    Stack.pushw, Nat.reduceDiv, Nat.reduceAdd, List.getD_cons_zero, List.getD_cons_succ, word_halves, half_setWidth, Nat.zero_div]

/-- `env_pop_tf` gives every register the value of its field. -/
theorem envPopTfRegs_toStack (tf : Trapframe) : envPopTfRegs tf.toStack =
    { edi := tf.tfRegs.regEdi, esi := tf.tfRegs.regEsi, ebp := tf.tfRegs.regEbp, ebx := tf.tfRegs.regEbx, edx := tf.tfRegs.regEdx,
      ecx := tf.tfRegs.regEcx, eax := tf.tfRegs.regEax, es := tf.tfEs, ds := tf.tfDs, eip := tf.tfEip, cs := tf.tfCs,
      eflags := tf.tfEflags, esp := tf.tfEsp, ss := tf.tfSs } := by
  simp only [envPopTfRegs, Trapframe.toStack, Stack.word, Stack.half, Stack.pushl, Stack.pushw, Nat.reduceDiv, Nat.reduceAdd,
    List.getD_cons_zero, List.getD_cons_succ, word_halves, half_word, Nat.zero_div]

/-- Into the kernel and out again, with a result in `eax`. -/
theorem envPopTfRegs_syscallTf (u : Regs) (oesp ret : Word) (k : Stack) {tf : Trapframe} (htf : tf = syscallTf u oesp k) :
    envPopTfRegs { tf with tfRegs := { tf.tfRegs with regEax := ret } }.toStack = { u with eax := ret } := by
  rw [envPopTfRegs_toStack, htf, syscallTf_eq]

/-! ## The calls -/

/-- The calls that the switch has. -/
def Stub.Dispatched : Stub → Prop
  | .cputs .. | .cgetc | .getenvid | .envDestroy .. => True
  | _ => False

instance : DecidablePred Stub.Dispatched := fun st => by
  unfold Stub.Dispatched
  cases st <;> infer_instance

/-- A stub that is called with registers `u` agrees with the kernel: `syscall` calls the function of the same name
with the same arguments, and when that function returns `r` to an environment that is still running, the program goes on with
the registers the stub has loaded, with `r` in `eax`, and the stub returns `r`. -/
structure Stub.Agrees (st : Stub) (cons : Int) (u : Regs) (oesp : Word) (k : Stack) : Prop where
  calls : syscallSwitch cons (syscallTf (st.load u) oesp k).tfRegs.regEax (syscallTf (st.load u) oesp k).tfRegs.regEdx
    (syscallTf (st.load u) oesp k).tfRegs.regEcx = some (st.call cons)
  returns : ∀ (s s₁ : State) (cur : Slot) (faultVa : Word) (d : Nat) (r : Int), s.kernelLock = none → s.curenv = some cur →
    (s.cpus s.cpunum).cpuStatus ≠ .halted → (s.envs cur).envStatus = .running → (s.envs cur).envPgdir = some d →
    (st.call cons).exec.run (s.saved cur (syscallTf (st.load u) oesp k)) = .ok r s₁ →
    ∃ s', (trap (syscall cons (syscallTf (st.load u) oesp k).tfRegs) (syscallTf (st.load u) oesp k) faultVa).run s =
        .error .envPopTf s' ∧ s'.curenv = some cur ∧
      envPopTfRegs (s'.envs cur).envTf.toStack = { st.load u with eax := BitVec.ofInt 32 r } ∧
      st.result (BitVec.ofInt 32 r) = some (BitVec.ofInt 32 r)

/-- A call of the switch leaves the frame, the status and the directory of its environment as they are. -/
theorem Change.dispatched {st : Stub} (hst : st.Dispatched) {cons r : Int} {s₁ : State} (h : Change s cur (st.call cons) r s₁) :
    s₁.envs cur = s.envs cur := by
  generalize hc : st.call cons = c at h
  cases h with
  | rest h => rw [h.envs]
  | dying _ _ hne h => rw [h.envs, Function.update_of_ne hne.symm]
  | freed _ _ hne _ henvs => rw [henvs, Function.update_of_ne hne.symm]
  | setStatus | setUpcall | spawned | delivered =>
    cases st with
    | cputs | cgetc | getenvid | envDestroy => cases hc
    | _ => exact hst.elim

/-- The one call of the switch whose stub checks the result returns no positive number. -/
theorem Stub.result_dispatched {st : Stub} (hst : st.Dispatched) (hcur : s.curenv = some cur) {cons r : Int} {s₁ : State}
    (h : (st.call cons).exec.run s = .ok r s₁) : st.result (BitVec.ofInt 32 r) = some (BitVec.ofInt 32 r) := by
  unfold Stub.result
  cases st with
  | cputs | cgetc | getenvid => rfl
  | envDestroy envid =>
    have hr : r = 0 ∨ r = -eBadEnv := by
      have h' : (sysEnvDestroy envid).run s = .ok r s₁ := h
      unfold sysEnvDestroy at h'
      rw [run_bind_ok (run_envid2env hcur true)] at h'
      cases hres : s.resolve cur envid true with
      | none =>
        rw [hres] at h'
        cases h'
        exact Or.inr rfl
      | some e =>
        rw [hres] at h'
        dsimp only at h'
        rw [if_neg (by decide), run_bind_ok (run_deref_some e)] at h'
        obtain ⟨_, s₂, -, h'⟩ := run_bind_eq_ok.1 h'
        cases h'
        exact Or.inl rfl
    rcases hr with rfl | rfl <;> rfl
  | _ => exact hst.elim

/-- The stubs that agree with the kernel, for all arguments, are those of the four calls of the switch. -/
theorem stub_agrees_iff (st : Stub) (cons : Int) (u : Regs) (oesp : Word) (k : Stack) :
    st.Agrees cons u oesp k ↔ st.Dispatched := by
  constructor
  · intro h
    have hc := h.calls
    rw [syscallTf_eq] at hc
    cases st with
    | cputs | cgetc | getenvid | envDestroy => trivial
    | _ => simp [syscallSwitch, Stub.load, syscallRegs] at hc
  · intro hst
    have hcalls : syscallSwitch cons (syscallTf (st.load u) oesp k).tfRegs.regEax (syscallTf (st.load u) oesp k).tfRegs.regEdx
        (syscallTf (st.load u) oesp k).tfRegs.regEcx = some (st.call cons) := by
      rw [syscallTf_eq]
      cases st with
      | cputs | cgetc | getenvid | envDestroy => rfl
      | _ => exact hst.elim
    refine ⟨hcalls, fun s s₁ cur faultVa d r hl hc hw hrun hd hcall => ?_⟩
    generalize htf : syscallTf (st.load u) oesp k = tf at hcalls hcall
    have hsys : syscall cons tf.tfRegs = (st.call cons).exec := by rw [syscall_switch, hcalls]
    have hcur : (s.saved cur tf).curenv = some cur := by
      show (Function.update s.cpus s.cpunum _ s.cpunum).cpuEnv = _
      rw [Function.update_self]
      exact hc
    -- the call returns; what it leaves in `%eax` is what the stub gives back
    have hres := call_res hcur (st.call cons)
    rw [hcall] at hres
    cases hres with
    | returns _ _ hch =>
      have henv : s₁.envs cur = { s.envs cur with envTf := tf } := (hch.dispatched hst).trans (Function.update_self ..)
      have hsame := hch.same
      let v : Env := setEax r (s₁.envs cur)
      let s₂ : State := s₁.setEnv cur v
      have hrec : s₂.envs cur = v := Function.update_self ..
      have hst₂ : (s₂.envs cur).envStatus = .running := by rw [hrec]; show (s₁.envs cur).envStatus = _; rw [henv]; exact hrun
      have hd₂ : (s₂.envs cur).envPgdir = some d := by rw [hrec]; show (s₁.envs cur).envPgdir = _; rw [henv]; exact hd
      have hl₂ : s₂.kernelLock = some s₂.cpunum := by
        show s₁.kernelLock = some s₁.cpunum
        rw [hsame.kernelLock, hsame.cpunum]
        rfl
      have htrapno : tf.tfTrapno = tSyscall := by rw [← htf, syscallTf_eq]
      refine ⟨s₂.popTf cur d, ?_, ?_, ?_, st.result_dispatched hst hcur hcall⟩
      · rw [hsys, trap_call hl hc hw (by rw [hrun]; simp) htrapno, run_bind_ok hcall,
          run_bind_ok (show (modifyEnv cur (setEax r)).run s₁ = .ok () s₂ from rfl)]
        exact trapReturn_running (hsame.curenv.trans hcur) hst₂ hd₂ hl₂
      · unfold State.curenv
        rw [popTf_cpus, popTf_cpunum, if_pos rfl]
      · obtain ⟨runs, cpu, henvs⟩ := popTf_envs s₂ cur d cur
        have hpop : ((s₂.popTf cur d).envs cur).envTf = { tf with tfRegs := { tf.tfRegs with regEax := BitVec.ofInt 32 r } } := by
          rw [henvs]
          show (s₂.envs cur).envTf = _
          rw [hrec]
          show { (s₁.envs cur).envTf with tfRegs := { (s₁.envs cur).envTf.tfRegs with regEax := BitVec.ofInt 32 r } } = _
          rw [henv]
        rw [hpop]
        exact envPopTfRegs_syscallTf (st.load u) oesp _ k htf.symm

/-- `sys_page_alloc` fails before the kernel function of its name is called. -/
theorem stub_pageAlloc_refused : syscall 0 (syscallTf ((Stub.pageAlloc 0#32 utext 7#32).load {}) 0#32 []).tfRegs =
    pure (-eInval) ∧
    ¬ (Stub.pageAlloc 0#32 utext 7#32).Agrees 0 {} 0#32 [] := by
  have hnone : syscallSwitch 0 (syscallTf ((Stub.pageAlloc 0#32 utext 7#32).load {}) 0#32 []).tfRegs.regEax
      (syscallTf ((Stub.pageAlloc 0#32 utext 7#32).load {}) 0#32 []).tfRegs.regEdx
      (syscallTf ((Stub.pageAlloc 0#32 utext 7#32).load {}) 0#32 []).tfRegs.regEcx = none := by decide
  constructor
  · rw [syscall_switch, hnone]
  · intro h
    have hc := h.calls
    rw [hnone] at hc
    cases hc

end Jos
