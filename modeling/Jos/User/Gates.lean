/-
The way from user mode into `trap`: the gates that `trap_init` sets, what the processor does with an interrupt or exception, and
the routines of kern/trapentry.S that the gates name. Whatever interrupts a user program, `trap` gets a frame with all of its
registers, and a program cannot pass for a device or for a page fault.
-/
import Jos.User.Stubs

namespace Jos

open Lib Kern

/-! ## Trap numbers -/

def tDivide : Word := 0#32
def tDebug : Word := 1#32
def tNmi : Word := 2#32
def tOflow : Word := 4#32
def tBound : Word := 5#32
def tIllop : Word := 6#32
def tDevice : Word := 7#32
def tDblflt : Word := 8#32
def tTss : Word := 10#32
def tSegnp : Word := 11#32
def tStack : Word := 12#32
def tGpflt : Word := 13#32
def tFperr : Word := 16#32
def tAlign : Word := 17#32
def tMchk : Word := 18#32
def tSimderr : Word := 19#32

/-! ## The routines -/

/-- The routines of kern/trapentry.S. -/
inductive Routine where
  | divide | debug | nmi | brkpt | oflow | bound | illop | device | dblflt | tss | segnp | stack | gpflt | pgflt | fperr | align
  | mchk | simderr | syscall
  | irq (i : Fin 16)
  deriving DecidableEq

/-- `TRAPHANDLER` and `TRAPHANDLER_NOEC`, with the number. -/
inductive Handler where
  | traphandler (num : Word)
  | traphandlerNoec (num : Word)
  deriving DecidableEq

def Routine.handler : Routine → Handler
  | .divide => .traphandlerNoec tDivide
  | .debug => .traphandlerNoec tDebug
  | .nmi => .traphandlerNoec tNmi
  | .brkpt => .traphandlerNoec tBrkpt
  | .oflow => .traphandlerNoec tOflow
  | .bound => .traphandlerNoec tBound
  | .illop => .traphandlerNoec tIllop
  | .device => .traphandlerNoec tDevice
  | .dblflt => .traphandler tDblflt
  | .tss => .traphandler tTss
  | .segnp => .traphandler tSegnp
  | .stack => .traphandler tStack
  | .gpflt => .traphandler tGpflt
  | .pgflt => .traphandler tPgflt
  | .fperr => .traphandlerNoec tFperr
  | .align => .traphandler tAlign
  | .mchk => .traphandlerNoec tMchk
  | .simderr => .traphandlerNoec tSimderr
  | .syscall => .traphandlerNoec tSyscall
  | .irq i => .traphandlerNoec (irqOffset + BitVec.ofNat 32 i.val)

/-- The pushes of a routine, up to the call of `trap`; `oesp` is the stack pointer that `pushal` finds. -/
def Handler.code (u : Regs) (oesp : Word) (k : Stack) : Handler → Stack
  | .traphandler num => alltraps u oesp (k.pushl num)
  | .traphandlerNoec num => alltraps u oesp ((k.pushl 0#32).pushl num)

/-! ## The gates -/

/-- `struct Gatedesc`; a gate that was not set is zero. -/
structure Gatedesc where
  gdOff15_0 : BitVec 16 := 0#16
  gdSel : BitVec 16 := 0#16
  gdArgs : BitVec 5 := 0#5
  gdRsv1 : BitVec 3 := 0#3
  gdType : BitVec 4 := 0#4
  gdS : BitVec 1 := 0#1
  gdDpl : BitVec 2 := 0#2
  gdP : BitVec 1 := 0#1
  gdOff31_16 : BitVec 16 := 0#16

/-- `STS_IG32`. -/
def stsIg32 : BitVec 4 := 0xE#4

/-- `STS_TG32`. -/
def stsTg32 : BitVec 4 := 0xF#4

/-- `SETGATE`. -/
def setgate (istrap : Bool) (sel : BitVec 16) (off : Word) (dpl : BitVec 2) : Gatedesc where
  gdOff15_0 := (off &&& 0xffff#32).setWidth 16
  gdSel := sel
  gdType := if istrap then stsTg32 else stsIg32
  gdDpl := dpl
  gdP := 1#1
  gdOff31_16 := (off >>> 16).setWidth 16

/-- The calls of `SETGATE` in `trap_init`: vector, routine and privilege level. -/
def trapInit : List (Word × Routine × BitVec 2) :=
  [(tDivide, .divide, 0#2), (tDebug, .debug, 0#2), (tNmi, .nmi, 0#2), (tBrkpt, .brkpt, 3#2), (tOflow, .oflow, 0#2),
    (tBound, .bound, 0#2), (tIllop, .illop, 0#2), (tDevice, .device, 0#2), (tDblflt, .dblflt, 0#2), (tTss, .tss, 0#2),
    (tSegnp, .segnp, 0#2), (tStack, .stack, 0#2), (tGpflt, .gpflt, 0#2), (tPgflt, .pgflt, 0#2), (tFperr, .fperr, 0#2),
    (tAlign, .align, 0#2), (tMchk, .mchk, 0#2), (tSimderr, .simderr, 0#2), (tSyscall, .syscall, 3#2)] ++
  (List.finRange 16).map fun i => (irqOffset + BitVec.ofNat 32 i.val, .irq i, 0#2)

/-- Where the linker has put the routines. -/
structure KernText where
  addr : Routine → Word
  codeAt : Word → Option Routine
  codeAt_addr : ∀ r, codeAt (addr r) = some r

/-- `idt` after `trap_init`. -/
def KernText.idt (T : KernText) (n : Word) : Gatedesc :=
  match trapInit.lookup n with
  | some (r, dpl) => setgate false gdKt (T.addr r) dpl
  | none => {}

/-! ## The processor -/

/-- The exceptions that the processor raises by itself; a breakpoint or an overflow comes from an instruction, like `int`. -/
def exceptions : List Word :=
  [tDivide, tDebug, tNmi, tBound, tIllop, tDevice, tDblflt, tTss, tSegnp, tStack, tGpflt, tPgflt, tFperr, tAlign, tMchk, tSimderr]

/-- The exceptions with an error code. -/
def pushesErr (n : Word) : Bool := [tDblflt, tTss, tSegnp, tStack, tGpflt, tPgflt, tAlign].contains n

/-- What interrupts a user program: the instruction `int`, an exception, or a device. -/
inductive Intr where
  | int (n : BitVec 8)
  | exception (n : Word) (h : n ∈ exceptions) (err : Word)
  | irq (n : BitVec 8) (h : 32 ≤ n.toNat)

def Intr.vector : Intr → Word
  | .int n => n.setWidth 32
  | .exception n _ _ => n
  | .irq n _ => n.setWidth 32

/-- The error code that the processor pushes. -/
def Intr.code : Intr → Option Word
  | .exception n _ err => if pushesErr n then some err else none
  | _ => none

/-- The processor where the gate has led it, with the kernel stack. -/
structure Entered where
  cs : BitVec 16
  eip : Word
  eflags : Word
  stack : Stack

/-- Through a gate: `IF` is cleared by an interrupt gate only. -/
def Gatedesc.enter (g : Gatedesc) (u : Regs) (code : Option Word) (k : Stack) : Entered where
  cs := g.gdSel
  eip := g.gdOff31_16 ++ g.gdOff15_0
  eflags := if g.gdType = stsIg32 then u.eflags &&& ~~~flIf else u.eflags
  stack := match code with
    | some err => (intGate u k).pushl err
    | none => intGate u k

/-- A gate for interrupts that is there. -/
def Gatedesc.Good (g : Gatedesc) : Prop := (g.gdType = stsIg32 ∨ g.gdType = stsTg32) ∧ g.gdP = 1#1

instance (g : Gatedesc) : Decidable g.Good := inferInstanceAs (Decidable (_ ∧ _))

/-- The error code about the gate of vector `n`; the last bit is set for an event from outside the program. -/
def gateErr (x : Intr) : Word :=
  x.vector * 8#32 + 2#32 + match x with
    | .int _ => 0#32
    | _ => 1#32

/-- Interrupt `x` of a program with registers `u`: the processor tests the type of the gate, its privilege level against that of
an instruction, and its presence. Without a result there is a double fault. -/
def interrupt (idt : Word → Gatedesc) (u : Regs) (k : Stack) (x : Intr) : Option Entered :=
  let g := idt x.vector
  let fault (n : Word) := if (idt n).Good then some ((idt n).enter u (some (gateErr x)) k) else none
  if g.gdType ≠ stsIg32 ∧ g.gdType ≠ stsTg32 then fault tGpflt
  else
    match x with
    | .int _ =>
      if g.gdDpl.toNat < (u.cs &&& 3#16).toNat then fault tGpflt
      else if g.gdP = 0#1 then fault tSegnp
      else some (g.enter u none k)
    | x => if g.gdP = 0#1 then fault tSegnp else some (g.enter u x.code k)

/-- The frame that `trap` gets. -/
def KernText.frame (T : KernText) (u : Regs) (oesp : Word) (e : Entered) : Option Trapframe :=
  (T.codeAt e.eip).map fun r => .ofStack (r.handler.code u oesp e.stack)

/-! ## What `trap` is told -/

/-- The trap number: an `int` that has no gate of level 3, or a device without a gate, is a protection fault. -/
def Intr.trapno : Intr → Word
  | .int n => if n = 3#8 ∨ n = 48#8 then n.setWidth 32 else tGpflt
  | .exception n _ _ => n
  | .irq n _ => if n.toNat ≤ 48 then n.setWidth 32 else tGpflt

/-- The error code. -/
def Intr.err : Intr → Word
  | .int n => if n = 3#8 ∨ n = 48#8 then 0#32 else gateErr (.int n)
  | .exception n _ err => if pushesErr n then err else 0#32
  | .irq n h => if n.toNat ≤ 48 then 0#32 else gateErr (.irq n h)

/-- The frame of a program with registers `u`. -/
def trapFrame (u : Regs) (oesp trapno err : Word) : Trapframe where
  tfRegs := { regEdi := u.edi, regEsi := u.esi, regEbp := u.ebp, regOesp := oesp, regEbx := u.ebx, regEdx := u.edx,
              regEcx := u.ecx, regEax := u.eax }
  tfEs := u.es
  tfDs := u.ds
  tfTrapno := trapno
  tfErr := err
  tfEip := u.eip
  tfCs := u.cs
  tfEflags := u.eflags
  tfEsp := u.esp
  tfSs := u.ss

variable {T : KernText} {u : Regs} {k : Stack} {n oesp err : Word} {r : Routine} {dpl : BitVec 2} {code : Option Word}

theorem traphandler_frame (u : Regs) (oesp err num : Word) (k : Stack) :
    .ofStack (Handler.code u oesp ((intGate u k).pushl err) (.traphandler num)) = trapFrame u oesp num err := by
  simp only [trapFrame, Trapframe.ofStack, Handler.code, alltraps, pushal, intGate, Stack.word, Stack.half, Stack.pushl,
    Stack.pushw, Nat.reduceDiv, Nat.reduceAdd, List.getD_cons_zero, List.getD_cons_succ, word_halves, half_setWidth, Nat.zero_div]

/-- Without an error code the routine pushes one, and the frame is the same. -/
theorem traphandlerNoec_frame (u : Regs) (oesp num : Word) (k : Stack) :
    .ofStack (Handler.code u oesp (intGate u k) (.traphandlerNoec num)) = trapFrame u oesp num 0#32 :=
  traphandler_frame u oesp 0#32 num k

theorem setgate_off (istrap : Bool) (sel : BitVec 16) (off : Word) (dpl : BitVec 2) :
    (setgate istrap sel off dpl).gdOff31_16 ++ (setgate istrap sel off dpl).gdOff15_0 = off := by
  have hhi : (off >>> 16).setWidth 16 = off.extractLsb' 16 16 := rfl
  have hlo : (off &&& 0xffff#32).setWidth 16 = off.extractLsb' 0 16 := by
    have hand : off.toNat &&& 0xffff = off.toNat % 2 ^ 16 := Nat.and_two_pow_sub_one_eq_mod off.toNat 16
    apply BitVec.eq_of_toNat_eq
    rw [BitVec.toNat_setWidth, BitVec.toNat_and, BitVec.extractLsb'_toNat, Nat.shiftRight_zero]
    show (off.toNat &&& 0xffff) % 2 ^ 16 = _
    rw [hand, Nat.mod_mod]
  show (off >>> 16).setWidth 16 ++ (off &&& 0xffff#32).setWidth 16 = off
  rw [hhi, hlo, word_halves]

/-- The routine of each gate is the one for its vector, with or without an error code, and a program may use two of them. -/
theorem trapInit_spec : ∀ g ∈ trapInit,
    g.2.1.handler = (if pushesErr g.1 then .traphandler g.1 else .traphandlerNoec g.1) ∧
      (g.2.2 = 3#2 ∨ g.2.2 = 0#2) ∧ (g.2.2 = 3#2 ↔ g.1 = tBrkpt ∨ g.1 = tSyscall) := by decide +kernel

theorem exceptions_gates (h : n ∈ exceptions) : (trapInit.lookup n).isSome = true := by
  have hall : exceptions.all (fun n => (trapInit.lookup n).isSome) = true := by decide +kernel
  exact List.all_eq_true.1 hall n h

theorem exceptions_lt (h : n ∈ exceptions) : n.toNat < 32 := by
  have hall : exceptions.all (fun n => n.toNat < 32) = true := by decide +kernel
  exact of_decide_eq_true (List.all_eq_true.1 hall n h)

theorem irq_gates {i : BitVec 8} (h : 32 ≤ i.toNat) :
    (trapInit.lookup (i.setWidth 32)).isSome = decide (i.toNat ≤ 48) ∧ pushesErr (i.setWidth 32) = false := by
  have hall : (List.range 256).all (fun i => i < 32 ||
      (trapInit.lookup (BitVec.ofNat 32 i)).isSome == decide (i ≤ 48) && pushesErr (BitVec.ofNat 32 i) == false) = true := by
    decide +kernel
  have hi := List.all_eq_true.1 hall i.toNat (List.mem_range.2 i.isLt)
  rw [Bool.or_eq_true, Bool.and_eq_true, decide_eq_true_eq, beq_iff_eq, beq_iff_eq, BitVec.ofNat_toNat] at hi
  exact hi.resolve_left (by omega)

/-! ## Through a gate -/

theorem idt_some (T : KernText) (h : trapInit.lookup n = some (r, dpl)) : T.idt n = setgate false gdKt (T.addr r) dpl := by
  unfold KernText.idt
  rw [h]

theorem idt_none (T : KernText) (h : trapInit.lookup n = none) : T.idt n = {} := by
  unfold KernText.idt
  rw [h]

theorem lookup_spec (h : trapInit.lookup n = some (r, dpl)) :
    r.handler = (if pushesErr n then .traphandler n else .traphandlerNoec n) ∧ (dpl = 3#2 ∨ dpl = 0#2) ∧
      (dpl = 3#2 ↔ n = tBrkpt ∨ n = tSyscall) := by
  obtain ⟨l₁, l₂, hl, -⟩ := List.lookup_eq_some_iff.1 h
  exact trapInit_spec (n, r, dpl) (by rw [hl]; simp)

theorem enter_some (g : Gatedesc) : (g.enter u (some err) k).stack = (intGate u k).pushl err := rfl

theorem enter_none (g : Gatedesc) : (g.enter u none k).stack = intGate u k := rfl

theorem enter_eip (istrap : Bool) (off : Word) : ((setgate istrap gdKt off dpl).enter u code k).eip = off := setgate_off ..

/-- A gate that is set leads to the frame for its vector. -/
theorem enter_frame (h : trapInit.lookup n = some (r, dpl)) (hcode : code = if pushesErr n then some err else none)
    (herr : pushesErr n = false → err = 0#32) :
    T.frame u oesp ((T.idt n).enter u code k) = some (trapFrame u oesp n err) := by
  unfold KernText.frame
  rw [idt_some T h, enter_eip, T.codeAt_addr, Option.map_some, (lookup_spec h).1, hcode]
  cases hp : pushesErr n with
  | true => rw [if_pos rfl, if_pos rfl, enter_some, traphandler_frame]
  | false => rw [if_neg nofun, if_neg nofun, enter_none, traphandlerNoec_frame, herr hp]

/-- `trap` gets the frame of the program, with a trap number and an error code; interrupts are off, and `env_pop_tf` gives the
program all its registers back. -/
structure Traps (T : KernText) (u : Regs) (oesp trapno err : Word) (e : Entered) : Prop where
  cs : e.cs = gdKt
  eflags : e.eflags = u.eflags &&& ~~~flIf
  frame : T.frame u oesp e = some (trapFrame u oesp trapno err)

theorem traps_gate (h : trapInit.lookup n = some (r, dpl)) (hcode : code = if pushesErr n then some err else none)
    (herr : pushesErr n = false → err = 0#32) : Traps T u oesp n err ((T.idt n).enter u code k) := by
  refine ⟨?_, ?_, enter_frame h hcode herr⟩
  · rw [idt_some T h]
    rfl
  · rw [idt_some T h]
    rfl

theorem gpflt_gate : trapInit.lookup tGpflt = some (.gpflt, 0#2) := by decide +kernel

theorem gpflt_good (T : KernText) : (T.idt tGpflt).Good := by
  rw [idt_some T gpflt_gate]
  exact ⟨.inl rfl, rfl⟩

theorem traps_gpflt (err : Word) : Traps T u oesp tGpflt err ((T.idt tGpflt).enter u (some err) k) :=
  traps_gate gpflt_gate (by rw [if_pos (by decide)]) fun h => absurd h (by decide)

theorem vector_eq {i : BitVec 8} : i.setWidth 32 = n ↔ i.toNat = n.toNat := by
  rw [← BitVec.toNat_inj, BitVec.toNat_setWidth_of_le (by decide)]

/-- The instructions that a program may use. -/
theorem int_vector {i : BitVec 8} : (i = 3#8 ∨ i = 48#8) ↔ (i.setWidth 32 = tBrkpt ∨ i.setWidth 32 = tSyscall) := by
  rw [vector_eq, vector_eq, ← BitVec.toNat_inj, ← BitVec.toNat_inj]
  rfl

/-- An event without a gate. -/
theorem interrupt_none (k : Stack) {x : Intr} (h : trapInit.lookup x.vector = none) :
    interrupt T.idt u k x = some ((T.idt tGpflt).enter u (some (gateErr x)) k) ∧ x.trapno = tGpflt ∧ x.err = gateErr x := by
  refine ⟨?_, ?_⟩
  · unfold interrupt
    dsimp only
    rw [idt_none T h, if_pos (by decide), if_pos (gpflt_good T)]
  · cases x with
    | int i =>
      have hi : ¬ (i = 3#8 ∨ i = 48#8) := by
        rintro (rfl | rfl)
        · exact absurd h (by decide +kernel)
        · exact absurd h (by decide +kernel)
      exact ⟨if_neg hi, if_neg hi⟩
    | exception m hm err =>
      have hsome := exceptions_gates hm
      rw [show trapInit.lookup m = none from h] at hsome
      cases hsome
    | irq i hi =>
      have hsome := (irq_gates hi).1
      rw [show trapInit.lookup (i.setWidth 32) = none from h] at hsome
      have hgt : ¬ i.toNat ≤ 48 := of_decide_eq_false hsome.symm
      exact ⟨if_neg hgt, if_neg hgt⟩

/-- Whatever interrupts a program, `trap` runs with interrupts off and gets its frame. -/
theorem interrupt_traps (T : KernText) (hu : u.cs &&& 3#16 = 3#16) (oesp : Word) (k : Stack) (x : Intr) :
    ∃ e, interrupt T.idt u k x = some e ∧ Traps T u oesp x.trapno x.err e := by
  cases h : trapInit.lookup x.vector with
  | none =>
    obtain ⟨hrun, hno, herr⟩ := interrupt_none (T := T) (u := u) k h
    rw [hno, herr]
    exact ⟨_, hrun, traps_gpflt _⟩
  | some g =>
    obtain ⟨r, dpl⟩ := g
    have hidt := idt_some T h
    have htype : ¬ ((T.idt x.vector).gdType ≠ stsIg32 ∧ (T.idt x.vector).gdType ≠ stsTg32) := by
      rw [hidt]
      exact fun hn => hn.1 rfl
    have hp : (T.idt x.vector).gdP ≠ 0#1 := by
      rw [hidt]
      exact (by decide : (1#1 : BitVec 1) ≠ 0#1)
    unfold interrupt
    dsimp only
    rw [if_neg htype]
    cases x with
    | int i =>
      obtain ⟨-, hdpl, hiff⟩ := lookup_spec h
      have hlevel : (T.idt (Intr.int i).vector).gdDpl = dpl := by rw [hidt]; rfl
      dsimp only
      rw [hlevel, hu]
      by_cases hi : i = 3#8 ∨ i = 48#8
      · have h3 : dpl = 3#2 := hiff.2 (int_vector.1 hi)
        rw [h3, if_neg (by decide), if_neg hp]
        refine ⟨_, rfl, ?_⟩
        rw [show (Intr.int i).trapno = i.setWidth 32 from if_pos hi, show (Intr.int i).err = 0#32 from if_pos hi]
        have herr : pushesErr (i.setWidth 32) = false := by
          rcases int_vector.1 hi with hv | hv
          · rw [hv]
            decide
          · rw [hv]
            decide
        exact traps_gate h (by rw [herr]; rfl) fun _ => rfl
      · have h0 : dpl = 0#2 := hdpl.resolve_left fun h3 => hi (int_vector.2 (hiff.1 h3))
        rw [h0, if_pos (by decide), if_pos (gpflt_good T)]
        refine ⟨_, rfl, ?_⟩
        rw [show (Intr.int i).trapno = tGpflt from if_neg hi, show (Intr.int i).err = gateErr (.int i) from if_neg hi]
        exact traps_gpflt _
    | exception m hm err =>
      dsimp only
      rw [if_neg hp]
      refine ⟨_, rfl, traps_gate h ?_ fun hno => ?_⟩
      · show (if pushesErr m then some err else none) = if pushesErr m then some (if pushesErr m then err else 0#32) else none
        split
        · rfl
        · rfl
      · show (if pushesErr m then err else 0#32) = 0#32
        exact if_neg (by rw [show pushesErr m = false from hno]; decide)
    | irq i hi =>
      dsimp only
      rw [if_neg hp]
      obtain ⟨hsome, herr⟩ := irq_gates hi
      rw [show trapInit.lookup (i.setWidth 32) = some (r, dpl) from h] at hsome
      have hle : i.toNat ≤ 48 := of_decide_eq_true hsome.symm
      refine ⟨_, rfl, ?_⟩
      rw [show (Intr.irq i hi).trapno = i.setWidth 32 from if_pos hle, show (Intr.irq i hi).err = 0#32 from if_pos hle]
      exact traps_gate h (by rw [herr]; rfl) fun _ => rfl

/-- Whatever interrupts a user program, the kernel runs with interrupts off, `trap` gets a frame of user mode with the number and
the error code of the event, and `env_pop_tf` would give the program all its registers back. -/
theorem user_trap_frame (T : KernText) (hu : u.cs &&& 3#16 = 3#16) (oesp : Word) (k : Stack) (x : Intr) :
    ∃ e tf, interrupt T.idt u k x = some e ∧ e.cs = gdKt ∧ e.eflags &&& flIf = 0#32 ∧ T.frame u oesp e = some tf ∧
      tf.tfTrapno = x.trapno ∧ tf.tfErr = x.err ∧ tf.tfCs &&& 3#16 = 3#16 ∧ envPopTfRegs tf.toStack = u := by
  obtain ⟨e, hrun, hcs, hflags, hframe⟩ := interrupt_traps T hu oesp k x
  refine ⟨e, _, hrun, hcs, ?_, hframe, rfl, rfl, hu, ?_⟩
  · have hclear : (~~~flIf &&& flIf : Word) = 0#32 := by decide
    rw [hflags, BitVec.and_assoc, hclear, BitVec.and_zero]
  · rw [envPopTfRegs_toStack]
    rfl

/-- The routines of the gates, in the order of `trap_init`. -/
def routines : List Routine := trapInit.map fun g => g.2.1

theorem mem_routines (r : Routine) : r ∈ routines := by
  cases r with
  | irq i =>
    revert i
    decide +kernel
  | _ => decide +kernel

/-- The routines one after the other, 16 bytes each. -/
def linked : KernText where
  addr r := 0xf0104000#32 + BitVec.ofNat 32 (16 * routines.idxOf r)
  codeAt a := routines[(a - 0xf0104000#32).toNat / 16]?
  codeAt_addr r := by
    have hlt : routines.idxOf r < 35 := List.idxOf_lt_length_iff.2 (mem_routines r)
    rw [BitVec.add_comm, BitVec.add_sub_cancel, BitVec.toNat_ofNat, Nat.mod_eq_of_lt (by omega),
      Nat.mul_div_cancel_left _ (by decide)]
    exact List.getElem?_idxOf (List.idxOf_lt_length_iff.1 hlt)

/-- A program that asks for a page fault gets a protection fault, with its registers as they were. -/
theorem user_trap_frame_int14 : ∃ e tf, interrupt linked.idt { cs := 0x1b#16, eax := 7#32 } [] (.int 14#8) = some e ∧
    linked.frame { cs := 0x1b#16, eax := 7#32 } 0#32 e = some tf ∧ tf.tfTrapno = 13#32 ∧
    envPopTfRegs tf.toStack = { cs := 0x1b#16, eax := 7#32 } := by
  obtain ⟨e, tf, hrun, -, -, hframe, hno, -, -, hback⟩ :=
    user_trap_frame linked (u := { cs := 0x1b#16, eax := 7#32 }) (by decide) 0#32 [] (.int 14#8)
  exact ⟨e, tf, hrun, hframe, hno, hback⟩

/-! ## The number of a trap -/

theorem int_trapno (i : BitVec 8) : (Intr.int i).trapno.toNat = if i.toNat = 3 ∨ i.toNat = 48 then i.toNat else 13 := by
  have hi : (i = 3#8 ∨ i = 48#8) ↔ (i.toNat = 3 ∨ i.toNat = 48) := by
    rw [← BitVec.toNat_inj, ← BitVec.toNat_inj]
    rfl
  show (if i = 3#8 ∨ i = 48#8 then i.setWidth 32 else tGpflt).toNat = _
  rw [apply_ite BitVec.toNat, BitVec.toNat_setWidth_of_le (by decide)]
  simp only [hi]
  rfl

theorem irq_trapno {i : BitVec 8} (h : 32 ≤ i.toNat) : (Intr.irq i h).trapno.toNat = if i.toNat ≤ 48 then i.toNat else 13 := by
  show (if i.toNat ≤ 48 then i.setWidth 32 else tGpflt).toNat = _
  rw [apply_ite BitVec.toNat, BitVec.toNat_setWidth_of_le (by decide)]
  rfl

/-- The trap number of a page fault, of a system call and of a device is that of the event. -/
theorem trapno_genuine (x : Intr) : (x.trapno = tPgflt → ∃ h, x = .exception tPgflt h x.err) ∧
    (x.trapno = tSyscall → x = .int 48#8 ∨ ∃ h, x = .irq 48#8 h) ∧
    ∀ i : BitVec 8, 32 ≤ i.toNat → i.toNat < 48 → x.trapno = i.setWidth 32 → ∃ h, x = .irq i h := by
  have hnum : ∀ {w : Word} {j : Nat}, w = BitVec.ofNat 32 j → j < 64 → w.toNat = j := by
    rintro _ j rfl hj
    rw [BitVec.toNat_ofNat]
    omega
  cases x with
  | int m =>
    have hm := int_trapno m
    refine ⟨fun h => ?_, fun h => ?_, fun i hlo hhi h => ?_⟩
    · rw [hnum (j := 14) h (by decide)] at hm
      split_ifs at hm <;> omega
    · rw [hnum (j := 48) h (by decide)] at hm
      left
      rw [show m = 48#8 from BitVec.eq_of_toNat_eq (show m.toNat = 48 by split_ifs at hm <;> omega)]
    · rw [h, BitVec.toNat_setWidth_of_le (by decide)] at hm
      split_ifs at hm <;> omega
  | exception m hex err =>
    have hlt := exceptions_lt hex
    refine ⟨?_, fun h => ?_, fun i hlo _ h => ?_⟩
    · rintro (rfl : m = tPgflt)
      exact ⟨hex, rfl⟩
    · rw [show m = tSyscall from h] at hlt
      exact absurd hlt (by decide)
    · rw [show m = i.setWidth 32 from h, BitVec.toNat_setWidth_of_le (by decide)] at hlt
      omega
  | irq m hm32 =>
    have hm := irq_trapno hm32
    refine ⟨fun h => ?_, fun h => ?_, fun i hlo hhi h => ?_⟩
    · rw [hnum (j := 14) h (by decide)] at hm
      split_ifs at hm <;> omega
    · rw [hnum (j := 48) h (by decide)] at hm
      right
      obtain rfl : m = 48#8 := BitVec.eq_of_toNat_eq (show m.toNat = 48 by split_ifs at hm <;> omega)
      exact ⟨hm32, rfl⟩
    · rw [h, BitVec.toNat_setWidth_of_le (by decide)] at hm
      obtain rfl : m = i := BitVec.eq_of_toNat_eq (by split_ifs at hm <;> omega)
      exact ⟨hm32, rfl⟩

/-- What `trap_dispatch` tells apart by the number is what has happened: a page fault is one of the processor's own, a device is
that device, and a system call is the instruction, unless a device uses its vector. -/
theorem trap_number_genuine {x : Intr} {e : Entered} {tf : Trapframe} (hu : u.cs &&& 3#16 = 3#16)
    (hrun : interrupt T.idt u k x = some e) (hframe : T.frame u oesp e = some tf) :
    (tf.tfTrapno = tPgflt → ∃ h, x = .exception tPgflt h tf.tfErr) ∧
    (tf.tfTrapno = tSyscall → x = .int 48#8 ∨ ∃ h, x = .irq 48#8 h) ∧
    ∀ i : BitVec 8, 32 ≤ i.toNat → i.toNat < 48 → tf.tfTrapno = i.setWidth 32 → ∃ h, x = .irq i h := by
  obtain ⟨e', hrun', -, -, hframe'⟩ := interrupt_traps T hu oesp k x
  obtain rfl : e = e' := Option.some.inj (hrun.symm.trans hrun')
  have htf : tf = trapFrame u oesp x.trapno x.err := Option.some.inj (hframe.symm.trans hframe')
  rw [show tf.tfTrapno = x.trapno from congrArg Trapframe.tfTrapno htf,
    show tf.tfErr = x.err from congrArg Trapframe.tfErr htf]
  exact trapno_genuine x

theorem trap_number_genuine_int14 : ∃ e tf, interrupt linked.idt { cs := 0x1b#16 } [] (.int 14#8) = some e ∧
    linked.frame { cs := 0x1b#16 } 0#32 e = some tf ∧ tf.tfTrapno ≠ tPgflt := by
  obtain ⟨e, hrun, -, -, hframe⟩ := interrupt_traps linked (u := { cs := 0x1b#16 }) (by decide) 0#32 [] (.int 14#8)
  refine ⟨e, _, hrun, hframe, fun hno => ?_⟩
  obtain ⟨_, hx⟩ := (trap_number_genuine (by decide) hrun hframe).1 hno
  cases hx

end Jos
