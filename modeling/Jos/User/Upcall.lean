/-
The page fault upcall of a user program. The kernel has pushed a `struct UTrapframe`; `_pgfault_upcall` of
lib/pfentry.S calls the handler in C and goes back to the code that faulted. User memory is flat here: an
address is a byte, and what the program may not write is not touched.
-/
import Jos.Lib.Bytes
import Jos.Kern.Trap

namespace Jos

open Lib Kern

/-! ## The machine in user mode -/

/-- The registers and the memory of a program; `regOesp` is not a register. -/
structure User where
  regs : PushRegs
  eip : Word
  eflags : Word
  esp : Word
  mem : Bytes

/-- The registers that lib/pfentry.S names. -/
inductive Reg where
  | eax
  | ebx
  | esp

/-- The instructions of lib/pfentry.S. -/
inductive Instr where
  | pushl (r : Reg)
  /-- `movl _pgfault_handler, r` -/
  | movlHandler (r : Reg)
  /-- `call *r` -/
  | call (r : Reg)
  | addl (n : Word) (r : Reg)
  | subl (n : Word) (r : Reg)
  /-- `movl off(base), r` -/
  | load (off : Word) (base r : Reg)
  /-- `movl r, off(base)` -/
  | store (r : Reg) (off : Word) (base : Reg)
  | popal
  | popfl
  | pop (r : Reg)
  | ret

/-- What the linker and the processor add: the address of the variable `_pgfault_handler`, the
addresses of `_pgfault_upcall` and of the instruction after its `call`, and the flags that an
arithmetic instruction leaves. -/
structure Image where
  handlerVar : Word
  upcall : Word
  afterCall : Word
  flags : User → Instr → Word

def User.get (u : User) : Reg → Word
  | .eax => u.regs.regEax
  | .ebx => u.regs.regEbx
  | .esp => u.esp

def User.set (u : User) (r : Reg) (w : Word) : User :=
  match r with
  | .eax => { u with regs := { u.regs with regEax := w } }
  | .ebx => { u with regs := { u.regs with regEbx := w } }
  | .esp => { u with esp := w }

/-- One instruction. `eip` is followed only where the code is left. -/
def Instr.exec (im : Image) (i : Instr) (u : User) : User :=
  match i with
  | .pushl r => { u with esp := u.esp - 4#32, mem := u.mem.write (u.esp - 4#32) (u.get r) }
  | .movlHandler r => u.set r (u.mem.read im.handlerVar)
  | .call r => { u with esp := u.esp - 4#32, mem := u.mem.write (u.esp - 4#32) im.afterCall, eip := u.get r }
  | .addl n r => { u.set r (u.get r + n) with eflags := im.flags u (.addl n r) }
  | .subl n r => { u.set r (u.get r - n) with eflags := im.flags u (.subl n r) }
  | .load off base r => u.set r (u.mem.read (u.get base + off))
  | .store r off base => { u with mem := u.mem.write (u.get base + off) (u.get r) }
  | .popal =>
    { u with
      regs := { u.regs with
        regEdi := u.mem.read u.esp
        regEsi := u.mem.read (u.esp + 4#32)
        regEbp := u.mem.read (u.esp + 8#32)
        regEbx := u.mem.read (u.esp + 16#32)
        regEdx := u.mem.read (u.esp + 20#32)
        regEcx := u.mem.read (u.esp + 24#32)
        regEax := u.mem.read (u.esp + 28#32) }
      esp := u.esp + 32#32 }
  | .popfl => { u with eflags := u.mem.read u.esp, esp := u.esp + 4#32 }
  | .pop r => { u with esp := u.esp + 4#32 }.set r (u.mem.read u.esp)
  | .ret => { u with eip := u.mem.read u.esp, esp := u.esp + 4#32 }

/-- `_pgfault_upcall` up to the call of the handler. -/
def pgfaultUpcall : List Instr := [.pushl .esp, .movlHandler .eax, .call .eax]

/-- `_pgfault_upcall` after the handler has returned. -/
def pgfaultReturn : List Instr :=
  [.addl 4#32 .esp, .load 0x30#32 .esp .eax, .subl 4#32 .eax, .store .eax 0x30#32 .esp, .load 0x28#32 .esp .ebx,
    .store .ebx 0#32 .eax, .addl 8#32 .esp, .popal, .addl 4#32 .esp, .popfl, .pop .esp, .ret]

def execAll (im : Image) (is : List Instr) (u : User) : User := is.foldl (fun u i => i.exec im u) u

/-! ## Faults -/

/-- The processor has saved the registers in the trap frame. -/
structure User.Trapped (u : User) (tf : Trapframe) : Prop where
  regs : { tf.tfRegs with regOesp := u.regs.regOesp } = u.regs
  eip : tf.tfEip = u.eip
  eflags : tf.tfEflags = u.eflags
  esp : tf.tfEsp = u.esp

/-- The program when its frame has been pushed and it goes on at its upcall. -/
def User.faulted (im : Image) (u : User) (tf : Trapframe) (faultVa : Word) : User :=
  { regs := tf.tfRegs, eip := im.upcall, eflags := tf.tfEflags, esp := utfAddr tf.tfEsp,
    mem := u.mem.writes (utfAddr tf.tfEsp) (faultFrame tf faultVa).words }

/-- The address is on the page of the exception stack. -/
def OnXstack (a : Word) : Prop := uxstacktop - pgsize ≤ a ∧ a < uxstacktop

instance (a : Word) : Decidable (OnXstack a) := inferInstanceAs (Decidable (_ ∧ _))

/-- The address is in the frame at `utf`. -/
def InUtf (utf a : Word) : Prop := (a - utf).toNat < 52

variable {im : Image} {K : Word → Prop} {u v : User} {tf : Trapframe} {a : Word}

/-! ## The upcall -/

theorem upcall_mem (u : User) : (execAll im pgfaultUpcall u).mem =
    (u.mem.write (u.esp - 4#32) u.esp).write (u.esp - 4#32 - 4#32) im.afterCall := rfl

/-- The words that the code after the handler reads, in a frame with the words `f`. -/
def HasFrame (m : Bytes) (utf : Word) (f : UTrapframe) : Prop :=
  ∀ k (hk : k < 13), m.read (utf + BitVec.ofNat 32 (4 * k)) = f.words.get ⟨k, hk⟩

/-- What the upcall does after the handler, when the frame is as the kernel built it. -/
theorem return_state (im : Image) {utf : Word} {f : UTrapframe} (hesp : v.esp = utf - 4#32) (hf : HasFrame v.mem utf f)
    (hlo : 52 ≤ (f.utfEsp - 4#32 - utf).toNat) (hhi : (f.utfEsp - 4#32 - utf).toNat ≤ 2 ^ 32 - 4) :
    execAll im pgfaultReturn v =
      { regs := { f.utfRegs with regOesp := v.regs.regOesp }, eip := f.utfEip, eflags := f.utfEflags, esp := f.utfEsp,
        mem := (v.mem.write (utf + 48#32) (f.utfEsp - 4#32)).write (f.utfEsp - 4#32) f.utfEip } := by
  -- the frame, with the adjusted stack pointer, after the word below the stack pointer was written
  let m := (v.mem.write (utf + 48#32) (f.utfEsp - 4#32)).write (f.utfEsp - 4#32) f.utfEip
  have hread : ∀ k (hk : k < 12), m.read (utf + BitVec.ofNat 32 (4 * k)) = f.words.get ⟨k, Nat.lt_succ_of_lt hk⟩ := by
    intro k hk
    have hk' : (BitVec.ofNat 32 (4 * k)).toNat = 4 * k := by rw [BitVec.toNat_ofNat, Nat.mod_eq_of_lt (by omega)]
    rw [← hf k (by omega)]
    generalize BitVec.ofNat 32 (4 * k) = x at hk'
    rw [read_write_other (by bv_omega) (by bv_omega), read_write_other (by bv_omega) (by bv_omega)]
  have hsp : m.read (utf + 48#32) = f.utfEsp - 4#32 := by
    rw [read_write_other (by bv_omega) (by bv_omega), read_write]
  have hret : m.read (f.utfEsp - 4#32) = f.utfEip := read_write
  have hespW : v.mem.read (utf + 48#32) = f.utfEsp := hf 12 (by omega)
  have heipW : (v.mem.write (utf + 48#32) (f.utfEsp - 4#32)).read (utf + 40#32) = f.utfEip := by
    rw [read_write_other (by bv_omega) (by bv_omega)]
    exact hf 10 (by omega)
  have hutf : v.esp + 4#32 = utf := by rw [hesp, BitVec.sub_add_cancel]
  have hm : (execAll im (pgfaultReturn.take 6) v).mem = m := by
    simp only [execAll, pgfaultReturn, List.take, List.foldl, Instr.exec, User.get, User.set, hutf, hespW, heipW, BitVec.add_zero]
    rfl
  have hpop : execAll im pgfaultReturn v = execAll im (pgfaultReturn.drop 6) (execAll im (pgfaultReturn.take 6) v) := rfl
  have hu : (execAll im (pgfaultReturn.take 6) v).esp = utf := hutf
  have ho : (execAll im (pgfaultReturn.take 6) v).regs.regOesp = v.regs.regOesp := rfl
  rw [hpop]
  generalize execAll im (pgfaultReturn.take 6) v = u at hm hu ho
  obtain ⟨regs, eip, eflags, esp, mem⟩ := u
  obtain rfl : mem = m := hm
  obtain rfl : esp = utf := hu
  simp only [execAll, pgfaultReturn, List.drop, List.foldl, Instr.exec, User.get, User.set, BitVec.add_assoc, BitVec.reduceAdd]
  have hedi : m.read (esp + 8#32) = f.utfRegs.regEdi := hread 2 (by omega)
  have hesi : m.read (esp + 12#32) = f.utfRegs.regEsi := hread 3 (by omega)
  have hebp : m.read (esp + 16#32) = f.utfRegs.regEbp := hread 4 (by omega)
  have hebx : m.read (esp + 24#32) = f.utfRegs.regEbx := hread 6 (by omega)
  have hedx : m.read (esp + 28#32) = f.utfRegs.regEdx := hread 7 (by omega)
  have hecx : m.read (esp + 32#32) = f.utfRegs.regEcx := hread 8 (by omega)
  have heax : m.read (esp + 36#32) = f.utfRegs.regEax := hread 9 (by omega)
  have hflags : m.read (esp + 44#32) = f.utfEflags := hread 11 (by omega)
  rw [hedi, hesi, hebp, hebx, hedx, hecx, heax, hflags, hsp, hret, BitVec.sub_add_cancel, ← ho]

/-! ## Where the frame is -/

theorem utfAddr_nested (h : OnXstack a) : utfAddr a = a - 56#32 := by
  have hsub : a - utfSize - 4#32 = a - 56#32 := by rw [BitVec.sub_sub]; rfl
  exact (if_pos h).trans hsub

theorem utfAddr_first (h : ¬ OnXstack a) : utfAddr a = uxstacktop - 52#32 := by
  exact if_neg h

theorem onXstack_iff : OnXstack a ↔ 0xEEBFF000 ≤ a.toNat ∧ a.toNat < 0xEEC00000 := by
  unfold OnXstack
  rw [BitVec.le_def, BitVec.lt_def]
  have h₁ : (uxstacktop - pgsize).toNat = 0xEEBFF000 := by decide
  have h₂ : uxstacktop.toNat = 0xEEC00000 := by decide
  rw [h₁, h₂]

/-- The frame, the words that the upcall pushes and the word below the stack pointer do not overlap and
are not among the addresses `K`. -/
structure Clear (K : Word → Prop) (utf esp : Word) : Prop where
  lo : 52 ≤ (esp - 4#32 - utf).toNat
  hi : (esp - 4#32 - utf).toNat ≤ 2 ^ 32 - 4
  pushed : 8 ≤ (esp - 4#32 - (utf - 8#32)).toNat
  keep : ∀ a, K a → 60 ≤ (a - (utf - 8#32)).toNat ∧ 4 ≤ (a - (esp - 4#32)).toNat

/-! ## Handling a fault -/

theorem HasFrame.congr {m m' : Bytes} {utf : Word} {f : UTrapframe} (hf : HasFrame m utf f)
    (h : ∀ a, InUtf utf a → m' a = m a) : HasFrame m' utf f := by
  intro k hk
  rw [← hf k hk]
  refine read_congr fun j hj => h _ ?_
  have hk' : (BitVec.ofNat 32 (4 * k)).toNat = 4 * k := by rw [BitVec.toNat_ofNat, Nat.mod_eq_of_lt (by omega)]
  have hj' : (BitVec.ofNat 32 j).toNat = j := by rw [BitVec.toNat_ofNat, Nat.mod_eq_of_lt (by omega)]
  unfold InUtf
  generalize BitVec.ofNat 32 (4 * k) = x at hk'
  generalize BitVec.ofNat 32 j = y at hj'
  bv_omega

/-- What the handler finds: its frame, and everything that is to be kept. -/
theorem entered (im : Image) (u : User) (faultVa : Word) (hc : Clear K (utfAddr tf.tfEsp) tf.tfEsp) :
    HasFrame (execAll im pgfaultUpcall (u.faulted im tf faultVa)).mem (utfAddr tf.tfEsp) (faultFrame tf faultVa) ∧
      ∀ a, K a → (execAll im pgfaultUpcall (u.faulted im tf faultVa)).mem a = u.mem a := by
  rw [upcall_mem]
  have hpush : ∀ (m : Bytes) (x y utf a : Word), 8 ≤ (a - (utf - 8#32)).toNat →
      ((m.write (utf - 4#32) x).write (utf - 4#32 - 4#32) y) a = m a := by
    intro m x y utf a h
    rw [write_other (by bv_omega), write_other (by bv_omega)]
  have hesp : (u.faulted im tf faultVa).esp = utfAddr tf.tfEsp := rfl
  have hmem : (u.faulted im tf faultVa).mem = u.mem.writes (utfAddr tf.tfEsp) (faultFrame tf faultVa).words := rfl
  rw [hesp, hmem]
  constructor
  · have hwords : HasFrame (u.mem.writes (utfAddr tf.tfEsp) (faultFrame tf faultVa).words) (utfAddr tf.tfEsp)
        (faultFrame tf faultVa) := fun k hk => by
      have hlen : (faultFrame tf faultVa).words.length = 13 := rfl
      exact read_writes (by rw [hlen]; decide) hk
    refine hwords.congr fun a ha => hpush _ _ _ _ a ?_
    unfold InUtf at ha
    bv_omega
  · intro a ha
    have hk := (hc.keep a ha).1
    have hlen : (faultFrame tf faultVa).words.length = 13 := rfl
    rw [hpush _ _ _ _ a (by omega), writes_other (by rw [hlen]; bv_omega)]

/-- From the handler's return the program goes on where it was. -/
theorem returned (htf : u.Trapped tf) (hc : Clear K (utfAddr tf.tfEsp) tf.tfEsp) (hesp : v.esp = utfAddr tf.tfEsp - 4#32)
    (hv : ∀ a, K a ∨ InUtf (utfAddr tf.tfEsp) a → v.mem a = (execAll im pgfaultUpcall (u.faulted im tf faultVa)).mem a) :
    (execAll im pgfaultReturn v = { u with
      regs := { u.regs with regOesp := v.regs.regOesp }
      mem := (execAll im pgfaultReturn v).mem }) ∧
    ∀ a, K a → (execAll im pgfaultReturn v).mem a = u.mem a := by
  obtain ⟨hf, hk⟩ := entered im u faultVa hc
  have hf := hf.congr fun a ha => hv a (Or.inr ha)
  have hr := return_state im hesp hf hc.lo hc.hi
  rw [hr]
  constructor
  · have hregs : { tf.tfRegs with regOesp := v.regs.regOesp } = { u.regs with regOesp := v.regs.regOesp } := by
      rw [← htf.regs]
    show User.mk { tf.tfRegs with regOesp := v.regs.regOesp } tf.tfEip tf.tfEflags tf.tfEsp _ = _
    rw [hregs, htf.eip, htf.eflags, htf.esp]
  · intro a ha
    obtain ⟨h₁, h₂⟩ := hc.keep a ha
    show Bytes.write _ (tf.tfEsp - 4#32) _ a = _
    rw [write_other h₂, write_other (by bv_omega), hv a (Or.inl ha), hk a ha]

end Jos
