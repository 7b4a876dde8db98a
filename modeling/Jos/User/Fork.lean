/-
`fork` of lib/fork.c with its page fault handler and `set_pgfault_handler` of lib/pgfault.c, as processes over the kernel: a
system call is one step, and so is a load or store of a word, a look at `vpt`, and the copy of a word by `memmove`. Any
process that the kernel has not stopped may take the next step.
-/
import Jos.Lib.Eager
import Jos.Sys.MapCalls
import Jos.Run.Sane

namespace Jos

open Lib Kern

/-! ## Pages -/

/-- A page of an address space: the indices of its directory and table entry. -/
abbrev UPage := Idx × Idx

/-- The page of an address. -/
def pageOf (va : Word) : UPage := (pdx va, ptx va)

/-- `VPN` of the addresses of a page. -/
def UPage.num (p : UPage) : Nat := p.1.val * 1024 + p.2.val

/-- `vpt[VPN(addr)]` of environment `e`, if both entries are present. -/
def State.vpt (s : State) (e : Slot) (p : UPage) : Option Word := s.pte e p.1 p.2

/-- What environment `e` reads in page `p`. -/
def State.userPage (s : State) (e : Slot) (p : UPage) : Option (Idx → Word) :=
  match s.vpt e p with
  | some w => if w &&& pteU = 0#32 then none else some (s.mem (pgnum w))
  | none => none

/-- The exception stack. -/
def xstack : Word := uxstacktop - pgsize

/-- The pages that `fork` goes through. -/
def UPage.Forked (p : UPage) : Prop := pgnum utext ≤ p.num ∧ p.num < pgnum xstack

/-- Those and the exception stack. -/
def UPage.Own (p : UPage) : Prop := p.Forked ∨ p = pageOf xstack

/-! ## Processes -/

/-- Where a process stands in `pgfault`. -/
inductive FaultPoint where
  | none
  | alloc (addr : Word)
  /-- `memmove` has copied the first `k` words. -/
  | copy (addr : Word) (k : Nat)
  deriving DecidableEq

/-- Where a process stands in `fork` and `duppage`, with the locals `envid`, `addr` and `pte`. In `mark`, `live` says that the
page could be written when it was mapped in the child. -/
inductive ForkPoint where
  | none
  | handler
  | upcall
  | exofork
  | loop (envid addr : Word)
  | dup (envid addr : Word)
  | share (envid addr pte : Word)
  | mark (envid addr : Word) (live : Bool)
  | stack (envid : Word)
  | setUpcall (envid : Word)
  | setStatus (envid : Word)
  deriving DecidableEq

/-- A process; `handler` says that `_pgfault_handler` is set, and `halted` that it has panicked. -/
structure Proc where
  fork : ForkPoint := .none
  fault : FaultPoint := .none
  handler : Bool := false
  halted : Bool := false
  deriving DecidableEq

/-- The kernel and the processes. -/
structure Machine where
  kern : State
  proc : Slot → Proc

/-- `PTE_U|PTE_P|PTE_W`. -/
def permRW : Word := pteU ||| pteP ||| pteW

/-- `PTE_U|PTE_P|PTE_COW`. -/
def permCow : Word := pteU ||| pteP ||| pteCow

/-- `PTE_U|PTE_P`. -/
def permRO : Word := pteU ||| pteP

/-- `(pte & PTE_W) > 0 || (pte & PTE_COW) > 0`. -/
def Cowed (pte : Word) : Prop := pte &&& pteW ≠ 0#32 ∨ pte &&& pteCow ≠ 0#32

instance : DecidablePred Cowed := fun pte =>
  inferInstanceAs (Decidable (pte &&& pteW ≠ 0#32 ∨ pte &&& pteCow ≠ 0#32))

/-- The system call that a process makes next; `upcall` is `_pgfault_upcall`. -/
def Proc.call (upcall : Word) (v : Proc) : Option Call :=
  match v.fault with
  | .alloc _ => some (.pageAlloc 0#32 pftemp permRW)
  | .copy addr k => if k = 1024 then some (.pageMap 0#32 pftemp 0#32 addr permRW) else none
  | .none =>
    match v.fork with
    | .handler => some (.pageAlloc 0#32 xstack permRW)
    | .upcall => some (.envSetPgfaultUpcall 0#32 upcall)
    | .exofork => some .exofork
    | .share envid addr pte => some (.pageMap 0#32 addr envid addr (if Cowed pte then permCow else permRO))
    | .mark _ addr _ => some (.pageMap 0#32 addr 0#32 addr permCow)
    | .stack envid => some (.pageAlloc envid xstack permRW)
    | .setUpcall envid => some (.envSetPgfaultUpcall envid upcall)
    | .setStatus envid => some (.envSetStatus envid 2#32)
    | .none | .loop .. | .dup .. => none

/-- How a process goes on after the call has returned `r`; the kernel was in state `s` before it. -/
def Proc.resume (s : State) (e : Slot) (r : Int) (v : Proc) : Proc :=
  match v.fault with
  | .alloc addr => if r < 0 then { v with halted := true } else { v with fault := .copy (rounddown addr pgsize) 0 }
  | .copy _ _ => if r < 0 then { v with halted := true } else { v with fault := .none }
  | .none =>
    match v.fork with
    | .handler => if r < 0 then { v with halted := true } else { v with fork := .upcall }
    | .upcall => { v with fork := .exofork, handler := true }
    | .exofork => if r < 0 then { v with halted := true } else { v with fork := .loop (BitVec.ofInt 32 r) utext }
    | .share envid addr pte =>
      if r < 0 then { v with halted := true }
      else if Cowed pte then
        { v with fork := .mark envid addr (match s.vpt e (pageOf addr) with
                                            | some w => w &&& pteW != 0#32
                                            | none => false) }
      else { v with fork := .loop envid (addr + pgsize) }
    | .mark envid addr _ =>
      if r < 0 then { v with halted := true } else { v with fork := .loop envid (addr + pgsize) }
    | .stack envid => if r < 0 then { v with halted := true } else { v with fork := .setUpcall envid }
    | .setUpcall envid => { v with fork := .setStatus envid }
    | .setStatus _ => if r < 0 then { v with halted := true } else { v with fork := .none }
    | .none | .loop .. | .dup .. => v

/-- What the processes see of a call of `e`: a new process, or a page that is copied. The copy of a page that could be written
when it was mapped in the child is that of the moment in which the parent can write it no more. -/
def Proc.act (s : State) (e : Slot) (r : Int) (v : Proc) : Eager.Act Slot UPage (Idx → Word) :=
  match v.fault, v.fork with
  | .none, .exofork => if r < 0 then .internal else .spawn e (envx (BitVec.ofInt 32 r))
  | .none, .share envid addr _ =>
    match s.vpt e (pageOf addr) with
    | some w => if r < 0 ∨ w &&& pteW ≠ 0#32 then .internal else .copy e (envx envid) (pageOf addr)
    | none => .internal
  | .none, .mark envid addr live => if r < 0 ∨ live = false then .internal else .copy e (envx envid) (pageOf addr)
  | _, _ => .internal

/-- A child begins with the memory of its parent, so with `_pgfault_handler` set. -/
def Machine.after (m : Machine) (e : Slot) (r : Int) (s' : State) : Machine :=
  { kern := s',
    proc := fun x =>
      if x = e then (m.proc e).resume m.kern e r
      else if (m.proc e).fault = .none ∧ (m.proc e).fork = .exofork ∧ 0 ≤ r ∧ x = envx (BitVec.ofInt 32 r) then
        { handler := true }
      else m.proc x }

def Machine.setProc (m : Machine) (e : Slot) (v : Proc) : Machine := { m with proc := Function.update m.proc e v }

/-- The kernel lets `e` run, and it has not panicked. -/
def Machine.Runs (m : Machine) (e : Slot) : Prop :=
  ((m.kern.envs e).envStatus = .runnable ∨ (m.kern.envs e).envStatus = .running) ∧ (m.proc e).halted = false

/-- The steps. -/
inductive Machine.Step (upcall : Word) (m : Machine) : Eager.Act Slot UPage (Idx → Word) → Machine → Prop where
  /-- A system call that returns; the page that it maps has room for one more reference. -/
  | call {e : Slot} {c : Call} {r : Int} {s' : State} (he : m.Runs e) (cpu : Cpu) (hc : (m.proc e).call upcall = some c)
      (hroom : c.Room (m.kern.enter cpu e) e) (hrun : c.exec.run (m.kern.enter cpu e) = .ok r s') :
      Step upcall m ((m.proc e).act m.kern e r) (m.after e r s')
  /-- A program calls `fork`, which calls `set_pgfault_handler`. -/
  | fork {e : Slot} (he : m.Runs e) (hf : (m.proc e).fault = .none) (hk : (m.proc e).fork = .none) :
      Step upcall m .internal
        (m.setProc e { m.proc e with fork := if (m.proc e).handler then .exofork else .handler })
  /-- The loop of `fork`. -/
  | loop {e : Slot} {envid addr : Word} (he : m.Runs e) (hf : (m.proc e).fault = .none)
      (hk : (m.proc e).fork = .loop envid addr) :
      Step upcall m .internal
        (m.setProc e { m.proc e with
          fork := if addr < xstack then
              match m.kern.vpt e (pageOf addr) with
              | some w => if w &&& pteU ≠ 0#32 then .dup envid addr else .loop envid (addr + pgsize)
              | none => .loop envid (addr + pgsize)
            else .stack envid })
  /-- `duppage` reads the entry of the page. -/
  | dup {e : Slot} {envid addr w : Word} (he : m.Runs e) (hf : (m.proc e).fault = .none)
      (hk : (m.proc e).fork = .dup envid addr) (hw : m.kern.vpt e (pageOf addr) = some w) :
      Step upcall m .internal (m.setProc e { m.proc e with fork := .share envid addr w })
  /-- A word of the page that `pgfault` copies. -/
  | move {e : Slot} {addr : Word} {k : Idx} {w t : Word} (he : m.Runs e) (hf : (m.proc e).fault = .copy addr k)
      (hw : m.kern.vpt e (pageOf addr) = some w) (hu : w &&& pteU ≠ 0#32) (ht : m.kern.vpt e (pageOf pftemp) = some t) :
      Step upcall m .internal
        { kern := m.kern.setWord (pgnum t) k (m.kern.mem (pgnum w) k),
          proc := Function.update m.proc e { m.proc e with fault := .copy addr (k.val + 1) } }
  /-- A load. -/
  | read {e : Slot} {p : UPage} {x : Idx → Word} (he : m.Runs e) (hf : (m.proc e).fault = .none) (hp : p.Forked)
      (hx : m.kern.userPage e p = some x) : Step upcall m (.read e p x) m
  /-- A store to a page that may be written. -/
  | write {e : Slot} {p : UPage} {w : Word} (he : m.Runs e) (hf : (m.proc e).fault = .none) (hp : p.Forked)
      (hw : m.kern.vpt e p = some w) (hu : w &&& pteU ≠ 0#32) (hW : w &&& pteW ≠ 0#32) (j : Idx) (x : Word) :
      Step upcall m (.write e p fun c => Function.update c j x) { m with kern := m.kern.setWord (pgnum w) j x }
  /-- A store to the exception stack, also inside `pgfault`. -/
  | writeStack {e : Slot} {w : Word} (he : m.Runs e) (hw : m.kern.vpt e (pageOf xstack) = some w)
      (hW : w &&& pteW ≠ 0#32) (j : Idx) (x : Word) :
      Step upcall m .internal { m with kern := m.kern.setWord (pgnum w) j x }
  /-- A store to a page that may not be written; `pgfault` looks for `PTE_COW`, and panics otherwise. -/
  | fault {e : Slot} {va : Word} (he : m.Runs e) (hf : (m.proc e).fault = .none) (hp : (pageOf va).Forked)
      (hW : ∀ w, m.kern.vpt e (pageOf va) = some w → w &&& pteU = 0#32 ∨ w &&& pteW = 0#32) :
      Step upcall m .internal
        (m.setProc e (match m.kern.vpt e (pageOf va) with
          | some w => if w &&& pteCow ≠ 0#32 then { m.proc e with fault := .alloc va } else { m.proc e with halted := true }
          | none => { m.proc e with halted := true }))

/-- Runs, with what the processes did and saw. -/
inductive Machine.Run (upcall : Word) (m : Machine) : List (Eager.Act Slot UPage (Idx → Word)) → Machine → Prop where
  | refl : Run upcall m [] m
  | step {as : List (Eager.Act Slot UPage (Idx → Word))} {m' m'' : Machine} {a : Eager.Act Slot UPage (Idx → Word)}
      (h : Run upcall m as m') (hs : Machine.Step upcall m' a m'') : Run upcall m (as ++ [a]) m''

end Jos
