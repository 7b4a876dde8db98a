/-
What a trap from user mode does to the records, and how it leaves the kernel: by `env_run` of a
runnable environment or of the one that trapped, by staying in the monitor, or in a panic with the
lock still held.
-/
import Jos.Sys.Effects

namespace Jos

open Lib Kern

variable {s s' s'' : State} {cur e : Slot} {α : Type}

/-! ## Leaving the kernel -/

/-- The lock and the CPU that executes kernel code are as before. -/
structure Locks (s s' : State) : Prop where
  cpunum : s'.cpunum = s.cpunum
  kernelLock : s'.kernelLock = s.kernelLock

theorem Same.locks (h : Same s s') : Locks s s' := ⟨h.cpunum, h.kernelLock⟩

/-- `e` is runnable, or it is the current environment and running. -/
def State.Ready (s : State) (e : Slot) : Prop := s.Runnable e ∨ (s.curenv = some e ∧ (s.envs e).envStatus = .running)

/-- How the kernel is left from state `s`. -/
inductive Exit (s : State) : EStateM.Result Stop State Unit → Prop where
  | run (e : Slot) (d : Nat) (he : s.Ready e) (hd : (s.envs e).envPgdir = some d)
      (hl : s.kernelLock = some s.cpunum) : Exit s (.error .envPopTf (s.popTf e d))
  | monitor : Exit s (.error .monitor s)
  | panic (s' : State) (h : Locks s s') : Exit s (.error .panic s')

theorem envRun_exit (he : s.Ready e) : Exit s ((envRun e).run s) := by
  have hr := envRun_resumed s e
  generalize (envRun e).run s = r at hr
  cases hr with
  | popTf d hd hl => exact .run e d he hd hl
  | noLock d => exact .panic _ ⟨switchTo_cpunum s e, switchTo_kernelLock s e⟩
  | noDir => exact .panic _ ⟨switchTo_cpunum s e, switchTo_kernelLock s e⟩

theorem schedYield_exit (s : State) : Exit s (schedYield.run s) := by
  rcases schedYield_picks s with ⟨e, he, hrun⟩ | ⟨hno, hrun⟩
  · rw [hrun]
    exact envRun_exit (Or.inl he.runnable)
  · rw [hrun]
    exact .monitor

theorem trapReturn_exit (s : State) : Exit s (trapReturn.run s) := by
  unfold trapReturn
  rw [run_bind_ok (EStateM.run_get s)]
  cases hc : s.curenv with
  | none => exact schedYield_exit s
  | some c =>
    dsimp only
    rw [run_bind_ok (run_env c)]
    split
    · rename_i hrun
      exact envRun_exit (Or.inr ⟨hc, hrun⟩)
    · exact schedYield_exit s

/-! ## The store of the user trap frame -/

theorem quiet_storeByte (va : Word) (x : BitVec 8) : Quiet (storeByte va x) := by
  refine quiet_get fun s => ?_
  cases s.translate va with
  | none => exact quiet_panic
  | some p => exact quiet_store p _

theorem quiet_storeWord (va w : Word) : Quiet (storeWord va w) :=
  .forM Rest.refl (fun _ _ _ => Rest.trans) (fun _ => quiet_storeByte _ _) _

theorem quiet_storeUtf (utf : Word) (u : UTrapframe) : Quiet (storeUtf utf u) :=
  .forM Rest.refl (fun _ _ _ => Rest.trans) (fun _ => quiet_storeWord _ _) _

/-! ## Handling a trap -/

/-- The state in which a trap has saved its frame: the lock is held and the CPU is started. -/
def State.saved (s : State) (cur : Slot) (tf : Trapframe) : State :=
  { s.setCpu { s.cpus s.cpunum with cpuStatus := .started } with
    kernelLock := some s.cpunum, envs := Function.update s.envs cur { s.envs cur with envTf := tf } }

/-- The record of an environment that goes to its page fault upcall. -/
def upcallEnv (tf : Trapframe) (v : Env) : Env :=
  { v with envTf := { v.envTf with tfEip := v.envPgfaultUpcall, tfEsp := utfAddr tf.tfEsp } }

/-- What handling a trap with frame `tf` does to the records, from the state `s` in which the frame is
saved to the state in which the kernel is left. -/
inductive Handles (s : State) (cur : Slot) (tf : Trapframe) (c : Call) : State → Prop where
  | nothing {s' : State} (htf : tf.tfTrapno ≠ tSyscall) (h : Rest s s') : Handles s cur tf c s'
  | returned {r : Int} {s₁ s' : State} (htf : tf.tfTrapno = tSyscall) (h : Change s cur c r s₁)
      (heax : s' = s₁.setEnv cur (setEax r (s₁.envs cur))) (hrun : c.exec.run s = .ok r s₁) : Handles s cur tf c s'
  | left {s' : State} (htf : tf.tfTrapno = tSyscall) (h : Leaves s cur c s')
      (hrun : ∃ x s'', c.exec.run s = .error x s'') : Handles s cur tf c s'
  | destroyed {s' : State} (htf : tf.tfTrapno ≠ tSyscall) (h : Same s s')
      (henvs : s'.envs = Function.update s.envs cur (freedEnv s.envFreeList (s.envs cur)))
      (hfree : s'.envFreeList = some cur) : Handles s cur tf c (s'.setCurenv none)
  | upcall {s' : State} (htf : tf.tfTrapno ≠ tSyscall) (h : Upd s s' cur (upcallEnv tf (s.envs cur))) : Handles s cur tf c s'

/-- How a trap from user mode ends. -/
inductive TrapRes (s : State) (cur : Slot) (tf : Trapframe) (c : Call) : EStateM.Result Stop State Unit → Prop where
  | zombie {s₁ : State} {r : EStateM.Result Stop State Unit} (hdy : (s.envs cur).envStatus = .dying)
      (h : Same { s.setCpu { s.cpus s.cpunum with cpuStatus := .started } with kernelLock := some s.cpunum } s₁)
      (henvs : s₁.envs = Function.update s.envs cur (freedEnv s.envFreeList (s.envs cur)))
      (hfree : s₁.envFreeList = some cur) (hx : Exit (s₁.setCurenv none) r) : TrapRes s cur tf c r
  | handled {s₁ : State} {r : EStateM.Result Stop State Unit} (hdy : (s.envs cur).envStatus ≠ .dying)
      (h : Handles (s.saved cur tf) cur tf c s₁) (hx : Exit s₁ r) : TrapRes s cur tf c r
  | panic (s' : State) (hn : s'.cpunum = s.cpunum) (hl : s'.kernelLock = some s.cpunum) : TrapRes s cur tf c (.error .panic s')

/-- How `trap_dispatch` ends. -/
inductive DispRes (s : State) (cur : Slot) (tf : Trapframe) (c : Call) : EStateM.Result Stop State Unit → Prop where
  | returns {s' : State} (h : Handles s cur tf c s') : DispRes s cur tf c (.ok () s')
  | exits {s₁ s' : State} {x : Stop} (h : Handles s cur tf c s₁) (hx : Exit s₁ (.error x s')) :
      DispRes s cur tf c (.error x s')
  | panic (s' : State) (h : Locks s s') : DispRes s cur tf c (.error .panic s')

section Dispatch

variable {tf : Trapframe} {c : Call}

/-- The current environment is destroyed, after nothing but quiet steps. -/
theorem dispRes_destroy (hcur : s.curenv = some cur) (htf : tf.tfTrapno ≠ tSyscall) (hq : Rest s s') :
    DispRes s cur tf c ((envDestroy cur).run s') := by
  rcases envDestroy_cur (hq.curenv.trans hcur) with ⟨s₁, x, s₂, hrun, hy, h, henvs, hl⟩ | ⟨s₁, hrun, h⟩
  · rw [hrun]
    rw [hq.envs, hq.envFreeList] at henvs
    refine .exits (.destroyed htf (hq.same.trans h) henvs hl) ?_
    rw [← hy]
    exact schedYield_exit _
  · rw [hrun]
    exact .panic s₁ (hq.same.trans h).locks

theorem DispRes.bind_error {x : Kern Unit} {f : Unit → Kern Unit} (h : DispRes s cur tf c (x.run s'))
    (hx : ∀ s'', x.run s' ≠ .ok () s'') : DispRes s cur tf c ((x >>= f).run s') := by
  cases hr : x.run s' with
  | ok _ s'' => exact absurd hr (hx s'')
  | error y s'' =>
    rw [run_bind_error hr]
    rw [hr] at h
    exact h

theorem envRun_not_ok (s s' : State) (e : Slot) : (envRun e).run s ≠ .ok () s' := by
  have hr := envRun_resumed s e
  generalize (envRun e).run s = r at hr
  rintro rfl
  cases hr

theorem envDestroy_cur_not_ok (hcur : s.curenv = some cur) (s' : State) : (envDestroy cur).run s ≠ .ok () s' := by
  rcases envDestroy_cur hcur with ⟨_, x, s₂, hrun, -⟩ | ⟨s₁, hrun, -⟩
  · rw [hrun]; intro h; cases h
  · rw [hrun]; intro h; cases h

theorem schedYield_not_ok (s s' : State) : schedYield.run s ≠ .ok () s' := by
  obtain ⟨x, s'', hy, -⟩ := schedYield_switched s
  rw [hy]; intro h; cases h

theorem dispRes_pageFault (hcur : s.curenv = some cur) (hrun : (s.envs cur).envStatus = .running)
    (htf : tf.tfTrapno ≠ tSyscall) (c : Call) (faultVa : Word) :
    DispRes s cur tf c ((pageFaultHandler tf faultVa).run s) ∧ ∀ s', (pageFaultHandler tf faultVa).run s ≠ .ok () s' := by
  unfold pageFaultHandler
  by_cases hcs : tf.tfCs &&& 3#16 = 0#16
  · rw [if_pos hcs]
    exact ⟨.panic s ⟨rfl, rfl⟩, by rintro s' ⟨⟩⟩
  rw [if_neg hcs, run_bind_ok (EStateM.run_get s), hcur, run_bind_ok (run_deref_some cur), run_bind_ok (run_env cur)]
  by_cases hup : (s.envs cur).envPgfaultUpcall ≠ 0#32
  · rw [if_pos hup]
    unfold userMemAssert
    cases hm : (userMemCheck cur (utfAddr tf.tfEsp) utfSize (pteU ||| pteW ||| pteU)).run s with
    | error y s₁ =>
      obtain ⟨rfl, h⟩ := quiet_error (quiet_userMemCheck _ _ _ _) hm
      rw [bind_assoc, run_bind_error hm]
      exact ⟨.panic s₁ h.same.locks, by rintro s' ⟨⟩⟩
    | ok r s₁ =>
      have h₁ := quiet_ok (quiet_userMemCheck _ _ _ _) hm
      have hcur₁ := h₁.curenv.trans hcur
      rw [bind_assoc, run_bind_ok hm]
      -- without a place for the frame `user_mem_assert` destroys the environment
      by_cases hneg : r < 0
      · rw [if_pos hneg]
        have hd : DispRes s cur tf c ((envDestroy cur).run s₁) := dispRes_destroy hcur htf h₁
        refine ⟨hd.bind_error (envDestroy_cur_not_ok hcur₁), fun s' hok => ?_⟩
        obtain ⟨_, s₂, hok, -⟩ := run_bind_eq_ok.1 hok
        exact envDestroy_cur_not_ok hcur₁ s₂ hok
      rw [if_neg hneg]
      cases hu : (storeUtf (utfAddr tf.tfEsp) (faultFrame tf faultVa)).run s₁ with
      | error y s₂ =>
        obtain ⟨rfl, h₂⟩ := quiet_error (quiet_storeUtf _ _) hu
        rw [run_bind_ok (EStateM.run_pure _ _), run_bind_error hu]
        exact ⟨.panic s₂ (h₁.trans h₂).same.locks, by rintro s' ⟨⟩⟩
      | ok _ s₂ =>
        have h₂ := h₁.trans (quiet_ok (quiet_storeUtf _ _) hu)
        rw [run_bind_ok (EStateM.run_pure _ _), run_bind_ok hu, run_bind_ok (run_modifyEnv ..)]
        -- with the frame stored the environment is run at its upcall, and `env_run` does not return
        let s₃ : State := s₂.setEnv cur (upcallEnv tf (s.envs cur))
        have hs₃ : s₂.setEnv cur { s₂.envs cur with envTf := { (s₂.envs cur).envTf with
            tfEip := (s.envs cur).envPgfaultUpcall, tfEsp := utfAddr tf.tfEsp } } = s₃ := by
          show s₂.setEnv cur _ = s₂.setEnv cur _
          rw [h₂.envs]
          rfl
        rw [hs₃]
        have hupd : Upd s s₃ cur (upcallEnv tf (s.envs cur)) := .rest_left h₂ (upd_setEnv ..)
        have hst : (s₃.envs cur).envStatus = .running := by
          rw [hupd.envs, Function.update_self]
          exact hrun
        have hexit := envRun_exit (s := s₃) (e := cur) (Or.inr ⟨hupd.toSame.curenv.trans hcur, hst⟩)
        have hres : DispRes s cur tf c ((envRun cur).run s₃) := by
          cases hr : (envRun cur).run s₃ with
          | ok _ s₄ => exact absurd hr (envRun_not_ok _ _ _)
          | error y s₄ =>
            rw [hr] at hexit
            exact .exits (.upcall htf hupd) hexit
        refine ⟨hres.bind_error fun s₄ => envRun_not_ok _ _ _, fun s' hok => ?_⟩
        obtain ⟨_, s₄, hok, -⟩ := run_bind_eq_ok.1 hok
        exact envRun_not_ok _ _ _ hok
  · rw [if_neg hup]
    exact ⟨dispRes_destroy hcur htf (.refl s), envDestroy_cur_not_ok hcur⟩

theorem dispRes_call (hcur : s.curenv = some cur) (htf : tf.tfTrapno = tSyscall) :
    DispRes s cur tf c ((do let r ← c.exec; modifyEnv cur (setEax r) : Kern Unit).run s) := by
  have hres := call_res hcur c
  cases hr : c.exec.run s with
  | ok r s₁ =>
    rw [hr] at hres
    rw [run_bind_ok hr]
    cases hres with
    | returns r s' h => exact .returns (.returned htf h rfl hr)
  | error x s₁ =>
    rw [hr] at hres
    rw [run_bind_error hr]
    cases hres with
    | leaves s₂ h hy =>
      refine .exits (.left htf h ⟨x, s₁, hr⟩) ?_
      rw [← hy]
      exact schedYield_exit s₂
    | panic _ h => exact .panic s₁ h.locks

theorem trapDispatch_res (hcur : s.curenv = some cur) (hrun : (s.envs cur).envStatus = .running) (tf : Trapframe)
    (c : Call) (faultVa : Word) :
    DispRes s cur tf c ((trapDispatch c.exec tf faultVa).run s) := by
  unfold trapDispatch
  by_cases h1 : tf.tfTrapno = irqOffset + irqSpurious
  · rw [if_pos h1]
    exact .returns (.nothing (by rw [h1]; decide) (.refl s))
  rw [if_neg h1]
  by_cases h2 : tf.tfTrapno = irqOffset + irqTimer
  · rw [if_pos h2]
    obtain ⟨x, s', hy, -⟩ := schedYield_switched s
    have hexit := schedYield_exit s
    rw [hy] at hexit
    rw [run_bind_error hy]
    exact .exits (.nothing (by rw [h2]; decide) (.refl s)) hexit
  rw [if_neg h2]
  by_cases h3 : tf.tfTrapno = tPgflt
  · rw [if_pos h3]
    obtain ⟨hres, hno⟩ := dispRes_pageFault hcur hrun (by rw [h3]; decide) c faultVa
    exact hres.bind_error hno
  rw [if_neg h3]
  by_cases hb : tf.tfTrapno = tBrkpt
  · rw [if_pos hb]
    exact .exits (.nothing (by rw [hb]; decide) (.refl s)) .monitor
  rw [if_neg hb]
  by_cases h4 : tf.tfTrapno = tSyscall
  · rw [if_pos h4, run_bind_ok (EStateM.run_get s), hcur, run_bind_ok (run_deref_some cur)]
    exact dispRes_call hcur h4
  rw [if_neg h4]
  by_cases h5 : tf.tfCs = gdKt
  · rw [if_pos h5]
    exact .panic s ⟨rfl, rfl⟩
  rw [if_neg h5, run_bind_ok (EStateM.run_get s), hcur, run_bind_ok (run_deref_some cur)]
  exact dispRes_destroy hcur h4 (.refl s)

end Dispatch

/-- A trap takes the lock. -/
theorem trap_locks {sys : Kern Int} {tf : Trapframe} {faultVa : Word} (hcur : s.curenv = some cur) (hl : s.kernelLock = none)
    (hh : (s.cpus s.cpunum).cpuStatus ≠ .halted) : (trap sys tf faultVa).run s = (do
      if (s.envs cur).envStatus = .dying then
        envFree cur
        modify fun s => s.setCurenv none
        schedYield
      modifyEnv cur fun v => { v with envTf := tf }
      trapDispatch sys tf faultVa
      trapReturn : Kern Unit).run
        { s.setCpu { s.cpus s.cpunum with cpuStatus := .started } with kernelLock := some s.cpunum } := by
  let s₀ : State := s.setCpu { s.cpus s.cpunum with cpuStatus := .started }
  let s₁ : State := { s₀ with kernelLock := some s.cpunum }
  have hlock : lockKernel.run s₀ = .ok () s₁ := by
    unfold lockKernel
    rw [run_bind_ok (EStateM.run_get s₀), if_neg (by show ¬ s.kernelLock = _; rw [hl]; simp)]
    rfl
  have hcur₁ : s₁.curenv = some cur := by
    show (Function.update s.cpus s.cpunum _ s.cpunum).cpuEnv = _
    rw [Function.update_self]
    exact hcur
  have henv₁ : s₁.envs = s.envs := rfl
  unfold trap
  rw [run_bind_ok (EStateM.run_get s), run_bind_ok (EStateM.run_get s),
    run_bind_ok (show (modify fun t : State => t.setCpu { s.cpus s.cpunum with cpuStatus := .started } : Kern Unit).run s =
      .ok () s₀ from rfl), if_neg hh, run_bind_ok hlock, run_bind_ok (EStateM.run_get s₁), hcur₁,
    run_bind_ok (run_deref_some cur), run_bind_ok (run_env cur), henv₁]

/-- A trap of an environment that is not dying enters `trap_dispatch` with the lock held. -/
theorem trap_enter {sys : Kern Int} {tf : Trapframe} {faultVa : Word} (hcur : s.curenv = some cur) (hl : s.kernelLock = none)
    (hh : (s.cpus s.cpunum).cpuStatus ≠ .halted) (hdy : (s.envs cur).envStatus ≠ .dying) :
    (trap sys tf faultVa).run s = (do trapDispatch sys tf faultVa; trapReturn : Kern Unit).run (s.saved cur tf) := by
  rw [trap_locks hcur hl hh, if_neg hdy]
  rfl

/-- A trap from user mode, on a CPU that is not halted, while the lock is free. -/
theorem trap_res (hcur : s.curenv = some cur)
    (hrun : (s.envs cur).envStatus = .running ∨ (s.envs cur).envStatus = .dying) (hl : s.kernelLock = none)
    (hh : (s.cpus s.cpunum).cpuStatus ≠ .halted) (c : Call) (tf : Trapframe) (faultVa : Word) :
    TrapRes s cur tf c ((trap c.exec tf faultVa).run s) := by
  by_cases hdy : (s.envs cur).envStatus = .dying
  · rw [trap_locks hcur hl hh, if_pos hdy]
    let s₁ : State := { s.setCpu { s.cpus s.cpunum with cpuStatus := .started } with kernelLock := some s.cpunum }
    have hfree := envFree_res s₁ cur
    cases hr : (envFree cur).run s₁ with
    | error y s₂ =>
      rw [hr] at hfree
      cases hfree with
      | panic s₂ h =>
        rw [run_bind_error hr]
        exact .panic s₂ h.cpunum h.kernelLock
    | ok _ s₂ =>
      rw [hr] at hfree
      cases hfree with
      | done s₂ h henvs hfl =>
        obtain ⟨x, s₃, hy, -⟩ := schedYield_switched (s₂.setCurenv none)
        have hexit := schedYield_exit (s₂.setCurenv none)
        rw [hy] at hexit
        rw [run_bind_ok hr, run_bind_ok (EStateM.run_modify _ _), run_bind_error hy]
        exact .zombie hdy h henvs hfl hexit
  · rw [trap_enter hcur hl hh hdy]
    have hcurs : (s.saved cur tf).curenv = some cur := by
      show (Function.update s.cpus s.cpunum _ s.cpunum).cpuEnv = _
      rw [Function.update_self]
      exact hcur
    have hst : ((s.saved cur tf).envs cur).envStatus = .running := by
      show (Function.update s.envs cur _ cur).envStatus = _
      rw [Function.update_self]
      exact hrun.resolve_right hdy
    have hdisp := trapDispatch_res hcurs hst tf c faultVa
    cases hr : (trapDispatch c.exec tf faultVa).run (s.saved cur tf) with
    | error x s₂ =>
      rw [hr] at hdisp
      rw [run_bind_error hr]
      cases hdisp with
      | exits h hx => exact .handled hdy h hx
      | panic s₂ h => exact .panic s₂ h.cpunum h.kernelLock
    | ok _ s₂ =>
      rw [hr] at hdisp
      rw [run_bind_ok hr]
      cases hdisp with
      | returns h => exact .handled hdy h (trapReturn_exit s₂)

end Jos
