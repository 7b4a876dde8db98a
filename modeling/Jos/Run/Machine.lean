/-
The kernel as a machine: its sections, each executed by one CPU under the kernel lock, in any
order. Between sections a CPU with a current environment executes user code, unless it holds the
lock: then it stays in the monitor. A panic ends the run.
-/
import Jos.Sys.Touch

namespace Jos

open Lib Kern

variable {s s' : State} {cur e : Slot} {k : Cpu} {d : Nat}

/-! ## Sections -/

/-- A section of the kernel: a trap from user mode, with the system call that the trap makes if it is
one, or a CPU without an environment that enters the scheduler. -/
inductive Sect where
  | trap (k : Cpu) (tf : Trapframe) (faultVa : Word) (c : Call)
  | start (k : Cpu)

/-- CPU `k` goes on. -/
def State.on (s : State) (k : Cpu) : State := { s with cpunum := k }

/-- A section that does not panic. -/
inductive Step (s : State) : Sect → State → Prop where
  | trap {k : Cpu} {e : Slot} {tf : Trapframe} {faultVa : Word} {c : Call} {x : Stop} {s' : State}
      (hl : s.kernelLock = none) (he : (s.cpus k).cpuEnv = some e)
      (hr : (trap c.exec tf faultVa).run (s.on k) = .error x s') (hx : x ≠ .panic) : Step s (.trap k tf faultVa c) s'
  | start {k : Cpu} {x : Stop} {s' : State} (hl : s.kernelLock = none) (he : (s.cpus k).cpuEnv = none)
      (hr : (do lockKernel; schedYield : Kern Unit).run (s.on k) = .error x s') (hx : x ≠ .panic) : Step s (.start k) s'

/-- Runs of the machine from `s₀` in which every step meets `P` in the state before it. -/
inductive Runs (P : State → Sect → Prop) (s₀ : State) : State → Prop where
  | refl : Runs P s₀ s₀
  | step {s s' : State} {a : Sect} (h : Runs P s₀ s) (hp : P s a) (hs : Step s a s') : Runs P s₀ s'

/-- The kernel before its CPUs run environments: those that were created are runnable. -/
structure Fresh (s : State) : Prop where
  freeEnvs : FreeEnvs s
  status : ∀ e, (s.envs e).envStatus = .free ∨ (s.envs e).envStatus = .runnable
  recving : ∀ e, (s.envs e).envIpcRecving = false
  cpuEnv : ∀ k, (s.cpus k).cpuEnv = none
  kernelLock : s.kernelLock = none
  awake : ∀ k, (s.cpus k).cpuStatus ≠ .halted

/-! ## `env_run` on the records -/

/-- The status of slot `e'` after `env_run` of `e`. -/
def State.statusAfter (s : State) (e e' : Slot) : EnvStatus :=
  if e' = e then .running
  else if s.curenv = some e' ∧ (s.envs e').envStatus = .running then .runnable
  else (s.envs e').envStatus

theorem yieldCur_envs_apply (s : State) (e : Slot) : s.yieldCur.envs e =
    if s.curenv = some e ∧ (s.envs e).envStatus = .running then { s.envs e with envStatus := .runnable } else s.envs e := by
  unfold State.yieldCur
  cases hc : s.curenv with
  | none => simp
  | some c =>
    dsimp only
    by_cases he : c = e
    · subst he
      by_cases hr : (s.envs c).envStatus = .running
      · rw [if_pos hr, if_pos ⟨rfl, hr⟩]
        exact Function.update_self ..
      · rw [if_neg hr, if_neg (fun h => hr h.2)]
    · have hne : ¬ (some c = some e ∧ (s.envs e).envStatus = .running) := fun h => he (Option.some.inj h.1)
      rw [if_neg hne]
      split
      · exact Function.update_of_ne (Ne.symm he) ..
      · rfl

/-- `env_run` changes the status, the run count and the CPU of a record. -/
theorem popTf_envs (s : State) (e : Slot) (d : Nat) (e' : Slot) : ∃ runs cpu, (s.popTf e d).envs e' =
    { s.envs e' with envStatus := s.statusAfter e e', envRuns := runs, envCpunum := cpu } := by
  have hload : (s.loadDir e d).envs = (s.switchTo e).envs := rfl
  have hpop : (s.popTf e d).envs e' =
      if e' = e then { (s.switchTo e).envs e with envCpunum := s.cpunum } else (s.switchTo e).envs e' :=
    Function.update_apply ..
  have hsw : (s.switchTo e).envs e' = if e' = e then
      { s.yieldCur.envs e with envStatus := .running, envRuns := (s.yieldCur.envs e).envRuns + 1#32 }
      else s.yieldCur.envs e' := Function.update_apply ..
  unfold State.statusAfter
  rw [hpop]
  by_cases he : e' = e
  · subst he
    rw [if_pos rfl, if_pos rfl, hsw, if_pos rfl, yieldCur_envs_apply]
    split
    · exact ⟨_, _, rfl⟩
    · exact ⟨_, _, rfl⟩
  · rw [if_neg he, if_neg he, hsw, if_neg he, yieldCur_envs_apply]
    split
    · exact ⟨_, _, rfl⟩
    · exact ⟨_, _, rfl⟩

theorem popTf_status (s : State) (e : Slot) (d : Nat) (e' : Slot) :
    ((s.popTf e d).envs e').envStatus = s.statusAfter e e' := by
  obtain ⟨runs, cpu, h⟩ := popTf_envs s e d e'
  rw [h]

theorem popTf_cpus (s : State) (e : Slot) (d : Nat) (k : Cpu) : (s.popTf e d).cpus k =
    if k = s.cpunum then { s.cpus s.cpunum with cpuEnv := some e, cr3 := page2pa d, tlb := [] } else s.cpus k := by
  have h := congrFun (loadDir_cpus s e d) k
  rw [Function.update_apply] at h
  exact h

theorem popTf_freeEnvs (h : FreeEnvs s) (he : (s.envs e).envStatus ≠ .free) : FreeEnvs (s.popTf e d) := by
  have hlist : (s.popTf e d).envFreeList = s.envFreeList := popTf_envFreeList s e d
  have hlive : ∀ e', s.statusAfter e e' = .free ↔ (s.envs e').envStatus = .free := by
    intro e'
    unfold State.statusAfter
    by_cases h1 : e' = e
    · rw [if_pos h1, h1]
      exact iff_of_false (by simp) he
    rw [if_neg h1]
    split
    · rename_i h2
      exact iff_of_false (by simp) (by rw [h2.2]; simp)
    · rfl
  obtain ⟨le, hc, hn, hm⟩ := h.table
  refine ⟨⟨le, ?_, hn, fun e' => ?_⟩, fun e' => ?_⟩
  · rw [hlist]
    refine Chain.congr (fun x _ => ?_) hc
    obtain ⟨runs, cpu, hx⟩ := popTf_envs s e d x
    rw [hx]
  · rw [hm, popTf_status, hlive]
  · obtain ⟨runs, cpu, hx⟩ := popTf_envs s e d e'
    rw [hx]
    exact (hlive e').trans (h.pgdir e')

/-! ## What a step is made of -/

/-- The state in which CPU `k` has taken the lock. -/
def State.locked (s : State) (k : Cpu) : State := { s with cpunum := k, kernelLock := some k }

/-- The state in which a trap on CPU `k` has taken the lock. -/
def State.trapped (s : State) (k : Cpu) : State :=
  { (s.on k).setCpu { s.cpus k with cpuStatus := .started } with kernelLock := some k }

theorem trapped_cpus (s : State) (k k' : Cpu) : (s.trapped k).cpus k' =
    if k' = k then { s.cpus k with cpuStatus := .started } else s.cpus k' := Function.update_apply ..

theorem start_run (hl : s.kernelLock = none) (k : Cpu) :
    (do lockKernel; schedYield : Kern Unit).run (s.on k) = schedYield.run (s.locked k) := by
  have hlock : lockKernel.run (s.on k) = .ok () (s.locked k) := by
    unfold lockKernel
    rw [run_bind_ok (EStateM.run_get _), if_neg (by show ¬ s.kernelLock = _; rw [hl]; simp)]
    rfl
  rw [run_bind_ok hlock]

/-- Marked as running or dying. -/
def State.Marked (s : State) (e : Slot) : Prop := (s.envs e).envStatus = .running ∨ (s.envs e).envStatus = .dying

/-- How a section that does not panic leaves the kernel: in user mode or in the monitor. -/
inductive Out (s : State) : State → Prop where
  | run (e : Slot) (d : Nat) (he : s.Ready e) (hd : (s.envs e).envPgdir = some d) : Out s (s.popTf e d)
  | monitor : Out s s

theorem Exit.out {x : Stop} (h : Exit s (.error x s')) (hx : x ≠ .panic) : Out s s' := by
  cases h with
  | run e d he hd hl => exact .run e d he hd
  | monitor => exact .monitor
  | panic s' h => exact absurd rfl hx

/-- A step: a CPU enters the scheduler, or a zombie is collected, or a trap is handled; then the
kernel is left. -/
inductive Step.Parts (s : State) : Sect → State → Prop where
  | start {k : Cpu} {s' : State} (he : (s.cpus k).cpuEnv = none) (hx : Out (s.locked k) s') : Parts s (.start k) s'
  | zombie {k : Cpu} {cur : Slot} {tf : Trapframe} {faultVa : Word} {c : Call} {s₁ s' : State}
      (he : (s.cpus k).cpuEnv = some cur) (hdy : (s.envs cur).envStatus = .dying)
      (hst : Stays (s.trapped k) s₁ cur) (hnone : s₁.curenv = none)
      (henvs : s₁.envs = Function.update s.envs cur (freedEnv s.envFreeList (s.envs cur)))
      (hfree : s₁.envFreeList = some cur) (hx : Out s₁ s') : Parts s (.trap k tf faultVa c) s'
  | handled {k : Cpu} {cur : Slot} {tf : Trapframe} {faultVa : Word} {c : Call} {s₁ s' : State}
      (he : (s.cpus k).cpuEnv = some cur) (hdy : (s.envs cur).envStatus ≠ .dying)
      (h : Handles ((s.on k).saved cur tf) cur tf c s₁) (hx : Out s₁ s') : Parts s (.trap k tf faultVa c) s'

theorem Step.parts {a : Sect} (h : Step s a s') (hw : ∀ k, (s.cpus k).cpuStatus ≠ .halted)
    (hu : ∀ k e, (s.cpus k).cpuEnv = some e → s.Marked e) : Step.Parts s a s' := by
  cases h with
  | @start k x s' hl he hr hx =>
    rw [start_run hl] at hr
    have hexit := schedYield_exit (s.locked k)
    rw [hr] at hexit
    exact .start he (hexit.out hx)
  | @trap k cur tf faultVa c x s' hl he hr hx =>
    have hres := trap_res (s := s.on k) he (hu k cur he) hl (hw k) c tf faultVa
    rw [hr] at hres
    cases hres with
    | zombie hdy h henvs hfree hexit =>
      exact .zombie he hdy (stays_gone h henvs) (by simp [State.curenv, State.setCurenv, State.setCpu]) henvs hfree
        (hexit.out hx)
    | handled hdy h hexit => exact .handled he hdy h (hexit.out hx)
    | panic s' hn hl => exact absurd rfl hx

/-! ## Steps forward -/

/-- `env_run` with the lock. -/
theorem envRun_pops (hl : s.kernelLock = some s.cpunum) (hd : (s.envs e).envPgdir = some d) :
    (envRun e).run s = .error .envPopTf (s.popTf e d) := by
  have hres := envRun_resumed s e
  generalize (envRun e).run s = r at hres
  cases hres with
  | popTf d' hd' =>
    cases hd.symm.trans hd'
    rfl
  | noLock _ _ hlock => exact absurd hl hlock
  | noDir hd' => cases hd.symm.trans hd'

/-- `sched_yield` with one runnable environment. -/
theorem schedYield_only (hl : s.kernelLock = some s.cpunum) (he : s.Runnable e) (honly : ∀ e', s.Runnable e' → e' = e)
    (hd : (s.envs e).envPgdir = some d) : schedYield.run s = .error .envPopTf (s.popTf e d) := by
  rcases schedYield_picks s with ⟨e', he', hrun⟩ | ⟨hno, -⟩
  · cases honly e' he'.runnable
    rw [hrun, envRun_pops hl hd]
  · exact absurd he (hno e)

/-- A CPU starts on the only runnable environment. -/
theorem step_start (hl : s.kernelLock = none) (hk : (s.cpus k).cpuEnv = none) (he : s.Runnable e)
    (honly : ∀ e', s.Runnable e' → e' = e) (hd : (s.envs e).envPgdir = some d) :
    Step s (.start k) ((s.locked k).popTf e d) := by
  refine .start (x := .envPopTf) hl hk ?_ (by simp)
  rw [start_run hl]
  exact schedYield_only (s := s.locked k) rfl he honly hd

/-- The end of `trap`, when the current environment is still running. -/
theorem trapReturn_running (hc : s.curenv = some cur) (hr : (s.envs cur).envStatus = .running)
    (hd : (s.envs cur).envPgdir = some d) (hl : s.kernelLock = some s.cpunum) :
    trapReturn.run s = .error .envPopTf (s.popTf cur d) := by
  unfold trapReturn
  rw [run_bind_ok (EStateM.run_get s), hc]
  dsimp only
  rw [run_bind_ok (run_env cur), if_pos hr]
  exact envRun_pops hl hd

section Call

variable {tf : Trapframe} {c : Call} {faultVa : Word} {r : Int} {s₁ : State}

/-- A system call trap up to the call. -/
theorem trap_call (hl : s.kernelLock = none) (hc : s.curenv = some cur) (hw : (s.cpus s.cpunum).cpuStatus ≠ .halted)
    (hdy : (s.envs cur).envStatus ≠ .dying) (htf : tf.tfTrapno = tSyscall) :
    (trap c.exec tf faultVa).run s =
      (do let r ← c.exec; modifyEnv cur (setEax r); trapReturn : Kern Unit).run (s.saved cur tf) := by
  have hcur : (s.saved cur tf).curenv = some cur := by
    show (Function.update s.cpus s.cpunum _ s.cpunum).cpuEnv = _
    rw [Function.update_self]
    exact hc
  have hdisp : trapDispatch c.exec tf faultVa = (do
      let cur ← deref (← get).curenv
      let r ← c.exec
      modifyEnv cur (setEax r)) := by
    unfold trapDispatch
    rw [if_neg (by rw [htf]; decide), if_neg (by rw [htf]; decide), if_neg (by rw [htf]; decide),
      if_neg (by rw [htf]; decide), if_pos htf]
    rfl
  rw [trap_enter hc hl hw hdy, hdisp, bind_assoc, run_bind_ok (EStateM.run_get _), hcur, bind_assoc,
    run_bind_ok (run_deref_some cur), bind_assoc]

/-- A call that returns to its environment. -/
theorem step_call {t : State} (hl : s.kernelLock = none) (hk : (s.cpus k).cpuEnv = some cur) (hw : (s.cpus k).cpuStatus ≠ .halted)
    (hdy : (s.envs cur).envStatus ≠ .dying) (htf : tf.tfTrapno = tSyscall)
    (hrun : c.exec.run ((s.on k).saved cur tf) = .ok r t) (hsame : Same ((s.on k).saved cur tf) t)
    (hst : (t.envs cur).envStatus = .running) (hd : (t.envs cur).envPgdir = some d) :
    Step s (.trap k tf faultVa c) ((t.setEnv cur (setEax r (t.envs cur))).popTf cur d) := by
  refine .trap (x := .envPopTf) hl hk ?_ (by simp)
  let s₂ : State := t.setEnv cur (setEax r (t.envs cur))
  have hrec : s₂.envs cur = setEax r (t.envs cur) := Function.update_self ..
  have hcur : ((s.on k).saved cur tf).curenv = some cur := by
    show (Function.update s.cpus k _ k).cpuEnv = _
    rw [Function.update_self]
    exact hk
  rw [trap_call (s := s.on k) hl hk hw hdy htf, run_bind_ok hrun,
    run_bind_ok (show (modifyEnv cur (setEax r)).run t = .ok () s₂ from rfl)]
  refine trapReturn_running ?_ ?_ ?_ ?_
  · exact hsame.curenv.trans hcur
  · rw [hrec]; exact hst
  · rw [hrec]; exact hd
  · show t.kernelLock = some t.cpunum
    rw [hsame.kernelLock, hsame.cpunum]; rfl

/-- A call that gives up the CPU, when one environment is runnable. -/
theorem step_leave {t : State} (hl : s.kernelLock = none) (hk : (s.cpus k).cpuEnv = some cur)
    (hw : (s.cpus k).cpuStatus ≠ .halted)
    (hdy : (s.envs cur).envStatus ≠ .dying) (htf : tf.tfTrapno = tSyscall)
    (hrun : ∀ x s', schedYield.run t = .error x s' → c.exec.run ((s.on k).saved cur tf) = .error x s')
    (hlock : t.kernelLock = some t.cpunum) (he : t.Runnable e) (honly : ∀ e', t.Runnable e' → e' = e)
    (hd : (t.envs e).envPgdir = some d) : Step s (.trap k tf faultVa c) (t.popTf e d) := by
  refine .trap (x := .envPopTf) hl hk ?_ (by simp)
  rw [trap_call (s := s.on k) hl hk hw hdy htf, run_bind_error (hrun _ _ (schedYield_only hlock he honly hd))]

end Call

/-! ## Calls forward -/

theorem run_exofork {p : Nat} (hcur : s.curenv = some cur) (hl : s.envFreeList = some e) (hp : s.pageFreeList = some p)
    (hlt : p < s.npages) : sysExofork.run s =
      .ok (((s.spawn e p (s.envs cur).envId).setEnv e (forkEnv ((s.spawn e p (s.envs cur).envId).envs cur)
        ((s.spawn e p (s.envs cur).envId).envs e))).envs e).envId.toInt
        ((s.spawn e p (s.envs cur).envId).setEnv e (forkEnv ((s.spawn e p (s.envs cur).envId).envs cur)
          ((s.spawn e p (s.envs cur).envId).envs e))) := by
  have hcur' : (s.spawn e p (s.envs cur).envId).curenv = some cur := hcur
  unfold sysExofork
  rw [run_bind_ok (run_getenvid hcur), run_bind_ok (envAlloc_ok hl hp hlt _)]
  dsimp only
  rw [if_neg (by decide), run_bind_ok (run_deref_some e), run_bind_ok (EStateM.run_get _), hcur',
    run_bind_ok (run_deref_some cur), run_bind_ok (run_env cur), run_bind_ok (run_modifyEnv ..)]
  rfl

theorem run_envSetStatus {envid status : Word} {st : EnvStatus} (hcur : s.curenv = some cur)
    (hst : statusOfInt status = some st) (hr : s.resolve cur envid true = some e) :
    (sysEnvSetStatus envid status).run s = .ok 0 (s.setEnv e { s.envs e with envStatus := st }) := by
  unfold sysEnvSetStatus
  rw [hst]
  dsimp only
  rw [run_bind_ok (run_envid2env hcur true), hr]
  dsimp only
  rw [if_neg (by decide), run_bind_ok (run_deref_some e), run_bind_ok (run_modifyEnv ..)]
  rfl

theorem envDestroy_running (hr : (s.envs e).envStatus = .running) (hc : s.curenv ≠ some e) :
    (envDestroy e).run s = .ok () (s.setEnv e { s.envs e with envStatus := .dying }) := by
  unfold envDestroy
  rw [run_bind_ok (EStateM.run_get s), if_pos ⟨hr, hc⟩]
  rfl

end Jos
