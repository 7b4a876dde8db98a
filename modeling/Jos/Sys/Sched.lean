/-
`sched_yield` and `env_run`: the scheduler finds a runnable environment and switches to it. The
switch changes the status, the run count and the CPU of the two environments involved, and nothing
of any address space.
-/
import Jos.Sys.Resolve

namespace Jos

open Lib Kern

variable {b s s' s'' : State} {M l : List Nat} {le : List Slot} {Q : Nat → Nat → Prop} {cur e : Slot} {d : Nat}

/-- A record in which only the status, the run count and the CPU may differ; a record in use stays in use. -/
structure EnvLike (v v' : Env) : Prop where
  envTf : v'.envTf = v.envTf
  envLink : v'.envLink = v.envLink
  envId : v'.envId = v.envId
  envParentId : v'.envParentId = v.envParentId
  envPgdir : v'.envPgdir = v.envPgdir
  envPgfaultUpcall : v'.envPgfaultUpcall = v.envPgfaultUpcall
  envIpcRecving : v'.envIpcRecving = v.envIpcRecving
  envIpcDstva : v'.envIpcDstva = v.envIpcDstva
  envIpcValue : v'.envIpcValue = v.envIpcValue
  envIpcFrom : v'.envIpcFrom = v.envIpcFrom
  envIpcPerm : v'.envIpcPerm = v.envIpcPerm
  free : v'.envStatus = .free ↔ v.envStatus = .free

/-- A record the scheduler alone has touched: the status may have gone from runnable to running. -/
structure EnvKeep (v v' : Env) : Prop extends EnvLike v v' where
  status : v'.envStatus = v.envStatus ∨ (v.envStatus = .runnable ∧ v'.envStatus = .running)

theorem EnvLike.refl (v : Env) : EnvLike v v := ⟨rfl, rfl, rfl, rfl, rfl, rfl, rfl, rfl, rfl, rfl, rfl, Iff.rfl⟩

theorem EnvLike.trans {u v w : Env} (h : EnvLike u v) (h' : EnvLike v w) : EnvLike u w :=
  ⟨h'.envTf.trans h.envTf, h'.envLink.trans h.envLink, h'.envId.trans h.envId, h'.envParentId.trans h.envParentId,
    h'.envPgdir.trans h.envPgdir, h'.envPgfaultUpcall.trans h.envPgfaultUpcall,
    h'.envIpcRecving.trans h.envIpcRecving, h'.envIpcDstva.trans h.envIpcDstva, h'.envIpcValue.trans h.envIpcValue,
    h'.envIpcFrom.trans h.envIpcFrom, h'.envIpcPerm.trans h.envIpcPerm, h'.free.trans h.free⟩

theorem EnvKeep.refl (v : Env) : EnvKeep v v := ⟨.refl v, Or.inl rfl⟩

/-- Control left the kernel by the scheduler: memory and the allocators are as they were, records are
alike, and only the current environment was switched in another way than from runnable to running. -/
structure Switched (s s' : State) : Prop where
  mem : s'.mem = s.mem
  pages : s'.pages = s.pages
  pageFreeList : s'.pageFreeList = s.pageFreeList
  npages : s'.npages = s.npages
  kernPgdir : s'.kernPgdir = s.kernPgdir
  envFreeList : s'.envFreeList = s.envFreeList
  like : ∀ e, EnvLike (s.envs e) (s'.envs e)
  keep : ∀ e, s.curenv ≠ some e → EnvKeep (s.envs e) (s'.envs e)

theorem Switched.refl (s : State) : Switched s s :=
  ⟨rfl, rfl, rfl, rfl, rfl, rfl, fun _ => .refl _, fun _ _ => .refl _⟩

theorem Switched.dir (h : Switched s s') : s'.dir = s.dir := by
  funext e
  unfold State.dir
  rw [(h.like e).envPgdir]
  by_cases hf : (s.envs e).envStatus = .free
  · rw [if_pos hf, if_pos ((h.like e).free.2 hf)]
  · rw [if_neg hf, if_neg fun hc => hf ((h.like e).free.1 hc)]

theorem Switched.envTable (h : Switched s s') (ht : EnvTable s le) : EnvTable s' le where
  envChain := by
    rw [h.envFreeList]
    exact Chain.congr (fun e _ => (h.like e).envLink) ht.envChain
  envNodup := ht.envNodup
  mem_iff e := by rw [ht.mem_iff, (h.like e).free]
  pgdir e hs := by
    rw [(h.like e).envPgdir]
    exact ht.pgdir e fun hf => hs ((h.like e).free.2 hf)

theorem Switched.vm (h : Switched s s') (hv : Vm b M s l) : Vm b M s' l :=
  hv.congr h.pages h.pageFreeList h.mem h.dir h.kernPgdir h.npages

theorem Switched.counts {held : Option Nat} (h : Switched s s') (hc : Counts Q M l held s) : Counts Q M l held s' :=
  hc.congr h.pages (cell_congr h.mem h.dir)

/-- One more record changes. -/
theorem Switched.setEnv {v : Env} (h : Switched s s') (hv : EnvLike (s.envs e) v)
    (hk : s.curenv ≠ some e → EnvKeep (s.envs e) v) : Switched s (s'.setEnv e v) := by
  have henv : ∀ e', (s'.setEnv e v).envs e' = if e' = e then v else s'.envs e' := fun e' => Function.update_apply ..
  refine ⟨h.mem, h.pages, h.pageFreeList, h.npages, h.kernPgdir, h.envFreeList, fun e' => ?_, fun e' hc => ?_⟩
  · rw [henv]
    split
    · rename_i he; rw [he]; exact hv
    · exact h.like e'
  · rw [henv]
    split
    · rename_i he; rw [he] at hc ⊢; exact hk hc
    · exact h.keep e' hc

/-- The registers of the CPU and the lock are not part of what is compared. -/
theorem Switched.cpu (h : Switched s s') (he : s''.envs = s'.envs) (hm : s''.mem = s'.mem) (hp : s''.pages = s'.pages)
    (hl : s''.pageFreeList = s'.pageFreeList) (hn : s''.npages = s'.npages) (hk : s''.kernPgdir = s'.kernPgdir)
    (hf : s''.envFreeList = s'.envFreeList) : Switched s s'' :=
  ⟨hm.trans h.mem, hp.trans h.pages, hl.trans h.pageFreeList, hn.trans h.npages, hk.trans h.kernPgdir,
    hf.trans h.envFreeList, by rw [he]; exact h.like, by rw [he]; exact h.keep⟩

/-! ## Running an environment -/

/-- `env_run` up to the switch: the current environment is runnable again if it was running. -/
def State.yieldCur (s : State) : State :=
  match s.curenv with
  | none => s
  | some c => if (s.envs c).envStatus = .running then s.setEnv c { s.envs c with envStatus := .runnable } else s

theorem envRun_yield (s : State) (e : Slot) : (envRun e).run s = (do
    modify fun s => s.setCurenv (some e)
    modifyEnv e fun v => { v with envStatus := .running, envRuns := v.envRuns + 1#32 }
    lcr3 (← paddr (← env e).envPgdir)
    unlockKernel
    envPopTf : Kern Unit).run s.yieldCur := by
  unfold envRun State.yieldCur
  rw [run_bind_ok (EStateM.run_get s)]
  cases hc : s.curenv with
  | none => rfl
  | some c =>
    dsimp only
    rw [run_bind_ok (run_env c)]
    by_cases hr : (s.envs c).envStatus = .running
    · rw [if_pos hr, if_pos hr]; rfl
    · rw [if_neg hr, if_neg hr]

theorem yieldCur_switched (s : State) : Switched s s.yieldCur := by
  unfold State.yieldCur
  split
  · exact .refl s
  · rename_i c hc
    split
    · rename_i hr
      refine (Switched.refl s).setEnv ⟨rfl, rfl, rfl, rfl, rfl, rfl, rfl, rfl, rfl, rfl, rfl, ?_⟩ fun hne => absurd hc hne
      rw [hr]; simp
    · exact .refl s

/-- The record of an environment that starts to run is alike, whatever its run count and CPU. -/
theorem envKeep_running {v : Env} (hv : v.envStatus = .runnable) (runs : Word) (cpu : Cpu) :
    EnvKeep v { v with envStatus := .running, envRuns := runs, envCpunum := cpu } :=
  ⟨⟨rfl, rfl, rfl, rfl, rfl, rfl, rfl, rfl, rfl, rfl, rfl, by rw [hv]; simp⟩, Or.inr ⟨hv, rfl⟩⟩

theorem yieldCur_envs (he : (s.envs e).envStatus ≠ .running) : s.yieldCur.envs e = s.envs e := by
  unfold State.yieldCur
  split
  · rfl
  · rename_i c hc
    split
    · rename_i hr
      have hne : e ≠ c := by rintro rfl; exact he hr
      show Function.update s.envs c _ e = _
      rw [Function.update_of_ne hne]
    · rfl

/-- The state in which `env_run` has made `e` the current environment. -/
def State.switchTo (s : State) (e : Slot) : State :=
  (s.yieldCur.setCurenv (some e)).setEnv e
    { s.yieldCur.envs e with envStatus := .running, envRuns := (s.yieldCur.envs e).envRuns + 1#32 }

/-- The state in which `env_run` has loaded page directory `d` of `e`. -/
def State.loadDir (s : State) (e : Slot) (d : Nat) : State :=
  (s.switchTo e).setCpu { (s.switchTo e).cpus s.cpunum with cr3 := page2pa d, tlb := [] }

/-- The state in which `env_run` has left the kernel for `e`. -/
def State.popTf (s : State) (e : Slot) (d : Nat) : State :=
  { (s.loadDir e d).setEnv e { (s.loadDir e d).envs e with envCpunum := s.cpunum } with kernelLock := none }

theorem popTf_mem (s : State) (e : Slot) (d : Nat) : (s.popTf e d).mem = s.mem := by
  unfold State.popTf
  exact (yieldCur_switched s).mem

theorem popTf_pages (s : State) (e : Slot) (d : Nat) : (s.popTf e d).pages = s.pages := by
  unfold State.popTf
  exact (yieldCur_switched s).pages

theorem popTf_pageFreeList (s : State) (e : Slot) (d : Nat) : (s.popTf e d).pageFreeList = s.pageFreeList := by
  unfold State.popTf
  exact (yieldCur_switched s).pageFreeList

theorem popTf_kernPgdir (s : State) (e : Slot) (d : Nat) : (s.popTf e d).kernPgdir = s.kernPgdir := by
  unfold State.popTf
  exact (yieldCur_switched s).kernPgdir

theorem popTf_npages (s : State) (e : Slot) (d : Nat) : (s.popTf e d).npages = s.npages := by
  unfold State.popTf
  exact (yieldCur_switched s).npages

theorem popTf_envFreeList (s : State) (e : Slot) (d : Nat) : (s.popTf e d).envFreeList = s.envFreeList := by
  unfold State.popTf
  exact (yieldCur_switched s).envFreeList

/-- How `env_run` ends: in user mode, or in a panic for want of a page directory or of the lock. -/
inductive Resumed (s : State) (e : Slot) : EStateM.Result Stop State Unit → Prop where
  | popTf (d : Nat) (hd : (s.envs e).envPgdir = some d) (hl : s.kernelLock = some s.cpunum) :
      Resumed s e (.error .envPopTf (s.popTf e d))
  | noLock (d : Nat) (hd : (s.envs e).envPgdir = some d) (hl : s.kernelLock ≠ some s.cpunum) :
      Resumed s e (.error .panic (s.loadDir e d))
  | noDir (hd : (s.envs e).envPgdir = none) : Resumed s e (.error .panic (s.switchTo e))

@[simp] theorem yieldCur_cpunum (s : State) : s.yieldCur.cpunum = s.cpunum := by
  unfold State.yieldCur
  split
  · rfl
  · split <;> rfl

theorem popTf_cpunum (s : State) (e : Slot) (d : Nat) : (s.popTf e d).cpunum = s.cpunum := by
  unfold State.popTf
  exact yieldCur_cpunum s

@[simp] theorem yieldCur_kernelLock (s : State) : s.yieldCur.kernelLock = s.kernelLock := by
  unfold State.yieldCur
  split
  · rfl
  · split <;> rfl

@[simp] theorem yieldCur_cpus (s : State) : s.yieldCur.cpus = s.cpus := by
  unfold State.yieldCur
  split
  · rfl
  · split <;> rfl

@[simp] theorem switchTo_cpunum (s : State) (e : Slot) : (s.switchTo e).cpunum = s.cpunum := yieldCur_cpunum s

@[simp] theorem switchTo_kernelLock (s : State) (e : Slot) : (s.switchTo e).kernelLock = s.kernelLock :=
  yieldCur_kernelLock s

theorem switchTo_cpus (s : State) (e : Slot) :
    (s.switchTo e).cpus = Function.update s.cpus s.cpunum { s.cpus s.cpunum with cpuEnv := some e } := by
  show Function.update s.yieldCur.cpus s.yieldCur.cpunum { s.yieldCur.cpus s.yieldCur.cpunum with cpuEnv := some e } = _
  rw [yieldCur_cpus, yieldCur_cpunum]

theorem switchTo_envs_self (s : State) (e : Slot) : (s.switchTo e).envs e =
    { s.yieldCur.envs e with envStatus := .running, envRuns := (s.yieldCur.envs e).envRuns + 1#32 } :=
  Function.update_self ..

theorem loadDir_cpus (s : State) (e : Slot) (d : Nat) : (s.loadDir e d).cpus =
    Function.update s.cpus s.cpunum { s.cpus s.cpunum with cpuEnv := some e, cr3 := page2pa d, tlb := [] } := by
  show Function.update (s.switchTo e).cpus (s.switchTo e).cpunum _ = _
  rw [switchTo_cpus, switchTo_cpunum, Function.update_self, Function.update_idem]

theorem envRun_resumed (s : State) (e : Slot) : Resumed s e ((envRun e).run s) := by
  have hmod : (modifyEnv e fun v => { v with envStatus := .running, envRuns := v.envRuns + 1#32 }).run
      (s.yieldCur.setCurenv (some e)) = .ok () (s.switchTo e) := rfl
  have hdir : ((s.switchTo e).envs e).envPgdir = (s.envs e).envPgdir := by
    rw [switchTo_envs_self]
    exact ((yieldCur_switched s).like e).envPgdir
  rw [envRun_yield, run_bind_ok (EStateM.run_modify _ _), run_bind_ok hmod, run_bind_ok (run_env e), hdir]
  cases hd : (s.envs e).envPgdir with
  | none => exact .noDir hd
  | some d =>
    have hpa : (paddr (some d)).run (s.switchTo e) = .ok (page2pa d) (s.switchTo e) := rfl
    have hcr : (lcr3 (page2pa d)).run (s.switchTo e) = .ok () (s.loadDir e d) := by
      unfold State.loadDir
      rw [← switchTo_cpunum s e]; rfl
    rw [run_bind_ok hpa, run_bind_ok hcr]
    have hnum : (s.loadDir e d).cpunum = s.cpunum := switchTo_cpunum s e
    have hlk : (s.loadDir e d).kernelLock = s.kernelLock := switchTo_kernelLock s e
    by_cases hlock : s.kernelLock = some s.cpunum
    · have hun : unlockKernel.run (s.loadDir e d) = .ok () { s.loadDir e d with kernelLock := none } := by
        unfold unlockKernel
        rw [run_bind_ok (EStateM.run_get _), if_neg (by rw [hnum, hlk]; simpa using hlock)]; rfl
      have hcur : ({ s.loadDir e d with kernelLock := none } : State).curenv = some e := by
        show ((s.loadDir e d).cpus (s.loadDir e d).cpunum).cpuEnv = _
        rw [loadDir_cpus, hnum, Function.update_self]
      have hpop : envPopTf.run { s.loadDir e d with kernelLock := none } = .error .envPopTf (s.popTf e d) := by
        unfold envPopTf
        rw [run_bind_ok (EStateM.run_get _), hcur, run_bind_ok (run_deref_some e), run_bind_ok (run_modifyEnv ..)]
        show EStateM.Result.error _ _ = _
        unfold State.popTf
        rw [← hnum]
        rfl
      rw [run_bind_ok hun, hpop]
      exact .popTf d hd hlock
    · have hun : unlockKernel.run (s.loadDir e d) = .error .panic (s.loadDir e d) := by
        unfold unlockKernel
        rw [run_bind_ok (EStateM.run_get _), if_pos (by rw [hnum, hlk]; exact hlock)]; rfl
      rw [run_bind_error hun]
      exact .noLock d hd hlock

theorem switchTo_switched (he : (s.envs e).envStatus = .runnable) : Switched s (s.switchTo e) := by
  have hrec : s.yieldCur.envs e = s.envs e := yieldCur_envs (by rw [he]; simp)
  have hkeep := envKeep_running he ((s.envs e).envRuns + 1#32) (s.envs e).envCpunum
  unfold State.switchTo
  rw [hrec]
  exact ((yieldCur_switched s).setEnv hkeep.toEnvLike fun _ => hkeep).cpu rfl rfl rfl rfl rfl rfl rfl

theorem popTf_switched (he : (s.envs e).envStatus = .runnable) (d : Nat) : Switched s (s.popTf e d) := by
  have hrec : (s.loadDir e d).envs e = { s.envs e with envStatus := .running, envRuns := (s.envs e).envRuns + 1#32 } := by
    have := switchTo_envs_self s e
    rw [yieldCur_envs (by rw [he]; simp)] at this
    exact this
  have hkeep := envKeep_running he ((s.envs e).envRuns + 1#32) s.cpunum
  have hload : Switched s (s.loadDir e d) := (switchTo_switched he).cpu rfl rfl rfl rfl rfl rfl rfl
  unfold State.popTf
  rw [hrec]
  exact (hload.setEnv hkeep.toEnvLike fun _ => hkeep).cpu rfl rfl rfl rfl rfl rfl rfl

/-- `env_run` of a runnable environment does not return, and all it changes is a switch. -/
theorem envRun_switched (he : (s.envs e).envStatus = .runnable) :
    ∃ x s', (envRun e).run s = .error x s' ∧ Switched s s' := by
  have hr := envRun_resumed s e
  generalize (envRun e).run s = r at hr
  cases hr with
  | popTf d => exact ⟨_, _, rfl, popTf_switched he d⟩
  | noLock d => exact ⟨_, _, rfl, (switchTo_switched he).cpu rfl rfl rfl rfl rfl rfl rfl⟩
  | noDir => exact ⟨_, _, rfl, switchTo_switched he⟩

/-! ## The scheduler -/

/-- The search loop finds nothing to run, or leaves through `env_run`. -/
theorem schedLoop_switched (s : State) (rounds : Nat) : ∀ ptr, (schedLoop rounds ptr).run s = .ok () s ∨
    ∃ x s', (schedLoop rounds ptr).run s = .error x s' ∧ Switched s s' := by
  induction rounds with
  | zero => exact fun _ => Or.inl rfl
  | succ n ih =>
    intro ptr
    unfold schedLoop
    dsimp only
    generalize hp : (if ptr ≥ nenv then 1 else ptr) = p
    rw [run_bind_ok (run_env _)]
    by_cases hr : (s.envs (Fin.ofNat nenv p)).envStatus = .runnable
    · rw [if_pos hr]
      obtain ⟨x, s', hrun, hsw⟩ := envRun_switched hr
      exact Or.inr ⟨x, s', run_bind_error hrun, hsw⟩
    · rw [if_neg hr]
      exact ih (p + 1)

/-- `sched_yield` does not return: it switches to a runnable environment or stays in the monitor. -/
theorem schedYield_switched (s : State) : ∃ x s', schedYield.run s = .error x s' ∧ Switched s s' := by
  have search : ∀ ptr, ∃ x s', (do
      schedLoop nenv ptr
      if (← env 0).envStatus = .runnable then
        envRun 0
      else
        throw Stop.monitor : Kern Unit).run s = .error x s' ∧ Switched s s' := by
    intro ptr
    rcases schedLoop_switched s nenv ptr with h | ⟨x, s', h, hsw⟩
    · rw [run_bind_ok h, run_bind_ok (run_env 0)]
      by_cases hr : (s.envs 0).envStatus = .runnable
      · rw [if_pos hr]
        exact envRun_switched hr
      · rw [if_neg hr]
        exact ⟨.monitor, s, rfl, .refl s⟩
    · exact ⟨x, s', run_bind_error h, hsw⟩
  unfold schedYield
  rw [run_bind_ok (EStateM.run_get s)]
  exact search _

end Jos
