/-
The effect of a trap slot by slot: whatever the trap did, the record of each slot is one of a few
things, and each of them comes with the tests that allowed it. Invariants over all runs of the
kernel are proved by going through this list.
-/
import Jos.Sys.Traps
import Jos.Run.EnvIds

namespace Jos

open Lib Kern

variable {s s' : State} {cur e : Slot} {c : Call} {tf : Trapframe} {r : Int}

theorem statusOfInt_cases {status : Word} {st : EnvStatus} (h : statusOfInt status = some st) :
    st = .runnable ∨ st = .notRunnable := by
  unfold statusOfInt at h
  split at h
  · exact Or.inl (Option.some.inj h).symm
  · split at h
    · exact Or.inr (Option.some.inj h).symm
    · cases h

/-- What call `c` of `cur` may have made of the record of slot `e`. -/
inductive CallMove (s : State) (cur : Slot) (c : Call) (e : Slot) : Env → Prop where
  | keep : CallMove s cur c e (s.envs e)
  | status {envid status : Word} {st : EnvStatus} (hc : c = .envSetStatus envid status)
      (hst : statusOfInt status = some st) (he : s.resolve cur envid true = some e) :
      CallMove s cur c e { s.envs e with envStatus := st }
  | setUpcall (func : Word) : CallMove s cur c e { s.envs e with envPgfaultUpcall := func }
  | dying {envid : Word} (hc : c = .envDestroy envid) (he : s.resolve cur envid true = some e)
      (hrun : (s.envs e).envStatus = .running) (hne : e ≠ cur) : CallMove s cur c e { s.envs e with envStatus := .dying }
  | freed {envid : Word} (link : Option Slot) (hc : c = .envDestroy envid) (he : s.resolve cur envid true = some e)
      (hrun : (s.envs e).envStatus ≠ .running) (hne : e ≠ cur) : CallMove s cur c e (freedEnv link (s.envs e))
  | spawned {p : Nat} {tf : Trapframe} (hc : c = .exofork) (hl : s.envFreeList = some e) :
      CallMove s cur c e { newEnv e (s.envs cur).envId { s.envs e with envPgdir := some p } with
        envStatus := .notRunnable, envTf := tf }
  | received {envid value srcva perm newPerm : Word} (hc : c = .ipcTrySend envid value srcva perm)
      (he : s.resolve cur envid false = some e) (hrecv : (s.envs e).envIpcRecving = true)
      (hfrom : (s.envs e).envIpcFrom = 0#32) (hperm : newPerm = (s.envs e).envIpcPerm ∨
        (srcva < utop ∧ (s.envs e).envIpcDstva ≠ 0#32 ∧ newPerm = perm)) :
      CallMove s cur c e (ipcReceived (s.envs cur) value { s.envs e with envIpcPerm := newPerm })

/-- What a trap of `cur` with frame `tf` may have made of the record of slot `e`. -/
inductive Touched (s : State) (cur : Slot) (tf : Trapframe) (c : Call) (e : Slot) : Env → Prop where
  | keep : Touched s cur tf c e (s.envs e)
  | moved {w : Env} (htf : tf.tfTrapno = tSyscall) (h : CallMove s cur c e w) : Touched s cur tf c e w
  | returns {w : Env} (r : Int) (htf : tf.tfTrapno = tSyscall) (he : e = cur) (h : CallMove s cur c e w) :
      Touched s cur tf c e (setEax r w)
  | upcall (htf : tf.tfTrapno ≠ tSyscall) (he : e = cur) : Touched s cur tf c e (upcallEnv tf (s.envs cur))
  | gone (link : Option Slot) (he : e = cur) : Touched s cur tf c e (freedEnv link (s.envs cur))
  | waiting {dstva : Word} (htf : tf.tfTrapno = tSyscall) (hc : c = .ipcRecv dstva) (he : e = cur) :
      Touched s cur tf c e (ipcWaiting dstva (s.envs cur))

theorem Change.move (h : Change s cur c r s') (e : Slot) : CallMove s cur c e (s'.envs e) := by
  have hupd : ∀ {x v}, s'.envs = Function.update s.envs x v → CallMove s cur c x v → CallMove s cur c e (s'.envs e) := by
    intro x v henvs hm
    rw [henvs, Function.update_apply]
    split
    · rename_i he; rw [he]; exact hm
    · exact .keep
  cases h with
  | rest h => rw [h.envs]; exact .keep
  | setStatus hst he h => exact hupd h.envs (.status rfl hst he)
  | setUpcall he h => exact hupd h.envs (.setUpcall _)
  | dying he hrun hne h => exact hupd h.envs (.dying rfl he hrun hne)
  | freed he hrun hne h henvs => exact hupd henvs (.freed _ rfl he hrun hne)
  | spawned hl h henvs => exact hupd henvs (.spawned rfl hl)
  | delivered hd hrecv hfrom hperm h => exact hupd h.envs (.received rfl hd hrecv hfrom hperm)

theorem Handles.touched (h : Handles s cur tf c s') (e : Slot) : Touched s cur tf c e (s'.envs e) := by
  have hcur : ∀ {t : State} {v}, t.envs = Function.update s.envs cur v → Touched s cur tf c cur v →
      Touched s cur tf c e (t.envs e) := by
    intro t v henvs hm
    rw [henvs, Function.update_apply]
    split
    · rename_i he; rw [he]; exact hm
    · exact .keep
  cases h with
  | nothing _ h => rw [h.envs]; exact .keep
  | @returned r s₁ _ htf h heax =>
    have hm := h.move e
    rw [heax]
    show Touched s cur tf c e (Function.update s₁.envs cur _ e)
    rw [Function.update_apply]
    split
    · rename_i he
      rw [he] at hm ⊢
      exact .returns r htf rfl hm
    · exact .moved htf hm
  | left htf h =>
    cases h with
    | yield => exact .keep
    | waiting => exact hcur rfl (.waiting htf rfl rfl)
    | destroyed _ h henvs => exact hcur henvs (.gone _ rfl)
  | destroyed _ h henvs => exact hcur henvs (.gone _ rfl)
  | upcall htf h => exact hcur h.envs (.upcall htf rfl)

/-! ## The CPUs -/

/-- The lock and the CPUs are as before, except that the current environment may be gone. -/
structure Stays (s s' : State) (cur : Slot) : Prop where
  cpunum : s'.cpunum = s.cpunum
  kernelLock : s'.kernelLock = s.kernelLock
  cpuStatus : ∀ k, (s'.cpus k).cpuStatus = (s.cpus k).cpuStatus
  cpuEnv : (∀ k, (s'.cpus k).cpuEnv = (s.cpus k).cpuEnv) ∨
    ((s'.envs cur).envStatus = .free ∧ ∀ k, (s'.cpus k).cpuEnv = if k = s.cpunum then none else (s.cpus k).cpuEnv)

/-- No other environment becomes the current one. -/
theorem Stays.curenv_ne (h : Stays s s' cur) (hcur : s.curenv = some cur) (hne : e ≠ cur) : s'.curenv ≠ some e := by
  unfold State.curenv
  rw [h.cpunum]
  rcases h.cpuEnv with hc | ⟨-, hc⟩
  · rw [hc]
    exact fun he => hne (Option.some.inj (he.symm.trans hcur))
  · rw [hc, if_pos rfl]
    simp

theorem Same.stays (h : Same s s') (cur : Slot) : Stays s s' cur :=
  ⟨h.cpunum, h.kernelLock, h.cpuStatus, Or.inl h.cpuEnv⟩

theorem stays_gone (h : Same s s') (henvs : s'.envs = Function.update s.envs cur (freedEnv s.envFreeList (s.envs cur))) :
    Stays s (s'.setCurenv none) cur := by
  have hcpu : ∀ k, (s'.setCurenv none).cpus k = if k = s'.cpunum then { s'.cpus s'.cpunum with cpuEnv := none } else s'.cpus k :=
    fun k => Function.update_apply ..
  refine ⟨h.cpunum, h.kernelLock, fun k => ?_, Or.inr ⟨?_, fun k => ?_⟩⟩
  · rw [hcpu]
    split
    · rename_i hk; rw [hk]; exact h.cpuStatus _
    · exact h.cpuStatus k
  · show (s'.envs cur).envStatus = _
    rw [henvs, Function.update_self]; rfl
  · rw [hcpu, h.cpunum]
    split
    · rfl
    · exact h.cpuEnv k

theorem Change.same (h : Change s cur c r s') : Same s s' := by
  cases h with
  | rest h => exact h.same
  | setStatus _ _ h => exact h.toSame
  | setUpcall _ h => exact h.toSame
  | dying _ _ _ h => exact h.toSame
  | freed _ _ _ h => exact h
  | spawned _ h => exact h
  | delivered _ _ _ _ h => exact h.toSame

theorem Handles.stays (h : Handles s cur tf c s') : Stays s s' cur := by
  cases h with
  | nothing _ h => exact h.same.stays cur
  | returned htf h heax =>
    rw [heax]
    exact (h.same.trans (same_setEnv ..)).stays cur
  | left htf h =>
    cases h with
    | yield => exact (Same.refl s).stays cur
    | waiting => exact (same_setEnv ..).stays cur
    | destroyed _ h henvs => exact stays_gone h henvs
  | destroyed _ h henvs => exact stays_gone h henvs
  | upcall _ h => exact h.toSame.stays cur

/-! ## The free slots -/

/-- A record that stays in use, or stays free, with its directory and link. -/
theorem FreeEnvs.upd {v : Env} (h : FreeEnvs s) (henvs : s'.envs = Function.update s.envs e v)
    (hl : s'.envFreeList = s.envFreeList) (hst : v.envStatus = .free ↔ (s.envs e).envStatus = .free)
    (hlink : v.envLink = (s.envs e).envLink) (hd : v.envPgdir = (s.envs e).envPgdir) : FreeEnvs s' := by
  have henv : ∀ e', s'.envs e' = if e' = e then v else s.envs e' := fun e' => by rw [henvs, Function.update_apply]
  obtain ⟨le, hc, hn, hm⟩ := h.table
  refine ⟨⟨le, ?_, hn, fun e' => ?_⟩, fun e' => ?_⟩
  · rw [hl]
    refine Chain.congr (fun x _ => ?_) hc
    rw [henv]
    split
    · rename_i hx; rw [hx, hlink]
    · rfl
  · rw [hm, henv]
    split
    · rename_i he; rw [he, hst]
    · rfl
  · rw [henv]
    split
    · rw [hst, hd]; exact h.pgdir e
    · exact h.pgdir e'

theorem Change.freeEnvs (h : Change s cur c r s') (hf : FreeEnvs s) (hlive : (s.envs cur).envStatus ≠ .free) : FreeEnvs s' := by
  cases h with
  | rest h => exact hf.rest h
  | setStatus hst he h =>
    refine hf.upd h.envs h.envFreeList ?_ rfl rfl
    exact iff_of_false (statusOfInt_live hst) (resolve_live he hlive)
  | setUpcall he h => exact hf.upd h.envs h.envFreeList Iff.rfl rfl rfl
  | dying he hrun hne h =>
    refine hf.upd h.envs h.envFreeList ?_ rfl rfl
    rw [hrun]
    exact iff_of_false (by simp) (by simp)
  | freed he hrun hne h henvs hfree => exact hf.give (resolve_live he hlive) henvs hfree
  | spawned hl h henvs hfree => exact (hf.take hl henvs hfree (by simp [forkEnv]) (by simp [forkEnv, newEnv])).1
  | delivered hd hrecv hfrom hperm h =>
    refine hf.upd h.envs h.envFreeList ?_ rfl rfl
    exact iff_of_false (by simp [ipcReceived]) (resolve_live hd hlive)

theorem Handles.freeEnvs (h : Handles s cur tf c s') (hf : FreeEnvs s) (hlive : (s.envs cur).envStatus ≠ .free) :
    FreeEnvs s' := by
  cases h with
  | nothing _ h => exact hf.rest h
  | returned htf h heax =>
    rw [heax]
    exact (h.freeEnvs hf hlive).upd rfl rfl Iff.rfl rfl rfl
  | left htf h =>
    cases h with
    | yield => exact hf
    | waiting =>
      refine hf.upd (e := cur) rfl rfl ?_ rfl rfl
      exact iff_of_false (by simp [ipcWaiting]) hlive
    | destroyed _ h henvs hfree => exact (hf.give hlive henvs hfree).congr rfl rfl
  | destroyed _ h henvs hfree => exact (hf.give hlive henvs hfree).congr rfl rfl
  | upcall _ h => exact hf.upd h.envs h.envFreeList Iff.rfl rfl rfl

end Jos
