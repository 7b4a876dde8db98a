/-
One CPU, from the boot-time `env_run` on: whenever control returns to user mode, the current
environment is the one that runs, in its own address space, and the lock is free; so the next trap
takes the lock, and only `env_run` gives it back.
-/
import Jos.Run.Sane
import Jos.Run.Boot

namespace Jos

open Lib Kern

variable {b s s' s₀ : State} {M : List Nat} {cur e : Slot} {d : Nat} {cons : Int} {tf : Trapframe} {faultVa : Word}

/-! ## Runs -/

/-- The kernel creates environments from boot state `b` on, and loads programs into their pages. -/
inductive Boots (b : State) : State → Prop where
  | boot : Boots b b
  | op {s s' : State} {op : Op} {ev : Event} (h : Boots b s) (hok : op.Ok s) (hrun : op.exec.run s = .ok ev s')
      (href : ∀ f, s'.refs f ≤ 65535) : Boots b s'
  | store {s : State} {e : Slot} {i j : Idx} {w : Word} (h : Boots b s) (hw : s.pte e i j = some w) (x : Idx) (v : Word) :
      Boots b (s.setWord (pgnum w) x v)
  | frame {s : State} (h : Boots b s) (e : Slot) (he : (s.envs e).envStatus ≠ .free) (tf : Trapframe) :
      Boots b (s.setEnv e { s.envs e with envTf := tf })

/-- The states in user mode: after the boot-time `env_run`, after a store of the current environment
through a writable mapping, and after a trap. -/
inductive UserRun (s₀ : State) : State → Prop where
  | boot {e : Slot} {s : State} (he : (s₀.envs e).envStatus ≠ .free) (hr : (envRun e).run s₀ = .error .envPopTf s) :
      UserRun s₀ s
  | user {s : State} {cur : Slot} {i j : Idx} {w : Word} (h : UserRun s₀ s) (hcur : s.curenv = some cur)
      (hw : s.pte cur i j = some w) (hperm : w &&& pteW ≠ 0#32) (x : Idx) (v : Word) : UserRun s₀ (s.setWord (pgnum w) x v)
  | trap {s s' : State} {cons : Int} {tf : Trapframe} {faultVa : Word} (h : UserRun s₀ s)
      (hr : (trap (syscall cons tf.tfRegs) tf faultVa).run s = .error .envPopTf s') : UserRun s₀ s'

/-- CPU, records and address spaces agree. -/
structure Coherent (b : State) (M : List Nat) (s : State) (cur : Slot) (d : Nat) : Prop where
  sane : Sane b M s
  curenv : s.curenv = some cur
  running : ∀ e, (s.envs e).envStatus = .running ↔ e = cur
  pgdir : (s.envs cur).envPgdir = some d
  cr3 : (s.cpus s.cpunum).cr3 = page2pa d
  kernelLock : s.kernelLock = none
  awake : (s.cpus s.cpunum).cpuStatus ≠ .halted

theorem Boots.sane (hb : Booted b M) (h : Boots b s) : Sane b M s := by
  induction h with
  | boot => exact reach_inv hb .boot
  | @op s s' op ev _ hok hrun href ih =>
    obtain ⟨⟨l, le, hi⟩, hg⟩ := ih
    obtain ⟨ev', s'', hrun', hs⟩ := op_step countRel_eq hi hg _ hok
    cases hrun.symm.trans hrun'
    obtain ⟨l', le', hv, he, hc⟩ := hs.inv
    exact sane_of hv he (hc (hs.room hi.toVm hi.counts href)) (hs.genuine hg hi.managed)
  | store _ hw x v ih => exact (ih.setWord hw x v).1
  | @frame s _ e he tf ih => exact Sane.setEnv (v := { s.envs e with envTf := tf }) ih he he rfl rfl

/-! ## One return to user mode -/

/-- `env_run` of a ready environment, when no other than the current one is running. -/
theorem coherent_popTf (h : Sane b M (s.popTf e d)) (hd : (s.envs e).envPgdir = some d)
    (hw : (s.cpus s.cpunum).cpuStatus ≠ .halted)
    (honly : ∀ e', (s.envs e').envStatus = .running → s.curenv = some e') : Coherent b M (s.popTf e d) e d := by
  have hcpu : (s.popTf e d).cpus (s.popTf e d).cpunum =
      { s.cpus s.cpunum with cpuEnv := some e, cr3 := page2pa d, tlb := [] } := by
    rw [show (s.popTf e d).cpunum = s.cpunum from switchTo_cpunum s e, popTf_cpus, if_pos rfl]
  refine ⟨h, ?_, fun e' => ?_, ?_, ?_, rfl, ?_⟩
  · unfold State.curenv
    rw [hcpu]
  · rw [popTf_status]
    unfold State.statusAfter
    by_cases hee : e' = e
    · rw [if_pos hee]
      exact iff_of_true rfl hee
    · rw [if_neg hee]
      refine iff_of_false ?_ hee
      split
      · simp
      · rename_i hc
        exact fun hr => hc ⟨honly e' hr, hr⟩
  · obtain ⟨runs, cpu, henv⟩ := popTf_envs s e d e
    rw [henv]
    exact hd
  · rw [hcpu]
  · rw [hcpu]
    exact hw

theorem Coherent.live (h : Coherent b M s cur d) : (s.envs cur).envStatus ≠ .free := by
  rw [(h.running cur).2 rfl]; simp

theorem Coherent.dir (h : Coherent b M s cur d) : s.dir cur = some d := dir_eq_some.2 ⟨h.live, h.pgdir⟩

/-- The directory in CR3 is not among the free pages. -/
theorem Coherent.notFree (h : Coherent b M s cur d) {l : List Nat} (hl : FreeList s l) : d ∉ l := by
  have hdir := h.dir
  obtain ⟨⟨l', le, hi⟩, -⟩ := h.sane
  cases hi.toFreePages.unique hl
  exact fun hmem => hi.freeCell d hmem (.root cur) hdir

theorem Coherent.setWord (h : Coherent b M s cur d) {i j : Idx} {w : Word} (hw : s.pte e i j = some w) (x : Idx) (v : Word) :
    Coherent b M (s.setWord (pgnum w) x v) cur d :=
  ⟨(h.sane.setWord hw x v).1, h.curenv, h.running, h.pgdir, h.cr3, h.kernelLock, h.awake⟩

/-- The state in which `trap_dispatch` starts. -/
theorem Coherent.saved (h : Coherent b M s cur d) (tf : Trapframe) : Loaded b M cur d (s.saved cur tf) := by
  have hset := Sane.setEnv (v := { s.envs cur with envTf := tf }) h.sane h.live h.live rfl rfl
  have hsane : Sane b M (s.saved cur tf) := hset.congr rfl rfl rfl rfl rfl rfl rfl
  refine ⟨hsane, ?_, ?_⟩
  · have hrec : (s.saved cur tf).envs cur = { s.envs cur with envTf := tf } := Function.update_self ..
    rw [dir_eq_some, hrec]
    exact ⟨h.live, h.pgdir⟩
  · show (Function.update s.cpus s.cpunum _ s.cpunum).cr3 = _
    rw [Function.update_self]
    exact h.cr3

/-! ## Traps -/

/-- Before the kernel is left no other environment than the current one is running. -/
theorem Handles.running {c : Call} {t : State} (h : Handles s cur tf c t) (hcur : s.curenv = some cur)
    (honly : ∀ e, (s.envs e).envStatus = .running → e = cur) (hr : (t.envs e).envStatus = .running) : t.curenv = some e := by
  have he : e = cur := by
    by_contra hne
    have ht := h.touched e
    generalize t.envs e = w at ht hr
    cases ht with
    | keep => exact hne (honly e hr)
    | moved _ hc =>
      cases hc with
      | keep => exact hne (honly e hr)
      | status _ hst => rcases statusOfInt_cases hst with h' | h' <;> rw [h'] at hr <;> cases hr
      | setUpcall => exact hne (honly e hr)
      | dying => cases hr
      | freed => cases hr
      | spawned => cases hr
      | received => cases hr
    | returns _ _ h' => exact hne h'
    | upcall _ h' => exact hne h'
    | gone _ h' => exact hne h'
    | waiting _ _ h' => exact hne h'
  subst he
  have hst := h.stays
  unfold State.curenv
  rw [hst.cpunum]
  rcases hst.cpuEnv with hc | ⟨hfree, -⟩
  · rw [hc]; exact hcur
  · rw [hfree] at hr; cases hr

theorem Coherent.next (h : Coherent b M s cur d) (hr : (trap (syscall cons tf.tfRegs) tf faultVa).run s = .error .envPopTf s') :
    ∃ e d', Coherent b M s' e d' := by
  have hrun : (s.envs cur).envStatus = .running := (h.running cur).2 rfl
  have hdy : (s.envs cur).envStatus ≠ .dying := by rw [hrun]; simp
  have hcurs : (s.saved cur tf).curenv = some cur := by
    show (Function.update s.cpus s.cpunum _ s.cpunum).cpuEnv = _
    rw [Function.update_self]
    exact h.curenv
  have hstatus : ∀ e, ((s.saved cur tf).envs e).envStatus = (s.envs e).envStatus := by
    intro e
    show (Function.update s.envs cur _ e).envStatus = _
    rw [Function.update_apply]
    split
    · rename_i he; rw [he]
    · rfl
  -- the address spaces
  have hsane : SaneRes b M ((trap (syscall cons tf.tfRegs) tf faultVa).run s) := by
    rw [trap_enter h.curenv h.kernelLock h.awake hdy]
    exact (saneRes_dispatch (h.saved tf) hcurs (by rw [hstatus]; exact hrun) cons tf faultVa).bind fun _ t _ ht =>
      saneRes_trapReturn ht
  have hs' : Sane b M s' := by
    rw [hr] at hsane
    rcases hsane with ⟨t, ht⟩ | hs
    · cases ht
    · exact hs
  -- the records
  have hres := trap_res h.curenv (Or.inl hrun) h.kernelLock h.awake (syscallCall cons tf.tfRegs) tf faultVa
  rw [← syscall_exec, hr] at hres
  cases hres with
  | zombie hdy' => exact absurd hdy' hdy
  | @handled s₁ _ _ hh hx =>
    cases hx with
    | run e d' he hd hl =>
      have hst := hh.stays
      have hawake : ((s.saved cur tf).cpus s.cpunum).cpuStatus = .started := by
        show (Function.update s.cpus s.cpunum _ s.cpunum).cpuStatus = _
        rw [Function.update_self]
      refine ⟨e, d', coherent_popTf hs' hd ?_ fun e' hr => hh.running hcurs (fun e hr => ?_) hr⟩
      · rw [hst.cpuStatus, hst.cpunum, show (s.saved cur tf).cpunum = s.cpunum from rfl, hawake]
        simp
      · rw [hstatus] at hr
        exact (h.running e).1 hr

/-- A panic in a trap leaves the lock with the CPU: it is none of `spin_unlock`. -/
theorem Coherent.panic (h : Coherent b M s cur d) (hr : (trap (syscall cons tf.tfRegs) tf faultVa).run s = .error .panic s') :
    s'.kernelLock = some s'.cpunum := by
  have hrun : (s.envs cur).envStatus = .running := (h.running cur).2 rfl
  have hres := trap_res h.curenv (Or.inl hrun) h.kernelLock h.awake (syscallCall cons tf.tfRegs) tf faultVa
  rw [← syscall_exec, hr] at hres
  cases hres with
  | zombie hdy => rw [hrun] at hdy; cases hdy
  | @handled s₁ _ _ hh hx =>
    cases hx with
    | panic _ hl =>
      have hst := hh.stays
      rw [hl.kernelLock, hl.cpunum, hst.kernelLock, hst.cpunum]
      rfl
  | panic _ hn hl => rw [hl, hn]

theorem UserRun.coherent (hb : Booted b M) (h₀ : Boots b s₀) (hst : ∀ e, (s₀.envs e).envStatus ≠ .running)
    (hw : (s₀.cpus s₀.cpunum).cpuStatus ≠ .halted)
    (h : UserRun s₀ s) : ∃ cur d, Coherent b M s cur d := by
  induction h with
  | @boot e s he hr =>
    have hres := envRun_resumed s₀ e
    rw [hr] at hres
    cases hres with
    | popTf d hd hl =>
      exact ⟨e, d, coherent_popTf ((h₀.sane hb).popTf he d) hd hw fun e' hr => absurd hr (hst e')⟩
  | user _ _ hw _ x v ih =>
    obtain ⟨cur, d, hc⟩ := ih
    exact ⟨cur, d, hc.setWord hw x v⟩
  | trap _ hr ih =>
    obtain ⟨cur, d, hc⟩ := ih
    exact hc.next hr

/-- At every return to user mode the current environment is the only one that is running, CR3 holds its
page directory, which is not free, and the lock is free. A trap enters `trap_dispatch` with the lock
held, and a panic in it leaves the lock held. -/
theorem coherent_at_return (hb : Booted b M) (h₀ : Boots b s₀) (hst : ∀ e, (s₀.envs e).envStatus ≠ .running)
    (hw : (s₀.cpus s₀.cpunum).cpuStatus ≠ .halted) (h : UserRun s₀ s) :
    ∃ cur d, s.curenv = some cur ∧ (∀ e, (s.envs e).envStatus = .running ↔ e = cur) ∧ (s.envs cur).envPgdir = some d ∧
      (s.cpus s.cpunum).cr3 = page2pa d ∧ (∀ l, FreeList s l → d ∉ l) ∧ s.kernelLock = none ∧
      ∀ cons tf faultVa,
        ((s.saved cur tf).kernelLock = some (s.saved cur tf).cpunum ∧
          (trap (syscall cons tf.tfRegs) tf faultVa).run s =
            (do trapDispatch (syscall cons tf.tfRegs) tf faultVa; trapReturn : Kern Unit).run (s.saved cur tf)) ∧
        ∀ s', (trap (syscall cons tf.tfRegs) tf faultVa).run s = .error .panic s' → s'.kernelLock = some s'.cpunum := by
  obtain ⟨cur, d, hc⟩ := h.coherent hb h₀ hst hw
  have hdy : (s.envs cur).envStatus ≠ .dying := by rw [(hc.running cur).2 rfl]; simp
  exact ⟨cur, d, hc.curenv, hc.running, hc.pgdir, hc.cr3, fun l hl => hc.notFree hl, hc.kernelLock, fun cons tf faultVa =>
    ⟨⟨rfl, trap_enter hc.curenv hc.kernelLock hc.awake hdy⟩, fun s' hr => hc.panic hr⟩⟩

theorem Reach.boots {h : List Event} (hr : Reach b h s) : Boots b s := by
  induction hr with
  | boot => exact .boot
  | step _ hok hrun href ih => exact ih.op hok hrun href

/-- The machine of `bootState` while `i386_init` holds the lock. -/
def bootLocked : State := { bootState with kernelLock := some 0 }

def firstLocked : State := bootLocked.spawn 0 128 0#32

theorem bootLocked_booted : Booted bootLocked (pagesDown 128) where
  chain := bootState_booted.chain
  nodup := bootState_booted.nodup
  freeM := bootState_booted.freeM
  freeRef := bootState_booted.freeRef
  managed := bootState_booted.managed
  kernM := bootState_booted.kernM
  envChain := bootState_booted.envChain
  envFree := bootState_booted.envFree

theorem firstLocked_boots : Boots bootLocked firstLocked := by
  have hrun : (Op.envAlloc 0#32).exec.run bootLocked = .ok (.created 0) firstLocked := by
    unfold Op.exec
    rw [run_bind_ok (envAlloc_ok rfl rfl (by decide) 0#32)]
    rfl
  exact (Reach.next bootLocked_booted .boot (.envAlloc 0#32) trivial hrun trivial).boots

theorem firstLocked_status (e : Slot) : (firstLocked.envs e).envStatus ≠ .running := by
  have henv : firstLocked.envs e = if e = 0 then newEnv 0 0#32 ((bootLocked.setupVm 0 128).envs 0)
      else (bootLocked.setupVm 0 128).envs e := Function.update_apply ..
  have hvm : (bootLocked.setupVm 0 128).envs e = if e = 0 then { bootEnv 0 with envPgdir := some 128 } else bootEnv e :=
    Function.update_apply ..
  rw [henv]
  split
  · simp [newEnv]
  · rename_i he
    rw [hvm, if_neg he]
    simp [bootEnv]

/-- The trap of `sys_getenvid` returns to its environment, with the id in `eax`. -/
theorem getenvid_returns (cons : Int) {tf : Trapframe} (faultVa : Word) (hl : s.kernelLock = none) (hc : s.curenv = some cur)
    (hw : (s.cpus s.cpunum).cpuStatus ≠ .halted) (hr : (s.envs cur).envStatus = .running) (hd : (s.envs cur).envPgdir = some d)
    (htf : tf.tfTrapno = tSyscall) (heax : tf.tfRegs.regEax = 2#32) :
    ∃ s', (trap (syscall cons tf.tfRegs) tf faultVa).run s = .error .envPopTf s' ∧
      (s'.envs cur).envTf.tfRegs.regEax = (s.envs cur).envId := by
  have hdy : (s.envs cur).envStatus ≠ .dying := by rw [hr]; simp
  have hcall : syscall cons tf.tfRegs = Call.getenvid.exec := by
    rw [syscall_exec]
    unfold syscallCall
    rw [heax]
    rfl
  have hsaved : (s.saved cur tf).envs cur = { s.envs cur with envTf := tf } := Function.update_self ..
  have hcur : (s.saved cur tf).curenv = some cur := by
    show (Function.update s.cpus s.cpunum _ s.cpunum).cpuEnv = _
    rw [Function.update_self]
    exact hc
  let v : Env := setEax ((s.envs cur).envId.toInt) ((s.saved cur tf).envs cur)
  have hid : Call.getenvid.exec.run (s.saved cur tf) = .ok (s.envs cur).envId.toInt (s.saved cur tf) := by
    have := run_bind_ok (f := fun w : Word => (pure w.toInt : Kern Int)) (run_getenvid hcur)
    rw [hsaved] at this
    exact this
  have hv : ((s.saved cur tf).setEnv cur v).envs cur = v := Function.update_self ..
  refine ⟨((s.saved cur tf).setEnv cur v).popTf cur d, ?_, ?_⟩
  · rw [hcall, trap_call hl hc hw hdy htf, run_bind_ok hid, run_bind_ok (run_modifyEnv ..)]
    exact trapReturn_running hcur (by rw [hv]; show ((s.saved cur tf).envs cur).envStatus = _; rw [hsaved]; exact hr)
      (by rw [hv]; show ((s.saved cur tf).envs cur).envPgdir = _; rw [hsaved]; exact hd) rfl
  · obtain ⟨runs, cpu, henv⟩ := popTf_envs ((s.saved cur tf).setEnv cur v) cur d cur
    rw [henv, hv]
    show BitVec.ofInt 32 (s.envs cur).envId.toInt = _
    exact BitVec.ofInt_toInt

/-- The first environment has run and asked for its id. -/
theorem coherent_at_return_getenvid : ∃ s cur d, UserRun firstLocked s ∧ (s.envs 0).envTf.tfRegs.regEax = 0x1000#32 ∧
    s.curenv = some cur ∧ (∀ e, (s.envs e).envStatus = .running ↔ e = cur) ∧ (s.cpus s.cpunum).cr3 = page2pa d ∧
    s.kernelLock = none := by
  have hlive : (firstLocked.envs 0).envStatus ≠ .free := by decide
  have hpop : (envRun 0).run firstLocked = .error .envPopTf (firstLocked.popTf 0 128) := envRun_pops rfl rfl
  have hstart : UserRun firstLocked (firstLocked.popTf 0 128) := .boot hlive hpop
  let tf : Trapframe := { tfTrapno := tSyscall, tfRegs := { regEax := 2#32 } }
  have hcur : (firstLocked.popTf 0 128).curenv = some 0 := rfl
  have htf : tf.tfTrapno = tSyscall := rfl
  obtain ⟨s, htrap, heax⟩ := getenvid_returns 0 0#32 (d := 128) rfl hcur (by decide) rfl rfl htf rfl
  have hrun : UserRun firstLocked s := .trap hstart htrap
  obtain ⟨cur, d, hcur, hrunning, -, hcr3, -, hl, -⟩ := coherent_at_return bootLocked_booted firstLocked_boots firstLocked_status
    (by decide) hrun
  exact ⟨s, cur, d, hrun, heax.trans (by decide), hcur, hrunning, hcr3, hl⟩

end Jos
