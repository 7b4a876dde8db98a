/-
Several CPUs, whose kernel sections are serialised by the lock. As long as no call writes the
status of an environment that another CPU is running, other than to mark it as dying, no
environment runs on two CPUs.
-/
import Jos.Run.Machine
import Jos.Run.Boot

namespace Jos

open Lib Kern

variable {s s' s₀ : State} {cur e x : Slot} {k : Cpu} {a : Sect} {tf : Trapframe} {c : Call}

/-! ## Orderly sections -/

/-- Another CPU than `k` is running `e`. -/
def State.Elsewhere (s : State) (k : Cpu) (e : Slot) : Prop := ∃ k', k' ≠ k ∧ (s.cpus k').cpuEnv = some e

/-- The call does not write the status of an environment that another CPU is running: it does not set
its status, send it the message it waits for, or free it when it is already dying. -/
def Call.Spares (s : State) (k : Cpu) (cur : Slot) : Call → Prop
  | .envSetStatus envid status => statusOfInt status ≠ none → ∀ e, s.resolve cur envid true = some e → ¬ s.Elsewhere k e
  | .envDestroy envid => ∀ e, s.resolve cur envid true = some e → (s.envs e).envStatus = .dying → ¬ s.Elsewhere k e
  | .ipcTrySend envid _ _ _ =>
    ∀ e, s.resolve cur envid false = some e → (s.envs e).envIpcRecving = true → ¬ s.Elsewhere k e
  | _ => True

/-- The section does not make a call that writes the status of an environment running elsewhere. -/
def Orderly (s : State) : Sect → Prop
  | .trap k tf _ c => tf.tfTrapno = tSyscall → ∀ cur, (s.cpus k).cpuEnv = some cur → c.Spares s k cur
  | .start _ => True

theorem saved_envs (s : State) (k : Cpu) (cur : Slot) (tf : Trapframe) (e : Slot) :
    ((s.on k).saved cur tf).envs e = if e = cur then { s.envs cur with envTf := tf } else s.envs e :=
  Function.update_apply ..

theorem saved_status (s : State) (k : Cpu) (cur : Slot) (tf : Trapframe) (e : Slot) :
    (((s.on k).saved cur tf).envs e).envStatus = (s.envs e).envStatus := by
  rw [saved_envs]
  split
  · rename_i he; rw [he]
  · rfl

/-- Saving the frame changes nothing that `envid2env` looks at. -/
theorem saved_resolve (s : State) (k : Cpu) (cur : Slot) (tf : Trapframe) (envid : Word) (checkperm : Bool) :
    ((s.on k).saved cur tf).resolve cur envid checkperm = s.resolve cur envid checkperm := by
  have hid : ∀ e, (((s.on k).saved cur tf).envs e).envId = (s.envs e).envId := by
    intro e
    rw [saved_envs]
    split
    · rename_i he; rw [he]
    · rfl
  have hpar : ∀ e, (((s.on k).saved cur tf).envs e).envParentId = (s.envs e).envParentId := by
    intro e
    rw [saved_envs]
    split
    · rename_i he; rw [he]
    · rfl
  unfold State.resolve
  simp only [saved_status, hid, hpar]

theorem saved_recving (s : State) (k : Cpu) (cur : Slot) (tf : Trapframe) (e : Slot) :
    (((s.on k).saved cur tf).envs e).envIpcRecving = (s.envs e).envIpcRecving := by
  rw [saved_envs]
  split
  · rename_i he; rw [he]
  · rfl

theorem saved_freeEnvs (h : FreeEnvs s) (k : Cpu) (cur : Slot) (tf : Trapframe) : FreeEnvs ((s.on k).saved cur tf) :=
  h.upd (e := cur) rfl rfl Iff.rfl rfl rfl

/-! ## No environment on two CPUs -/

/-- No two CPUs have the same environment, and the environments marked as running or dying are those
that a CPU is running in user mode. -/
structure Apart (s : State) : Prop where
  freeEnvs : FreeEnvs s
  awake : ∀ k, (s.cpus k).cpuStatus ≠ .halted
  inj : ∀ k k' e, (s.cpus k).cpuEnv = some e → (s.cpus k').cpuEnv = some e → k = k'
  user : ∀ k e, (s.cpus k).cpuEnv = some e → s.kernelLock ≠ some k → s.Marked e
  marked : ∀ e, s.Marked e → ∃ k, (s.cpus k).cpuEnv = some e

/-- The same while the CPU `cpunum` is in the kernel. -/
structure ApartOn (s : State) : Prop where
  freeEnvs : FreeEnvs s
  awake : ∀ k, (s.cpus k).cpuStatus ≠ .halted
  inj : ∀ k k' e, (s.cpus k).cpuEnv = some e → (s.cpus k').cpuEnv = some e → k = k'
  user : ∀ k e, k ≠ s.cpunum → (s.cpus k).cpuEnv = some e → s.Marked e
  marked : ∀ e, s.Marked e → ∃ k, (s.cpus k).cpuEnv = some e
  alive : ∀ e, s.curenv = some e → (s.envs e).envStatus ≠ .dying
  lock : s.kernelLock = some s.cpunum

/-- The environment that the kernel is going to run is not on another CPU. -/
theorem ApartOn.other (h : ApartOn s) (he : s.Ready e) (hk : k ≠ s.cpunum) {e' : Slot}
    (hke : (s.cpus k).cpuEnv = some e') : e' ≠ e := by
  rintro rfl
  rcases he with hr | ⟨hc, -⟩
  · rcases h.user k e' hk hke with h' | h' <;> rw [show (s.envs e').envStatus = _ from hr] at h' <;> cases h'
  · exact hk (h.inj k s.cpunum e' hke hc)

theorem ApartOn.out (h : ApartOn s) (hx : Out s s') : Apart s' := by
  cases hx with
  | monitor =>
    exact ⟨h.freeEnvs, h.awake, h.inj, fun k e he hl => h.user k e (fun hk => hl (hk ▸ h.lock)) he, h.marked⟩
  | run e d he hd =>
    have hlive : (s.envs e).envStatus ≠ .free := fun hf => by
      rw [(h.freeEnvs.pgdir e).1 hf] at hd
      cases hd
    have hcpu : ∀ k, ((s.popTf e d).cpus k).cpuEnv = if k = s.cpunum then some e else (s.cpus k).cpuEnv := by
      intro k
      rw [popTf_cpus]
      split <;> rfl
    -- `env_run` gets no environment that another CPU has
    have hother : ∀ k e', k ≠ s.cpunum → (s.cpus k).cpuEnv = some e' → e' ≠ e := fun k e' hk hke => h.other he hk hke
    refine ⟨popTf_freeEnvs h.freeEnvs hlive, fun k => ?_, fun k k' e' => ?_, fun k e' hke _ => ?_, fun e' hm => ?_⟩
    · rw [popTf_cpus]
      split
      · exact h.awake s.cpunum
      · exact h.awake k
    · rw [hcpu, hcpu]
      intro h1 h2
      by_cases hk : k = s.cpunum
      · by_cases hk' : k' = s.cpunum
        · rw [hk, hk']
        · rw [if_pos hk] at h1
          rw [if_neg hk'] at h2
          exact absurd (Option.some.inj h1).symm (hother k' e' hk' h2)
      · rw [if_neg hk] at h1
        by_cases hk' : k' = s.cpunum
        · rw [if_pos hk'] at h2
          exact absurd (Option.some.inj h2).symm (hother k e' hk h1)
        · rw [if_neg hk'] at h2
          exact h.inj k k' e' h1 h2
    · rw [hcpu] at hke
      unfold State.Marked
      rw [popTf_status]
      unfold State.statusAfter
      by_cases hk : k = s.cpunum
      · rw [if_pos hk] at hke
        rw [if_pos (Option.some.inj hke).symm]
        exact Or.inl rfl
      · rw [if_neg hk] at hke
        rw [if_neg (hother k e' hk hke), if_neg]
        · exact h.user k e' hk hke
        · rintro ⟨hc, -⟩
          exact hk (h.inj k s.cpunum e' hke hc)
    · by_cases he' : e' = e
      · exact ⟨s.cpunum, by rw [hcpu, if_pos rfl, he']⟩
      unfold State.Marked at hm
      rw [popTf_status] at hm
      unfold State.statusAfter at hm
      rw [if_neg he'] at hm
      by_cases hc : s.curenv = some e' ∧ (s.envs e').envStatus = .running
      · rw [if_pos hc] at hm
        rcases hm with hm | hm <;> cases hm
      · rw [if_neg hc] at hm
        obtain ⟨k, hk⟩ := h.marked e' hm
        refine ⟨k, ?_⟩
        rw [hcpu, if_neg, hk]
        -- the environment that was current is neither running any more nor dying
        rintro rfl
        rcases hm with hm | hm
        · exact hc ⟨hk, hm⟩
        · exact h.alive e' hk hm

/-- The first free slot is free. -/
theorem FreeEnvs.head (h : FreeEnvs s) (hl : s.envFreeList = some e) : (s.envs e).envStatus = .free := by
  obtain ⟨le, hc, -, hm⟩ := h.table
  rw [hl, Chain.some_iff] at hc
  obtain ⟨l, rfl, -⟩ := hc
  exact (hm e).1 (List.mem_cons_self ..)

/-- An environment that another CPU is running, after an orderly trap: at most it is dying now. -/
theorem spared (hf : FreeEnvs s) (hsp : tf.tfTrapno = tSyscall → c.Spares s k cur) (hel : s.Elsewhere k e) (hne : e ≠ cur)
    (hst : (s.envs e).envStatus = .running ∨ (s.envs e).envStatus = .dying)
    (h : Handles ((s.on k).saved cur tf) cur tf c s') :
    (s'.envs e).envStatus = (s.envs e).envStatus ∨ (s'.envs e).envStatus = .dying := by
  have ht := h.touched e
  generalize s'.envs e = v at ht
  have hsame := saved_status s k cur tf e
  have hrec := saved_recving s k cur tf e
  cases ht with
  | keep => exact Or.inl hsame
  | moved htf hm =>
    have hsp := hsp htf
    cases hm with
    | keep => exact Or.inl hsame
    | status hc hset he =>
      rw [hc] at hsp
      rw [saved_resolve] at he
      exact absurd hel (hsp (by rw [hset]; simp) e he)
    | setUpcall => exact Or.inl hsame
    | dying => exact Or.inr rfl
    | freed link hc he hrun =>
      rw [hc] at hsp
      rw [saved_resolve] at he
      rw [hsame] at hrun
      exact absurd hel (hsp e he (hst.resolve_left hrun))
    | spawned hc hl =>
      have hfree := hf.head hl
      rcases hst with h | h <;> rw [hfree] at h <;> cases h
    | received hc he hr =>
      rw [hc] at hsp
      rw [saved_resolve] at he
      exact absurd hel (hsp e he (hrec ▸ hr))
  | returns _ _ he => exact absurd he hne
  | upcall _ he => exact absurd he hne
  | gone _ he => exact absurd he hne
  | waiting _ _ he => exact absurd he hne

theorem saved_cpus (s : State) (k : Cpu) (cur : Slot) (tf : Trapframe) (k' : Cpu) :
    ((s.on k).saved cur tf).cpus k' = if k' = k then { s.cpus k with cpuStatus := .started } else s.cpus k' :=
  Function.update_apply ..

theorem saved_curenv (tf : Trapframe) (h : (s.cpus k).cpuEnv = some cur) : ((s.on k).saved cur tf).curenv = some cur := by
  show (((s.on k).saved cur tf).cpus k).cpuEnv = _
  rw [saved_cpus, if_pos rfl]
  exact h

/-- With the lock free, every CPU that has an environment is in user mode. -/
theorem Apart.unlocked (h : Apart s) (hl : s.kernelLock = none) (k : Cpu) (e : Slot) (he : (s.cpus k).cpuEnv = some e) :
    s.Marked e := h.user k e he (by rw [hl]; simp)

theorem Apart.live (h : Apart s) (hl : s.kernelLock = none) (he : (s.cpus k).cpuEnv = some e) :
    (s.envs e).envStatus ≠ .free := by
  rcases h.unlocked hl k e he with h | h <;> rw [h] <;> simp

theorem Step.unlocked (h : Step s a s') : s.kernelLock = none := by
  cases h with
  | trap hl => exact hl
  | start hl => exact hl

/-- What a trap leaves marked was marked before, or is the environment that trapped. -/
theorem Handles.marked {t : State} (h : Handles t cur tf c s') (hm : s'.Marked e) : t.Marked e ∨ e = cur := by
  by_cases he : e = cur
  · exact Or.inr he
  left
  have ht := h.touched e
  unfold State.Marked at hm
  generalize s'.envs e = v at ht hm
  cases ht with
  | keep => exact hm
  | moved _ hc =>
    cases hc with
    | keep => exact hm
    | status _ hst =>
      rcases statusOfInt_cases hst with rfl | rfl <;> rcases hm with hm | hm <;> cases hm
    | setUpcall => exact hm
    | dying _ _ hrun => exact Or.inl hrun
    | freed => rcases hm with hm | hm <;> cases hm
    | spawned => rcases hm with hm | hm <;> cases hm
    | received => rcases hm with hm | hm <;> cases hm
  | returns _ _ h' => exact absurd h' he
  | upcall _ h' => exact absurd h' he
  | gone _ h' => exact absurd h' he
  | waiting _ _ h' => exact absurd h' he

/-- A trap does not leave the environment that trapped dying. -/
theorem Handles.alive {t : State} (h : Handles t cur tf c s') (hdy : (t.envs cur).envStatus ≠ .dying) :
    (s'.envs cur).envStatus ≠ .dying := by
  have hcall : ∀ {w}, CallMove t cur c cur w → w.envStatus ≠ .dying := by
    intro w hw
    cases hw with
    | keep => exact hdy
    | status _ hst => rcases statusOfInt_cases hst with rfl | rfl <;> simp
    | setUpcall => exact hdy
    | dying _ _ _ hne => exact absurd rfl hne
    | freed => simp [freedEnv]
    | spawned => simp
    | received => simp [ipcReceived]
  have ht := h.touched cur
  generalize s'.envs cur = v at ht
  cases ht with
  | keep => exact hdy
  | moved _ hw => exact hcall hw
  | returns r _ _ hw =>
    have hst := hcall hw
    exact hst
  | upcall => exact hdy
  | gone => simp [freedEnv]
  | waiting => simp [ipcWaiting]

/-- The CPUs after a section was handled, when the environments running elsewhere keep their marks and
no others are marked. -/
theorem ApartOn.of_stays {t : State} (h : Apart s) (hcur : (s.cpus k).cpuEnv = some cur)
    (ht : ∀ k', (t.cpus k').cpuEnv = (s.cpus k').cpuEnv) (htk : t.cpunum = k) (htl : t.kernelLock = some k)
    (hta : ∀ k', (t.cpus k').cpuStatus ≠ .halted) (hst : Stays t s' cur) (hf : FreeEnvs s')
    (huser : ∀ k' e, k' ≠ k → (s.cpus k').cpuEnv = some e → s'.Marked e)
    (hmark : ∀ e, s'.Marked e → s.Marked e ∨ e = cur) (halive : (s'.envs cur).envStatus ≠ .dying) : ApartOn s' := by
  -- a CPU that has an environment had it before
  have hold : ∀ k' e, (s'.cpus k').cpuEnv = some e → (s.cpus k').cpuEnv = some e := by
    intro k' e he
    rcases hst.cpuEnv with hc | ⟨-, hc⟩
    · rw [hc, ht] at he; exact he
    · rw [hc] at he
      split at he
      · cases he
      · rw [ht] at he; exact he
  refine ⟨hf, fun k' => by rw [hst.cpuStatus]; exact hta k', fun k₁ k₂ e h₁ h₂ => h.inj k₁ k₂ e (hold _ _ h₁) (hold _ _ h₂),
    fun k' e hk he => ?_, fun e hm => ?_, fun e he => ?_, ?_⟩
  · rw [hst.cpunum, htk] at hk
    exact huser k' e hk (hold k' e he)
  · obtain ⟨k', hk'⟩ : ∃ k', (s.cpus k').cpuEnv = some e := by
      rcases hmark e hm with h' | rfl
      · exact h.marked e h'
      · exact ⟨k, hcur⟩
    refine ⟨k', ?_⟩
    rcases hst.cpuEnv with hc | ⟨hfree, hc⟩
    · rw [hc, ht, hk']
    · rw [hc, htk, if_neg, ht, hk']
      rintro rfl
      cases hcur.symm.trans hk'
      rcases hm with hm | hm <;> rw [hfree] at hm <;> cases hm
  · have hc := hold _ _ he
    rw [hst.cpunum, htk, hcur] at hc
    cases hc
    exact halive
  · rw [hst.kernelLock, hst.cpunum, htl, htk]

theorem Apart.step (h : Apart s) (ho : Orderly s a) (hs : Step s a s') : Apart s' := by
  have hl := hs.unlocked
  have huser := h.unlocked hl
  cases hs.parts h.awake huser with
  | @start k s' he hx =>
    have hon : ApartOn (s.locked k) :=
      ⟨h.freeEnvs.congr rfl rfl, h.awake, h.inj, fun k' e _ he => huser k' e he, h.marked,
        fun e hc => (by rw [show (s.locked k).curenv = none from he] at hc; cases hc), rfl⟩
    exact hon.out hx
  | @zombie k cur tf faultVa c s₁ s' he hdy hst _ henvs hfree hx =>
    -- a zombie is freed at its trap, and no other record changes
    have hrec : ∀ e, e ≠ cur → s₁.envs e = s.envs e := fun e hne => by rw [henvs, Function.update_of_ne hne]
    have hgone : (s₁.envs cur).envStatus = .free := by rw [henvs, Function.update_self]; rfl
    refine (ApartOn.of_stays h he (fun k' => ?_) rfl rfl (fun k' => ?_) hst ?_ (fun k' e hk hke => ?_) (fun e hm => ?_)
      ?_).out hx
    · rw [trapped_cpus]
      split
      · rename_i hk; rw [hk]
      · rfl
    · rw [trapped_cpus]
      split
      · simp
      · exact h.awake k'
    · exact h.freeEnvs.give (h.live hl he) henvs hfree
    · have hne : e ≠ cur := by
        rintro rfl
        exact hk (h.inj k' k e hke he)
      unfold State.Marked
      rw [hrec e hne]
      exact huser k' e hke
    · by_cases hne : e = cur
      · exact Or.inr hne
      · unfold State.Marked at hm
        rw [hrec e hne] at hm
        exact Or.inl hm
    · rw [hgone]; simp
  | @handled k cur tf faultVa c s₁ s' he hdy hh hx =>
    refine (ApartOn.of_stays h he (fun k' => ?_) rfl rfl (fun k' => ?_) hh.stays ?_ (fun k' e hk hke => ?_) (fun e hm => ?_)
      ?_).out hx
    · rw [saved_cpus]
      split
      · rename_i hk; rw [hk]
      · rfl
    · rw [saved_cpus]
      split
      · simp
      · exact h.awake k'
    · exact hh.freeEnvs (saved_freeEnvs h.freeEnvs ..) (by rw [saved_status]; exact h.live hl he)
    · have hne : e ≠ cur := by
        rintro rfl
        exact hk (h.inj k' k e hke he)
      -- in an orderly step no call changes an environment that another CPU runs, but to mark it as dying
      rcases spared h.freeEnvs (fun htf => ho htf cur he) ⟨k', hk, hke⟩ hne (huser k' e hke) hh with hsp | hsp
      · unfold State.Marked
        rw [hsp]
        exact huser k' e hke
      · exact Or.inr hsp
    · have := hh.marked hm
      unfold State.Marked at this ⊢
      rwa [saved_status] at this
    · exact hh.alive (by rw [saved_status]; exact hdy)

theorem Fresh.apart (h : Fresh s) : Apart s := by
  refine ⟨h.freeEnvs, h.awake, fun k k' e he => ?_, fun k e he => ?_, fun e hm => ?_⟩
  · rw [h.cpuEnv] at he; cases he
  · rw [h.cpuEnv] at he; cases he
  · rcases h.status e with hs | hs <;> rcases hm with hm | hm <;> rw [hs] at hm <;> cases hm

theorem Runs.apart (h₀ : Apart s₀) (h : Runs Orderly s₀ s) : Apart s := by
  induction h with
  | refl => exact h₀
  | step _ hp hs ih => exact ih.step hp hs

/-! ## A run on two CPUs -/

theorem bootState_freeEnvs : FreeEnvs bootState where
  table := ⟨_, bootState_booted.envChain, nodup_slotOrder _, fun e => ⟨fun _ => rfl, fun _ => mem_slotOrder e⟩⟩
  pgdir _ := ⟨fun _ => rfl, fun _ => rfl⟩

theorem firstEnv_envs (e : Slot) : firstEnv.envs e =
    if e = 0 then { newEnv 0 0#32 (bootEnv 0) with envPgdir := some 128 } else bootEnv e := by
  have hset : firstEnv.envs e = if e = 0 then newEnv 0 0#32 ((bootState.setupVm 0 128).envs 0)
      else (bootState.setupVm 0 128).envs e := Function.update_apply ..
  have hvm : (bootState.setupVm 0 128).envs e = if e = 0 then { bootEnv 0 with envPgdir := some 128 } else bootEnv e :=
    Function.update_apply ..
  rw [hset, hvm]
  split <;> rfl

theorem firstEnv_fresh : Fresh firstEnv where
  freeEnvs := (bootState_freeEnvs.take (e := 0) rfl (funext fun e => by
    rw [firstEnv_envs, Function.update_apply]; rfl) rfl (by simp [newEnv]) (by simp)).1
  status e := by
    rw [firstEnv_envs]
    split
    · exact Or.inr rfl
    · exact Or.inl rfl
  recving e := by
    rw [firstEnv_envs]
    split <;> rfl
  cpuEnv _ := rfl
  kernelLock := rfl
  awake _ := by show CpuStatus.unused ≠ _; simp

/-- The environments after the first two are free. -/
def State.Duo (s : State) : Prop := ∀ e : Slot, e ≠ 0 → e ≠ 1 → (s.envs e).envStatus = .free

theorem firstEnv_duo : firstEnv.Duo := by
  intro e h0 _
  rw [firstEnv_envs, if_neg h0]
  rfl

theorem State.Duo.only (h : s.Duo) (h0 : s.Runnable 0 → e = 0) (h1 : s.Runnable 1 → e = 1) : ∀ e', s.Runnable e' → e' = e := by
  intro e' he'
  by_cases hz : e' = 0
  · subst hz; exact (h0 he').symm
  by_cases ho : e' = 1
  · subst ho; exact (h1 he').symm
  have hfree := h e' hz ho
  rw [show (s.envs e').envStatus = _ from he'] at hfree
  cases hfree

theorem State.Duo.locked (h : s.Duo) (k : Cpu) : (s.locked k).Duo := h

theorem State.Duo.popTf (h : s.Duo) (he : e = 0 ∨ e = 1) (d : Nat) : (s.popTf e d).Duo := by
  intro e' h0 h1
  rw [popTf_status]
  unfold State.statusAfter
  rw [if_neg (by rintro rfl; exact he.elim h0 h1), if_neg]
  · exact h e' h0 h1
  · rintro ⟨-, hr⟩
    rw [h e' h0 h1] at hr
    cases hr

def callTf : Trapframe := { tfTrapno := tSyscall }

/-- The state when a system call of `cur` on CPU `k` that changes the state by `f` has returned `r`. -/
def State.after (s : State) (k : Cpu) (cur : Slot) (d : Nat) (f : State → State) (r : Int) : State :=
  let t := f ((s.on k).saved cur callTf)
  (t.setEnv cur (setEax r (t.envs cur))).popTf cur d

/-- `sys_exofork` of slot 0 makes the child in slot 1. -/
def forked (s : State) : State :=
  let t := s.spawn 1 127 4096#32
  t.setEnv 1 (forkEnv (t.envs 0) (t.envs 1))

def setStatus (st : EnvStatus) (s : State) : State := s.setEnv 1 { s.envs 1 with envStatus := st }

/-- The first environment runs on CPU 0. -/
def soloRun : State := (firstEnv.locked 0).popTf 0 128

/-- It has a child in slot 1. -/
def childMade : State := soloRun.after 0 0 128 forked 4097

/-- It has made the child runnable. -/
def childReady : State := childMade.after 0 0 128 (setStatus .runnable) 0

/-- The child runs on CPU 1. -/
def duoRun : State := (childReady.locked 1).popTf 1 127

/-- The parent has set the status of the child again. -/
def rewritten : State := duoRun.after 0 0 128 (setStatus .runnable) 0

theorem soloRun_step : Step firstEnv (.start 0) soloRun :=
  step_start rfl rfl rfl (firstEnv_duo.only (fun _ => rfl) (fun h => by cases h)) rfl

theorem childMade_step : Step soloRun (.trap 0 callTf 0#32 .exofork) childMade := by
  refine step_call (t := forked ((soloRun.on 0).saved 0 callTf)) rfl rfl (by decide) (by decide) rfl ?_
    ⟨rfl, rfl, rfl, rfl, fun _ => rfl, fun _ => rfl⟩ rfl rfl
  exact run_exofork (e := 1) (p := 127) rfl rfl rfl (by decide)

theorem soloRun_duo : soloRun.Duo :=
  (firstEnv_duo.locked 0).popTf (Or.inl rfl) _

theorem childMade_duo : childMade.Duo := by
  refine State.Duo.popTf (fun e h0 h1 => ?_) (Or.inl rfl) _
  have hmade : ∀ t : State, ((forked t).setEnv 0 (setEax 4097 ((forked t).envs 0))).envs e = t.envs e := by
    intro t
    simp [forked, State.spawn, State.setupVm, State.setEnv, State.setMem, State.setRef, State.setPage, State.pop, h0, h1]
  rw [hmade, saved_status]
  exact soloRun_duo e h0 h1

/-- The parent runs on CPU 0 with the lock free, and its child is in slot 1. -/
def State.ParentRuns (s : State) : Prop :=
  s.kernelLock = none ∧ (s.cpus 0).cpuEnv = some 0 ∧ (s.cpus 0).cpuStatus ≠ .halted ∧ (s.envs 0).envStatus = .running ∧
    (s.envs 0).envPgdir = some 128 ∧ ∀ b, s.resolve 0 4097#32 b = some 1

instance (s : State) : Decidable s.ParentRuns := inferInstanceAs (Decidable (_ ∧ _))

theorem setStatus_step {st : EnvStatus} {status : Word} (hst : statusOfInt status = some st) (h : s.ParentRuns) :
    Step s (.trap 0 callTf 0#32 (.envSetStatus 4097#32 status)) (s.after 0 0 128 (setStatus st) 0) := by
  obtain ⟨hl, hk, hw, h0, hd, hr⟩ := h
  refine step_call (t := setStatus st ((s.on 0).saved 0 callTf)) hl hk hw (by rw [h0]; decide) rfl ?_
    (same_setEnv ..) ?_ ?_
  · exact run_envSetStatus (saved_curenv callTf hk) hst (by rw [saved_resolve]; exact hr true)
  · exact h0
  · exact hd

/-- The parent yields to its child. -/
theorem yield_step (hduo : s.Duo) (h : s.ParentRuns) (h1 : s.Runnable 1) (hd : (s.envs 1).envPgdir = some 127) :
    Step s (.trap 0 callTf 0#32 .yield) (((s.on 0).saved 0 callTf).popTf 1 127) := by
  obtain ⟨hl, hk, hw, h0, -, -⟩ := h
  let t : State := (s.on 0).saved 0 callTf
  have hst : ∀ e, (t.envs e).envStatus = (s.envs e).envStatus := fun e => saved_status ..
  have hduo : t.Duo := fun e h0 h1 => (hst e).trans (hduo e h0 h1)
  have hrun : t.Runnable 1 := (hst 1).trans h1
  have hdir : (t.envs 1).envPgdir = some 127 := by
    rw [saved_envs, if_neg (by decide)]
    exact hd
  refine step_leave (t := t) hl hk hw (by rw [h0]; decide) rfl (fun _ _ hy => run_bind_error hy) rfl hrun ?_ hdir
  refine hduo.only (fun h => ?_) fun _ => rfl
  cases (h0.symm.trans (hst 0).symm).trans h

theorem setStatus_duo {st : EnvStatus} (h : s.Duo) : (s.after 0 0 128 (setStatus st) 0).Duo := by
  refine State.Duo.popTf (fun e h0 h1 => ?_) (Or.inl rfl) _
  have hset : ∀ t : State, ((setStatus st t).setEnv 0 (setEax 0 ((setStatus st t).envs 0))).envs e = t.envs e := by
    intro t
    simp [setStatus, State.setEnv, h0, h1]
  rw [hset, saved_status]
  exact h e h0 h1

theorem childReady_step : Step childMade (.trap 0 callTf 0#32 (.envSetStatus 4097#32 2#32)) childReady :=
  setStatus_step rfl (by decide +kernel)

theorem childReady_duo : childReady.Duo := setStatus_duo childMade_duo

theorem duoRun_step : Step childReady (.start 1) duoRun :=
  step_start rfl rfl rfl (childReady_duo.only (fun h => by cases h) (fun _ => rfl)) rfl

theorem duoRun_duo : duoRun.Duo := (childReady_duo.locked 1).popTf (Or.inr rfl) _

theorem rewritten_step : Step duoRun (.trap 0 callTf 0#32 (.envSetStatus 4097#32 2#32)) rewritten :=
  setStatus_step rfl (by decide +kernel)

theorem rewritten_duo : rewritten.Duo := setStatus_duo duoRun_duo

/-- Any section may come next. -/
def Any (_ : State) (_ : Sect) : Prop := True

theorem duoRun_runs {P : State → Sect → Prop} (h0 : P firstEnv (.start 0)) (h1 : P soloRun (.trap 0 callTf 0#32 .exofork))
    (h2 : P childMade (.trap 0 callTf 0#32 (.envSetStatus 4097#32 2#32))) (h3 : P childReady (.start 1)) :
    Runs P firstEnv duoRun :=
  (((Runs.refl.step h0 soloRun_step).step h1 childMade_step).step h2 childReady_step).step h3 duoRun_step

/-- No CPU has run the child yet. -/
theorem childMade_elsewhere (k : Cpu) : ¬ childMade.Elsewhere k 1 := by
  have hstart : Orderly firstEnv (.start 0) := trivial
  have hfork : Orderly soloRun (.trap 0 callTf 0#32 .exofork) := fun _ _ _ => trivial
  have hmade : Runs Orderly firstEnv childMade := (Runs.refl.step hstart soloRun_step).step hfork childMade_step
  rintro ⟨k', -, hk⟩
  rcases (hmade.apart firstEnv_fresh.apart).unlocked rfl k' 1 hk with h | h <;> cases show EnvStatus.notRunnable = _ from h

theorem duoRun_orderly : Runs Orderly firstEnv duoRun := by
  have hstart : Orderly firstEnv (.start 0) := trivial
  have hfork : Orderly soloRun (.trap 0 callTf 0#32 .exofork) := fun _ _ _ => trivial
  refine duoRun_runs hstart hfork (fun _ cur hcur _ e he => ?_) trivial
  cases show some (0 : Slot) = some cur from hcur
  cases show some (1 : Slot) = some e from he
  exact childMade_elsewhere 0

/-! ## The CPUs apart -/

/-- In every state that orderly sections reach, no environment is the `cpu_env` of two CPUs, and one
that a CPU is running in user mode is marked as running or dying. -/
theorem no_env_on_two_cpus (h₀ : Fresh s₀) (h : Runs Orderly s₀ s) :
    (∀ k k' e, (s.cpus k).cpuEnv = some e → (s.cpus k').cpuEnv = some e → k = k') ∧
    ∀ k e, (s.cpus k).cpuEnv = some e → s.kernelLock ≠ some k →
      (s.envs e).envStatus = .running ∨ (s.envs e).envStatus = .dying :=
  let ha := h.apart h₀.apart
  ⟨ha.inj, ha.user⟩

theorem no_env_on_two_cpus_duoRun :
    (∀ k k' e, (duoRun.cpus k).cpuEnv = some e → (duoRun.cpus k').cpuEnv = some e → k = k') ∧
    ∀ k e, (duoRun.cpus k).cpuEnv = some e → duoRun.kernelLock ≠ some k →
      (duoRun.envs e).envStatus = .running ∨ (duoRun.envs e).envStatus = .dying :=
  no_env_on_two_cpus firstEnv_fresh duoRun_orderly

/-- When the parent yields, CPU 0 takes up the child that CPU 1 is running. -/
def onBoth : State := ((rewritten.on 0).saved 0 callTf).popTf 1 127

theorem onBoth_step : Step rewritten (.trap 0 callTf 0#32 .yield) onBoth :=
  yield_step rewritten_duo (by decide +kernel) (by decide +kernel) (by decide +kernel)

theorem env_on_two_cpus : Fresh firstEnv ∧
    (∃ s, Runs Any firstEnv s ∧ s.kernelLock ≠ some 1 ∧ (s.cpus 1).cpuEnv = some 1 ∧ (s.envs 1).envStatus = .runnable) ∧
    ∃ s, Runs Any firstEnv s ∧ (s.cpus 0).cpuEnv = some 1 ∧ (s.cpus 1).cpuEnv = some 1 := by
  have hduo : Runs Any firstEnv duoRun := duoRun_runs trivial trivial trivial trivial
  have hagain : Runs Any firstEnv rewritten := hduo.step trivial rewritten_step
  refine ⟨firstEnv_fresh, ⟨rewritten, hagain, ?_, by decide +kernel, by decide +kernel⟩, onBoth, hagain.step trivial onBoth_step,
    by decide +kernel, by decide +kernel⟩
  rw [show rewritten.kernelLock = none from rfl]
  simp

end Jos
