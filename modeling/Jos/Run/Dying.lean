/-
Destroyed environments. One that another CPU is running is marked as dying, and freed when that CPU
next enters the kernel; as long as the sections are orderly nothing else happens to it before its
slot is handed out again.
-/
import Jos.Run.Smp

namespace Jos

open Lib Kern

variable {s s' s₀ : State} {cur e x : Slot} {k : Cpu} {a : Sect}

/-! ## The dead stay dead -/

/-- The environment with id `id` in slot `x` is destroyed: freed, or dying on the CPU that runs it. -/
def State.Dead (s : State) (x : Slot) (id : Word) : Prop :=
  (s.envs x).envId = id ∧ ((s.envs x).envStatus = .free ∨ (s.envs x).envStatus = .dying)

/-- The section hands out the freed slot `x` to a new environment. -/
structure Renews (s : State) (a : Sect) (s' : State) (x : Slot) : Prop where
  free : (s.envs x).envStatus = .free
  first : s.envFreeList = some x
  exofork : ∃ k tf faultVa, a = .trap k tf faultVa .exofork
  id : (s'.envs x).envId = envGeneration (s.envs x).envId ||| BitVec.ofNat 32 x.val

/-- Leaving the kernel does nothing to an environment that is not runnable, unless it is the current one. -/
theorem Out.keeps (hx : Out s s') (hr : ¬ s.Runnable x) (hc : s.curenv ≠ some x) :
    (s'.envs x).envId = (s.envs x).envId ∧ (s'.envs x).envStatus = (s.envs x).envStatus := by
  cases hx with
  | monitor => exact ⟨rfl, rfl⟩
  | run e d he hd =>
    have hne : x ≠ e := by
      rintro rfl
      rcases he with he | ⟨he, -⟩
      · exact hr he
      · exact hc he
    obtain ⟨runs, cpu, henv⟩ := popTf_envs s e d x
    rw [henv]
    refine ⟨rfl, ?_⟩
    show s.statusAfter e x = _
    unfold State.statusAfter
    rw [if_neg hne, if_neg fun h => hc h.1]

theorem Out.id (hx : Out s s') (x : Slot) : (s'.envs x).envId = (s.envs x).envId := by
  cases hx with
  | monitor => rfl
  | run e d he hd =>
    obtain ⟨runs, cpu, henv⟩ := popTf_envs s e d x
    rw [henv]

theorem dead_not_runnable (h : (s.envs x).envStatus = .free ∨ (s.envs x).envStatus = .dying) : ¬ s.Runnable x := by
  intro hr
  rcases h with h | h <;> rw [show (s.envs x).envStatus = _ from hr] at h <;> cases h

/-- Leaving the kernel does nothing to a destroyed environment. -/
theorem Out.dead {id : Word} {s₁ : State} (hx : Out s₁ s') (hc : s₁.curenv ≠ some x) (hd : s₁.Dead x id)
    (hdy : (s₁.envs x).envStatus = .dying → (s.envs x).envStatus = .dying) :
    s'.Dead x id ∧ ((s'.envs x).envStatus = .dying → (s.envs x).envStatus = .dying) := by
  obtain ⟨hid, hst⟩ := hx.keeps (dead_not_runnable hd.2) hc
  refine ⟨⟨hid.trans hd.1, ?_⟩, ?_⟩
  · rw [hst]
    exact hd.2
  · rw [hst]
    exact hdy

variable {tf : Trapframe} {faultVa : Word} {c : Call} {s₁ : State}

/-- Handling a trap of another environment leaves a destroyed one alone, or hands out its slot. -/
theorem Handles.dead {id : Word} (h : Apart s) (hl : s.kernelLock = none) (ho : Orderly s (.trap k tf faultVa c))
    (hd : s.Dead x id)
    (he : (s.cpus k).cpuEnv = some cur) (hxc : x ≠ cur) (hh : Handles ((s.on k).saved cur tf) cur tf c s₁) :
    ((s₁.envs x).envId = (s.envs x).envId ∧ (s₁.envs x).envStatus = (s.envs x).envStatus) ∨
      ((s.envs x).envStatus = .free ∧ s.envFreeList = some x ∧ c = .exofork ∧
        (s₁.envs x).envId = envGeneration (s.envs x).envId ||| BitVec.ofNat 32 x.val) := by
  have hsave : ((s.on k).saved cur tf).envs x = s.envs x := by rw [saved_envs, if_neg hxc]
  -- it is dying on another CPU, where orderly calls do not reach it
  have hdying : (s.envs x).envStatus = .dying → s.Elsewhere k x := by
    intro hdx
    obtain ⟨k', hk'⟩ := h.marked x (Or.inr hdx)
    refine ⟨k', ?_, hk'⟩
    rintro rfl
    exact hxc (Option.some.inj (hk'.symm.trans he))
  have hlive : ∀ {envid b}, s.resolve cur envid b = some x → (s.envs x).envStatus = .dying := fun hr =>
    hd.2.resolve_left (resolve_live hr (h.live hl he))
  have ht := hh.touched x
  generalize s₁.envs x = v at ht ⊢
  cases ht with
  | keep => exact Or.inl (by rw [hsave]; exact ⟨rfl, rfl⟩)
  | moved htf hm =>
    have hsp := ho htf cur he
    cases hm with
    | keep => exact Or.inl (by rw [hsave]; exact ⟨rfl, rfl⟩)
    | status hcall hst hr =>
      rw [hcall] at hsp
      rw [saved_resolve] at hr
      exact absurd (hdying (hlive hr)) (hsp (by rw [hst]; simp) x hr)
    | setUpcall func => exact Or.inl (by rw [hsave]; exact ⟨rfl, rfl⟩)
    | dying hcall hr hrun =>
      rw [hsave] at hrun
      rcases hd.2 with h' | h' <;> rw [hrun] at h' <;> cases h'
    | freed link hcall hr hrun =>
      rw [hcall] at hsp
      rw [saved_resolve] at hr
      exact absurd (hdying (hlive hr)) (hsp x hr (hlive hr))
    | spawned hcall hfl => exact Or.inr ⟨h.freeEnvs.head hfl, hfl, hcall, by rw [hsave]; rfl⟩
    | received hcall hr hrecv =>
      rw [hcall] at hsp
      rw [saved_resolve] at hr
      rw [saved_recving] at hrecv
      exact absurd (hdying (hlive hr)) (hsp x hr hrecv)
  | returns _ _ h' => exact absurd h' hxc
  | upcall _ h' => exact absurd h' hxc
  | gone _ h' => exact absurd h' hxc
  | waiting _ _ h' => exact absurd h' hxc

/-- What a step does to a destroyed environment: from dying it may become free, and a free slot may
be handed out anew. -/
theorem Step.dead {id : Word} (h : Apart s) (ho : Orderly s a) (hs : Step s a s') (hd : s.Dead x id) :
    (s'.Dead x id ∧ ((s'.envs x).envStatus = .dying → (s.envs x).envStatus = .dying)) ∨ Renews s a s' x := by
  have hl := hs.unlocked
  have huser := h.unlocked hl
  cases hs.parts h.awake huser with
  | @start k s' he hx =>
    refine Or.inl (hx.dead ?_ hd fun hdy => hdy)
    rw [show (s.locked k).curenv = none from he]
    simp
  | @zombie k cur tf faultVa c s₁ s' he hdy hst hnone henvs hfree hx =>
    have hrec : s₁.Dead x id ∧ ((s₁.envs x).envStatus = .dying → (s.envs x).envStatus = .dying) := by
      unfold State.Dead
      rw [henvs]
      by_cases hxc : x = cur
      · rw [hxc, Function.update_self]
        exact ⟨⟨hxc ▸ hd.1, Or.inl rfl⟩, fun hdx => by cases hdx⟩
      · rw [Function.update_of_ne hxc]
        exact ⟨hd, fun hdx => hdx⟩
    exact Or.inl (hx.dead (by rw [hnone]; simp) hrec.1 hrec.2)
  | @handled k cur tf faultVa c s₁ s' he hdy hh hx =>
    have hxc : x ≠ cur := by
      rintro rfl
      rcases huser k x he with h' | h'
      · rcases hd.2 with h'' | h'' <;> rw [h'] at h'' <;> cases h''
      · exact hdy h'
    rcases hh.dead h hl ho hd he hxc with ⟨hid, hst⟩ | ⟨hfree, hfl, hcall, hid⟩
    · refine Or.inl (hx.dead (hh.stays.curenv_ne (saved_curenv tf he) hxc) ⟨hid.trans hd.1, ?_⟩ ?_)
      · rw [hst]
        exact hd.2
      · rw [hst]
        exact fun hdx => hdx
    · exact Or.inr ⟨hfree, hfl, ⟨k, tf, faultVa, by rw [hcall]⟩, (hx.id x).trans hid⟩

/-- In the section a call of `sys_env_destroy` by another environment returns 0 for slot `x`. -/
inductive Destroys (s : State) (x : Slot) : Sect → Prop where
  | call {k : Cpu} {cur : Slot} {tf : Trapframe} {faultVa envid : Word} (hk : (s.cpus k).cpuEnv = some cur)
      (htf : tf.tfTrapno = tSyscall) (hdy : (s.envs cur).envStatus ≠ .dying) (hr : s.resolve cur envid true = some x)
      (hne : x ≠ cur) : Destroys s x (.trap k tf faultVa (.envDestroy envid))

theorem Destroys.dead (h : Apart s) (hs : Step s a s') (hd : Destroys s x a) : s'.Dead x (s.envs x).envId := by
  cases hd with
  | @call k cur tf faultVa envid hk htf hdy hr hne =>
    cases hs.parts h.awake (h.unlocked hs.unlocked) with
    | zombie he hdy' =>
      cases hk.symm.trans he
      exact absurd hdy' hdy
    | @handled _ _ _ _ _ s₁ _ he _ hh hx =>
      cases hk.symm.trans he
      have hsave : ((s.on k).saved cur tf).envs x = s.envs x := by rw [saved_envs, if_neg hne]
      have hcur := saved_curenv tf hk
      have hres := saved_resolve s k cur tf envid true
      rw [hr] at hres
      -- the record of `x` when the kernel is left
      suffices hrec : s₁.curenv = some cur ∧ (s₁.envs x).envId = (s.envs x).envId ∧
          ((s₁.envs x).envStatus = .free ∨ (s₁.envs x).envStatus = .dying) by
        obtain ⟨hc, hid, hst⟩ := hrec
        obtain ⟨h1, h2⟩ := hx.keeps (dead_not_runnable hst) (by rw [hc]; exact fun h => hne (Option.some.inj h).symm)
        exact ⟨h1.trans hid, by rw [h2]; exact hst⟩
      cases hh with
      | nothing h' => exact absurd htf h'
      | destroyed h' => exact absurd htf h'
      | upcall h' => exact absurd htf h'
      | left _ hl =>
        cases hl with
        | destroyed hself =>
          rcases hself with ⟨_, hc, hself⟩ | ⟨_, _, hc⟩
          · cases hc
            rw [hself] at hres
            exact absurd (Option.some.inj hres).symm hne
          · cases hc
      | @returned r s₂ _ _ hch heax =>
        have hsame := hch.same
        have hrec : ∀ v, s₂.envs = Function.update ((s.on k).saved cur tf).envs x v → s₁.envs x = v := by
          intro v hv
          rw [heax]
          show Function.update s₂.envs cur _ x = v
          rw [Function.update_of_ne hne, hv, Function.update_self]
        refine ⟨by rw [heax]; exact hsame.curenv.trans hcur, ?_⟩
        cases hch with
        | rest _ hrefused => rw [hrefused.2] at hres; cases hres
        | dying he' _ _ hu =>
          cases he'.symm.trans hres
          rw [hrec _ hu.envs, hsave]
          exact ⟨rfl, Or.inr rfl⟩
        | freed he' _ _ _ henvs =>
          cases he'.symm.trans hres
          rw [hrec _ henvs, hsave]
          exact ⟨rfl, Or.inl rfl⟩

/-- An environment that takes over a slot has another id than the one before it. -/
theorem next_id_ne (id : Word) (x : Slot) : envGeneration id ||| BitVec.ofNat 32 x.val ≠ id := by
  intro h
  have hx : x.val < 2 ^ 10 := x.isLt
  have hsum : ((id + (1#32 <<< 12)) &&& ~~~1023#32).toNat = (id.toNat + 4096) % 2 ^ 32 / 1024 * 1024 := by
    rw [and_not_toNat, BitVec.toNat_add]; rfl
  have hor : ∀ g : Word, g.toNat % 1024 = 0 → (g ||| BitVec.ofNat 32 x.val).toNat = g.toNat + x.val := by
    intro g hg
    have hmul : g.toNat = (g.toNat / 1024) <<< 10 := by rw [Nat.shiftLeft_eq]; omega
    rw [BitVec.toNat_or, BitVec.toNat_ofNat, Nat.mod_eq_of_lt (by omega), hmul, ← Nat.shiftLeft_add_eq_or_of_lt hx]
  have hid := id.isLt
  unfold envGeneration at h
  dsimp only at h
  split at h
  · rename_i hle
    have heq := congrArg BitVec.toNat h
    rw [hor _ (by decide), show (1#32 <<< 12).toNat = 4096 from rfl] at heq
    rw [BitVec.toInt_eq_toNat_of_lt (by rw [hsum]; omega), hsum] at hle
    omega
  · have heq := congrArg BitVec.toNat h
    rw [hor _ (by rw [hsum]; omega), hsum] at heq
    omega

/-- A destroyed environment stays destroyed: in every state that orderly sections reach after a call of
`sys_env_destroy` returned 0 for it, it is dying or free, until its freed slot is handed out to an
environment with another id. -/
theorem destroyed_stays_destroyed {t : State} (h₀ : Fresh s₀) (h : Runs Orderly s₀ s) (ho : Orderly s a) (hs : Step s a s')
    (hd : Destroys s x a) (ht : Runs Orderly s' t) :
    t.Dead x (s.envs x).envId ∨
    ∃ u b u', Runs Orderly s' u ∧ u.Dead x (s.envs x).envId ∧ (u.envs x).envStatus = .free ∧ Orderly u b ∧ Step u b u' ∧
      Renews u b u' x ∧ (u'.envs x).envId ≠ (s.envs x).envId ∧ Runs Orderly u' t := by
  have ha := h.apart h₀.apart
  have ha' := ha.step ho hs
  induction ht with
  | refl => exact Or.inl (hd.dead ha hs)
  | @step u t b hu hb hstep ih =>
    rcases ih with hdead | ⟨v, b', v', hv, hvd, hvf, hvo, hvs, hvr, hid, hvt⟩
    · rcases hstep.dead (hu.apart ha') hb hdead with h' | h'
      · exact Or.inl h'.1
      · refine Or.inr ⟨u, b, t, hu, hdead, h'.free, hb, hstep, h', ?_, .refl⟩
        rw [h'.id, hdead.1]
        exact next_id_ne _ x
    · exact Or.inr ⟨v, b', v', hv, hvd, hvf, hvo, hvs, hvr, hid, hvt.step hb hstep⟩

/-- The parent has destroyed the child that runs on CPU 1. -/
def childDying : State := duoRun.after 0 0 128 (setStatus .dying) 0

theorem destroy_step (h : s.ParentRuns) (h1 : (s.envs 1).envStatus = .running) :
    Step s (.trap 0 callTf 0#32 (.envDestroy 4097#32)) (s.after 0 0 128 (setStatus .dying) 0) := by
  obtain ⟨hl, hk, hw, h0, hd, hr⟩ := h
  have hcur := saved_curenv callTf hk
  refine step_call (t := setStatus .dying ((s.on 0).saved 0 callTf)) hl hk hw (by rw [h0]; decide) rfl ?_ (same_setEnv ..) h0 hd
  show (sysEnvDestroy 4097#32).run ((s.on 0).saved 0 callTf) = _
  unfold sysEnvDestroy
  rw [run_bind_ok (run_envid2env hcur true), saved_resolve, hr true]
  dsimp only
  rw [if_neg (by decide), run_bind_ok (run_deref_some 1)]
  rw [run_bind_ok (envDestroy_running (e := 1) (by rw [saved_status]; exact h1) (by rw [hcur]; decide))]
  rfl

theorem childDying_step : Step duoRun (.trap 0 callTf 0#32 (.envDestroy 4097#32)) childDying :=
  destroy_step (by decide +kernel) (by decide +kernel)

/-- It has set its status again. -/
def risen : State := childDying.after 0 0 128 (setStatus .runnable) 0

theorem risen_step : Step childDying (.trap 0 callTf 0#32 (.envSetStatus 4097#32 2#32)) risen :=
  setStatus_step rfl (by decide +kernel)

theorem childDying_destroys : Destroys duoRun 1 (.trap 0 callTf 0#32 (.envDestroy 4097#32)) := by
  have hk : (duoRun.cpus 0).cpuEnv = some 0 := by decide +kernel
  have hr : duoRun.resolve 0 4097#32 true = some 1 := by decide +kernel
  exact .call hk rfl (by decide +kernel) hr (by decide)

theorem destroyed_stays_destroyed_childDying :
    childDying.Dead 1 (duoRun.envs 1).envId ∨
    ∃ u b u', Runs Orderly childDying u ∧ u.Dead 1 (duoRun.envs 1).envId ∧ (u.envs 1).envStatus = .free ∧ Orderly u b ∧
      Step u b u' ∧ Renews u b u' 1 ∧ (u'.envs 1).envId ≠ (duoRun.envs 1).envId ∧ Runs Orderly u' childDying := by
  have ho : Orderly duoRun (.trap 0 callTf 0#32 (.envDestroy 4097#32)) := by
    intro _ cur hcur e he hdy
    have hk : (duoRun.cpus 0).cpuEnv = some 0 := by decide +kernel
    have hr : duoRun.resolve 0 4097#32 true = some 1 := by decide +kernel
    cases hk.symm.trans hcur
    cases hr.symm.trans he
    exact absurd hdy (by decide +kernel)
  exact destroyed_stays_destroyed firstEnv_fresh duoRun_orderly ho childDying_step childDying_destroys .refl

theorem destroyed_rises : Fresh firstEnv ∧ ∃ s a s' t, Runs Any firstEnv s ∧ Step s a s' ∧ Destroys s 1 a ∧ Runs Any s' t ∧
    (t.envs 1).envId = (s.envs 1).envId ∧ (t.envs 1).envStatus = .runnable := by
  have hduo : Runs Any firstEnv duoRun := duoRun_runs trivial trivial trivial trivial
  have hrise : Runs Any childDying risen := Runs.refl.step trivial risen_step
  have hid : (duoRun.envs 1).envId = 4097#32 := by decide +kernel
  have hid' : (risen.envs 1).envId = 4097#32 := by decide +kernel
  have hst : (risen.envs 1).envStatus = .runnable := by decide +kernel
  exact ⟨firstEnv_fresh, duoRun, .trap 0 callTf 0#32 (.envDestroy 4097#32), childDying, risen, hduo, childDying_step,
    childDying_destroys, hrise,
    hid'.trans hid.symm, hst⟩

end Jos
