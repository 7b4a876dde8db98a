/-
The address spaces over whole traps: a trap that does not end in a panic keeps the invariant of the
page tables and the free pages, whatever the user frame it stores overwrites.
-/
import Jos.Run.Share
import Jos.Run.Machine

namespace Jos

open Lib Kern

variable {b s s' : State} {M : List Nat} {cur e : Slot} {d : Nat} {α β : Type} {tf : Trapframe}

/-! ## Sane states -/

/-- The invariant of the address spaces, with exact reference counts. -/
def Sane (b : State) (M : List Nat) (s : State) : Prop := (∃ l le, Inv (· = ·) b M s l le) ∧ Genuine s

theorem sane_of {l : List Nat} {le : List Slot} (hv : Vm b M s l) (ht : EnvTable s le) (hc : Counts (· = ·) M l none s)
    (hg : Genuine s) : Sane b M s :=
  ⟨⟨l, le, { toVm := hv, toEnvTable := ht, counts := hc }⟩, hg⟩

/-- A result that is a panic, or a sane state. -/
def SaneRes (b : State) (M : List Nat) (r : EStateM.Result Stop State α) : Prop :=
  (∃ s', r = .error .panic s') ∨ Sane b M (finalState r)

theorem saneRes_panic (s : State) : SaneRes b M (.error .panic s : EStateM.Result Stop State α) := Or.inl ⟨s, rfl⟩

theorem Sane.ok (h : Sane b M s) (a : α) : SaneRes b M (.ok a s : EStateM.Result Stop State α) := Or.inr h

theorem Sane.error (h : Sane b M s) (x : Stop) : SaneRes b M (.error x s : EStateM.Result Stop State α) := Or.inr h

theorem SaneRes.bind {x : Kern α} {f : α → Kern β} (hx : SaneRes b M (x.run s))
    (hf : ∀ a s', x.run s = .ok a s' → Sane b M s' → SaneRes b M ((f a).run s')) : SaneRes b M ((x >>= f).run s) := by
  cases hr : x.run s with
  | ok a s' =>
    rw [hr] at hx
    rw [run_bind_ok hr]
    rcases hx with ⟨_, hx⟩ | hx
    · cases hx
    · exact hf a s' hr hx
  | error y s' =>
    rw [hr] at hx
    rw [run_bind_error hr]
    rcases hx with ⟨t, hx⟩ | hx
    · cases hx; exact saneRes_panic _
    · exact Or.inr hx

theorem Sane.of_pte (h : Genuine s) (hp : s'.pte = s.pte) (hn : s'.npages = s.npages) : Genuine s' := by
  rintro e ⟨i, j, w, hw, hge⟩
  rw [hp] at hw
  rw [hn] at hge
  exact h e ⟨i, j, w, hw, hge⟩

/-- A state with the same pages, memory and records, on other CPUs. -/
theorem Sane.congr (h : Sane b M s) (hp : s'.pages = s.pages) (hl : s'.pageFreeList = s.pageFreeList) (hm : s'.mem = s.mem)
    (he : s'.envs = s.envs) (hf : s'.envFreeList = s.envFreeList) (hk : s'.kernPgdir = s.kernPgdir)
    (hn : s'.npages = s.npages) : Sane b M s' := by
  obtain ⟨⟨l, le, hi⟩, hg⟩ := h
  have hd : s'.dir = s.dir := by funext e; unfold State.dir; rw [he]
  exact ⟨⟨l, le, hi.congr hp hl hm he hf hk hn⟩, Sane.of_pte hg (pte_congr hm hd) hn⟩

theorem Sane.switch (h : Sane b M s) (hs : Switched s s') : Sane b M s' := by
  obtain ⟨⟨l, le, hi⟩, hg⟩ := h
  exact sane_of (hs.vm hi.toVm) (hs.envTable hi.toEnvTable) (hs.counts hi.counts)
    (Sane.of_pte hg (pte_congr hs.mem hs.dir) hs.npages)

/-- A record that stays in use with its directory and link. -/
theorem Sane.setEnv {v : Env} (h : Sane b M s) (hlive : (s.envs e).envStatus ≠ .free) (hv : v.envStatus ≠ .free)
    (hd : v.envPgdir = (s.envs e).envPgdir) (hl : v.envLink = (s.envs e).envLink) : Sane b M (s.setEnv e v) := by
  obtain ⟨⟨l, le, hi⟩, hg⟩ := h
  have hdir := dir_setEnv hlive hv hd
  exact sane_of (hi.toVm.congr rfl rfl rfl hdir rfl rfl) (hi.toEnvTable.setEnv hlive hv hd hl)
    (hi.counts.congr rfl (cell_congr rfl hdir)) (Sane.of_pte hg (pte_congr rfl hdir) rfl)

/-- A write to a page that a user mapping targets. -/
theorem Sane.setWord (h : Sane b M s) {i j : Idx} {w : Word} (hw : s.pte e i j = some w) (x : Idx) (v : Word) :
    Sane b M (s.setWord (pgnum w) x v) ∧ (s.setWord (pgnum w) x v).dir = s.dir ∧ (s.setWord (pgnum w) x v).pte = s.pte := by
  obtain ⟨⟨l, le, hi⟩, hg⟩ := h
  have hleaf := (hi.leafM e i j w hw).resolve_right fun hge => hg e ⟨i, j, w, hw, hge⟩
  obtain ⟨hM, hns⟩ := hleaf
  have hpte := pte_setMem_other hns (Function.update (s.mem (pgnum w)) x v)
  exact ⟨sane_of (hi.toVm.setMem_other hM hns _) (hi.toEnvTable.rest (rest_setWord ..))
    (hi.counts.congr rfl (cell_setMem_other hns _)) (Sane.of_pte hg hpte rfl), rfl, hpte⟩

/-! ## Leaving the kernel -/

theorem popTf_like (s : State) (d : Nat) (he : (s.envs e).envStatus ≠ .free) (e' : Slot) :
    ((s.popTf e d).envs e').envLink = (s.envs e').envLink ∧ ((s.popTf e d).envs e').envPgdir = (s.envs e').envPgdir ∧
    (((s.popTf e d).envs e').envStatus = .free ↔ (s.envs e').envStatus = .free) := by
  obtain ⟨runs, cpu, h⟩ := popTf_envs s e d e'
  rw [h]
  refine ⟨rfl, rfl, ?_⟩
  show s.statusAfter e e' = .free ↔ _
  unfold State.statusAfter
  by_cases h1 : e' = e
  · rw [if_pos h1, h1]
    exact iff_of_false (by simp) he
  rw [if_neg h1]
  split
  · rename_i h2
    exact iff_of_false (by simp) (by rw [h2.2]; simp)
  · rfl

theorem popTf_dir (he : (s.envs e).envStatus ≠ .free) (d : Nat) : (s.popTf e d).dir = s.dir := by
  funext e'
  obtain ⟨-, hd, hst⟩ := popTf_like s d he e'
  unfold State.dir
  rw [hd]
  by_cases hf : (s.envs e').envStatus = .free
  · rw [if_pos hf, if_pos (hst.2 hf)]
  · rw [if_neg hf, if_neg fun hc => hf (hst.1 hc)]

theorem EnvTable.popTf {le : List Slot} (h : EnvTable s le) (he : (s.envs e).envStatus ≠ .free) (d : Nat) :
    EnvTable (s.popTf e d) le := by
  have hlike := popTf_like s d he
  refine ⟨?_, h.envNodup, fun e' => ?_, fun e' hl => ?_⟩
  · rw [popTf_envFreeList]
    exact Chain.congr (fun e' _ => (hlike e').1) h.envChain
  · rw [h.mem_iff, (hlike e').2.2]
  · rw [(hlike e').2.1]
    exact h.pgdir e' fun hf => hl ((hlike e').2.2.2 hf)

theorem Sane.popTf (h : Sane b M s) (he : (s.envs e).envStatus ≠ .free) (d : Nat) : Sane b M (s.popTf e d) := by
  obtain ⟨⟨l, le, hi⟩, hg⟩ := h
  have hm := popTf_mem s e d
  have hdir := popTf_dir he d
  have hv := hi.toVm.congr (popTf_pages s e d) (popTf_pageFreeList s e d) hm hdir (popTf_kernPgdir s e d) (popTf_npages s e d)
  exact sane_of hv (hi.toEnvTable.popTf he d) (hi.counts.congr (popTf_pages s e d) (cell_congr hm hdir))
    (Sane.of_pte hg (pte_congr hm hdir) (popTf_npages s e d))

theorem saneRes_envRun (h : Sane b M s) (he : (s.envs e).envStatus ≠ .free) : SaneRes b M ((envRun e).run s) := by
  have hr := envRun_resumed s e
  generalize (envRun e).run s = r at hr
  cases hr with
  | popTf d hd hl => exact (h.popTf he d).error _
  | noLock d => exact saneRes_panic _
  | noDir => exact saneRes_panic _

theorem saneRes_schedYield (h : Sane b M s) : SaneRes b M (schedYield.run s) := by
  obtain ⟨x, s', hy, hsw⟩ := schedYield_switched s
  rw [hy]
  exact (h.switch hsw).error x

theorem saneRes_trapReturn (h : Sane b M s) : SaneRes b M (trapReturn.run s) := by
  unfold trapReturn
  rw [run_bind_ok (EStateM.run_get s)]
  cases hc : s.curenv with
  | none => exact saneRes_schedYield h
  | some c =>
    dsimp only
    rw [run_bind_ok (run_env c)]
    split
    · rename_i hrun
      exact saneRes_envRun h (by rw [hrun]; simp)
    · exact saneRes_schedYield h

/-! ## The user trap frame -/

/-- A sane state in which the CPU has the address space of `cur` loaded. -/
def Loaded (b : State) (M : List Nat) (cur : Slot) (d : Nat) (s : State) : Prop :=
  Sane b M s ∧ s.dir cur = some d ∧ (s.cpus s.cpunum).cr3 = page2pa d

theorem pgnum_page2pa_dir (h : Loaded b M cur d s) : pgnum (s.cpus s.cpunum).cr3 = d := by
  obtain ⟨⟨⟨l, le, hi⟩, -⟩, hd, hcr3⟩ := h
  have hlt := hi.managed d (hi.structM d (Or.inl ⟨cur, hd⟩))
  have hn := s.npages_le
  rw [hcr3]
  exact pgnum_page2pa (by omega)

theorem loaded_translate_iff (h : Loaded b M cur d s) {va : Word} (hva : va < utop) {p : Nat × Idx} :
    s.translate va = some p ↔ ∃ w, s.pte cur (pdx va) (ptx va) = some w ∧ w &&& pteW ≠ 0#32 ∧
      p = (pgnum w, Fin.ofNat 1024 (va.toNat / 4 % 1024)) := by
  unfold State.translate
  rw [pgnum_page2pa_dir h]
  dsimp only
  constructor
  · intro hp
    split at hp
    · rename_i hpres
      cases hp
      have htab : s.tab cur (pdx va) = some (pgnum (s.mem d (pdx va))) := by
        rw [tab_of_dir h.2.1 hva, dec_eq_some]
        exact ⟨hpres.1, rfl⟩
      exact ⟨_, pte_eq_some.2 ⟨_, htab, rfl, hpres.2.1⟩, hpres.2.2, rfl⟩
    · cases hp
  · rintro ⟨w, hw, hW, rfl⟩
    obtain ⟨n, hn, rfl, hpres⟩ := pte_eq_some.1 hw
    rw [tab_of_dir h.2.1 hva, dec_eq_some] at hn
    obtain ⟨hpde, rfl⟩ := hn
    rw [if_pos ⟨hpde, hpres, hW⟩]

/-- A store to a user address goes to a page that the current environment maps. -/
theorem loaded_storeByte {va : Word} (hva : va < utop) (x : BitVec 8) :
    Keeps (fun s s' => Loaded b M cur d s → Loaded b M cur d s') (· = Stop.panic) (storeByte va x) := by
  refine .get fun s => ?_
  cases ht : s.translate va with
  | none => exact .of_error (e := Stop.panic) rfl (fun h => h) rfl
  | some p =>
    refine .of_ok (a := ()) rfl fun h => ?_
    obtain ⟨w, hw, -, hp⟩ := (loaded_translate_iff h hva).1 ht
    have hset := h.1.setWord hw p.2 (setByte (s.mem p.1 p.2) (va.toNat % 4) x)
    rw [show pgnum w = p.1 from (congrArg Prod.fst hp).symm] at hset
    exact ⟨hset.1, by rw [← h.2.1, ← hset.2.1], h.2.2⟩

/-- The bytes of a store that lies below `UTOP`. -/
theorem loaded_storeWord {va : Word} (hva : va.toNat + 4 ≤ utop.toNat) (w : Word) :
    Keeps (fun s s' => Loaded b M cur d s → Loaded b M cur d s') (· = Stop.panic) (storeWord va w) := by
  refine .forM_mem (fun _ h => h) (fun _ _ _ h h' hs => h' (h hs)) _ fun k hk => loaded_storeByte ?_ _
  have hlt : k < 4 := by
    simp only [List.mem_cons, List.not_mem_nil, or_false] at hk
    omega
  have hu : utop.toNat = 0xeec00000 := utop_toNat
  rw [BitVec.lt_def, BitVec.toNat_add, BitVec.toNat_ofNat]
  omega

theorem loaded_storeUtf {utf : Word} (hutf : utf.toNat + 52 ≤ utop.toNat) (u : UTrapframe) :
    Keeps (fun s s' => Loaded b M cur d s → Loaded b M cur d s') (· = Stop.panic) (storeUtf utf u) := by
  refine .forM_mem (fun _ h => h) (fun _ _ _ h h' hs => h' (h hs)) _ fun wi hwi => loaded_storeWord ?_ _
  have hlt : wi.2 < 13 := List.snd_lt_of_mem_zipIdx hwi
  have hu : utop.toNat = 0xeec00000 := utop_toNat
  rw [BitVec.toNat_add, BitVec.toNat_ofNat]
  omega

theorem utfAddr_le (esp : Word) : (utfAddr esp).toNat + 52 ≤ utop.toNat := by
  have hu : utop.toNat = 0xeec00000 := utop_toNat
  unfold utfAddr
  split
  · rename_i h
    have hlo : (uxstacktop - pgsize).toNat = 0xeebff000 := by decide
    have hhi : uxstacktop.toNat = 0xeec00000 := by decide
    rw [BitVec.le_def, hlo] at h
    rw [BitVec.lt_def, hhi] at h
    rw [BitVec.toNat_sub, BitVec.toNat_sub, show utfSize.toNat = 52 from rfl, show (4#32).toNat = 4 from rfl]
    omega
  · rw [show (uxstacktop - utfSize).toNat = 0xeebfffcc from by decide]
    omega

/-! ## Traps -/

theorem Outcome.sane {l : List Nat} {le : List Slot} {c : Call} {r : EStateM.Result Stop State α}
    (h : Outcome b M (· = ·) s l cur c r) (hi : Inv (· = ·) b M s l le) (hg : Genuine s)
    (hno : ∀ dst pp va perm, ¬ c.Maps s cur dst pp va perm) (hna : ∀ envid va perm, c ≠ .pageAlloc envid va perm) :
    SaneRes b M r := by
  cases h with
  | panic s' h => exact saneRes_panic s'
  | done _ ev h =>
    obtain ⟨l', le', hv, ht, hc⟩ := h.inv
    refine Or.inr (sane_of hv ht (hc fun dst pp va perm hm => absurd hm (hno dst pp va perm)) ?_)
    refine h.genuine hg hi.managed fun e pp va perm hev => ?_
    rcases (h.new e pp va perm hev).2.2 with ⟨-, envid, hc⟩ | hm
    · exact absurd hc (hna envid va perm)
    · exact absurd hm (hno e pp va perm)

theorem Sane.inCall (h : Sane b M s) (hcur : s.curenv = some cur) (hlive : (s.envs cur).envStatus ≠ .free) :
    (∃ l le, InCall (· = ·) b M s l le cur) ∧ Genuine s := by
  obtain ⟨⟨l, le, hi⟩, hg⟩ := h
  exact ⟨⟨l, le, hi, hcur, hlive⟩, hg⟩

theorem saneRes_envDestroy (h : Sane b M s) (hcur : s.curenv = some cur) (hlive : (s.envs cur).envStatus ≠ .free) :
    SaneRes b M ((envDestroy cur).run s) := by
  obtain ⟨⟨l, le, hi⟩, hg⟩ := h.inCall hcur hlive
  have ho : Outcome b M (· = ·) s l cur .yield ((envDestroy cur).run s) :=
    outcome_envDestroy countRel_eq hi hlive (Or.inl rfl)
  exact ho.sane hi.toInv hg (fun _ _ _ _ hm => by cases hm) fun _ _ _ => by simp

theorem saneRes_pageFault (h : Loaded b M cur d s) (hcur : s.curenv = some cur) (hlive : (s.envs cur).envStatus ≠ .free)
    (tf : Trapframe) (faultVa : Word) : SaneRes b M ((pageFaultHandler tf faultVa).run s) := by
  unfold pageFaultHandler
  by_cases hcs : tf.tfCs &&& 3#16 = 0#16
  · rw [if_pos hcs]
    exact saneRes_panic s
  rw [if_neg hcs, run_bind_ok (EStateM.run_get s), hcur, run_bind_ok (run_deref_some cur), run_bind_ok (run_env cur)]
  dsimp only
  split
  · unfold userMemAssert
    rcases userMemCheck_reads (s := s) cur (utfAddr tf.tfEsp) utfSize (pteU ||| pteW ||| pteU) with ⟨r, a, hrun⟩ | hrun
    · let s₁ : State := { s with userMemCheckAddr := a }
      have h₁ : Loaded b M cur d s₁ := ⟨h.1.congr rfl rfl rfl rfl rfl rfl rfl, h.2⟩
      rw [bind_assoc, run_bind_ok hrun]
      split
      · -- the assertion fails and the environment is destroyed
        refine (saneRes_envDestroy h₁.1 hcur hlive).bind fun _ s' hok _ => ?_
        exact absurd hok (envDestroy_cur_not_ok (s := s₁) hcur s')
      · rw [run_bind_ok (EStateM.run_pure _ _)]
        have hkeep : KeepsAt (fun s s' => Loaded b M cur d s → Loaded b M cur d s') (· = Stop.panic)
            (storeUtf (utfAddr tf.tfEsp) (faultFrame tf faultVa)) s₁ := loaded_storeUtf (utfAddr_le tf.tfEsp) _ s₁
        cases hu : (storeUtf (utfAddr tf.tfEsp) (faultFrame tf faultVa)).run s₁ with
        | error y s₂ =>
          cases hkeep.stop y s₂ hu
          rw [run_bind_error hu]
          exact saneRes_panic s₂
        | ok _ s₂ =>
          have h₂ := hkeep.state h₁
          rw [hu] at h₂
          have hq := quiet_ok (quiet_storeUtf _ _) hu
          have hlive₂ : (s₂.envs cur).envStatus ≠ .free := by rw [hq.envs]; exact hlive
          rw [run_bind_ok hu, run_bind_ok (run_modifyEnv ..)]
          let v : Env := { s₂.envs cur with
            envTf := { (s₂.envs cur).envTf with tfEip := (s.envs cur).envPgfaultUpcall, tfEsp := utfAddr tf.tfEsp } }
          have hv : Sane b M (s₂.setEnv cur v) := Sane.setEnv (v := v) h₂.1 hlive₂ hlive₂ rfl rfl
          have hlive₃ : ((s₂.setEnv cur v).envs cur).envStatus ≠ .free := by
            rw [envs_setEnv, if_pos rfl]
            exact hlive₂
          refine SaneRes.bind (s := s₂.setEnv cur v) (saneRes_envRun hv hlive₃) fun _ s₃ hok _ => ?_
          exact absurd hok (envRun_not_ok _ s₃ _)
    · rw [bind_assoc, run_bind_error hrun]
      exact saneRes_panic s
  · exact saneRes_envDestroy h.1 hcur hlive

/-- The call that `syscall` makes for the registers: one of the four it knows, or none. -/
def syscallCall (cons : Int) (regs : PushRegs) : Call :=
  if regs.regEax = 0#32 then .cputs regs.regEdx regs.regEcx
  else if regs.regEax = 1#32 then .cgetc cons
  else if regs.regEax = 2#32 then .getenvid
  else if regs.regEax = 3#32 then .envDestroy regs.regEdx
  else .cgetc (-eInval)

theorem syscall_exec (cons : Int) (regs : PushRegs) : syscall cons regs = (syscallCall cons regs).exec := by
  unfold syscall syscallCall
  by_cases h0 : regs.regEax = 0#32
  · rw [if_pos h0, if_pos h0]; rfl
  rw [if_neg h0, if_neg h0]
  by_cases h1 : regs.regEax = 1#32
  · rw [if_pos h1, if_pos h1]; rfl
  rw [if_neg h1, if_neg h1]
  by_cases h2 : regs.regEax = 2#32
  · rw [if_pos h2, if_pos h2]; rfl
  rw [if_neg h2, if_neg h2]
  by_cases h3 : regs.regEax = 3#32
  · rw [if_pos h3, if_pos h3]; rfl
  · rw [if_neg h3, if_neg h3]; rfl

theorem saneRes_syscall (h : Sane b M s) (hcur : s.curenv = some cur) (hlive : (s.envs cur).envStatus ≠ .free)
    (cons : Int) (regs : PushRegs) : SaneRes b M ((syscallCall cons regs).exec.run s) := by
  obtain ⟨⟨l, le, hi⟩, hg⟩ := h.inCall hcur hlive
  unfold syscallCall
  split
  · exact (outcome_cputs countRel_eq hi _ _).sane hi.toInv hg (fun _ _ _ _ hm => by cases hm) fun _ _ _ => by simp
  · split
    · exact h.ok cons
    · split
      · show SaneRes b M ((do return (← sysGetenvid).toInt : Kern Int).run s)
        rw [run_bind_ok (run_getenvid hcur)]
        exact h.ok _
      · split
        · exact (outcome_sysEnvDestroy countRel_eq hi _).sane hi.toInv hg (fun _ _ _ _ hm => by cases hm) fun _ _ _ => by simp
        · exact h.ok _

/-- A call that returns leaves its environment in use. -/
theorem Change.live {c : Call} {r : Int} (h : Change s cur c r s') (hcur : (s.envs cur).envStatus ≠ .free) :
    (s'.envs cur).envStatus ≠ .free := by
  have hm := h.move cur
  generalize s'.envs cur = w at hm
  cases hm with
  | keep => exact hcur
  | status _ hst => exact statusOfInt_live hst
  | setUpcall => exact hcur
  | dying => simp
  | freed _ _ _ _ hne => exact absurd rfl hne
  | spawned => simp
  | received => simp [ipcReceived]

theorem saneRes_dispatch (h : Loaded b M cur d s) (hcur : s.curenv = some cur) (hrun : (s.envs cur).envStatus = .running)
    (cons : Int) (tf : Trapframe) (faultVa : Word) :
    SaneRes b M ((trapDispatch (syscall cons tf.tfRegs) tf faultVa).run s) := by
  have hlive : (s.envs cur).envStatus ≠ .free := by rw [hrun]; simp
  unfold trapDispatch
  by_cases h1 : tf.tfTrapno = irqOffset + irqSpurious
  · rw [if_pos h1]
    exact h.1.ok ()
  rw [if_neg h1]
  by_cases h2 : tf.tfTrapno = irqOffset + irqTimer
  · rw [if_pos h2]
    exact (saneRes_schedYield h.1).bind fun _ s' hok _ => absurd hok (schedYield_not_ok s s')
  rw [if_neg h2]
  by_cases h3 : tf.tfTrapno = tPgflt
  · rw [if_pos h3]
    have hno := (dispRes_pageFault hcur hrun (show tf.tfTrapno ≠ tSyscall by rw [h3]; decide) .yield faultVa).2
    exact (saneRes_pageFault h hcur hlive tf faultVa).bind fun _ s' hok _ => absurd hok (hno s')
  rw [if_neg h3]
  by_cases hb : tf.tfTrapno = tBrkpt
  · rw [if_pos hb]
    exact Or.inr h.1
  rw [if_neg hb]
  by_cases h4 : tf.tfTrapno = tSyscall
  · rw [if_pos h4, run_bind_ok (EStateM.run_get s), hcur, run_bind_ok (run_deref_some cur), syscall_exec]
    refine (saneRes_syscall h.1 hcur hlive cons tf.tfRegs).bind fun r s' hok hs' => ?_
    have hres := call_res hcur (syscallCall cons tf.tfRegs)
    rw [hok] at hres
    cases hres with
    | returns _ _ hch =>
      have hlive' := hch.live hlive
      have hset := Sane.setEnv (v := setEax r (s'.envs cur)) hs' hlive' hlive' rfl rfl
      rw [run_bind_ok (run_modifyEnv ..)]
      exact hset.ok ()
  rw [if_neg h4]
  split
  · exact saneRes_panic s
  · rw [run_bind_ok (EStateM.run_get s), hcur, run_bind_ok (run_deref_some cur)]
    exact saneRes_envDestroy h.1 hcur hlive

end Jos
