/-
Copy-on-write fork against a fork that copies every page. Over any run of processes that fork, read and write, every read
returns what it would return if each fork had copied the pages of the parent one by one, and the child of a fork that has gone
through its loop has the pages of its parent.
-/
import Jos.Run.FlatMap
import Jos.User.ForkSteps

namespace Jos

open Lib Kern

variable {b s' : State} {M : List Nat} {m m' : Machine} {E : Memories} {e d x : Slot} {c : Call} {cpu : Cpu} {r : Int}
variable {upcall envid : Word}

/-! ## One system call -/

theorem after_self (m : Machine) (e : Slot) (r : Int) (s' : State) :
    (m.after e r s').proc e = (m.proc e).resume m.kern e r := if_pos rfl

theorem after_other (hx : x ≠ e) (hk : (m.proc e).fault ≠ .none ∨ (m.proc e).fork ≠ .exofork ∨ r < 0) :
    (m.after e r s').proc x = m.proc x := by
  show (if x = e then _ else if _ then _ else m.proc x) = _
  rw [if_neg hx, if_neg]
  rintro ⟨h1, h2, h3, -⟩
  rcases hk with hk | hk | hk
  · exact hk h1
  · exact hk h2
  · omega

theorem after_forking (m : Machine) (e : Slot) (r : Int) (s' : State) (hk : (m.proc e).fork ≠ .exofork) (x : Slot)
    (hx : x ≠ e) : (m.after e r s').proc x = m.proc x := after_other hx (Or.inr (Or.inl hk))

theorem not_lent_of (h : ∀ envid addr, (m.proc e).fork ≠ .mark envid addr true) (c : Slot) (p : UPage) : ¬ m.Lent e c p := by
  rintro ⟨envid, addr, hk, -⟩
  exact h envid addr hk

/-- A step that neither enters nor leaves the second `sys_page_map` of `duppage`. -/
theorem lent_iff (hk : ∀ envid addr, (m.proc e).fork ≠ .mark envid addr true)
    (hk' : ∀ envid addr, (m'.proc e).fork ≠ .mark envid addr true) (c : Slot) (p : UPage) : m'.Lent e c p ↔ m.Lent e c p :=
  iff_of_false (not_lent_of hk' c p) (not_lent_of hk c p)

theorem silent_enter (h : CowInv b M m E) (hkern : m'.kern = m.kern.enter cpu e) (hproc : ∀ x, x ≠ e → m'.proc x = m.proc x) :
    Unseen b M m m' e where
  sane := by rw [hkern]; exact h.sane.congr rfl rfl rfl rfl rfl rfl rfl
  vpt := by rw [hkern]; rfl
  mem := by rw [hkern]; rfl
  proc := hproc
  id _ := by rw [hkern]; rfl
  status _ _ _ := by rw [hkern]; rfl

theorem SetsRecord.unseen (h : SetsRecord b M m.kern m'.kern d)
    (hd : d = e ∨ ∃ envid, (m.proc e).fork.child = some envid ∧ envx envid = d)
    (hproc : ∀ x, x ≠ e → m'.proc x = m.proc x) : Unseen b M m m' e where
  sane := h.sane
  vpt := h.vpt
  mem := h.mem
  proc := hproc
  id := h.id
  status x hx hc := by
    refine h.status x ?_
    rintro rfl
    rcases hd with h | ⟨envid, hch, h⟩
    · exact hx h
    · exact hc envid hch h

/-- A process that stays where it is, or panics there. -/
theorem CowInv.stay (h : CowInv b M m E) (hr : m.Runs e) (hs : Unseen b M m m' e)
    (hfork : (m'.proc e).fork = (m.proc e).fork) (hfault : (m'.proc e).fault = (m.proc e).fault)
    (hst : ∀ envid, (m.proc e).fork.child = some envid →
      (m'.kern.envs (envx envid)).envStatus = (m.kern.envs (envx envid)).envStatus) : CowInv b M m' E := by
  refine h.unseen hr hs (fun c p => Machine.Lent.congr hfork) ?_ ?_ fun envid hc => by rw [← hfork]; exact hc
  · rw [hfault]
    exact .unseen h hs
  · rw [hfork]
    exact (h.fork e).kept (.refl fun p => by rw [hs.vpt]) fun envid hc => .of_unseen h hr hs hc (hst envid hc)

/-- A call that fails stops the process. -/
theorem CowInv.failed (h : CowInv b M m E) (hr : m.Runs e) (hkern : s' = m.kern.enter cpu e) (hneg : r < 0)
    (hres : (m.proc e).resume m.kern e r = { m.proc e with halted := true }) : CowInv b M (m.after e r s') E := by
  refine h.stay hr (silent_enter h hkern fun x hx => after_other hx (Or.inr (Or.inr hneg))) ?_ ?_ fun _ _ => ?_
  · rw [after_self, hres]
  · rw [after_self, hres]
  · subst hkern
    rfl

theorem resolve_zero {s : State} (h : s.resolve e 0#32 true = some d) : d = e := by
  unfold State.resolve at h
  rw [if_pos rfl] at h
  exact (Option.some.inj h).symm

theorem resolve_envx {s : State} (h : s.resolve e envid true = some d) (hne : envid ≠ 0#32) : envx envid = d := by
  unfold State.resolve at h
  rw [if_neg hne] at h
  split at h
  · cases h
  split at h
  · cases h
  exact Option.some.inj h

theorem UPage.Forked.ne_pftemp {p : UPage} (h : p.Forked) : p ≠ pageOf pftemp := UPage.Own.ne_pftemp (Or.inl h)

theorem pageOf_rounddown (va : Word) : pageOf (rounddown va pgsize) = pageOf va := by
  apply UPage.num_inj
  have hle : va.toNat % 4096 ≤ va.toNat := Nat.mod_le ..
  rw [num_pageOf, num_pageOf, pgnum_eq, pgnum_eq]
  unfold rounddown
  rw [BitVec.toNat_sub_of_le (by rw [BitVec.le_def, BitVec.toNat_umod]; exact hle), BitVec.toNat_umod,
    show pgsize.toNat = 4096 from rfl]
  omega

/-- A call of `pgfault`. -/
theorem CowInv.call_fault (h : CowInv b M m E) (hr : m.Runs e) (hnone : (m.proc e).fault ≠ .none)
    (hc : (m.proc e).call upcall = some c) (hroom : c.Room (m.kern.enter cpu e) e)
    (hrun : c.exec.run (m.kern.enter cpu e) = .ok r s') : CowInv b M (m.after e r s') E := by
  have hother : ∀ x, x ≠ e → (m.after e r s').proc x = m.proc x := fun x hx => after_other hx (Or.inl hnone)
  have hself := after_self m e r s'
  have hok := h.fault e
  cases hf : (m.proc e).fault with
  | none => exact absurd hf hnone
  | alloc addr =>
    simp only [Proc.call, hf, Option.some.injEq] at hc
    subst hc
    rw [hf] at hok
    obtain ⟨hp, w, hw, hcow, hW⟩ := hok
    rcases pageAlloc_maps h.sane hr.live permRW_low hrun with ⟨hneg, hs⟩ | ⟨rfl, d, f, hd, hnew, hm⟩
    · exact h.failed hr hs hneg (by simp [Proc.resume, hf, hneg])
    · obtain rfl := resolve_zero hd
      simp only [Proc.resume, hf, lt_self_iff_false, if_false] at hself
      refine h.map_new hr hm (Or.inl rfl) hnew (fun hq => pftemp_not_own (Or.inl hq)) hother
        (fun c p => Machine.Lent.congr (by rw [hself])) ?_ ?_ (by rw [hself]; exact fun _ h => h)
      · rw [hself]
        refine ⟨by rw [pageOf_rounddown]; exact hp, w, entry f permRW, ?_, hcow, hW, ⟨hm.self, fun x q w' hw' heq => ?_⟩, nofun⟩
        · rw [pageOf_rounddown]
          exact (hm.other fun h => hp.ne_pftemp h.2).trans hw
        · by_contra hne
          rw [hm.frame] at heq
          exact hnew x q w' ((hm.other hne).symm.trans hw') heq
      · rw [hself]
        exact (h.fork d).kept (fun p hp => Or.inl (hm.other fun h => hp.ne_pftemp h.2)) fun id hch =>
          .of_maps h hr hm hother hch (Or.inl (h.child hch).ne.symm) fun _ hd => hd
  | copy addr k =>
    simp only [Proc.call, hf, Option.ite_none_right_eq_some, Option.some.injEq] at hc
    obtain ⟨rfl, rfl⟩ := hc
    rw [hf] at hok
    obtain ⟨hp, w, t, hw, hcow, hW, htemp, -⟩ := hok
    rcases pageMap_maps h.sane hr.live permRW_low hroom hrun with ⟨hneg, hs⟩ | ⟨rfl, src, dst, t', hsrc, hdst, ht', hm⟩
    · exact h.failed hr hs hneg (by simp [Proc.resume, hf, hneg])
    · obtain rfl := resolve_zero hsrc
      obtain rfl := resolve_zero hdst
      simp only [Proc.resume, hf, lt_self_iff_false, if_false] at hself
      exact h.map_copy hr hf ht' hw hm hother (by rw [hself]) (by rw [hself])

/-- The page for the exception stack, in `set_pgfault_handler`. -/
theorem CowInv.call_handler (h : CowInv b M m E) (hr : m.Runs e) (hf : (m.proc e).fault = .none)
    (hk : (m.proc e).fork = .handler) (hc : (m.proc e).call upcall = some c)
    (hrun : c.exec.run (m.kern.enter cpu e) = .ok r s') :
    CowInv b M (m.after e r s') (E.apply ((m.proc e).act m.kern e r)) := by
  have hself := after_self m e r s'
  simp only [Proc.call, hf, hk, Option.some.injEq] at hc
  subst hc
  have hact : (m.proc e).act m.kern e r = .internal := by simp [Proc.act, hf, hk]
  rw [hact]
  have ho := after_forking m e r s' (by rw [hk]; nofun)
  rcases pageAlloc_maps h.sane hr.live permRW_low hrun with ⟨hneg, hs⟩ | ⟨rfl, d, f, hd, hnew, hm⟩
  · exact h.failed hr hs hneg (by simp [Proc.resume, hf, hk, hneg])
  · obtain rfl := resolve_zero hd
    simp only [Proc.resume, hf, hk, lt_self_iff_false, if_false] at hself
    refine h.map_new hr hm (Or.inl rfl) hnew xstack_not_forked ho
      (lent_iff (by rw [hk]; nofun) (by rw [hself]; nofun)) ?_ ?_ ?_
    · rw [hself]
      trivial
    · rw [hself]
      trivial
    · rw [hself]
      nofun

/-- The upcall of the parent, in `set_pgfault_handler`. -/
theorem CowInv.call_upcall (h : CowInv b M m E) (hr : m.Runs e) (hf : (m.proc e).fault = .none)
    (hk : (m.proc e).fork = .upcall) (hc : (m.proc e).call upcall = some c)
    (hrun : c.exec.run (m.kern.enter cpu e) = .ok r s') :
    CowInv b M (m.after e r s') (E.apply ((m.proc e).act m.kern e r)) := by
  have hself := after_self m e r s'
  simp only [Proc.call, hf, hk, Option.some.injEq] at hc
  subst hc
  have hact : (m.proc e).act m.kern e r = .internal := by simp [Proc.act, hf, hk]
  rw [hact]
  have ho := after_forking m e r s' (by rw [hk]; nofun)
  simp only [Proc.resume, hf, hk] at hself
  have hs : Unseen b M m (m.after e r s') e := by
    rcases setUpcall_sets h.sane hr.live hrun with hs | ⟨d, hd, hs, -⟩
    · exact silent_enter h hs ho
    · obtain rfl := resolve_zero hd
      exact hs.unseen (Or.inl rfl) ho
  refine h.unseen hr hs (lent_iff (by rw [hk]; nofun) (by rw [hself]; nofun)) ?_ ?_ ?_
  · rw [hself]
    trivial
  · rw [hself]
    trivial
  · rw [hself]
    nofun

/-- `sys_exofork`, whose child starts with the registers of its parent. -/
theorem CowInv.call_exofork (h : CowInv b M m E) (hr : m.Runs e) (hf : (m.proc e).fault = .none)
    (hk : (m.proc e).fork = .exofork) (hc : (m.proc e).call upcall = some c)
    (hrun : c.exec.run (m.kern.enter cpu e) = .ok r s') :
    CowInv b M (m.after e r s') (E.apply ((m.proc e).act m.kern e r)) := by
  have hself := after_self m e r s'
  simp only [Proc.call, hf, hk, Option.some.injEq] at hc
  subst hc
  rcases exofork_forks h.sane hr.live hrun with ⟨hneg, hs⟩ | ⟨d, hfo⟩
  · have hact : (m.proc e).act m.kern e r = .internal := by simp [Proc.act, hf, hk, hneg]
    rw [hact]
    exact h.failed hr hs hneg (by simp [Proc.resume, hf, hk, hneg])
  · have hact : (m.proc e).act m.kern e r = .spawn e (envx (BitVec.ofInt 32 r)) := by simp [Proc.act, hf, hk, hfo.nonneg]
    rw [hact]
    simp only [Proc.resume, hf, hk, if_neg hfo.nonneg] at hself
    refine h.spawn hr hk hfo (fun x hx => ?_) (by rw [hself]) (by rw [hself])
    show (if x = e then _ else if _ then _ else m.proc x) = _
    rw [if_neg hx, hfo.envx]
    simp [hf, hk, not_lt.1 hfo.nonneg]

/-- The first `sys_page_map` of `duppage`: a page that was writable is lent to the child until the second one marks it. -/
theorem CowInv.call_share (h : CowInv b M m E) (hr : m.Runs e) (hf : (m.proc e).fault = .none) {addr pte : Word}
    (hk : (m.proc e).fork = .share envid addr pte) (hc : (m.proc e).call upcall = some c)
    (hroom : c.Room (m.kern.enter cpu e) e) (hrun : c.exec.run (m.kern.enter cpu e) = .ok r s') :
    CowInv b M (m.after e r s') (E.apply ((m.proc e).act m.kern e r)) := by
  have hself := after_self m e r s'
  have hok := h.fork e
  rw [hk] at hok
  obtain ⟨hat, hfill, hro⟩ := hok
  simp only [Proc.call, hf, hk, Option.some.injEq] at hc
  subst hc
  have ho := after_forking m e r s' (by rw [hk]; nofun)
  have hlow : LowPerm (if Cowed pte then permCow else permRO) := by
    split
    · exact permCow_low
    · exact permRO_low
  obtain ⟨w, hw, -⟩ := hat.readable
  rcases pageMap_maps h.sane hr.live hlow hroom hrun with ⟨hneg, hs⟩ | ⟨rfl, src, dst, w', hsrc, hdst, hw', hm⟩
  · have hact : (m.proc e).act m.kern e r = .internal := by simp [Proc.act, hf, hk, hw, hneg]
    rw [hact]
    exact h.failed hr hs hneg (by simp [Proc.resume, hf, hk, hneg])
  · obtain rfl := resolve_zero hsrc
    obtain rfl := resolve_envx hdst hfill.idNe
    obtain rfl : w' = w := Option.some.inj (hw'.symm.trans hw)
    -- a page that the parent may still write is copied only when the second call marks it
    by_cases hW : w' &&& pteW = 0#32
    · have hact : (m.proc src).act m.kern src 0 = .copy src (envx envid) (pageOf addr) := by simp [Proc.act, hf, hk, hw, hW]
      rw [hact]
      refine h.share_copy hr hk hw hW ?_ hm ho ?_ ?_
      · split
        · exact Or.inl rfl
        · exact Or.inr rfl
      · rw [hself]
        by_cases hcow : Cowed pte <;> simp [Proc.resume, hf, hk, hcow]
      · rw [hself]
        by_cases hcow : Cowed pte
        · exact Or.inl (by simp [Proc.resume, hf, hk, hcow, hw, hW])
        · exact Or.inr (by simp [Proc.resume, hf, hk, hcow])
    · -- what is mapped read-only the parent cannot write
      have hcow : Cowed pte := by
        by_contra hcow
        exact hro hcow w' hw (Or.inl hW)
      have hact : (m.proc src).act m.kern src 0 = .internal := by simp [Proc.act, hf, hk, hw, hW]
      rw [hact]
      rw [if_pos hcow] at hm
      exact h.share_live hr hk hw hW hm ho (by simp [hself, Proc.resume, hf, hk, hcow])
        (by simp [hself, Proc.resume, hf, hk, hcow, hw, hW])

/-- The second `sys_page_map` of `duppage`, which takes the page back as copy-on-write. -/
theorem CowInv.call_mark (h : CowInv b M m E) (hr : m.Runs e) (hf : (m.proc e).fault = .none) {addr : Word} {live : Bool}
    (hk : (m.proc e).fork = .mark envid addr live) (hc : (m.proc e).call upcall = some c)
    (hroom : c.Room (m.kern.enter cpu e) e) (hrun : c.exec.run (m.kern.enter cpu e) = .ok r s') :
    CowInv b M (m.after e r s') (E.apply ((m.proc e).act m.kern e r)) := by
  have hself := after_self m e r s'
  have hok := h.fork e
  rw [hk] at hok
  simp only [Proc.call, hf, hk, Option.some.injEq] at hc
  subst hc
  have ho := after_forking m e r s' (by rw [hk]; nofun)
  rcases pageMap_maps h.sane hr.live permCow_low hroom hrun with ⟨hneg, hs⟩ | ⟨rfl, src, dst, w, hsrc, hdst, hw, hm⟩
  · have hact : (m.proc e).act m.kern e r = .internal := by simp [Proc.act, hf, hk, hneg]
    rw [hact]
    exact h.failed hr hs hneg (by simp [Proc.resume, hf, hk, hneg])
  · obtain rfl := resolve_zero hsrc
    obtain rfl := resolve_zero hdst
    have hact : (m.proc dst).act m.kern dst 0 = if live = false then .internal else .copy dst (envx envid) (pageOf addr) := by
      simp [Proc.act, hf, hk]
    rw [hact]
    exact h.mark hr hk hw hm ho (by simp [hself, Proc.resume, hf, hk]) (by simp [hself, Proc.resume, hf, hk])

/-- The page for the exception stack of the child. -/
theorem CowInv.call_stack (h : CowInv b M m E) (hr : m.Runs e) (hf : (m.proc e).fault = .none)
    (hk : (m.proc e).fork = .stack envid) (hc : (m.proc e).call upcall = some c)
    (hrun : c.exec.run (m.kern.enter cpu e) = .ok r s') :
    CowInv b M (m.after e r s') (E.apply ((m.proc e).act m.kern e r)) := by
  have hself := after_self m e r s'
  have hok := h.fork e
  rw [hk] at hok
  have hfill : Filled m E e envid UPage.Forked (pgnum xstack) := hok
  have hch : (m.proc e).fork.child = some envid := by rw [hk]; rfl
  simp only [Proc.call, hf, hk, Option.some.injEq] at hc
  subst hc
  have hact : (m.proc e).act m.kern e r = .internal := by simp [Proc.act, hf, hk]
  rw [hact]
  have ho := after_forking m e r s' (by rw [hk]; nofun)
  rcases pageAlloc_maps h.sane hr.live permRW_low hrun with ⟨hneg, hs⟩ | ⟨rfl, d, f, hd, hnew, hm⟩
  · exact h.failed hr hs hneg (by simp [Proc.resume, hf, hk, hneg])
  · have hd' := resolve_envx hd hfill.idNe
    simp only [Proc.resume, hf, hk, lt_self_iff_false, if_false] at hself
    refine h.map_new hr hm (Or.inr ⟨envid, hch, hd'⟩) hnew xstack_not_forked ho
      (lent_iff (by rw [hk]; nofun) (by rw [hself]; nofun)) ?_ ?_ ?_
    · rw [hself]
      trivial
    · rw [hself]
      exact hfill.kept (.of_maps h hr hm ho hch (Or.inr xstack_not_forked) fun _ hd => hd)
    · rw [hself, hk]
      exact fun _ h => h

/-- The upcall of the child. -/
theorem CowInv.call_setUpcall (h : CowInv b M m E) (hr : m.Runs e) (hf : (m.proc e).fault = .none)
    (hk : (m.proc e).fork = .setUpcall envid) (hc : (m.proc e).call upcall = some c)
    (hrun : c.exec.run (m.kern.enter cpu e) = .ok r s') :
    CowInv b M (m.after e r s') (E.apply ((m.proc e).act m.kern e r)) := by
  have hself := after_self m e r s'
  have hok := h.fork e
  rw [hk] at hok
  have hfill : Filled m E e envid UPage.Forked (pgnum xstack) := hok
  have hch : (m.proc e).fork.child = some envid := by rw [hk]; rfl
  simp only [Proc.call, hf, hk, Option.some.injEq] at hc
  subst hc
  have hact : (m.proc e).act m.kern e r = .internal := by simp [Proc.act, hf, hk]
  rw [hact]
  have ho := after_forking m e r s' (by rw [hk]; nofun)
  simp only [Proc.resume, hf, hk] at hself
  have hs : Unseen b M m (m.after e r s') e ∧ ∀ x, (s'.envs x).envStatus = (m.kern.envs x).envStatus := by
    rcases setUpcall_sets h.sane hr.live hrun with rfl | ⟨d, hd, hs, hst⟩
    · exact ⟨silent_enter h rfl ho, fun _ => rfl⟩
    · exact ⟨hs.unseen (Or.inr ⟨envid, hch, resolve_envx hd hfill.idNe⟩) ho, hst⟩
  refine h.unseen hr hs.1 (lent_iff (by rw [hk]; nofun) (by rw [hself]; nofun)) ?_ ?_ ?_
  · rw [hself]
    trivial
  · rw [hself]
    exact hfill.kept (.of_unseen h hr hs.1 hch (hs.2 _))
  · rw [hself, hk]
    exact fun _ h => h

/-- `sys_env_set_status`, by which the child becomes runnable. -/
theorem CowInv.call_setStatus (h : CowInv b M m E) (hr : m.Runs e) (hf : (m.proc e).fault = .none)
    (hk : (m.proc e).fork = .setStatus envid) (hc : (m.proc e).call upcall = some c)
    (hrun : c.exec.run (m.kern.enter cpu e) = .ok r s') :
    CowInv b M (m.after e r s') (E.apply ((m.proc e).act m.kern e r)) := by
  have hself := after_self m e r s'
  have hok := h.fork e
  rw [hk] at hok
  have hfill : Filled m E e envid UPage.Forked (pgnum xstack) := hok
  have hch : (m.proc e).fork.child = some envid := by rw [hk]; rfl
  simp only [Proc.call, hf, hk, Option.some.injEq] at hc
  subst hc
  have hact : (m.proc e).act m.kern e r = .internal := by simp [Proc.act, hf, hk]
  rw [hact]
  have ho := after_forking m e r s' (by rw [hk]; nofun)
  rcases setStatus_sets h.sane hr.live hrun with ⟨hs, hneg⟩ | ⟨d, hd, hs, hnn⟩
  · exact h.failed hr hs hneg (by simp [Proc.resume, hf, hk, hneg])
  · simp only [Proc.resume, hf, hk, if_neg (not_lt.2 hnn)] at hself
    refine h.unseen hr (hs.unseen (Or.inr ⟨envid, hch, resolve_envx hd hfill.idNe⟩) ho)
      (lent_iff (by rw [hk]; nofun) (by rw [hself]; nofun)) ?_ ?_ ?_
    · rw [hself]
      trivial
    · rw [hself]
      trivial
    · rw [hself]
      nofun

/-- A call of `fork`, `duppage` or `set_pgfault_handler`. -/
theorem CowInv.call_fork (h : CowInv b M m E) (hr : m.Runs e) (hf : (m.proc e).fault = .none)
    (hc : (m.proc e).call upcall = some c) (hroom : c.Room (m.kern.enter cpu e) e)
    (hrun : c.exec.run (m.kern.enter cpu e) = .ok r s') :
    CowInv b M (m.after e r s') (E.apply ((m.proc e).act m.kern e r)) := by
  cases hk : (m.proc e).fork with
  | none => simp [Proc.call, hf, hk] at hc
  | loop envid addr => simp [Proc.call, hf, hk] at hc
  | dup envid addr => simp [Proc.call, hf, hk] at hc
  | handler => exact h.call_handler hr hf hk hc hrun
  | upcall => exact h.call_upcall hr hf hk hc hrun
  | exofork => exact h.call_exofork hr hf hk hc hrun
  | share envid addr pte => exact h.call_share hr hf hk hc hroom hrun
  | mark envid addr live => exact h.call_mark hr hf hk hc hroom hrun
  | stack envid => exact h.call_stack hr hf hk hc hrun
  | setUpcall envid => exact h.call_setUpcall hr hf hk hc hrun
  | setStatus envid => exact h.call_setStatus hr hf hk hc hrun

/-! ## Every step -/

theorem pgnum_lt_xstack {addr : Word} (h : InLoop addr) : addr < xstack ↔ pgnum addr < pgnum xstack := by
  have ha := h.aligned
  have hx : xstack.toNat % 4096 = 0 := by decide
  rw [BitVec.lt_def, pgnum_eq, pgnum_eq]
  omega

/-- A process moves on in the loop of `fork`. -/
theorem CowInv.loop (h : CowInv b M m E) (hr : m.Runs e) (hf : (m.proc e).fault = .none) {addr : Word}
    (hk : (m.proc e).fork = .loop envid addr) : CowInv b M (m.setProc e { m.proc e with
      fork := if addr < xstack then
          match m.kern.vpt e (pageOf addr) with
          | some w => if w &&& pteU ≠ 0#32 then .dup envid addr else .loop envid (addr + pgsize)
          | none => .loop envid (addr + pgsize)
        else .stack envid }) E := by
  have hok := h.fork e
  rw [hk] at hok
  obtain ⟨hin, hfill⟩ := hok
  have hch : (m.proc e).fork.child = some envid := by rw [hk]; rfl
  have hnext : ∀ k : ForkPoint, k.child = some envid → (∀ a l, k ≠ .mark envid a l) →
      (ForkOk m E e k) → CowInv b M (m.setProc e { m.proc e with fork := k }) E := by
    intro k hkc hkm hok
    have hs := unseen_setProc h e { m.proc e with fork := k }
    refine h.unseen hr hs (lent_iff (by rw [hk]; nofun) ?_) ?_ ?_ ?_
    · rw [setProc_proc]
      intro id a hc
      have hid : k.child = some id := by rw [show k = _ from hc]; rfl
      rw [hkc] at hid
      cases hid
      exact hkm a true hc
    · rw [setProc_proc]
      show FaultOk _ e (m.proc e).fault
      rw [hf]
      trivial
    · rw [setProc_proc]
      refine hok.kept (.refl fun p => rfl) fun id hc => ?_
      rw [hkc] at hc
      cases hc
      exact .of_unseen h hr hs hch rfl
    · rw [setProc_proc, hch]
      exact fun id hc => hkc.symm.trans hc
  split
  · rename_i hlt
    have hlt' := (pgnum_lt_xstack hin).1 hlt
    -- a page that is not there, or not for the user, is not one that the parent reads
    have hskip : m.kern.userPage e (pageOf addr) = none → ForkOk m E e (.loop envid (addr + pgsize)) := by
      intro hnone
      have hp := hin.forked hlt'
      have hpar : E.mem e (pageOf addr) = none := by rw [← h.view_runs hr hp, hnone]
      have hchild : E.mem (envx envid) (pageOf addr) = none := by
        rw [← h.view (envx envid) (pageOf addr) hp, userPage_none (hfill.rest _ hp (by rw [num_pageOf]))]
        rintro x ⟨id, a, hx, hxc, -⟩
        have hxe : x = e := h.one x e id envid (by rw [hx]; rfl) hch hxc
        rw [hxe, hk] at hx
        cases hx
      refine ⟨hin.next hlt', hfill.toChild, fun p hp' => ?_, fun p hp' hn => hfill.rest p hp' ?_⟩
      · rw [(pgnum_step hlt').1] at hp'
        rcases hp'.succ with hb | rfl
        · exact hfill.copied p hb
        · rw [hpar, hchild]
          exact ⟨rfl, fun _ => rfl⟩
      · rw [(pgnum_step hlt').1] at hn
        omega
    split
    · rename_i w hw
      split
      · rename_i hu
        exact hnext _ rfl nofun ⟨⟨hin, hlt', w, hw, hu⟩, hfill⟩
      · rename_i hu
        refine hnext _ rfl nofun (hskip ?_)
        unfold State.userPage
        rw [hw]
        dsimp only
        rw [if_pos (not_not.1 hu)]
    · rename_i hw
      exact hnext _ rfl nofun (hskip (userPage_none hw))
  · rename_i hge
    have heq : pgnum addr = pgnum xstack := le_antisymm hin.high (not_lt.1 fun h => hge ((pgnum_lt_xstack hin).2 h))
    refine hnext _ rfl nofun ⟨hfill.toChild, hfill.copied.mono fun p hp => ⟨hp, ?_⟩, fun p hp hn => ?_⟩
    · rw [heq]
      exact hp.2
    · exact absurd hp.2 (not_lt.2 hn)

/-- `duppage` reads the entry. -/
theorem CowInv.dup (h : CowInv b M m E) (hr : m.Runs e) (hf : (m.proc e).fault = .none) {addr w : Word}
    (hk : (m.proc e).fork = .dup envid addr) (hw : m.kern.vpt e (pageOf addr) = some w) :
    CowInv b M (m.setProc e { m.proc e with fork := .share envid addr w }) E := by
  have hok := h.fork e
  rw [hk] at hok
  obtain ⟨hat, hfill⟩ := hok
  have hs := unseen_setProc h e { m.proc e with fork := .share envid addr w }
  refine h.unseen hr hs (lent_iff (by rw [hk]; nofun) (by rw [setProc_proc]; nofun)) ?_ ?_ ?_
  · rw [setProc_proc]
    show FaultOk _ e (m.proc e).fault
    rw [hf]
    trivial
  · rw [setProc_proc]
    refine ⟨hat.kept (.refl fun p => rfl), hfill.kept (.of_unseen h hr hs (by rw [hk]; rfl) rfl), fun hcow w' hw' => ?_⟩
    rwa [Option.some.inj (hw'.symm.trans hw)]
  · rw [setProc_proc, hk]
    exact fun _ h => h

/-- A program calls `fork`. -/
theorem CowInv.enter_fork (h : CowInv b M m E) (hr : m.Runs e) (hf : (m.proc e).fault = .none)
    (hk : (m.proc e).fork = .none) : CowInv b M
      (m.setProc e { m.proc e with fork := if (m.proc e).handler then .exofork else .handler }) E := by
  refine h.unseen hr (unseen_setProc h e _) (lent_iff (by rw [hk]; nofun) fun id a => ?_) ?_ ?_ ?_
  · rw [setProc_proc]
    dsimp only
    split <;> nofun
  · rw [setProc_proc]
    show FaultOk _ e (m.proc e).fault
    rw [hf]
    trivial
  · rw [setProc_proc]
    dsimp only
    split <;> trivial
  · rw [setProc_proc]
    dsimp only
    split <;> nofun

/-- A store that faults. -/
theorem CowInv.enter_fault (h : CowInv b M m E) (hr : m.Runs e) {va : Word} (hp : (pageOf va).Forked)
    (hW : ∀ w, m.kern.vpt e (pageOf va) = some w → w &&& pteU = 0#32 ∨ w &&& pteW = 0#32) : CowInv b M
      (m.setProc e (match m.kern.vpt e (pageOf va) with
        | some w => if w &&& pteCow ≠ 0#32 then { m.proc e with fault := .alloc va } else { m.proc e with halted := true }
        | none => { m.proc e with halted := true })) E := by
  have hhalt : CowInv b M (m.setProc e { m.proc e with halted := true }) E :=
    h.stay hr (unseen_setProc h e _) (by rw [setProc_proc]) (by rw [setProc_proc]) fun _ _ => rfl
  split
  · rename_i w hw
    split
    · rename_i hcow
      have hs := unseen_setProc h e { m.proc e with fault := .alloc va }
      refine h.unseen hr hs (fun c p => Machine.Lent.congr (by rw [setProc_proc])) ?_ ?_ ?_
      · rw [setProc_proc]
        exact ⟨hp, w, hw, hcow, fun hu => (hW w hw).resolve_left hu⟩
      · rw [setProc_proc]
        exact (h.fork e).kept (.refl fun p => rfl) fun id hc => .of_unseen h hr hs hc rfl
      · rw [setProc_proc]
        exact fun _ h => h
    · exact hhalt
  · exact hhalt

/-- One step: a read returns what the eager copies have, and the invariant is kept. -/
theorem CowInv.step (h : CowInv b M m E) {a : Eager.Act Slot UPage (Idx → Word)} (hs : Machine.Step upcall m a m') :
    E.Reads a ∧ CowInv b M m' (E.apply a) := by
  cases hs with
  | @call e c r s' he cpu hc hroom hrun =>
    by_cases hf : (m.proc e).fault = .none
    · refine ⟨?_, h.call_fork he hf hc hroom hrun⟩
      unfold Proc.act
      repeat' split
      all_goals trivial
    · have hact : (m.proc e).act m.kern e r = .internal := by
        unfold Proc.act
        cases hfa : (m.proc e).fault with
        | none => exact absurd hfa hf
        | alloc | copy => rfl
      rw [hact]
      exact ⟨trivial, h.call_fault he hf hc hroom hrun⟩
  | fork he hf hk => exact ⟨trivial, h.enter_fork he hf hk⟩
  | loop he hf hk => exact ⟨trivial, h.loop he hf hk⟩
  | dup he hf hk hw => exact ⟨trivial, h.dup he hf hk hw⟩
  | move he hf hw hu ht => exact ⟨trivial, h.move he hf hw hu ht⟩
  | read he hf hp hx => exact ⟨(h.view_runs he hp).symm.trans hx, h⟩
  | write he hf hp hw hu hW j x => exact ⟨trivial, h.write he hf hp hw hu hW j x⟩
  | writeStack he hw hW j x => exact ⟨trivial, h.writeStack he hw hW j x⟩
  | fault he hf hp hW => exact ⟨trivial, h.enter_fault he hp hW⟩

/-! ## Runs -/

/-- The kernel is in a state that its operations reach, no process is in `fork`, and a page of `[UTEXT, UXSTACKTOP)` that may be
written is mapped nowhere else, the `PFTEMP` of its environment apart. -/
structure Machine.Start (b : State) (m : Machine) : Prop where
  boots : Boots b m.kern
  idle : ∀ e, (m.proc e).fork = .none ∧ (m.proc e).fault = .none
  alone : ∀ e p w, p.Own → m.kern.vpt e p = some w → w &&& pteW ≠ 0#32 → ∀ e' p' w', m.kern.vpt e' p' = some w' →
    pgnum w' = pgnum w → e' = e ∧ (p' = p ∨ p' = pageOf pftemp)

/-- What the processes read at the start. -/
def Machine.memories (m : Machine) : Memories where
  mem := m.kern.userPage
  written _ _ := False

theorem Machine.Start.inv {m₀ : Machine} (hb : Booted b M) (h : m₀.Start b) : CowInv b M m₀ m₀.memories where
  sane := h.boots.sane hb
  view _ _ _ _ := rfl
  sole e p w hp hw hW e' p' w' hw' heq := Or.inl (h.alone e p w hp hw hW e' p' w' hw' heq)
  fault e := by rw [(h.idle e).2]; trivial
  fork e := by rw [(h.idle e).1]; trivial
  one e e' id id' hc := by rw [(h.idle e).1] at hc; cases hc

theorem run_inv {m₀ : Machine} {as : List (Eager.Act Slot UPage (Idx → Word))} (hb : Booted b M) (h₀ : m₀.Start b)
    (h : Machine.Run upcall m₀ as m) : ∃ E, Eager.Runs m₀.memories as E ∧ CowInv b M m E := by
  induction h with
  | refl => exact ⟨_, .refl, h₀.inv hb⟩
  | step _ hs ih =>
    obtain ⟨E, hruns, hi⟩ := ih
    obtain ⟨hread, hi'⟩ := hi.step hs
    exact ⟨_, .step hruns hread, hi'⟩

/-! ## A run -/

/-- An environment with a page at `UTEXT`, which has called `fork` before. -/
def forkStart : Machine where
  kern := firstMap
  proc _ := { handler := true }

theorem forkStart_start : forkStart.Start bootState where
  boots := firstMap_reach.boots
  idle _ := ⟨rfl, rfl⟩
  alone e p w _ hw _ e' p' w' hw' _ := by
    have hpte : ∀ e p w, firstMap.vpt e p = some w → e = 0 ∧ p = pageOf utext := by
      intro e p w hw
      obtain ⟨⟨l, le, hi⟩, hg⟩ := reach_inv bootState_booted firstEnv_reach
      obtain ⟨ev, s', hrun, hs⟩ := op_step countRel_eq hi hg (Op.allocInsert 0#32 0 utext (pteU ||| pteW))
        ⟨by decide, by decide, by decide⟩
      cases firstMap_run.symm.trans hrun
      unfold State.vpt at hw
      rw [hs.pte] at hw
      simp only [Event.apply] at hw
      split at hw
      · rename_i h
        exact ⟨h.1, Prod.ext h.2.1 h.2.2⟩
      · rw [firstEnv_pte] at hw
        cases hw
    obtain ⟨rfl, rfl⟩ := hpte e p w hw
    obtain ⟨rfl, rfl⟩ := hpte e' p' w' hw'
    exact ⟨rfl, Or.inl rfl⟩

/-- The parent after `sys_exofork`. -/
def forkChild : Machine :=
  (forkStart.setProc 0 { fork := .exofork, handler := true }).after 0 4097
    (finalState (Call.exofork.exec.run (firstMap.enter 0 0)))

/-- The parent has mapped its page in the child. -/
def forkShared : Machine :=
  (forkChild.setProc 0 { fork := .share 4097#32 utext (entry 127 (pteU ||| pteW)), handler := true }).after 0 0
    (finalState ((Call.pageMap 0#32 utext 4097#32 utext permCow).exec.run (forkChild.kern.enter 0 0)))

/-- It has marked its own. -/
def forkMarked : Machine :=
  forkShared.after 0 0 (finalState ((Call.pageMap 0#32 utext 0#32 utext permCow).exec.run (forkShared.kern.enter 0 0)))

theorem setProc_setProc (m : Machine) (e : Slot) (v v' : Proc) : (m.setProc e v).setProc e v' = m.setProc e v' := by
  unfold Machine.setProc
  simp

theorem forkChild_run : ∃ as, Machine.Run 0#32 forkStart as forkChild := by
  have hfork : Machine.Step 0#32 forkStart .internal (forkStart.setProc 0 { fork := .exofork, handler := true }) :=
    .fork ⟨Or.inl (by decide), rfl⟩ rfl rfl
  have hcall : Machine.Step 0#32 (forkStart.setProc 0 { fork := .exofork, handler := true }) _ forkChild :=
    .call (e := 0) (c := .exofork) ⟨Or.inl (by decide), rfl⟩ 0 rfl nofun (eq_ok_of_okValue (by decide +kernel))
  exact ⟨_, .step (.step .refl hfork) hcall⟩

theorem forkChild_page : forkChild.kern.vpt 0 (pageOf utext) = some (entry 127 (pteU ||| pteW)) := by decide +kernel

theorem forkShared_run : ∃ as, Machine.Run 0#32 forkStart as forkShared := by
  obtain ⟨as, hrun⟩ := forkChild_run
  have hruns : forkChild.Runs 0 := ⟨Or.inl (by decide +kernel), rfl⟩
  have hloop : Machine.Step 0#32 forkChild .internal (forkChild.setProc 0 { fork := .dup 4097#32 utext, handler := true }) := by
    have hk : (forkChild.proc 0).fork = .loop 4097#32 utext := rfl
    have h : Machine.Step 0#32 forkChild _ _ := .loop hruns rfl hk
    rw [forkChild_page] at h
    exact h
  have hdup : Machine.Step 0#32 (forkChild.setProc 0 { fork := .dup 4097#32 utext, handler := true }) .internal
      (forkChild.setProc 0 { fork := .share 4097#32 utext (entry 127 (pteU ||| pteW)), handler := true }) := by
    have hk : ((forkChild.setProc 0 { fork := .dup 4097#32 utext, handler := true }).proc 0).fork = .dup 4097#32 utext := rfl
    have h : Machine.Step 0#32 (forkChild.setProc 0 { fork := .dup 4097#32 utext, handler := true }) _ _ :=
      .dup (e := 0) hruns rfl hk forkChild_page
    rwa [setProc_setProc] at h
  have hroom : (Call.pageMap 0#32 utext 4097#32 utext permCow).Room (forkChild.kern.enter 0 0) 0 := by
    rintro _ _ _ _ (⟨_, _, _, hsrc, -, hw, -⟩ | _)
    obtain rfl := resolve_zero hsrc
    cases forkChild_page.symm.trans hw
    exact Or.inl (by decide +kernel)
  have hcall : Machine.Step 0#32
      (forkChild.setProc 0 { fork := .share 4097#32 utext (entry 127 (pteU ||| pteW)), handler := true }) _ forkShared :=
    .call (e := 0) (c := .pageMap 0#32 utext 4097#32 utext permCow) hruns 0 rfl hroom (eq_ok_of_okValue (by decide +kernel))
  exact ⟨_, .step (.step (.step hrun hloop) hdup) hcall⟩

theorem forkMarked_run : ∃ as, Machine.Run 0#32 forkStart as forkMarked := by
  obtain ⟨as, hrun⟩ := forkShared_run
  have hpage : forkShared.kern.vpt 0 (pageOf utext) = some (entry 127 (pteU ||| pteW)) := by decide +kernel
  have hroom : (Call.pageMap 0#32 utext 0#32 utext permCow).Room (forkShared.kern.enter 0 0) 0 := by
    rintro _ _ _ _ (⟨_, _, _, hsrc, -, hw, -⟩ | _)
    obtain rfl := resolve_zero hsrc
    cases hpage.symm.trans hw
    exact Or.inl (by decide +kernel)
  have hcall : Machine.Step 0#32 forkShared _ forkMarked :=
    .call (e := 0) (c := .pageMap 0#32 utext 0#32 utext permCow) ⟨Or.inl (by decide +kernel), by decide +kernel⟩ 0
      (by decide +kernel) hroom (eq_ok_of_okValue (by decide +kernel))
  exact ⟨_, .step hrun hcall⟩

/-! ## Forks as copies -/

section

variable {m₀ : Machine} {as : List (Eager.Act Slot UPage (Idx → Word))} (hb : Booted b M) (h₀ : m₀.Start b)
  (h : Machine.Run upcall m₀ as m)

include hb h₀ h

end

section

variable {m₀ : Machine} {as : List (Eager.Act Slot UPage (Idx → Word))} (hb : Booted b M) (h₀ : m₀.Start b)
  (h : Machine.Run upcall m₀ as m)

include hb h₀ h

/-- A page that a process may write is mapped by no other process, but for the child that it is just being given to, which does
not run yet. -/
theorem writable_unshared {p p' : UPage} {w w' : Word} (hp : p.Own) (hw : m.kern.vpt e p = some w) (hW : w &&& pteW ≠ 0#32)
    (hx : x ≠ e) (hw' : m.kern.vpt x p' = some w') (heq : pgnum w' = pgnum w) :
    p' = p ∧ (m.kern.envs x).envStatus = .notRunnable ∧
      ∃ envid addr, (m.proc e).fork = .mark envid addr true ∧ envx envid = x ∧ pageOf addr = p := by
  obtain ⟨E, -, hi⟩ := run_inv hb h₀ h
  rcases hi.sole e p w hp hw hW x p' w' hw' heq with ⟨hxe, -⟩ | ⟨hl, hpp⟩
  · exact absurd hxe hx
  · obtain ⟨envid, hc, rfl⟩ := hl.child
    exact ⟨hpp, (hi.child hc).asleep, hl⟩

end

/-- The child has a page that the parent can write, and does not run. -/
theorem writable_unshared_child : (forkShared.kern.envs 1).envStatus = .notRunnable := by
  obtain ⟨as, hrun⟩ := forkShared_run
  have hown : (pageOf utext).Own := Or.inl (by unfold UPage.Forked; decide)
  have hw : forkShared.kern.vpt 0 (pageOf utext) = some (entry 127 (pteU ||| pteW)) := by decide +kernel
  have hw' : forkShared.kern.vpt 1 (pageOf utext) = some (entry 127 permCow) := by decide +kernel
  exact (writable_unshared bootState_booted forkStart_start hrun hown hw (by decide) (by decide) hw' (by decide)).2.1

/-- The child that `fork` is filling, and the number of the first page that its loop has not passed. At `mark` the page is in the
child already. -/
def ForkPoint.filling : ForkPoint → Option (Word × Nat)
  | .loop envid addr | .dup envid addr | .share envid addr _ => some (envid, pgnum addr)
  | .mark envid addr _ => some (envid, pgnum addr + 1)
  | .stack envid | .setUpcall envid | .setStatus envid => some (envid, pgnum xstack)
  | .none | .handler | .upcall | .exofork => .none

theorem ForkPoint.filling_child {k : ForkPoint} {n : Nat} (h : k.filling = some (envid, n)) : k.child = some envid := by
  cases k <;> cases h <;> rfl

/-- A process that creates another is no child that is being filled. -/
theorem CowInv.parent_view (h : CowInv b M m E) (hc : (m.proc e).fork.child = some envid) {p : UPage} (hp : p.Forked) :
    m.kern.userPage e p = E.mem e p := by
  refine h.view e p hp fun x hl => ?_
  obtain ⟨id, hx, hxe⟩ := hl.child
  have hidle := (h.child hx).idle.1
  rw [hxe] at hidle
  rw [hidle] at hc
  cases hc

/-- What a child has been filled with. -/
theorem CowInv.filled (h : CowInv b M m E) {n : Nat} (hk : (m.proc e).fork.filling = some (envid, n)) {p : UPage}
    (hp : p.Forked) :
    (n ≤ p.num → m.kern.vpt (envx envid) p = none) ∧
    (p.num < n → E.Copied e (envx envid) (· = p) ∨ ∃ addr, (m.proc e).fork = .mark envid addr true ∧ p = pageOf addr) := by
  have hok := h.fork e
  cases hf : (m.proc e).fork with
  | none | handler | upcall | exofork => rw [hf] at hk; cases hk
  | loop id addr | dup id addr =>
    rw [hf] at hk hok
    cases hk
    exact ⟨hok.2.rest p hp, fun hlt => Or.inl (hok.2.copied.mono fun q hq => hq ▸ ⟨hp, hlt⟩)⟩
  | share id addr pte =>
    rw [hf] at hk hok
    cases hk
    exact ⟨hok.2.1.rest p hp, fun hlt => Or.inl (hok.2.1.copied.mono fun q hq => hq ▸ ⟨hp, hlt⟩)⟩
  | mark id addr live =>
    rw [hf] at hk hok
    cases hk
    refine ⟨hok.2.1.rest p hp, fun hlt => ?_⟩
    rcases UPage.Below.succ ⟨hp, hlt⟩ with hbelow | rfl
    · refine Or.inl (hok.2.1.copied.mono fun q hq => hq ▸ ⟨hp, ?_⟩)
      split
      · exact hbelow.2
      · exact hlt
    · cases live with
      | true => exact Or.inr ⟨addr, rfl, rfl⟩
      | false => exact Or.inl (hok.2.1.copied.mono fun q hq => hq ▸ ⟨hp, hlt⟩)
  | stack id | setUpcall id | setStatus id =>
    rw [hf] at hk hok
    cases hk
    exact ⟨Filled.rest hok p hp, fun _ => Or.inl ((Filled.copied hok).mono fun q hq => hq ▸ hp)⟩

/-- The child has just the pages of its parent that the loop of `fork` has passed, with the same contents where the parent has not
written since they were copied, and no others. -/
theorem fork_copies {m₀ : Machine} {as : List (Eager.Act Slot UPage (Idx → Word))} (hb : Booted b M) (h₀ : m₀.Start b)
    (h : Machine.Run upcall m₀ as m) : ∃ E, Eager.Runs m₀.memories as E ∧
      ∀ e envid n p, p.Forked → (m.proc e).fork.filling = some (envid, n) →
        (n ≤ p.num → m.kern.userPage (envx envid) p = none) ∧
        (p.num < n → (m.kern.userPage (envx envid) p).isSome = (m.kern.userPage e p).isSome ∧
          (¬ E.written e p → m.kern.userPage (envx envid) p = m.kern.userPage e p)) := by
  obtain ⟨E, hruns, hi⟩ := run_inv hb h₀ h
  refine ⟨E, hruns, fun e envid n p hp hk => ?_⟩
  have hc := ForkPoint.filling_child hk
  obtain ⟨hrest, hdone⟩ := hi.filled hk hp
  refine ⟨fun hn => userPage_none (hrest hn), fun hn => ?_⟩
  by_cases hlent : ∃ addr, (m.proc e).fork = .mark envid addr true ∧ p = pageOf addr
  · -- the page is still shared with the parent
    obtain ⟨addr, hf, rfl⟩ := hlent
    have hok := hi.fork e
    rw [hf] at hok
    obtain ⟨hat, -, hlive⟩ := hok
    obtain ⟨w, w', hw, -, hw', hu', hpg⟩ := hlive rfl
    obtain ⟨v, hv, hu⟩ := hat.readable
    cases hw.symm.trans hv
    rw [userPage_some hw hu, userPage_some hw' hu', hpg]
    exact ⟨rfl, fun _ => rfl⟩
  · have hchild : m.kern.userPage (envx envid) p = E.mem (envx envid) p := hi.view _ p hp fun x hl => by
      obtain ⟨id, addr, hf, hx, rfl⟩ := hl
      have hcx : (m.proc x).fork.child = some id := by rw [hf]; rfl
      obtain rfl := hi.one x e id envid hcx hc hx
      cases hcx.symm.trans hc
      exact hlent ⟨addr, hf, rfl⟩
    rw [hi.parent_view hc hp, hchild]
    exact (hdone hn).resolve_right hlent p rfl

theorem fork_copies_page :
    (forkMarked.kern.userPage 1 (pageOf utext)).isSome = (forkMarked.kern.userPage 0 (pageOf utext)).isSome ∧
    forkMarked.kern.userPage 1 (pageOf (utext + pgsize)) = none := by
  obtain ⟨as, hrun⟩ := forkMarked_run
  obtain ⟨E, -, h⟩ := fork_copies bootState_booted forkStart_start hrun
  have hk : (forkMarked.proc 0).fork.filling = some (4097#32, pgnum (utext + pgsize)) := by decide +kernel
  exact ⟨((h 0 4097#32 _ (pageOf utext) (by unfold UPage.Forked; decide) hk).2 (by decide)).1,
    (h 0 4097#32 _ (pageOf (utext + pgsize)) (by unfold UPage.Forked; decide) hk).1 (by decide)⟩

end Jos
