/-
What the system calls that `fork` and `pgfault` make do to the pages of all environments, from a state in which the invariant
of the address spaces holds: a page is mapped, a record changes, or an empty environment appears; the contents of pages in use
stay.
-/
import Jos.User.Fork

namespace Jos

open Lib Kern

variable {b s s' : State} {M l : List Nat} {le : List Slot} {e d : Slot} {p q : UPage} {c : Call} {cpu : Cpu} {r : Int}

/-! ## Pages -/

theorem num_pageOf (va : Word) : (pageOf va).num = pgnum va := (pgnum_eq_idx va).symm

theorem UPage.num_inj {p q : UPage} (h : p.num = q.num) : p = q := by
  unfold UPage.num at h
  have hp := p.2.isLt
  have hq := q.2.isLt
  exact Prod.ext (Fin.ext (by omega)) (Fin.ext (by omega))

theorem pftemp_not_own : ¬ (pageOf pftemp).Own := by
  unfold UPage.Own UPage.Forked
  rw [num_pageOf]
  decide

theorem xstack_not_forked : ¬ (pageOf xstack).Forked := by
  unfold UPage.Forked
  rw [num_pageOf]
  decide

theorem UPage.Own.ne_pftemp (h : p.Own) : p ≠ pageOf pftemp := by
  rintro rfl
  exact pftemp_not_own h

theorem permRW_low : LowPerm permRW := by decide
theorem permCow_low : LowPerm permCow := by decide
theorem permRO_low : LowPerm permRO := by decide

theorem userPage_eq_some {x : Idx → Word} : s.userPage e p = some x ↔
    ∃ w, s.vpt e p = some w ∧ w &&& pteU ≠ 0#32 ∧ s.mem (pgnum w) = x := by
  unfold State.userPage
  cases s.vpt e p with
  | none => simp
  | some w =>
    by_cases hu : w &&& pteU = 0#32
    · simp [hu]
    · simp [hu]

theorem userPage_some {w : Word} (h : s.vpt e p = some w) (hu : w &&& pteU ≠ 0#32) :
    s.userPage e p = some (s.mem (pgnum w)) := userPage_eq_some.2 ⟨w, h, hu, rfl⟩

theorem userPage_none (h : s.vpt e p = none) : s.userPage e p = none := by unfold State.userPage; rw [h]

/-- The view of a page that is mapped as it was, with its contents. -/
theorem userPage_congr (hv : s'.vpt e p = s.vpt e p) (hm : ∀ w, s.vpt e p = some w → s'.mem (pgnum w) = s.mem (pgnum w)) :
    s'.userPage e p = s.userPage e p := by
  unfold State.userPage
  rw [hv]
  cases hw : s.vpt e p with
  | none => rfl
  | some w => dsimp only; rw [hm w hw]

/-- A mapping lies in memory, on a page that the allocator manages and that is no table. -/
theorem Sane.leaf (h : Sane b M s) {w : Word} (hw : s.vpt e p = some w) :
    pgnum w ∈ M ∧ ¬ s.Struct (pgnum w) ∧ pgnum w < s.npages := by
  obtain ⟨⟨l, le, hi⟩, hg⟩ := h
  have hlt : ¬ s.npages ≤ pgnum w := fun hge => hg e ⟨p.1, p.2, w, hw, hge⟩
  obtain ⟨hM, hns⟩ := (hi.leafM e p.1 p.2 w hw).resolve_right hlt
  exact ⟨hM, hns, not_le.1 hlt⟩

theorem Sane.enter (h : Sane b M s) (he : (s.envs e).envStatus ≠ .free) (cpu : Cpu) :
    ∃ l le, InCall (· = ·) b M (s.enter cpu e) l le e := by
  obtain ⟨⟨l, le, hi⟩, -⟩ := h
  exact ⟨l, le, .enter hi he cpu⟩

/-- What a call leaves behind keeps the invariant, if what it maps has room. -/
theorem Called.sane {ev : Event} (h : Called b M (· = ·) s l e c s' ev) (hg : Genuine s) (hM : ∀ f ∈ M, f < s.npages)
    (hroom : c.Room s e) (hlow : ∀ e pp va perm, ev = .inserted e pp va perm → LowPerm perm) : Sane b M s' := by
  obtain ⟨l', le', hv, ht, hc⟩ := h.inv
  exact sane_of hv ht (hc hroom) (h.genuine hg hM hlow)

/-! ## A page is mapped -/

/-- Page `q` of `d` is mapped to frame `f`, and everything else is as it was. -/
structure MapsPage (b : State) (M : List Nat) (s s' : State) (d : Slot) (q : UPage) (f : Nat) (perm : Word) : Prop where
  sane : Sane b M s'
  frame : pgnum (entry f perm) = f
  vpt : ∀ e p, s'.vpt e p = if e = d ∧ p = q then some (entry f perm) else s.vpt e p
  mem : ∀ e p w, s.vpt e p = some w → s'.mem (pgnum w) = s.mem (pgnum w)
  envs : s'.envs = s.envs

theorem Called.mapsPage {pp : Nat} {va perm : Word}
    (h : Called b M (· = ·) (s.enter cpu e) l e c s' (.inserted d pp va perm)) (hs : Sane b M s)
    (hi : InCall (· = ·) b M (s.enter cpu e) l le e) (hr : Rest (s.enter cpu e) s') (hroom : c.Room (s.enter cpu e) e)
    (hlow : LowPerm perm) : MapsPage b M s s' d (pageOf va) pp perm := by
  have hpp := (h.new _ _ _ _ rfl).1
  refine ⟨h.sane hs.2 hi.managed hroom ?_, pgnum_entry_low (hi.toTables.lt_pow hpp) hlow, fun e' p' => ?_, fun e' p' w hw => ?_,
    hr.envs⟩
  · rintro _ _ _ _ ⟨⟩
    exact hlow
  · unfold State.vpt
    rw [h.pte]
    simp only [Event.apply, pageOf, Prod.ext_iff]
    rfl
  · refine h.data _ (fun hl => ?_) (hs.leaf hw).2.1
    exact hi.freeCell _ hl (.leaf e' p'.1 p'.2) (cell_leaf_eq_some.2 ⟨w, hw, rfl⟩)

/-- `sys_page_map` fails without a change, or maps the page. -/
theorem pageMap_maps (hs : Sane b M s) (he : (s.envs e).envStatus ≠ .free) {srcenvid srcva dstenvid dstva perm : Word}
    (hlow : LowPerm perm) (hroom : (Call.pageMap srcenvid srcva dstenvid dstva perm).Room (s.enter cpu e) e)
    (hrun : (Call.pageMap srcenvid srcva dstenvid dstva perm).exec.run (s.enter cpu e) = .ok r s') :
    (r < 0 ∧ s' = s.enter cpu e) ∨ r = 0 ∧ ∃ src dst w, s.resolve e srcenvid true = some src ∧
      s.resolve e dstenvid true = some dst ∧ s.vpt src (pageOf srcva) = some w ∧
          MapsPage b M s s' dst (pageOf dstva) (pgnum w) perm := by
  obtain ⟨l, le, hi⟩ := hs.enter he cpu
  have hrun' : (sysPageMap srcenvid srcva dstenvid dstva perm).run (s.enter cpu e) = .ok r s' := hrun
  rcases pageMap_cases countRel_eq hi srcenvid srcva dstenvid dstva perm (Or.inr (msb_low hlow)) with
    ⟨r', hr', h⟩ | ⟨s₁, h, -⟩ | ⟨dst, pp, s₁, h, hm, hcalled, hrest⟩
  · cases h.symm.trans hrun'
    exact Or.inl ⟨hr', rfl⟩
  · cases h.symm.trans hrun'
  · cases h.symm.trans hrun'
    cases hm with
    | pageMap _ _ _ hsrc hdst hw _ =>
      exact Or.inr ⟨rfl, _, _, _, hsrc, hdst, hw, hcalled.mapsPage hs hi hrest hroom hlow⟩

/-- `sys_page_alloc` fails without a change, or maps a page that was mapped nowhere. -/
theorem pageAlloc_maps (hs : Sane b M s) (he : (s.envs e).envStatus ≠ .free) {envid va perm : Word} (hlow : LowPerm perm)
    (hrun : (Call.pageAlloc envid va perm).exec.run (s.enter cpu e) = .ok r s') :
    (r < 0 ∧ s' = s.enter cpu e) ∨ r = 0 ∧ ∃ dst f, s.resolve e envid true = some dst ∧
      (∀ e' p' w, s.vpt e' p' = some w → pgnum w ≠ f) ∧ MapsPage b M s s' dst (pageOf va) f perm := by
  obtain ⟨l, le, hi⟩ := hs.enter he cpu
  have hrun' : (sysPageAlloc envid va perm).run (s.enter cpu e) = .ok r s' := hrun
  rcases pageAlloc_cases countRel_eq hi envid va perm (Or.inr (msb_low hlow)) with
    ⟨r', hr', h⟩ | ⟨s₁, h, -⟩ | ⟨dst, f, s₁, h, hres, hfl, hcalled, hrest⟩
  · cases h.symm.trans hrun'
    exact Or.inl ⟨hr', rfl⟩
  · cases h.symm.trans hrun'
  · cases h.symm.trans hrun'
    refine Or.inr ⟨rfl, dst, f, hres, fun e' p' w hw hf => ?_, hcalled.mapsPage hs hi hrest nofun hlow⟩
    exact hi.freeCell f hfl (.leaf e' p'.1 p'.2) (cell_leaf_eq_some.2 ⟨w, hw, hf⟩)

/-! ## A record changes -/

/-- The record of `d` changes, other than in its id, its parent and its directory. -/
structure SetsRecord (b : State) (M : List Nat) (s s' : State) (d : Slot) : Prop where
  sane : Sane b M s'
  vpt : s'.vpt = s.vpt
  mem : s'.mem = s.mem
  id : ∀ e, (s'.envs e).envId = (s.envs e).envId
  status : ∀ e, e ≠ d → (s'.envs e).envStatus = (s.envs e).envStatus

theorem Sane.setsRecord (hs : Sane b M s) {v : Env} (hlive : (s.envs d).envStatus ≠ .free) (hv : v.envStatus ≠ .free)
    (hd : v.envPgdir = (s.envs d).envPgdir) (hl : v.envLink = (s.envs d).envLink) (hid : v.envId = (s.envs d).envId) :
    SetsRecord b M s ((s.enter cpu e).setEnv d v) d := by
  have hs' : Sane b M (s.enter cpu e) := hs.congr rfl rfl rfl rfl rfl rfl rfl
  refine ⟨hs'.setEnv hlive hv hd hl, ?_, rfl, fun e' => ?_, fun e' hne => ?_⟩
  · have hpte : ((s.enter cpu e).setEnv d v).pte = s.pte := pte_congr rfl (dir_setEnv (s := s.enter cpu e) hlive hv hd)
    funext e' p'
    unfold State.vpt
    rw [hpte]
  · rw [envs_setEnv]
    split
    · rename_i h; rw [h, hid]
    · rfl
  · rw [envs_setEnv, if_neg hne]
    rfl

theorem run_envid2env_enter (s : State) (cpu : Cpu) (e : Slot) (envid : Word) :
    (envid2env envid true).run (s.enter cpu e) =
      .ok (match s.resolve e envid true with | some d => (0, some d) | none => (-eBadEnv, none)) (s.enter cpu e) :=
  run_envid2env (by simp [State.curenv, State.enter, State.setCurenv, State.setCpu]) true

theorem setUpcall_sets (hs : Sane b M s) (he : (s.envs e).envStatus ≠ .free) {envid func : Word}
    (hrun : (Call.envSetPgfaultUpcall envid func).exec.run (s.enter cpu e) = .ok r s') :
    s' = s.enter cpu e ∨ ∃ d, s.resolve e envid true = some d ∧ SetsRecord b M s s' d ∧
      ∀ x, (s'.envs x).envStatus = (s.envs x).envStatus := by
  have hrun' : (sysEnvSetPgfaultUpcall envid func).run (s.enter cpu e) = .ok r s' := hrun
  unfold sysEnvSetPgfaultUpcall at hrun'
  rw [run_bind_ok (run_envid2env_enter s cpu e envid)] at hrun'
  cases hr : s.resolve e envid true with
  | none =>
    rw [hr] at hrun'
    cases hrun'
    exact Or.inl rfl
  | some d =>
    rw [hr] at hrun'
    have hlive := resolve_live hr he
    dsimp only at hrun'
    rw [if_neg (by decide), run_bind_ok (run_deref_some d), run_bind_ok (run_modifyEnv ..)] at hrun'
    cases hrun'
    refine Or.inr ⟨d, rfl, hs.setsRecord hlive hlive rfl rfl rfl, fun x => ?_⟩
    rw [envs_setEnv]
    split
    · rename_i hx; rw [hx]; rfl
    · rfl

theorem setStatus_sets (hs : Sane b M s) (he : (s.envs e).envStatus ≠ .free) {envid status : Word}
    (hrun : (Call.envSetStatus envid status).exec.run (s.enter cpu e) = .ok r s') :
    s' = s.enter cpu e ∧ r < 0 ∨ ∃ d, s.resolve e envid true = some d ∧ SetsRecord b M s s' d ∧ 0 ≤ r := by
  have hrun' : (sysEnvSetStatus envid status).run (s.enter cpu e) = .ok r s' := hrun
  unfold sysEnvSetStatus at hrun'
  split at hrun'
  · cases hrun'
    exact Or.inl ⟨rfl, by decide⟩
  rename_i st hst
  rw [run_bind_ok (run_envid2env_enter s cpu e envid)] at hrun'
  cases hr : s.resolve e envid true with
  | none =>
    rw [hr] at hrun'
    cases hrun'
    exact Or.inl ⟨rfl, by decide⟩
  | some d =>
    rw [hr] at hrun'
    have hlive := resolve_live hr he
    dsimp only at hrun'
    rw [if_neg (by decide), run_bind_ok (run_deref_some d), run_bind_ok (run_modifyEnv ..)] at hrun'
    cases hrun'
    exact Or.inr ⟨d, rfl, hs.setsRecord hlive (statusOfInt_live hst) rfl rfl rfl, le_refl _⟩

/-! ## A child -/

theorem newId_low (id : Word) (e : Slot) : (envGeneration id ||| BitVec.ofNat 32 e.val) &&& 1023#32 = BitVec.ofNat 32 e.val := by
  have hg : envGeneration id &&& 1023#32 = 0#32 := by
    unfold envGeneration
    dsimp only
    split
    · decide
    · rw [BitVec.and_assoc, BitVec.not_and_self]
      exact BitVec.and_zero
  have he : BitVec.ofNat 32 e.val &&& 1023#32 = BitVec.ofNat 32 e.val := by
    have hlt : e.val < 1024 := e.isLt
    apply BitVec.eq_of_toNat_eq
    rw [BitVec.toNat_and, BitVec.toNat_ofNat, show (1023#32).toNat = 2 ^ 10 - 1 from rfl, Nat.and_two_pow_sub_one_eq_mod]
    omega
  rw [BitVec.and_or_distrib_right, hg, he, BitVec.zero_or]

/-- The id that `env_alloc` makes names the slot. -/
theorem envx_newId (id : Word) (e : Slot) : envx (envGeneration id ||| BitVec.ofNat 32 e.val) = e := by
  have he : e.val < 1024 := e.isLt
  unfold envx
  rw [newId_low]
  apply Fin.ext
  rw [Fin.val_ofNat, BitVec.toNat_ofNat]
  show e.val % 2 ^ 32 % 1024 = _
  omega

theorem envGeneration_ne_zero (id : Word) : envGeneration id ≠ 0#32 := by
  unfold envGeneration
  dsimp only
  split
  · decide
  · rename_i h
    intro h0
    exact h (by rw [h0]; decide)

theorem newId_ne_zero (id : Word) (e : Slot) : envGeneration id ||| BitVec.ofNat 32 e.val ≠ 0#32 := by
  intro h
  exact envGeneration_ne_zero id (BitVec.or_eq_zero_iff.1 h).1

theorem newId_nonneg (id : Word) (e : Slot) : ¬ (envGeneration id ||| BitVec.ofNat 32 e.val).toInt < 0 := by
  have hg : (envGeneration id).msb = false := by
    rw [BitVec.msb_eq_toInt]
    unfold envGeneration
    dsimp only
    split
    · decide
    · rename_i h
      rw [decide_eq_false_iff_not]
      omega
  have he : (BitVec.ofNat 32 e.val).msb = false := by
    have hlt : e.val < 1024 := e.isLt
    rw [BitVec.msb_eq_toNat, BitVec.toNat_ofNat, decide_eq_false_iff_not]
    omega
  have hor : (envGeneration id ||| BitVec.ofNat 32 e.val).msb = false := by rw [BitVec.msb_or, hg, he]; rfl
  rw [BitVec.msb_eq_toInt, decide_eq_false_iff_not] at hor
  exact hor

/-- Slot `d` was free and has an environment now that does not run yet and has no pages. -/
structure Forks (b : State) (M : List Nat) (s s' : State) (d : Slot) (r : Int) : Prop where
  sane : Sane b M s'
  wasFree : (s.envs d).envStatus = .free
  vpt : s'.vpt = s.vpt
  none : ∀ p, s'.vpt d p = none
  mem : ∀ e p w, s.vpt e p = some w → s'.mem (pgnum w) = s.mem (pgnum w)
  envs : ∀ e, e ≠ d → s'.envs e = s.envs e
  status : (s'.envs d).envStatus = .notRunnable
  id : (s'.envs d).envId = BitVec.ofInt 32 r
  envx : envx (BitVec.ofInt 32 r) = d
  idNe : BitVec.ofInt 32 r ≠ 0#32
  nonneg : ¬ r < 0

theorem exofork_forks (hs : Sane b M s) (he : (s.envs e).envStatus ≠ .free)
    (hrun : Call.exofork.exec.run (s.enter cpu e) = .ok r s') :
    (r < 0 ∧ s' = s.enter cpu e) ∨ ∃ d, Forks b M s s' d r := by
  obtain ⟨l, le, hi⟩ := hs.enter he cpu
  have hrun' : sysExofork.run (s.enter cpu e) = .ok r s' := hrun
  rcases exofork_cases countRel_eq hi with ⟨r', hr', h⟩ | ⟨d, n, s₁, hfree, henvs, h, hcalled⟩
  · cases h.symm.trans hrun'
    exact Or.inl ⟨hr', rfl⟩
  · cases h.symm.trans hrun'
    have hd : s'.envs d = forkEnv ((s.enter cpu e).envs e)
        (newEnv d ((s.enter cpu e).envs e).envId { (s.enter cpu e).envs d with envPgdir := some n }) := by
      rw [henvs, Function.update_self]
    have hid : (s'.envs d).envId = envGeneration (s.envs d).envId ||| BitVec.ofNat 32 d.val := by rw [hd]; rfl
    have hback : BitVec.ofInt 32 (s'.envs d).envId.toInt = (s'.envs d).envId := BitVec.ofInt_toInt ..
    have hnone : ∀ p, s.vpt d p = none := fun p => pte_of_no_dir (dir_free hfree) p.1 p.2
    have hvpt : ∀ e' p, s'.vpt e' p = s.vpt e' p := by
      intro e' p
      unfold State.vpt
      rw [hcalled.pte]
      show (if e' = d then _ else s.pte e' p.1 p.2) = _
      split
      · rename_i h; rw [h]; exact (hnone p).symm
      · rfl
    refine Or.inr ⟨d, hcalled.sane hs.2 hi.managed nofun nofun, hfree, funext fun e' => funext fun p => hvpt e' p,
      fun p => (hvpt d p).trans (hnone p), fun e' p w hw => ?_, fun e' hne => ?_, by rw [hd]; rfl, by rw [hback], ?_, ?_, ?_⟩
    · refine hcalled.data _ (fun hl => ?_) (hs.leaf hw).2.1
      exact hi.freeCell _ hl (.leaf e' p.1 p.2) (cell_leaf_eq_some.2 ⟨w, hw, rfl⟩)
    · rw [henvs, Function.update_of_ne hne]
      rfl
    · rw [hback, hid]
      exact envx_newId ..
    · rw [hback, hid]
      exact newId_ne_zero _ d
    · rw [hid]
      exact newId_nonneg _ d

end Jos
