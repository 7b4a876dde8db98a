/-
What a system call does to the records of the environments, in any state: each call writes at most
one record, and ends by returning, by giving up the CPU or in a panic. `Change` lists every record
a call can write, with the tests that were passed, so that later proofs never look into a call again.
-/
import Jos.Kern.Trap
import Jos.Sys.Records

namespace Jos

open Lib Kern

variable {s s' s'' : State} {cur e : Slot} {c : Call}

/-! ## Changes of a record -/

/-- The record of `e` is `v`, and the other records, the free slots, the CPUs and the lock are as before. -/
structure Upd (s s' : State) (e : Slot) (v : Env) : Prop extends Same s s' where
  envs : s'.envs = Function.update s.envs e v
  envFreeList : s'.envFreeList = s.envFreeList

/-- What a result `r` says of a call that did nothing to the records: a send reports an error, and so
does `sys_env_destroy`, which then found no environment. -/
def Call.Refused (s : State) (cur : Slot) (r : Int) : Call → Prop
  | .ipcTrySend _ _ _ _ => r ≠ 0
  | .envDestroy envid => r ≠ 0 ∧ s.resolve cur envid true = none
  | _ => True

/-- What call `c` of `cur`, with result `r`, does to the records. -/
inductive Change (s : State) (cur : Slot) : Call → Int → State → Prop where
  | rest {c : Call} {r : Int} {s' : State} (h : Rest s s') (hr : c.Refused s cur r) : Change s cur c r s'
  | setStatus {envid status : Word} {st : EnvStatus} {e : Slot} {s' : State} (hst : statusOfInt status = some st)
      (he : s.resolve cur envid true = some e) (h : Upd s s' e { s.envs e with envStatus := st }) :
      Change s cur (.envSetStatus envid status) 0 s'
  | setUpcall {envid func : Word} {e : Slot} {s' : State} (he : s.resolve cur envid true = some e)
      (h : Upd s s' e { s.envs e with envPgfaultUpcall := func }) : Change s cur (.envSetPgfaultUpcall envid func) 0 s'
  | dying {envid : Word} {e : Slot} {s' : State} (he : s.resolve cur envid true = some e)
      (hrun : (s.envs e).envStatus = .running) (hne : e ≠ cur) (h : Upd s s' e { s.envs e with envStatus := .dying }) :
      Change s cur (.envDestroy envid) 0 s'
  | freed {envid : Word} {e : Slot} {s' : State} (he : s.resolve cur envid true = some e)
      (hrun : (s.envs e).envStatus ≠ .running) (hne : e ≠ cur) (h : Same s s')
      (henvs : s'.envs = Function.update s.envs e (freedEnv s.envFreeList (s.envs e))) (hfree : s'.envFreeList = some e) :
      Change s cur (.envDestroy envid) 0 s'
  | spawned {e : Slot} {p : Nat} {s' : State} {r : Int} (hl : s.envFreeList = some e) (h : Same s s')
      (henvs : s'.envs = Function.update s.envs e (forkEnv
        (Function.update s.envs e (newEnv e (s.envs cur).envId { s.envs e with envPgdir := some p }) cur)
        (newEnv e (s.envs cur).envId { s.envs e with envPgdir := some p })))
      (hfree : s'.envFreeList = (s.envs e).envLink) : Change s cur .exofork r s'
  | delivered {envid value srcva perm newPerm : Word} {dst : Slot} {s' : State} (hd : s.resolve cur envid false = some dst)
      (hrecv : (s.envs dst).envIpcRecving = true) (hfrom : (s.envs dst).envIpcFrom = 0#32)
      (hperm : newPerm = (s.envs dst).envIpcPerm ∨ (srcva < utop ∧ (s.envs dst).envIpcDstva ≠ 0#32 ∧ newPerm = perm))
      (h : Upd s s' dst (ipcReceived (s.envs cur) value { s.envs dst with envIpcPerm := newPerm })) :
      Change s cur (.ipcTrySend envid value srcva perm) 0 s'

/-- What call `c` of `cur` did to the records before it gave up the CPU. -/
inductive Leaves (s : State) (cur : Slot) : Call → State → Prop where
  | yield : Leaves s cur .yield s
  | waiting {dstva : Word} : Leaves s cur (.ipcRecv dstva) (s.setEnv cur (ipcWaiting dstva (s.envs cur)))
  | destroyed {c : Call} {s' : State}
      (hself : (∃ envid, c = .envDestroy envid ∧ s.resolve cur envid true = some cur) ∨ ∃ str len, c = .cputs str len)
      (h : Same s s') (henvs : s'.envs = Function.update s.envs cur (freedEnv s.envFreeList (s.envs cur)))
      (hfree : s'.envFreeList = some cur) : Leaves s cur c (s'.setCurenv none)

/-- How a call ends. -/
inductive CallRes (s : State) (cur : Slot) (c : Call) : EStateM.Result Stop State Int → Prop where
  | returns (r : Int) (s' : State) (h : Change s cur c r s') : CallRes s cur c (.ok r s')
  | leaves (s₁ : State) (h : Leaves s cur c s₁) {x : Stop} {s' : State} (hy : schedYield.run s₁ = .error x s') :
      CallRes s cur c (.error x s')
  | panic (s' : State) (h : Same s s') : CallRes s cur c (.error .panic s')

/-! ## Quiet calls -/

theorem CallRes.of_quiet {x : Kern Int} (hx : Quiet x) (hc : ∀ r, c.Refused s cur r) : CallRes s cur c (x.run s) := by
  cases hr : x.run s with
  | ok r s' => exact .returns r s' (.rest (quiet_ok hx hr) (hc r))
  | error y s' =>
    obtain ⟨rfl, h⟩ := quiet_error hx hr
    exact .panic s' h.same

theorem quiet_envid2env (envid : Word) (checkperm : Bool) : Quiet (envid2env envid checkperm) := by
  refine quiet_get fun s => .ite (fun _ => quiet_pure _) fun _ => quiet_bind (quiet_env _) fun v =>
    .ite (fun _ => quiet_pure _) fun _ => .ite (fun _ => ?_) fun _ => quiet_pure _
  exact quiet_bind (quiet_deref _) fun _ => quiet_bind (quiet_env _) fun _ =>
    .ite (fun _ => quiet_pure _) fun _ => quiet_pure _

theorem quiet_sysPageAlloc (envid va perm : Word) : Quiet (sysPageAlloc envid va perm) := by
  refine .ite (fun _ => quiet_pure _) fun _ => .ite (fun _ => quiet_pure _) fun _ => .ite (fun _ => quiet_pure _) fun _ =>
    quiet_bind (quiet_envid2env _ _) fun re => .ite (fun _ => quiet_pure _) fun _ => quiet_bind (quiet_pageAlloc _) fun p => ?_
  cases p with
  | none => exact quiet_pure _
  | some p =>
    refine quiet_bind (quiet_deref _) fun _ => quiet_bind (quiet_env _) fun _ => quiet_bind (quiet_derefPage _) fun _ =>
      quiet_bind (quiet_pageInsert _ _ _ _) fun r => .ite (fun _ => ?_) fun _ => ?_
    · exact quiet_bind (quiet_pageFree _) fun _ => quiet_pure _
    · exact quiet_bind (quiet_kaddr _) fun _ => quiet_bind (quiet_zeroPage _) fun _ => quiet_pure _

theorem quiet_sysPageMap (srcenvid srcva dstenvid dstva perm : Word) :
    Quiet (sysPageMap srcenvid srcva dstenvid dstva perm) := by
  refine .ite (fun _ => quiet_pure _) fun _ => .ite (fun _ => quiet_pure _) fun _ => .ite (fun _ => quiet_pure _) fun _ =>
    quiet_bind (quiet_envid2env _ _) fun re => .ite (fun _ => quiet_pure _) fun _ =>
    quiet_bind (quiet_envid2env _ _) fun re' => .ite (fun _ => quiet_pure _) fun _ =>
    quiet_bind (quiet_deref _) fun _ => quiet_bind (quiet_env _) fun _ => quiet_bind (quiet_derefPage _) fun _ =>
    quiet_bind (quiet_pageLookup _ _) fun q => ?_
  rcases q with ⟨_ | p, _ | pte⟩
  · exact quiet_pure _
  · exact quiet_pure _
  · exact quiet_pure _
  · refine quiet_bind (quiet_load _) fun w => .ite (fun _ => quiet_pure _) fun _ =>
      quiet_bind (quiet_deref _) fun _ => quiet_bind (quiet_env _) fun _ => quiet_bind (quiet_derefPage _) fun _ =>
      quiet_bind (quiet_pageInsert _ _ _ _) fun r => .ite (fun _ => quiet_pure _) fun _ => quiet_pure _

theorem quiet_sysPageUnmap (envid va : Word) : Quiet (sysPageUnmap envid va) :=
  .ite (fun _ => quiet_pure _) fun _ => quiet_bind (quiet_envid2env _ _) fun _ => .ite (fun _ => quiet_pure _) fun _ =>
    quiet_bind (quiet_deref _) fun _ => quiet_bind (quiet_env _) fun _ => quiet_bind (quiet_derefPage _) fun _ =>
    quiet_bind (quiet_pageRemove _ _) fun _ => quiet_pure _

/-! ## Destroying -/

theorem upd_setEnv (s : State) (e : Slot) (v : Env) : Upd s (s.setEnv e v) e v := ⟨same_setEnv .., rfl, rfl⟩

theorem Upd.rest_left {v : Env} (h : Rest s s') (h' : Upd s' s'' e v) : Upd s s'' e v :=
  ⟨h.same.trans h'.toSame, by rw [h'.envs, h.envs], h'.envFreeList.trans h.envFreeList⟩

/-- `env_destroy` of the current environment frees it and yields. -/
theorem envDestroy_cur (hcur : s.curenv = some cur) :
    (∃ s' x s'', (envDestroy cur).run s = .error x s'' ∧ schedYield.run (s'.setCurenv none) = .error x s'' ∧ Same s s' ∧
      s'.envs = Function.update s.envs cur (freedEnv s.envFreeList (s.envs cur)) ∧ s'.envFreeList = some cur) ∨
    ∃ s', (envDestroy cur).run s = .error .panic s' ∧ Same s s' := by
  have hfree := envFree_res s cur
  unfold envDestroy
  rw [run_bind_ok (EStateM.run_get s), if_neg (fun h => h.2 hcur)]
  cases hr : (envFree cur).run s with
  | error y s' =>
    rw [hr] at hfree
    cases hfree with
    | panic s' h => exact Or.inr ⟨s', run_bind_error hr, h⟩
  | ok _ s' =>
    rw [hr] at hfree
    cases hfree with
    | done s' h henvs hl =>
      obtain ⟨x, s'', hy, -⟩ := schedYield_switched (s'.setCurenv none)
      refine Or.inl ⟨s', x, s'', ?_, hy, h, henvs, hl⟩
      rw [run_bind_ok hr, run_bind_ok (EStateM.run_get s'), if_pos (h.curenv.trans hcur)]
      exact hy

/-- `env_destroy` of another environment marks it as dying when it is running, and frees it otherwise. -/
theorem envDestroy_other (hcur : s.curenv = some cur) (hne : e ≠ cur) :
    ((s.envs e).envStatus = .running ∧
      (envDestroy e).run s = .ok () (s.setEnv e { s.envs e with envStatus := .dying })) ∨
    ((s.envs e).envStatus ≠ .running ∧ ∃ s', (envDestroy e).run s = .ok () s' ∧ Same s s' ∧
      s'.envs = Function.update s.envs e (freedEnv s.envFreeList (s.envs e)) ∧ s'.envFreeList = some e) ∨
    ∃ s', (envDestroy e).run s = .error .panic s' ∧ Same s s' := by
  have hce : s.curenv ≠ some e := by rw [hcur]; exact fun h => hne (Option.some.inj h).symm
  have hfree := envFree_res s e
  unfold envDestroy
  rw [run_bind_ok (EStateM.run_get s)]
  by_cases hrun : (s.envs e).envStatus = .running
  · rw [if_pos ⟨hrun, hce⟩]
    exact Or.inl ⟨hrun, rfl⟩
  · rw [if_neg (fun h => hrun h.1)]
    cases hr : (envFree e).run s with
    | error y s' =>
      rw [hr] at hfree
      cases hfree with
      | panic s' h => exact Or.inr (Or.inr ⟨s', run_bind_error hr, h⟩)
    | ok _ s' =>
      rw [hr] at hfree
      cases hfree with
      | done s' h henvs hl =>
        refine Or.inr (Or.inl ⟨hrun, s', ?_, h, henvs, hl⟩)
        rw [run_bind_ok hr, run_bind_ok (EStateM.run_get s'), if_neg (by rw [h.curenv]; exact hce)]
        rfl

theorem callRes_envDestroy (hcur : s.curenv = some cur) (envid : Word) :
    CallRes s cur (.envDestroy envid) ((sysEnvDestroy envid).run s) := by
  unfold sysEnvDestroy
  rw [run_bind_ok (run_envid2env hcur true)]
  cases hr : s.resolve cur envid true with
  | none => exact .returns _ s (.rest (.refl s) ⟨by decide, hr⟩)
  | some e =>
    dsimp only
    rw [if_neg (by decide), run_bind_ok (run_deref_some e)]
    by_cases he : e = cur
    · subst he
      rcases envDestroy_cur hcur with ⟨s', x, s'', hrun, hy, h, henvs, hl⟩ | ⟨s', hrun, h⟩
      · rw [run_bind_error hrun]
        exact .leaves _ (.destroyed (Or.inl ⟨_, rfl, hr⟩) h henvs hl) hy
      · rw [run_bind_error hrun]
        exact .panic s' h
    · rcases envDestroy_other hcur he with ⟨hst, hrun⟩ | ⟨hst, s', hrun, h, henvs, hl⟩ | ⟨s', hrun, h⟩
      · rw [run_bind_ok hrun]
        exact .returns 0 _ (.dying hr hst he (upd_setEnv ..))
      · rw [run_bind_ok hrun]
        exact .returns 0 s' (.freed hr hst he h henvs hl)
      · rw [run_bind_error hrun]
        exact .panic s' h

/-- A failed `user_mem_assert` of the current environment destroys it. -/
theorem callRes_cputs (hcur : s.curenv = some cur) (str len : Word) :
    CallRes s cur (.cputs str len) ((Call.cputs str len).exec.run s) := by
  show CallRes s cur _ ((sysCputs str len >>= fun _ => pure (0 : Int)).run s)
  unfold sysCputs userMemAssert
  rw [bind_assoc, run_bind_ok (EStateM.run_get s), hcur, bind_assoc, run_bind_ok (run_deref_some cur), bind_assoc, bind_assoc]
  cases hm : (userMemCheck cur str len (pteU ||| pteU)).run s with
  | error y s₁ =>
    obtain ⟨rfl, h⟩ := quiet_error (quiet_userMemCheck _ _ _ _) hm
    rw [run_bind_error hm]
    exact .panic s₁ h.same
  | ok r s₁ =>
    have h₁ := quiet_ok (quiet_userMemCheck _ _ _ _) hm
    rw [run_bind_ok hm]
    by_cases hneg : r < 0
    · rw [if_pos hneg]
      rcases envDestroy_cur (h₁.curenv.trans hcur) with ⟨s', x, s'', hrun, hy, h, henvs, hl⟩ | ⟨s', hrun, h⟩
      · rw [run_bind_error hrun]
        rw [h₁.envs, h₁.envFreeList] at henvs
        exact .leaves _ (.destroyed (Or.inr ⟨_, _, rfl⟩) (h₁.same.trans h) henvs hl) hy
      · rw [run_bind_error hrun]
        exact .panic s' (h₁.same.trans h)
    · rw [if_neg hneg, run_bind_ok (EStateM.run_pure _ _)]
      rcases cprintf_run len str s₁ with hp | hp
      · rw [run_bind_ok hp]
        exact .returns 0 s₁ (.rest h₁ trivial)
      · rw [run_bind_error hp]
        exact .panic s₁ h₁.same

/-! ## The other calls -/

theorem callRes_exofork (hcur : s.curenv = some cur) : CallRes s cur .exofork (sysExofork.run s) := by
  have halloc := envAlloc_res s (s.envs cur).envId
  unfold sysExofork
  rw [run_bind_ok (run_getenvid hcur)]
  cases hr : (envAlloc (s.envs cur).envId).run s with
  | error y s' =>
    rw [hr] at halloc
    cases halloc with
    | panic s' h =>
      rw [run_bind_error hr]
      exact .panic s' h.same
  | ok re s' =>
    rw [hr] at halloc
    rw [run_bind_ok hr]
    cases halloc with
    | fails r s' hneg h =>
      dsimp only
      rw [if_pos hneg]
      exact .returns r s' (.rest h trivial)
    | takes e p s' hl h henvs hfree =>
      dsimp only
      rw [if_neg (by decide), run_bind_ok (run_deref_some e), run_bind_ok (EStateM.run_get s'), h.curenv, hcur,
        run_bind_ok (run_deref_some cur), run_bind_ok (run_env cur), run_bind_ok (run_modifyEnv ..)]
      refine .returns _ _ (.spawned (p := p) hl (h.trans (same_setEnv ..)) ?_ hfree)
      show Function.update s'.envs e (forkEnv (s'.envs cur) (s'.envs e)) = _
      rw [henvs, Function.update_self, Function.update_idem]

theorem callRes_envSetStatus (hcur : s.curenv = some cur) (envid status : Word) :
    CallRes s cur (.envSetStatus envid status) ((sysEnvSetStatus envid status).run s) := by
  unfold sysEnvSetStatus
  cases hst : statusOfInt status with
  | none => exact .returns _ s (.rest (.refl s) trivial)
  | some st =>
    dsimp only
    rw [run_bind_ok (run_envid2env hcur true)]
    cases hr : s.resolve cur envid true with
    | none => exact .returns _ s (.rest (.refl s) trivial)
    | some e =>
      dsimp only
      rw [if_neg (by decide), run_bind_ok (run_deref_some e), run_bind_ok (run_modifyEnv ..)]
      exact .returns 0 _ (.setStatus hst hr (upd_setEnv ..))

theorem callRes_envSetPgfaultUpcall (hcur : s.curenv = some cur) (envid func : Word) :
    CallRes s cur (.envSetPgfaultUpcall envid func) ((sysEnvSetPgfaultUpcall envid func).run s) := by
  unfold sysEnvSetPgfaultUpcall
  rw [run_bind_ok (run_envid2env hcur true)]
  cases hr : s.resolve cur envid true with
  | none => exact .returns _ s (.rest (.refl s) trivial)
  | some e =>
    dsimp only
    rw [if_neg (by decide), run_bind_ok (run_deref_some e), run_bind_ok (run_modifyEnv ..)]
    exact .returns 0 _ (.setUpcall hr (upd_setEnv ..))

theorem callRes_ipcRecv (hcur : s.curenv = some cur) (dstva : Word) :
    CallRes s cur (.ipcRecv dstva) ((sysIpcRecv dstva).run s) := by
  unfold sysIpcRecv
  by_cases hva : dstva < utop ∧ rounddown dstva pgsize ≠ dstva
  · rw [if_pos hva]
    exact .returns _ s (.rest (.refl s) trivial)
  · rw [if_neg hva, run_bind_ok (EStateM.run_get s), hcur, run_bind_ok (run_deref_some cur), run_bind_ok (run_modifyEnv ..)]
    obtain ⟨x, s', hy, -⟩ := schedYield_switched (s.setEnv cur (ipcWaiting dstva (s.envs cur)))
    rw [run_bind_error hy]
    exact .leaves _ .waiting hy

theorem callRes_yield : CallRes s cur .yield (Call.yield.exec.run s) := by
  obtain ⟨x, s', hy, -⟩ := schedYield_switched s
  have hrun : Call.yield.exec.run s = .error x s' := run_bind_error hy
  rw [hrun]
  exact .leaves s .yield hy

/-! ## Sending -/

section Send

variable {envid value srcva perm : Word} {dst : Slot}

theorem refused_send {r : Int} (h : r ≠ 0) : (Call.ipcTrySend envid value srcva perm).Refused s cur r := h

/-- The end of a send, when the page has been dealt with. -/
theorem callRes_deliver (hcur : s.curenv = some cur) (hd : s.resolve cur envid false = some dst)
    (hrecv : (s.envs dst).envIpcRecving = true) (hfrom : (s.envs dst).envIpcFrom = 0#32) {newPerm : Word}
    (hperm : newPerm = (s.envs dst).envIpcPerm ∨ (srcva < utop ∧ (s.envs dst).envIpcDstva ≠ 0#32 ∧ newPerm = perm))
    (h : Upd s s' dst { s.envs dst with envIpcPerm := newPerm }) :
    CallRes s cur (.ipcTrySend envid value srcva perm) ((ipcDeliver dst value).run s') := by
  have hid : (s'.envs cur).envId = (s.envs cur).envId := by
    rw [h.envs, Function.update_apply]
    split
    · rename_i he; rw [he]
    · rfl
  unfold ipcDeliver
  rw [run_bind_ok (EStateM.run_get s'), h.toSame.curenv, hcur, run_bind_ok (run_deref_some cur), run_bind_ok (run_env cur),
    run_bind_ok (run_modifyEnv ..)]
  refine .returns 0 _ (.delivered hd hrecv hfrom hperm ⟨h.toSame.trans (same_setEnv ..), ?_, h.envFreeList⟩)
  show Function.update s'.envs dst (ipcReceived (s'.envs cur) value (s'.envs dst)) = _
  rw [h.envs, Function.update_self, Function.update_idem, ← h.envs]
  unfold ipcReceived
  rw [hid]

/-- A record written back as it was. -/
theorem Upd.of_rest (h : Rest s s') (e : Slot) : Upd s s' e (s.envs e) :=
  ⟨h.same, by rw [h.envs, Function.update_eq_self], h.envFreeList⟩

/-- The part of a send that maps a page of the sender. -/
theorem callRes_sendPage (hcur : s.curenv = some cur) (hd : s.resolve cur envid false = some dst)
    (hrecv : (s.envs dst).envIpcRecving = true) (hfrom : (s.envs dst).envIpcFrom = 0#32) (hva : srcva < utop)
    (hrest : Rest s s') (p : Nat) (pte : Nat × Idx) :
    CallRes s cur (.ipcTrySend envid value srcva perm) ((do
      if (← load pte) &&& pteW = 0#32 ∧ 0 < (perm &&& pteW).toNat then
        return -eInval
      if (s.envs dst).envIpcDstva ≠ 0#32 then
        let dstPgdir ← derefPage (s.envs dst).envPgdir
        let r ← pageInsert dstPgdir p (s.envs dst).envIpcDstva perm
        if r < 0 then
          return -eNoMem
        modifyEnv dst fun v => { v with envIpcPerm := perm }
      ipcDeliver dst value : Kern Int).run s') := by
  rw [run_bind_ok (run_load _)]
  by_cases hw : s'.mem pte.1 pte.2 &&& pteW = 0#32 ∧ 0 < (perm &&& pteW).toNat
  · rw [if_pos hw]
    exact .returns _ s' (.rest hrest (refused_send (by decide)))
  rw [if_neg hw]
  by_cases hdst : (s.envs dst).envIpcDstva ≠ 0#32
  · rw [if_pos hdst]
    cases hp : (derefPage (s.envs dst).envPgdir).run s' with
    | error y s₁ =>
      obtain ⟨rfl, h₁⟩ := quiet_error (quiet_derefPage _) hp
      rw [run_bind_error hp]
      exact .panic s₁ (hrest.trans h₁).same
    | ok d s₁ =>
      have h₁ := hrest.trans (quiet_ok (quiet_derefPage _) hp)
      rw [run_bind_ok hp]
      cases hi : (pageInsert d p (s.envs dst).envIpcDstva perm).run s₁ with
      | error y s₂ =>
        obtain ⟨rfl, h₂⟩ := quiet_error (quiet_pageInsert _ _ _ _) hi
        rw [run_bind_error hi]
        exact .panic s₂ (h₁.trans h₂).same
      | ok r s₂ =>
        have h₂ := h₁.trans (quiet_ok (quiet_pageInsert _ _ _ _) hi)
        rw [run_bind_ok hi]
        by_cases hneg : r < 0
        · rw [if_pos hneg]
          exact .returns _ s₂ (.rest h₂ (refused_send (by decide)))
        · rw [if_neg hneg, run_bind_ok (run_modifyEnv ..)]
          refine callRes_deliver hcur hd hrecv hfrom (Or.inr ⟨hva, hdst, rfl⟩) (.rest_left h₂ ?_)
          rw [h₂.envs]
          exact upd_setEnv ..
  · rw [if_neg hdst]
    exact callRes_deliver hcur hd hrecv hfrom (Or.inl rfl) (.of_rest hrest dst)

theorem callRes_ipcTrySend (hcur : s.curenv = some cur) (envid value srcva perm : Word) :
    CallRes s cur (.ipcTrySend envid value srcva perm) ((sysIpcTrySend envid value srcva perm).run s) := by
  unfold sysIpcTrySend
  rw [run_bind_ok (run_envid2env hcur false)]
  cases hr : s.resolve cur envid false with
  | none => exact .returns _ s (.rest (.refl s) (refused_send (by decide)))
  | some dst =>
    dsimp only
    rw [if_neg (by decide), run_bind_ok (run_deref_some dst), run_bind_ok (run_env dst)]
    by_cases hrecv : (s.envs dst).envIpcRecving = false ∨ (s.envs dst).envIpcFrom ≠ 0#32
    · rw [if_pos hrecv]
      exact .returns _ s (.rest (.refl s) (refused_send (by decide)))
    rw [if_neg hrecv]
    rw [not_or, not_not, Bool.not_eq_false] at hrecv
    -- an address below `UTOP` stands for a page and is checked, any other one is not looked at
    by_cases hva : srcva < utop
    · rw [if_pos hva]
      by_cases h1 : rounddown srcva pgsize ≠ srcva
      · rw [if_pos h1]
        exact .returns _ s (.rest (.refl s) (refused_send (by decide)))
      rw [if_neg h1]
      by_cases h2 : permUnset perm
      · rw [if_pos h2]
        exact .returns _ s (.rest (.refl s) (refused_send (by decide)))
      rw [if_neg h2]
      by_cases h3 : 0 < (perm &&& ~~~pteUser).toNat
      · rw [if_pos h3]
        exact .returns _ s (.rest (.refl s) (refused_send (by decide)))
      rw [if_neg h3, run_bind_ok (EStateM.run_get s), hcur, run_bind_ok (run_deref_some cur), run_bind_ok (run_env cur)]
      cases hp : (derefPage (s.envs cur).envPgdir).run s with
      | error y s₁ =>
        obtain ⟨rfl, h₁⟩ := quiet_error (quiet_derefPage _) hp
        rw [run_bind_error hp]
        exact .panic s₁ h₁.same
      | ok d s₁ =>
        have h₁ := quiet_ok (quiet_derefPage _) hp
        rw [run_bind_ok hp]
        cases hl : (pageLookup d srcva).run s₁ with
        | error y s₂ =>
          obtain ⟨rfl, h₂⟩ := quiet_error (quiet_pageLookup _ _) hl
          rw [run_bind_error hl]
          exact .panic s₂ (h₁.trans h₂).same
        | ok q s₂ =>
          have h₂ := h₁.trans (quiet_ok (quiet_pageLookup _ _) hl)
          rw [run_bind_ok hl]
          rcases q with ⟨_ | p, _ | pte⟩
          · exact .returns _ s₂ (.rest h₂ (refused_send (by decide)))
          · exact .returns _ s₂ (.rest h₂ (refused_send (by decide)))
          · exact .returns _ s₂ (.rest h₂ (refused_send (by decide)))
          · exact callRes_sendPage hcur hr hrecv.1 hrecv.2 hva h₂ p pte
    · rw [if_neg hva]
      exact callRes_deliver hcur hr hrecv.1 hrecv.2 (Or.inl rfl) (.of_rest (.refl s) dst)

end Send

/-- What a call of the current environment does to the records, and how it ends. -/
theorem call_res (hcur : s.curenv = some cur) (c : Call) : CallRes s cur c (c.exec.run s) := by
  cases c with
  | cputs str len => exact callRes_cputs hcur str len
  | cgetc r => exact .returns r s (.rest (.refl s) trivial)
  | getenvid =>
    refine .of_quiet ?_ fun _ => trivial
    exact quiet_bind (quiet_get fun _ => quiet_bind (quiet_deref _) fun _ => quiet_bind (quiet_env _) fun _ =>
      quiet_pure _) fun _ => quiet_pure _
  | envDestroy envid => exact callRes_envDestroy hcur envid
  | yield => exact callRes_yield
  | exofork => exact callRes_exofork hcur
  | envSetStatus envid status => exact callRes_envSetStatus hcur envid status
  | envSetPgfaultUpcall envid func => exact callRes_envSetPgfaultUpcall hcur envid func
  | pageAlloc envid va perm => exact .of_quiet (quiet_sysPageAlloc envid va perm) fun _ => trivial
  | pageMap srcenvid srcva dstenvid dstva perm =>
    exact .of_quiet (quiet_sysPageMap srcenvid srcva dstenvid dstva perm) fun _ => trivial
  | pageUnmap envid va => exact .of_quiet (quiet_sysPageUnmap envid va) fun _ => trivial
  | ipcTrySend envid value srcva perm => exact callRes_ipcTrySend hcur envid value srcva perm
  | ipcRecv dstva => exact callRes_ipcRecv hcur dstva

end Jos
