/-
The IPC library of user programs, lib/ipc.c. `ipc_recv` passes `UTOP` for a page address and the null
pointer when it wants no page, the wrong way round; messages come through as documented as long as
no message offers a page to a receiver that wants one.
-/
import Jos.Run.Mailbox
import Jos.Run.FlatMap
import Jos.Sys.Authority

namespace Jos

open Lib Kern

variable {s s' s₀ s₁ : State} {cur e r : Slot} {k : Cpu} {a : Sect} {tr : List IpcEvent} {tf : Trapframe} {c : Call}

/-! ## The library -/

/-- The argument of `sys_ipc_recv` in `ipc_recv(from_env_store, pg, perm_store)`. -/
def recvVa (pg : Word) : Word := if pg ≠ 0#32 then utop else pg

/-- The argument of `sys_ipc_try_send` in `ipc_send(to_env, val, pg, perm)`. -/
def sendVa (pg : Word) : Word := if pg ≠ 0#32 then pg else utop

/-- What `ipc_recv` returns and stores in `*from_env_store` and `*perm_store`, from the result of
`sys_ipc_recv` and the record of its environment. -/
def ipcRecvResult (r : Word) (v : Env) : Word × Word × Word :=
  if r.toInt < 0 then (r, 0#32, 0#32) else (v.envIpcValue, v.envIpcFrom, v.envIpcPerm)

/-- The calls are those of the library, and a message that offers a page finds a receiver that was
called without one. -/
def Paired (tr : List IpcEvent) (s : State) (a : Sect) : Prop :=
  Gentle tr s a ∧
  match a with
  | .trap k _ _ (.ipcTrySend envid _ srcva _) => ∃ pg, pg < utop ∧ srcva = sendVa pg ∧
    (pg ≠ 0#32 → ∀ cur e, (s.cpus k).cpuEnv = some cur → s.resolve cur envid false = some e →
      (s.envs e).envIpcRecving = true → (s.envs e).envIpcDstva = recvVa 0#32)
  | .trap _ _ _ (.ipcRecv dstva) => ∃ pg, pg < utop ∧ dstva = recvVa pg
  | _ => True

theorem sendVa_lt {pg : Word} (h : sendVa pg < utop) : pg ≠ 0#32 := by
  rintro rfl
  exact absurd h (by decide)

/-- A turn of `ipc_send(to_env, val, 0, perm)`: when the receiver waits, it goes on and its `ipc_recv` has the value; otherwise
nothing changes and the loop takes another turn. -/
theorem ipcSend_meets {envid value perm : Word} (hcur : s.curenv = some cur) (he : s.resolve cur envid false = some e) :
    if (s.envs e).envIpcRecving = true ∧ (s.envs e).envIpcFrom = 0#32 then
      ∃ s', (sysIpcTrySend envid value (sendVa 0#32) perm).run s = .ok 0 s' ∧ (s'.envs e).envStatus = .runnable ∧
        ipcRecvResult (s'.envs e).envTf.tfRegs.regEax (s'.envs e) = (value, (s.envs cur).envId, (s.envs e).envIpcPerm) ∧
        ∀ o ≠ e, s'.envs o = s.envs o
    else (sysIpcTrySend envid value (sendVa 0#32) perm).run s = .ok (-eIpcNotRecv) s := by
  by_cases hwait : (s.envs e).envIpcRecving = true ∧ (s.envs e).envIpcFrom = 0#32
  · rw [if_pos hwait]
    have hself : (s.setEnv e (ipcReceived (s.envs cur) value (s.envs e))).envs e = ipcReceived (s.envs cur) value (s.envs e) :=
      Function.update_self ..
    refine ⟨_, run_ipcTrySend hcur he hwait.1 hwait.2 (by decide), ?_, ?_, fun o ho => Function.update_of_ne ho ..⟩
    · rw [hself]
      rfl
    · rw [hself]
      exact if_neg (by decide : ¬ (0#32 : Word).toInt < 0)
  · rw [if_neg hwait]
    have hno : (s.envs e).envIpcRecving = false ∨ (s.envs e).envIpcFrom ≠ 0#32 := by
      rwa [not_and_or, Bool.not_eq_true] at hwait
    unfold sysIpcTrySend
    rw [run_bind_ok (run_envid2env hcur false), he]
    dsimp only
    rw [if_neg (by decide), run_bind_ok (run_deref_some e), run_bind_ok (run_env e), if_pos hno]
    rfl

/-- A message of a paired section does not transfer a page. -/
theorem Paired.noPage {faultVa envid value srcva perm : Word}
    (h : Paired tr s (.trap k tf faultVa (.ipcTrySend envid value srcva perm)))
    (hcur : (s.cpus k).cpuEnv = some cur) (he : s.resolve cur envid false = some e) (hr : (s.envs e).envIpcRecving = true)
    (hva : srcva < utop) : (s.envs e).envIpcDstva = 0#32 := by
  obtain ⟨-, pg, -, hpg, hpair⟩ := h
  rw [hpg] at hva
  rw [hpair (sendVa_lt hva) cur e hcur he hr]
  rfl

/-! ## No page is transferred -/

/-- A send that transfers no page writes no memory. -/
theorem trySend_mem {envid value srcva perm : Word} {t t' : State} {n : Int} (hcur : t.curenv = some cur)
    (hno : ∀ e, t.resolve cur envid false = some e → (t.envs e).envIpcRecving = true → srcva < utop →
      (t.envs e).envIpcDstva = 0#32)
    (hrun : (sysIpcTrySend envid value srcva perm).run t = .ok n t') : t'.mem = t.mem := by
  -- a value without a page changes a record only
  have hdeliver : ∀ (dst : Slot), (ipcDeliver dst value).run t = .ok n t' → t'.mem = t.mem := by
    intro dst h
    unfold ipcDeliver at h
    rw [run_bind_ok (EStateM.run_get t), hcur, run_bind_ok (run_deref_some cur), run_bind_ok (run_env cur),
      run_bind_ok (run_modifyEnv ..)] at h
    cases h
    rfl
  unfold sysIpcTrySend at hrun
  rw [run_bind_ok (run_envid2env hcur false)] at hrun
  cases hr : t.resolve cur envid false with
  | none =>
    rw [hr] at hrun
    cases hrun
    rfl
  | some e =>
    rw [hr] at hrun
    dsimp only at hrun
    rw [if_neg (by decide), run_bind_ok (run_deref_some e), run_bind_ok (run_env e)] at hrun
    split at hrun
    · cases hrun; rfl
    rename_i hrecv
    have hrecv : (t.envs e).envIpcRecving = true := by
      by_contra hc
      exact hrecv (Or.inl (Bool.eq_false_iff.2 hc))
    split at hrun
    · rename_i hva
      split at hrun
      · cases hrun; rfl
      split at hrun
      · cases hrun; rfl
      split at hrun
      · cases hrun; rfl
      rw [run_bind_ok (EStateM.run_get t), hcur, run_bind_ok (run_deref_some cur), run_bind_ok (run_env cur)] at hrun
      cases hd : (t.envs cur).envPgdir with
      | none => rw [hd, run_bind_error run_derefPage_none] at hrun; cases hrun
      | some d =>
        rw [hd, run_bind_ok (run_derefPage_some d)] at hrun
        rcases lookup_any t d srcva with ⟨q, hq⟩ | hq | ⟨p, hq⟩
        · rw [run_bind_ok hq] at hrun
          cases hrun
          rfl
        · rw [run_bind_error hq] at hrun
          cases hrun
        · rw [run_bind_ok hq] at hrun
          dsimp only at hrun
          rw [run_bind_ok (run_load _)] at hrun
          split at hrun
          · cases hrun; rfl
          rw [if_neg (fun h => h (hno e hr hrecv hva))] at hrun
          exact hdeliver e hrun
    · exact hdeliver e hrun

/-- A paired trap leaves `env_ipc_perm` alone. -/
theorem Touched.perm {t : State} {w : Env} (h : Touched t cur tf c e w)
    (hno : ∀ envid value srcva perm, c = .ipcTrySend envid value srcva perm → t.resolve cur envid false = some e →
      (t.envs e).envIpcRecving = true → srcva < utop → (t.envs e).envIpcDstva = 0#32) : w.envIpcPerm = (t.envs e).envIpcPerm := by
  have hcall : ∀ {w}, CallMove t cur c e w → w.envIpcPerm = (t.envs e).envIpcPerm := by
    intro w hw
    cases hw with
    | keep => rfl
    | status => rfl
    | setUpcall => rfl
    | dying => rfl
    | freed => rfl
    | spawned => rfl
    | received hc he hr hfrom hperm =>
      rcases hperm with hp | ⟨hva, hd, -⟩
      · exact hp
      · exact absurd (hno _ _ _ _ hc he hr hva) hd
  cases h with
  | keep => rfl
  | moved _ hw => exact hcall hw
  | @returns w r _ _ hw => exact (show (setEax r w).envIpcPerm = w.envIpcPerm from rfl).trans (hcall hw)
  | upcall _ he => rw [he]; rfl
  | gone _ he => rw [he]; rfl
  | waiting _ _ he => rw [he]; rfl

theorem Out.perm (hx : Out s s') (e : Slot) : (s'.envs e).envIpcPerm = (s.envs e).envIpcPerm := by
  cases hx with
  | monitor => rfl
  | run e' d he hd =>
    obtain ⟨runs, cpu, henv⟩ := popTf_envs s e' d e
    rw [henv]

theorem Paired.perm (h : Apart s) (hp : Paired tr s a) (hs : Step s a s') (e : Slot) :
    (s'.envs e).envIpcPerm = (s.envs e).envIpcPerm := by
  cases hs.parts h.awake (h.unlocked hs.unlocked) with
  | start he hx => exact hx.perm e
  | @zombie k cur tf faultVa c s₁ s' he hdy hst hnone henvs hfree hx =>
    rw [hx.perm e, henvs, Function.update_apply]
    split
    · rename_i hec; rw [hec]; rfl
    · rfl
  | @handled k cur tf faultVa c s₁ s' he hdy hh hx =>
    have hsaved : (((s.on k).saved cur tf).envs e).envIpcPerm = (s.envs e).envIpcPerm := by
      rw [saved_envs]
      split
      · rename_i hec; rw [hec]
      · rfl
    have hdst : (((s.on k).saved cur tf).envs e).envIpcDstva = (s.envs e).envIpcDstva := by
      rw [saved_envs]
      split
      · rename_i hec; rw [hec]
      · rfl
    rw [hx.perm e, (hh.touched e).perm, hsaved]
    rintro envid value srcva perm rfl hres hrecv hva
    rw [saved_resolve] at hres
    rw [saved_recving] at hrecv
    rw [hdst]
    exact hp.noPage he hres hrecv hva

/-- A call that ends a send or begins a receive writes no memory. -/
theorem Paired.mem {ev : IpcEvent} (h : Apart s) (hp : Paired tr s a) (hs : Step s a s') (hev : ev ∈ a.events s) :
    s'.mem = s.mem := by
  cases hs.parts h.awake (h.unlocked hs.unlocked) with
  | start => cases hev
  | zombie he hdy =>
    simp [Sect.events, he, hdy] at hev
  | @handled k cur tf faultVa c s₁ s' he hdy hh hx =>
    simp only [Sect.events, he] at hev
    split at hev
    · rename_i hsys
      suffices hmem : s₁.mem = s.mem by
        cases hx with
        | monitor => exact hmem
        | run e d => exact (popTf_mem s₁ e d).trans hmem
      cases hh with
      | @returned n s₂ _ htf hch heax hrun =>
        cases c with
        | ipcTrySend envid value srcva perm =>
          rw [heax]
          refine (trySend_mem (saved_curenv tf he) (fun e hres hrecv hva => ?_) hrun).trans rfl
          rw [saved_resolve] at hres
          rw [saved_recving] at hrecv
          have hd := hp.noPage he hres hrecv hva
          rw [saved_envs]
          split
          · rename_i hec; rw [← hec]; exact hd
          · exact hd
        | ipcRecv dstva => simp [callEvents, hrun] at hev
        | _ => simp [callEvents] at hev
      | left _ hl hrun =>
        obtain ⟨x, t, hrun⟩ := hrun
        cases hl with
        | yield => rfl
        | waiting => rfl
        | destroyed hself =>
          rcases hself with ⟨_, rfl, -⟩ | ⟨_, _, rfl⟩ <;> simp [callEvents] at hev
      | nothing h => exact absurd hsys.1 h
      | upcall h => exact absurd hsys.1 h
      | destroyed h => exact absurd hsys.1 h
    · cases hev

theorem Paired.pgdir {ev : IpcEvent} (h : Apart s) (hr : Recving tr s) (hs : Step s a s') (hev : ev ∈ a.events s)
    (e : Slot) : (s'.envs e).envPgdir = (s.envs e).envPgdir := by
  obtain ⟨s₁, hsp, hx, -, -⟩ := hs.split h fun k e he => hr.marked (h.unlocked hs.unlocked k e he)
  have hout : (s'.envs e).envPgdir = (s₁.envs e).envPgdir := by
    cases hx with
    | monitor => rfl
    | run e' d =>
      obtain ⟨runs, cpu, henv⟩ := popTf_envs s₁ e' d e
      rw [henv]
  rw [hout]
  generalize a.events s = evs at hsp hev
  cases hsp with
  | mild => cases hev
  | @receive cur tf dstva _ hrun hcur hother =>
    by_cases hec : e = cur
    · rw [hec, hcur]; rfl
    · rw [hother e hec]
  | @send cur dst v newPerm _ hrun hlive hrecv hne hdst hcur hother =>
    by_cases hed : e = dst
    · rw [hed, hdst]; rfl
    by_cases hec : e = cur
    · obtain ⟨tf, hcur⟩ := hcur
      rw [hec, hcur]
    · rw [hother e hed hec]

theorem Traced.perm (h₀ : Fresh s₀) (hz : ∀ e, (s₀.envs e).envIpcPerm = 0#32) (h : Traced Paired s₀ tr s) :
    Traced Gentle s₀ tr s ∧ ∀ e, (s.envs e).envIpcPerm = 0#32 := by
  induction h with
  | refl => exact ⟨.refl, hz⟩
  | step h hp hs ih =>
    obtain ⟨⟨ha, -⟩, -⟩ := ih.1.delivers h₀
    exact ⟨ih.1.step hp.1 hs, fun e => (hp.perm ha hs e).trans (ih.2 e)⟩

/-- While no message offers a page to a receiver that wants one, `ipc_recv` returns the value with the
sender and no page, and sending and receiving leave every mapping as it is. -/
theorem libIpc_no_page (h₀ : Fresh s₀) (hz : ∀ e, (s₀.envs e).envIpcPerm = 0#32) (h : Traced Paired s₀ tr s) :
    (∀ newer mid rest r tf eax value sender, tr = newer ++ .resume r eax value sender :: (mid ++ .receive r tf :: rest) →
      (∀ ev ∈ newer, ev.Keeps r) → (∀ ev ∈ mid, ev.slot = r → ∃ sender value, ev = .send sender r value) →
      (s.envs r).envStatus ≠ .free →
      .send sender r value ∈ mid ∧ ipcRecvResult eax (s.envs r) = (value, sender, 0#32)) ∧
    ∀ a s' ev, Paired tr s a → Step s a s' → ev ∈ a.events s →
      s'.mem = s.mem ∧ ∀ e, (s'.envs e).envPgdir = (s.envs e).envPgdir := by
  obtain ⟨hg, hperm⟩ := h.perm h₀ hz
  obtain ⟨⟨ha, hr⟩, hd, hsound⟩ := hg.delivers h₀
  refine ⟨?_, fun a s' ev hp hs hev => ?_⟩
  · rintro newer mid rest r tf eax value sender htr hnewer hmid hlive
    have hmid' : ∀ ev ∈ mid, ev.Keeps r := by
      intro ev hev
      cases ev with
      | born e =>
        rintro rfl
        obtain ⟨_, _, hsend⟩ := hmid _ hev rfl
        cases hsend
      | receive e _ =>
        rintro rfl
        obtain ⟨_, _, hsend⟩ := hmid _ hev rfl
        cases hsend
      | send => trivial
      | resume => trivial
    obtain ⟨m₁, m₂, rfl, hm₂, hm₁, hzero⟩ := hsound.exactlyOnce.resumed newer mid rest r tf eax value sender htr hmid'
    have heax : eax = 0#32 := hzero fun ev hev hslot => by
      obtain ⟨f, v, rfl⟩ := hmid ev (List.mem_append_left _ hev) hslot
      exact hm₁ _ hev f v rfl
    have hsplit : tr = (newer ++ .resume r eax value sender :: m₁) ++ .send sender r value :: (m₂ ++ .receive r tf :: rest) := by
      rw [htr]; simp
    have hkeeps : ∀ ev ∈ newer ++ .resume r eax value sender :: m₁, ev.Keeps r := by
      intro ev hev
      rcases List.mem_append.1 hev with hev | hev
      · exact hnewer ev hev
      rcases List.mem_cons.1 hev with rfl | hev
      · trivial
      · exact hmid' ev (List.mem_append_left _ hev)
    rw [hsplit] at hd hsound
    obtain ⟨hfrom, hvalue⟩ := hd.kept hsound hkeeps hlive
    refine ⟨by simp, ?_⟩
    unfold ipcRecvResult
    rw [heax, if_neg (by decide), hfrom, hvalue, hperm r]
  · exact ⟨hp.mem ha hs hev, fun e => Paired.pgdir ha hr hs hev e⟩

/-! ## Two environments -/

/-- The child has called `sys_ipc_recv`. -/
def recvBlocked : State :=
  let t := (childRuns.on 0).saved 1 callTf
  t.setEnv 1 (ipcWaiting utop (t.envs 1))

/-- The child waits and the parent runs. -/
def recvWaits : State := recvBlocked.popTf 0 128

theorem recvBlocked_duo : recvBlocked.Duo := by
  intro e h0 h1
  show (Function.update ((childRuns.on 0).saved 1 callTf).envs 1 _ e).envStatus = _
  rw [Function.update_of_ne h1, saved_status]
  exact childRuns_duo e h0 h1

theorem recvWaits_step : Step childRuns (.trap 0 callTf 0#32 (.ipcRecv utop)) recvWaits := recv_step (by decide)

theorem recvWaits_duo : recvWaits.Duo := recvBlocked_duo.popTf (Or.inl rfl) _

/-- The parent's message without a page has arrived. -/
def told : State := recvWaits.after 0 0 128 (fun t => t.setEnv 1 (ipcReceived (t.envs 0) 42#32 (t.envs 1))) 0

theorem told_step :
    Step recvWaits (.trap 0 callTf 0#32 (.ipcTrySend 4097#32 42#32 (sendVa 0#32) 0#32)) told :=
  send_step (by decide) (by decide +kernel) (by decide +kernel) (by decide +kernel)

/-- A call of the parent that returns 0. -/
theorem parent_step {s₁ : State} (h : s.ParentRuns) (hrun : c.exec.run ((s.on 0).saved 0 callTf) = .ok 0 s₁)
    (hst : (s₁.envs 0).envStatus = .running) (hd : (s₁.envs 0).envPgdir = some 128) :
    Step s (.trap 0 callTf 0#32 c) ((s₁.setEnv 0 (setEax 0 (s₁.envs 0))).popTf 0 128) := by
  obtain ⟨hl, hk, hw, h0, -, -⟩ := h
  have hcur := saved_curenv callTf hk
  refine step_call hl hk hw (by rw [h0]; decide) rfl hrun ?_ hst hd
  have hres := call_res hcur c
  rw [hrun] at hres
  cases hres with
  | returns r s' h => exact h.same

/-- The parent allocates a page at `UTEXT`. -/
def allocCall : Call := .pageAlloc 0#32 utext (pteP ||| pteU ||| pteW)

/-- The parent sends 42 with that page. -/
def pageCall : Call := .ipcTrySend 4097#32 42#32 (sendVa utext) (pteP ||| pteU ||| pteW)

def pageTaken : State := recvWaits.after 0 0 128 (fun t => finalState (allocCall.exec.run t)) 0

def pageSent : State := pageTaken.after 0 0 128 (fun t => finalState (pageCall.exec.run t)) 0

theorem pageTaken_step : Step recvWaits (.trap 0 callTf 0#32 allocCall) pageTaken :=
  parent_step (by decide +kernel) (eq_ok_of_okValue (by decide +kernel)) (by decide +kernel) (by decide +kernel)

theorem pageSent_step : Step pageTaken (.trap 0 callTf 0#32 pageCall) pageSent :=
  parent_step (by decide +kernel) (eq_ok_of_okValue (by decide +kernel)) (by decide +kernel) (by decide +kernel)

/-- `ipc_send` and `ipc_recv`, both with the page at `UTEXT`: the page of the sender does not get there. -/
theorem libIpc_page_lost : Fresh firstEnv ∧ (∃ tr, Traced Gentle firstEnv tr pageTaken) ∧
    (pageTaken.envs 1).envIpcRecving = true ∧ (pageTaken.envs 1).envIpcDstva = recvVa utext ∧
    Step pageTaken (.trap 0 callTf 0#32 pageCall) pageSent ∧
    .send 4096#32 1 42#32 ∈ (Sect.trap 0 callTf 0#32 pageCall).events pageTaken ∧
    pageSent.lookup 128 utext = some (some (126, page2pa 126 ||| 7#32)) ∧ pageSent.lookup 127 utext = some none := by
  have hlook : pageSent.lookup 128 utext = some (some (126, page2pa 126 ||| 7#32)) := by decide +kernel
  have hlost : pageSent.lookup 127 utext = some none := by decide +kernel
  have hev : (Sect.trap 0 callTf 0#32 pageCall).events pageTaken = [.send 4096#32 1 42#32] := by decide +kernel
  refine ⟨firstEnv_fresh, ?_, by decide +kernel, by decide +kernel, pageSent_step, by rw [hev]; simp, hlook, hlost⟩
  obtain ⟨tr, h⟩ := childRuns_traced (P := Gentle) (fun _ => trivial) (fun _ _ _ _ => trivial) childMade_gentle
    fun _ _ _ _ => trivial
  have hrecv : Gentle tr childRuns (.trap 0 callTf 0#32 (.ipcRecv utop)) := fun _ _ _ => trivial
  have halloc : ∀ tr, Gentle tr recvWaits (.trap 0 callTf 0#32 allocCall) := fun _ _ _ _ => trivial
  exact ⟨_, (h.step hrecv recvWaits_step).step (halloc _) pageTaken_step⟩

/-- The child goes on. -/
def heard : State := ((told.on 0).saved 0 callTf).popTf 1 127

theorem told_duo : told.Duo := by
  refine State.Duo.popTf (fun e h0 h1 => ?_) (Or.inl rfl) _
  have htold : ∀ t : State, ((t.setEnv 1 (ipcReceived (t.envs 0) 42#32 (t.envs 1))).setEnv 0 (setEax 0
      ((t.setEnv 1 (ipcReceived (t.envs 0) 42#32 (t.envs 1))).envs 0))).envs e = t.envs e := by
    intro t
    simp [State.setEnv, h0, h1]
  rw [htold, saved_status]
  exact recvWaits_duo e h0 h1

theorem heard_step : Step told (.trap 0 callTf 0#32 .yield) heard :=
  yield_step told_duo (by decide +kernel) (by decide +kernel) (by decide +kernel)

theorem libIpc_no_page_heard : ∃ tr, Traced Paired firstEnv tr heard ∧
    ipcRecvResult 0#32 (heard.envs 1) = (42#32, 4096#32, 0#32) := by
  obtain ⟨tr, h⟩ := childRuns_traced (P := Paired) (fun _ => ⟨trivial, trivial⟩) (fun _ => ⟨fun _ _ _ => trivial, trivial⟩)
    ⟨childMade_gentle, trivial⟩ fun _ => ⟨fun _ _ _ => trivial, trivial⟩
  have hrecv : Paired tr childRuns (.trap 0 callTf 0#32 (.ipcRecv utop)) := ⟨fun _ _ _ => trivial, utext, by decide, by decide⟩
  have hsend : ∀ tr, Paired tr recvWaits (.trap 0 callTf 0#32 (.ipcTrySend 4097#32 42#32 (sendVa 0#32) 0#32)) := fun _ =>
    ⟨fun _ _ _ => trivial, 0#32, by decide, rfl, fun h => absurd rfl h⟩
  have hyield : ∀ tr, Paired tr told (.trap 0 callTf 0#32 .yield) := fun _ => ⟨fun _ _ _ => trivial, trivial⟩
  have hheard := ((h.step hrecv recvWaits_step).step (hsend _) told_step).step (hyield _) heard_step
  have hlast : stepEvents told (.trap 0 callTf 0#32 .yield) heard = [.resume 1 0#32 42#32 4096#32] := by
    decide +kernel
  have hmid : stepEvents recvWaits (.trap 0 callTf 0#32 (.ipcTrySend 4097#32 42#32 (sendVa 0#32) 0#32)) told =
      [.resume 0 0#32 0#32 0#32, .send 4096#32 1 42#32] := by decide +kernel
  have hfirst : stepEvents childRuns (.trap 0 callTf 0#32 (.ipcRecv utop)) recvWaits =
      [.resume 0 0#32 0#32 0#32, .receive 1 callTf] := by decide +kernel
  rw [hlast, hmid, hfirst] at hheard
  refine ⟨_, hheard, ?_⟩
  have hmain := (libIpc_no_page firstEnv_fresh (fun e => by rw [firstEnv_envs]; split <;> rfl) hheard).1
  refine (hmain [] [.resume 0 0#32 0#32 0#32, .send 4096#32 1 42#32, .resume 0 0#32 0#32 0#32] tr 1 callTf 0#32 42#32 4096#32 rfl
    (by simp) ?_ (by decide +kernel)).2
  intro ev hev hslot
  simp only [List.mem_cons, List.not_mem_nil, or_false] at hev
  rcases hev with rfl | rfl | rfl
  · cases hslot
  · exact ⟨_, _, rfl⟩
  · cases hslot

end Jos
