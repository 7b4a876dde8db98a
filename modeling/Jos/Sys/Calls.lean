/-
The outcome of each system call, from a state in which the invariant holds and the caller is in
use. The tests of a call come first and fail without a change; what is left is one of the steps of
kern/pmap.c and kern/env.c, whose specifications give the event.
-/
import Jos.Sys.Outcome

namespace Jos

open Lib Kern

variable {b s s' : State} {M l : List Nat} {le : List Slot} {Q : Nat → Nat → Prop} {cur e : Slot} {c : Call}

/-- Environment `cur`, which is in use, is in a call. -/
structure InCall (Q : Nat → Nat → Prop) (b : State) (M : List Nat) (s : State) (l : List Nat) (le : List Slot)
    (cur : Slot) : Prop extends Inv Q b M s l le where
  curenv : s.curenv = some cur
  live : (s.envs cur).envStatus ≠ .free

theorem InCall.relax (h : InCall (· = ·) b M s l le cur) : InCall (· ≤ ·) b M s l le cur :=
  ⟨{ h.toInv with counts := h.counts.relax }, h.curenv, h.live⟩

theorem InCall.enter (h : Inv Q b M s l le) (he : (s.envs e).envStatus ≠ .free) (cpu : Cpu) :
    InCall Q b M (s.enter cpu e) l le e :=
  ⟨h.congr rfl rfl rfl rfl rfl rfl rfl, by simp [State.curenv, State.enter, State.setCurenv, State.setCpu], he⟩

/-! ## Destroying an environment -/

theorem Freed.called {l' : List Nat} {le' : List Slot} (h : Freed s s' e) (hi : Inv Q b M s' l' le')
    (ht : c.Target s cur e) : Called b M Q s l cur c s' (.freed e) where
  pte := by
    funext e' i j
    show _ = if e' = e then none else s.pte e' i j
    split
    · rename_i he; rw [he, h.pteOwn]
    · rename_i he; exact h.pteOther e' i j he
  npages := h.same.npages
  data f _ hf := h.data f hf
  new := by simp
  confined := by
    refine ⟨fun e' _ hne => ?_, fun e' _ hne => ?_⟩
    · rw [h.envs e' (by rintro rfl; exact hne ht)]
      exact .refl _
    · funext i j
      exact h.pteOther e' i j (by rintro rfl; exact hne ht)
  inv := ⟨l', le', hi.toVm, hi.toEnvTable, fun _ => hi.counts⟩

theorem Cleared.confined (h : Cleared s s' e) (ht : c.Target s cur e) : Confined s s' (c.Target s cur) :=
  .of_rest h.rest fun e' hne => by
    funext i j
    exact h.pteOther e' i j (by rintro rfl; exact hne ht)

theorem outcome_envDestroy (hQ : CountRel Q) (h : InCall Q b M s l le cur) (he : (s.envs e).envStatus ≠ .free)
    (ht : c.Target s cur e) : Outcome b M Q s l cur c ((envDestroy e).run s) := by
  unfold envDestroy
  rw [run_bind_ok (EStateM.run_get s)]
  split
  · exact .done _ .failed ((Called.stay h.toInv).setEnv (fun _ => ht) he (by simp) rfl rfl)
  · obtain ⟨d, hd, -⟩ := h.toEnvTable.dir he
    rcases free_spec hQ h.toInv hd with ⟨s', l', hrun, hi, hf⟩ | ⟨s', hrun, -, hcl⟩
    · have hcalled : Called b M Q s l cur c s' (.freed e) := hf.called hi ht
      rw [run_bind_ok hrun, run_bind_ok (EStateM.run_get s')]
      split
      · -- the caller is gone and control leaves through the scheduler
        have hcalled' : Called b M Q s l cur c (s'.setCurenv none) (.freed e) :=
          hcalled.congr rfl rfl rfl rfl rfl rfl rfl
        have hnone : (s'.setCurenv none).curenv = none := by
          simp [State.curenv, State.setCurenv, State.setCpu]
        obtain ⟨x, s'', hy, hsw⟩ := schedYield_switched (s'.setCurenv none)
        rw [run_bind_ok (EStateM.run_modify _ _), hy]
        exact .done _ _ (hcalled'.switch hsw fun e' he' => by rw [hnone] at he'; cases he')
      · exact .done _ _ hcalled
    · rw [run_bind_error hrun]
      exact .panic s' (hcl.confined ht)

theorem walk_reads (d : Nat) (va : Word) :
    (∃ q, (pgdirWalk d va false).run s = .ok q s) ∨ (pgdirWalk d va false).run s = .error .panic s := by
  cases hp : present (s.mem d (pdx va)) with
  | false => exact Or.inl ⟨none, pgdirWalk_absent hp⟩
  | true =>
    by_cases hlt : pgnum (s.mem d (pdx va)) < s.npages
    · exact Or.inl ⟨_, pgdirWalk_present hp hlt false⟩
    unfold pgdirWalk
    rw [run_bind_ok (run_load _), if_pos hp]
    refine Or.inr (run_bind_error ?_)
    rw [run_kaddr, pgnum_pteAddr, if_neg hlt]

/-- The loop of `user_mem_check` stops in a panic or records an address. -/
theorem userMemCheckLoop_reads (pgdir : Option Nat) (stop perm : Word) : ∀ n (start : Word), 2 ^ 32 - start.toNat = n →
    (∃ r a, (userMemCheckLoop pgdir start stop perm).run s = .ok r { s with userMemCheckAddr := a }) ∨
    (userMemCheckLoop pgdir start stop perm).run s = .error .panic s := by
  intro n
  induction n using Nat.strong_induction_on with
  | _ n ih =>
    intro start hn
    rw [userMemCheckLoop]
    split
    · split
      · exact Or.inl ⟨_, start, rfl⟩
      · rename_i hu
        cases pgdir with
        | none => exact Or.inr rfl
        | some d =>
          rw [run_bind_ok (run_derefPage_some d)]
          rcases walk_reads (s := s) d start with ⟨q, hq⟩ | hq
          · rw [run_bind_ok hq]
            have hl : ∃ bad, (pteLacks q perm).run s = .ok bad s := by
              cases q with
              | none => exact ⟨_, rfl⟩
              | some p => exact ⟨_, rfl⟩
            obtain ⟨bad, hbad⟩ := hl
            rw [run_bind_ok hbad]
            cases bad with
            | true => exact Or.inl ⟨_, start, rfl⟩
            | false =>
              have hgrow := start_lt_next hu
              have := (rounddown start pgsize + pgsize).isLt
              exact ih _ (by omega) (rounddown start pgsize + pgsize) rfl
          · exact Or.inr (run_bind_error hq)
    · exact Or.inl ⟨0, s.userMemCheckAddr, rfl⟩

theorem userMemCheck_reads (e : Slot) (va len perm : Word) :
    (∃ r a, (userMemCheck e va len perm).run s = .ok r { s with userMemCheckAddr := a }) ∨
    (userMemCheck e va len perm).run s = .error .panic s := by
  unfold userMemCheck
  rw [run_bind_ok (run_env e)]
  exact userMemCheckLoop_reads _ _ _ _ va rfl

/-- The address that `user_mem_check` records is not part of the outcome. -/
theorem Outcome.of_check {α : Type} {r : EStateM.Result Stop State α} {str len a : Word}
    (h : Outcome b M Q { s with userMemCheckAddr := a } l cur (.cputs str len) r) :
    Outcome b M Q s l cur (.cputs str len) r := by
  cases h with
  | panic s' h => exact .panic s' ⟨h.envs, h.pte⟩
  | done _ ev h =>
    obtain ⟨l', le', hv, he, hc⟩ := h.inv
    refine .done _ ev ⟨h.pte, h.npages, h.data, fun e pp va perm hev => ?_, ⟨h.confined.envs, h.confined.pte⟩, l', le',
      hv, he, fun _ => hc fun _ _ _ _ hm => by cases hm⟩
    obtain ⟨-, -, ⟨-, envid, hc⟩ | hm⟩ := h.new e pp va perm hev
    · cases hc
    · cases hm

theorem cprintf_run (len str : Word) (s : State) :
    (cprintf len str).run s = .ok () s ∨ (cprintf len str).run s = .error .panic s := by
  unfold cprintf
  by_cases hf : PrintEvent.fault ∈ cprintfStr s.fetch len str (2 ^ 32)
  · exact Or.inr (by rw [run_bind_ok (EStateM.run_get s), if_pos hf]; rfl)
  · exact Or.inl (by rw [run_bind_ok (EStateM.run_get s), if_neg hf]; rfl)

theorem outcome_cputs (hQ : CountRel Q) (h : InCall Q b M s l le cur) (str len : Word) :
    Outcome b M Q s l cur (.cputs str len) ((Call.cputs str len).exec.run s) := by
  refine Outcome.bind_same ?_ _ fun _ t => Or.inl ⟨0, rfl⟩
  unfold sysCputs userMemAssert
  rw [run_bind_ok (EStateM.run_get s), h.curenv, run_bind_ok (run_deref_some cur)]
  refine Outcome.bind_same ?_ _ fun _ t => (cprintf_run len str t).imp (fun h => ⟨(), h⟩) id
  rcases userMemCheck_reads (s := s) cur str len (pteU ||| pteU) with ⟨r, a, hrun⟩ | hrun
  · rw [run_bind_ok hrun]
    have h' : InCall Q b M { s with userMemCheckAddr := a } l le cur :=
      ⟨h.toInv.congr rfl rfl rfl rfl rfl rfl rfl, h.curenv, h.live⟩
    apply Outcome.of_check (a := a)
    split
    · exact outcome_envDestroy hQ h' h'.live (Or.inl rfl)
    · exact .stay h'.toInv ()
  · rw [run_bind_error hrun]
    exact .panic s (.refl s _)

theorem outcome_sysEnvDestroy (hQ : CountRel Q) (h : InCall Q b M s l le cur) (envid : Word) :
    Outcome b M Q s l cur (.envDestroy envid) ((Call.envDestroy envid).exec.run s) := by
  show Outcome b M Q s l cur _ ((sysEnvDestroy envid).run s)
  unfold sysEnvDestroy
  rw [run_bind_ok (run_envid2env h.curenv true)]
  cases hr : s.resolve cur envid true with
  | none => exact .stay h.toInv _
  | some e =>
    dsimp only
    rw [if_neg (by decide), run_bind_ok (run_deref_some e)]
    exact (outcome_envDestroy hQ h (resolve_live hr h.live) (resolve_target hr)).bind_same _ fun _ t => Or.inl ⟨0, rfl⟩

theorem outcome_yield (h : InCall Q b M s l le cur) : Outcome b M Q s l cur .yield (Call.yield.exec.run s) := by
  obtain ⟨x, s', hy, hsw⟩ := schedYield_switched s
  have hrun : Call.yield.exec.run s = .error x s' := run_bind_error hy
  rw [hrun]
  refine .done _ .failed ((Called.stay h.toInv).switch hsw fun e he => ?_)
  exact (Option.some.inj (h.curenv.symm.trans he)).symm

/-! ## Records -/

theorem statusOfInt_live {status : Word} {st : EnvStatus} (h : statusOfInt status = some st) : st ≠ .free := by
  unfold statusOfInt at h
  split at h
  · cases h; simp
  · split at h
    · cases h; simp
    · cases h

theorem outcome_envSetStatus (h : InCall Q b M s l le cur) (envid status : Word) :
    Outcome b M Q s l cur (.envSetStatus envid status) ((Call.envSetStatus envid status).exec.run s) := by
  show Outcome b M Q s l cur _ ((sysEnvSetStatus envid status).run s)
  unfold sysEnvSetStatus
  split
  · exact .stay h.toInv _
  rename_i st hst
  rw [run_bind_ok (run_envid2env h.curenv true)]
  cases hr : s.resolve cur envid true with
  | none => exact .stay h.toInv _
  | some e =>
    dsimp only
    rw [if_neg (by decide), run_bind_ok (run_deref_some e), run_bind_ok (run_modifyEnv ..)]
    exact .done _ .failed ((Called.stay h.toInv).setEnv (fun _ => resolve_target hr) (resolve_live hr h.live)
      (statusOfInt_live hst) rfl rfl)

theorem outcome_envSetPgfaultUpcall (h : InCall Q b M s l le cur) (envid func : Word) :
    Outcome b M Q s l cur (.envSetPgfaultUpcall envid func) ((Call.envSetPgfaultUpcall envid func).exec.run s) := by
  show Outcome b M Q s l cur _ ((sysEnvSetPgfaultUpcall envid func).run s)
  unfold sysEnvSetPgfaultUpcall
  rw [run_bind_ok (run_envid2env h.curenv true)]
  cases hr : s.resolve cur envid true with
  | none => exact .stay h.toInv _
  | some e =>
    dsimp only
    rw [if_neg (by decide), run_bind_ok (run_deref_some e), run_bind_ok (run_modifyEnv ..)]
    have hlive := resolve_live hr h.live
    exact .done _ .failed ((Called.stay h.toInv).setEnv (fun _ => resolve_target hr) hlive hlive rfl rfl)

theorem outcome_ipcRecv (h : InCall Q b M s l le cur) (dstva : Word) :
    Outcome b M Q s l cur (.ipcRecv dstva) ((Call.ipcRecv dstva).exec.run s) := by
  show Outcome b M Q s l cur _ ((sysIpcRecv dstva).run s)
  unfold sysIpcRecv
  split
  · exact .stay h.toInv _
  rw [run_bind_ok (EStateM.run_get s), h.curenv, run_bind_ok (run_deref_some cur), run_bind_ok (run_modifyEnv ..)]
  have hcalled : Called b M Q s l cur (.ipcRecv dstva) (s.setEnv cur (ipcWaiting dstva (s.envs cur))) .failed :=
    (Called.stay h.toInv).setEnv (fun _ => Or.inl rfl) h.live (by simp [ipcWaiting]) rfl rfl
  obtain ⟨x, s', hy, hsw⟩ := schedYield_switched (s.setEnv cur (ipcWaiting dstva (s.envs cur)))
  rw [run_bind_error hy]
  refine .done _ .failed (hcalled.switch hsw fun e he => ?_)
  exact (Option.some.inj (h.curenv.symm.trans he)).symm

end Jos
