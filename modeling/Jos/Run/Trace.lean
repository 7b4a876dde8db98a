/-
The trace of a run: who blocked in `sys_ipc_recv`, which sends returned 0, which environments were
created and which were resumed, with the registers and fields they found. As long as nobody makes
a blocked receiver runnable, an environment is marked as receiving only while it is blocked.
-/
import Jos.Run.Smp

namespace Jos

open Lib Kern

variable {s s' s₀ : State} {cur e : Slot} {k : Cpu} {a : Sect} {tf : Trapframe} {c : Call}

/-! ## Events -/

/-- What happens to the environment in a slot. -/
inductive IpcEvent where
  | born (e : Slot)
  | receive (e : Slot) (tf : Trapframe)
  | send (sender : Word) (e : Slot) (value : Word)
  | resume (e : Slot) (eax value sender : Word)
  deriving DecidableEq

def IpcEvent.slot : IpcEvent → Slot
  | .born e => e
  | .receive e _ => e
  | .send _ e _ => e
  | .resume e _ _ _ => e

/-- The events of call `c` of `cur`, made with frame `tf`: `sys_ipc_recv` does not return, or a send returns 0. -/
def callEvents (s : State) (cur : Slot) (tf : Trapframe) (c : Call) : List IpcEvent :=
  match c, c.exec.run s with
  | .ipcRecv _, .error _ _ => [.receive cur tf]
  | .ipcTrySend envid value _ _, .ok r _ =>
    if r = 0 then
      match s.resolve cur envid false with
      | some e => [.send (s.envs cur).envId e value]
      | none => []
    else []
  | _, _ => []

/-- The events of the trap handler. -/
def Sect.events (s : State) : Sect → List IpcEvent
  | .trap k tf _ c =>
    match (s.cpus k).cpuEnv with
    | some cur =>
      if tf.tfTrapno = tSyscall ∧ (s.envs cur).envStatus ≠ .dying then callEvents ((s.on k).saved cur tf) cur tf c else []
    | none => []
  | .start _ => []

/-- The slot that was handed out. -/
def bornEvents (s s' : State) : List IpcEvent :=
  match s.envFreeList with
  | some e => if (s.envs e).envStatus = .free ∧ (s'.envs e).envStatus ≠ .free then [.born e] else []
  | none => []

def Sect.cpu : Sect → Cpu
  | .trap k _ _ _ => k
  | .start k => k

/-- The environment that is resumed, if the kernel was left for user mode. -/
def resumeEvents (k : Cpu) (s' : State) : List IpcEvent :=
  if s'.kernelLock = none then
    match (s'.cpus k).cpuEnv with
    | some e =>
      [.resume e (s'.envs e).envTf.tfRegs.regEax (s'.envs e).envIpcValue (s'.envs e).envIpcFrom]
    | none => []
  else []

/-- The events of a step, the last one first. -/
def stepEvents (s : State) (a : Sect) (s' : State) : List IpcEvent :=
  resumeEvents a.cpu s' ++ (bornEvents s s' ++ a.events s)

/-- Runs with their trace, the last event first. -/
inductive Traced (P : List IpcEvent → State → Sect → Prop) (s₀ : State) : List IpcEvent → State → Prop where
  | refl : Traced P s₀ [] s₀
  | step {s s' : State} {a : Sect} {tr : List IpcEvent} (h : Traced P s₀ tr s) (hp : P tr s a) (hs : Step s a s') :
      Traced P s₀ (stepEvents s a s' ++ tr) s'

/-! ## What the handler of a trap tells -/

/-- What a trap without a message leaves of the record of slot `e`: the fields a message is kept in,
the registers unless `e` trapped itself, and the status up to a call that sets it. -/
inductive Plain (s : State) (cur : Slot) (c : Call) (e : Slot) (w : Env) : Prop where
  | same (hrec : w.envIpcRecving = (s.envs e).envIpcRecving) (hfrom : w.envIpcFrom = (s.envs e).envIpcFrom)
      (hval : w.envIpcValue = (s.envs e).envIpcValue) (htf : e ≠ cur → w.envTf = (s.envs e).envTf)
      (hst : w.envStatus = (s.envs e).envStatus ∨
        (∃ envid status, c = .envSetStatus envid status ∧ statusOfInt status = some w.envStatus ∧
          s.resolve cur envid true = some e) ∨
        ((s.envs e).envStatus = .running ∧ w.envStatus = .dying) ∨ w.envStatus = .free) : Plain s cur c e w
  | spawned (hc : c = .exofork) (hl : s.envFreeList = some e) (hrec : w.envIpcRecving = false)
      (hst : w.envStatus = .notRunnable) : Plain s cur c e w

/-- What the handler of a trap does, with the message that it tells of. -/
inductive Told (s : State) (cur : Slot) (tf : Trapframe) (c : Call) : List IpcEvent → State → Prop where
  | plain {s' : State} (h : ∀ e, Plain s cur c e (s'.envs e)) : Told s cur tf c [] s'
  | receive {dstva : Word} {s' : State} (hc : c = .ipcRecv dstva)
      (h : s'.envs = Function.update s.envs cur (ipcWaiting dstva (s.envs cur))) : Told s cur tf c [.receive cur tf] s'
  | send {envid value srcva perm newPerm : Word} {dst : Slot} {s' : State} (hc : c = .ipcTrySend envid value srcva perm)
      (hd : s.resolve cur envid false = some dst) (hrecv : (s.envs dst).envIpcRecving = true) (hne : dst ≠ cur)
      (hdst : s'.envs dst = ipcReceived (s.envs cur) value { s.envs dst with envIpcPerm := newPerm })
      (hcur : s'.envs cur = setEax 0 (s.envs cur)) (hother : ∀ e, e ≠ dst → e ≠ cur → s'.envs e = s.envs e) :
      Told s cur tf c [.send (s.envs cur).envId dst value] s'

theorem Plain.refl (s : State) (cur : Slot) (c : Call) (e : Slot) : Plain s cur c e (s.envs e) :=
  .same rfl rfl rfl (fun _ => rfl) (Or.inl rfl)

theorem plain_update {x : Slot} {v : Env} (henvs : s'.envs = Function.update s.envs x v) (h : Plain s cur c x v) (e : Slot) :
    Plain s cur c e (s'.envs e) := by
  rw [henvs, Function.update_apply]
  split
  · rename_i he; rw [he]; exact h
  · exact .refl ..

/-- The result that a call leaves in `eax` of its own environment. -/
theorem Plain.setEax {w : Env} (r : Int) (h : Plain s cur c cur w) : Plain s cur c cur (setEax r w) := by
  cases h with
  | same hrec hfrom hval htf hst => exact .same hrec hfrom hval (fun h => absurd rfl h) hst
  | spawned hc hl hrec hst => exact .spawned hc hl hrec hst

theorem plain_returned {s₁ : State} {r : Int} (h : ∀ e, Plain s cur c e (s₁.envs e))
    (heax : s' = s₁.setEnv cur (Jos.setEax r (s₁.envs cur))) (e : Slot) : Plain s cur c e (s'.envs e) := by
  rw [heax]
  show Plain s cur c e (Function.update s₁.envs cur _ e)
  rw [Function.update_apply]
  split
  · rename_i he; rw [he]; exact (h cur).setEax r
  · exact h e

theorem plain_freed (link : Option Slot) (e : Slot) : Plain s cur c e (freedEnv link (s.envs e)) :=
  .same rfl rfl rfl (fun _ => rfl) (Or.inr (Or.inr (Or.inr rfl)))

theorem plain_change {r : Int} (h : Change s cur c r s') (hno : callEvents s cur tf c = []) (hrun : c.exec.run s = .ok r s')
    (e : Slot) : Plain s cur c e (s'.envs e) := by
  cases h with
  | rest h => rw [h.envs]; exact .refl ..
  | setStatus hst he h =>
    exact plain_update h.envs (.same rfl rfl rfl (fun _ => rfl) (Or.inr (Or.inl ⟨_, _, rfl, hst, he⟩))) e
  | setUpcall he h => exact plain_update h.envs (.same rfl rfl rfl (fun _ => rfl) (Or.inl rfl)) e
  | dying he hst hne h =>
    exact plain_update h.envs (.same rfl rfl rfl (fun _ => rfl) (Or.inr (Or.inr (Or.inl ⟨hst, rfl⟩)))) e
  | freed he hst hne h henvs => exact plain_update henvs (plain_freed _ _) e
  | spawned hl h henvs => exact plain_update henvs (.spawned rfl hl rfl rfl) e
  | delivered hd hrecv hfrom hperm h =>
    simp only [callEvents, hrun, hd] at hno
    cases hno

/-- What the handler does goes with what the call tells. -/
theorem Handles.told (h : Handles s cur tf c s') (hcur : (s.envs cur).envIpcRecving = false) :
    Told s cur tf c (if tf.tfTrapno = tSyscall then callEvents s cur tf c else []) s' := by
  cases h with
  | nothing htf h =>
    rw [if_neg htf]
    exact .plain fun e => by rw [h.envs]; exact .refl ..
  | upcall htf h =>
    rw [if_neg htf]
    exact .plain (plain_update h.envs (.same rfl rfl rfl (fun h => absurd rfl h) (Or.inl rfl)))
  | destroyed htf h henvs =>
    rw [if_neg htf]
    exact .plain (plain_update henvs (plain_freed _ _))
  | @returned r s₁ _ htf h heax hrun =>
    rw [if_pos htf]
    -- only a send that goes through is told of among the calls that return
    by_cases hno : callEvents s cur tf c = []
    · rw [hno]
      exact .plain (plain_returned (plain_change h hno hrun) heax)
    cases h with
    | rest h hr =>
      cases c with
      | ipcTrySend envid value srcva perm =>
        have hr : r ≠ 0 := hr
        simp [callEvents, hrun, hr] at hno
      | _ => simp [callEvents, hrun] at hno
    | setStatus => simp [callEvents] at hno
    | setUpcall => simp [callEvents] at hno
    | dying => simp [callEvents] at hno
    | freed => simp [callEvents] at hno
    | spawned => simp [callEvents] at hno
    | @delivered envid value srcva perm newPerm dst _ hd hrecv hfrom hperm h =>
      have hne : dst ≠ cur := by rintro rfl; rw [hcur] at hrecv; cases hrecv
      have hev : callEvents s cur tf (.ipcTrySend envid value srcva perm) = [.send (s.envs cur).envId dst value] := by
        simp [callEvents, hrun, hd]
      have henv : ∀ e, s'.envs e = if e = cur then setEax 0 (s₁.envs cur) else s₁.envs e := fun e => by
        rw [heax]; exact Function.update_apply ..
      rw [hev]
      have hdst : s'.envs dst = ipcReceived (s.envs cur) value { s.envs dst with envIpcPerm := newPerm } := by
        rw [henv, if_neg hne, h.envs, Function.update_self]
      refine .send rfl hd hrecv hne hdst ?_ fun e hed hec => ?_
      · rw [henv, if_pos rfl, h.envs, Function.update_of_ne (Ne.symm hne)]
      · rw [henv, if_neg hec, h.envs, Function.update_of_ne hed]
  | left htf h hrun =>
    rw [if_pos htf]
    obtain ⟨x, s'', hrun⟩ := hrun
    cases h with
    | yield =>
      simp only [callEvents]
      exact .plain fun e => .refl ..
    | @waiting dstva =>
      simp only [callEvents, hrun]
      exact .receive rfl rfl
    | destroyed hself h henvs hfree =>
      rcases hself with ⟨_, rfl, -⟩ | ⟨_, _, rfl⟩
      · exact .plain (plain_update henvs (plain_freed _ _))
      · exact .plain (plain_update henvs (plain_freed _ _))

/-! ## A step and its events -/

/-- In the section a call sets the status of slot `e` to `st`. -/
def Sect.Sets (s : State) (a : Sect) (e : Slot) (st : EnvStatus) : Prop :=
  ∃ k tf faultVa cur envid status, a = .trap k tf faultVa (.envSetStatus envid status) ∧ tf.tfTrapno = tSyscall ∧
    (s.cpus k).cpuEnv = some cur ∧ s.resolve cur envid true = some e ∧ statusOfInt status = some st

/-- What a section without a message leaves of the record of slot `e`. -/
inductive Mild (s : State) (a : Sect) (e : Slot) (w : Env) : Prop where
  | same (hrec : w.envIpcRecving = (s.envs e).envIpcRecving) (hfrom : w.envIpcFrom = (s.envs e).envIpcFrom)
      (hval : w.envIpcValue = (s.envs e).envIpcValue) (htf : w.envTf = (s.envs e).envTf ∨ s.Marked e)
      (hst : w.envStatus = (s.envs e).envStatus ∨ a.Sets s e w.envStatus ∨
        ((s.envs e).envStatus = .running ∧ w.envStatus = .dying) ∨ w.envStatus = .free) : Mild s a e w
  | spawned (hl : s.envFreeList = some e) (hrec : w.envIpcRecving = false) (hst : w.envStatus = .notRunnable) : Mild s a e w

/-- What a section does to the records before the kernel is left, with the events it tells. -/
inductive Split (s : State) (a : Sect) : List IpcEvent → State → Prop where
  | mild {s₁ : State} (h : ∀ e, Mild s a e (s₁.envs e)) : Split s a [] s₁
  | receive {cur : Slot} {tf : Trapframe} {dstva : Word} {s₁ : State} (hrun : (s.envs cur).envStatus = .running)
      (hcur : s₁.envs cur = ipcWaiting dstva { s.envs cur with envTf := tf }) (hother : ∀ e, e ≠ cur → s₁.envs e = s.envs e) :
      Split s a [.receive cur tf] s₁
  | send {cur dst : Slot} {value newPerm : Word} {s₁ : State} (hrun : (s.envs cur).envStatus = .running)
      (hlive : (s.envs dst).envStatus ≠ .free) (hrecv : (s.envs dst).envIpcRecving = true) (hne : dst ≠ cur)
      (hdst : s₁.envs dst = ipcReceived (s.envs cur) value { s.envs dst with envIpcPerm := newPerm })
      (hcur : ∃ tf, s₁.envs cur = { s.envs cur with envTf := tf })
      (hother : ∀ e, e ≠ dst → e ≠ cur → s₁.envs e = s.envs e) : Split s a [.send (s.envs cur).envId dst value] s₁

theorem Mild.refl (s : State) (a : Sect) (e : Slot) : Mild s a e (s.envs e) :=
  .same rfl rfl rfl (Or.inl rfl) (Or.inl rfl)

theorem mild_update {x : Slot} {v : Env} (henvs : s'.envs = Function.update s.envs x v) (h : Mild s a x v) (e : Slot) :
    Mild s a e (s'.envs e) := by
  rw [henvs, Function.update_apply]
  split
  · rename_i he; rw [he]; exact h
  · exact .refl ..

theorem mild_freed (link : Option Slot) (e : Slot) : Mild s a e (freedEnv link (s.envs e)) :=
  .same rfl rfl rfl (Or.inl rfl) (Or.inr (Or.inr (Or.inr rfl)))

section Saved

variable {evs : List IpcEvent} {w : Env} {faultVa : Word}

/-- A plain change after the frame was saved. -/
theorem Plain.mild (h : Plain ((s.on k).saved cur tf) cur c e w) (hk : (s.cpus k).cpuEnv = some cur)
    (hrun : (s.envs cur).envStatus = .running)
    (htf : tf.tfTrapno = tSyscall ∨ c = .yield) (ha : a = .trap k tf faultVa c ∨ c = .yield) : Mild s a e w := by
  have hsame : ∀ {v : Env → Word}, v { s.envs cur with envTf := tf } = v (s.envs cur) →
      v (((s.on k).saved cur tf).envs e) = v (s.envs e) := by
    intro v hv
    rw [saved_envs]
    split
    · rename_i he; rw [he, hv]
    · rfl
  cases h with
  | spawned hc hl hrec hst => exact .spawned hl hrec hst
  | same hrec hfrom hval htf' hst =>
    rw [saved_recving] at hrec
    rw [saved_status] at hst
    refine .same hrec (hfrom.trans (hsame (v := Env.envIpcFrom) rfl)) (hval.trans (hsame (v := Env.envIpcValue) rfl)) ?_ ?_
    · by_cases he : e = cur
      · exact Or.inr (Or.inl (he ▸ hrun))
      · left
        rw [htf' he, saved_envs, if_neg he]
    · refine hst.imp_right (Or.imp_left ?_)
      rintro ⟨envid, status, hc, hs, hr⟩
      rw [saved_resolve] at hr
      rcases ha with rfl | rfl
      · rcases htf with htf | rfl
        · exact ⟨k, tf, faultVa, cur, envid, status, by rw [hc], htf, hk, hr, hs⟩
        · cases hc
      · cases hc

theorem Told.split (h : Told ((s.on k).saved cur tf) cur tf c evs s') (hk : (s.cpus k).cpuEnv = some cur)
    (hrun : (s.envs cur).envStatus = .running) (htf : tf.tfTrapno = tSyscall) : Split s (.trap k tf faultVa c) evs s' := by
  have hcur : ((s.on k).saved cur tf).envs cur = { s.envs cur with envTf := tf } := by rw [saved_envs, if_pos rfl]
  have hid : (((s.on k).saved cur tf).envs cur).envId = (s.envs cur).envId := by rw [hcur]
  cases h with
  | plain h => exact .mild fun e => (h e).mild hk hrun (Or.inl htf) (Or.inl rfl)
  | receive hc h =>
    rw [hcur] at h
    refine .receive hrun (by rw [h, Function.update_self]) fun e he => ?_
    rw [h, Function.update_of_ne he, saved_envs, if_neg he]
  | @send envid value srcva perm newPerm dst _ hc hd hrecv hne hdst hc' hother =>
    rw [hid]
    rw [saved_resolve] at hd
    rw [saved_recving] at hrecv
    have hlive := resolve_live hd (by rw [hrun]; simp)
    have hdst : s'.envs dst = ipcReceived (s.envs cur) value { s.envs dst with envIpcPerm := newPerm } := by
      rw [hdst, hcur, saved_envs, if_neg hne]; rfl
    refine .send hrun hlive hrecv hne hdst ?_ fun e hed hec => ?_
    · exact ⟨_, by rw [hc', hcur]; rfl⟩
    · rw [hother e hed hec, saved_envs, if_neg hec]

end Saved

/-- A step: the section does something to the records, telling its events, and the kernel is left. -/
theorem Step.split (h : Apart s) (hq : ∀ k e, (s.cpus k).cpuEnv = some e → (s.envs e).envIpcRecving = false)
    (hs : Step s a s') : ∃ s₁, Split s a (a.events s) s₁ ∧ Out s₁ s' ∧ s₁.cpunum = a.cpu ∧ s₁.kernelLock = some s₁.cpunum := by
  have huser := h.unlocked hs.unlocked
  cases hs.parts h.awake huser with
  | @start k s' he hx => exact ⟨s.locked k, .mild fun e => .refl .., hx, rfl, rfl⟩
  | @zombie k cur tf faultVa c s₁ s' he hdy hst hnone henvs hfree hx =>
    have hev : (Sect.trap k tf faultVa c).events s = [] := by
      simp only [Sect.events, he]
      exact if_neg fun h => h.2 hdy
    rw [hev]
    exact ⟨s₁, .mild (mild_update henvs (mild_freed _ _)), hx, hst.cpunum, by rw [hst.kernelLock, hst.cpunum]; rfl⟩
  | @handled k cur tf faultVa c s₁ s' he hdy hh hx =>
    have hst := hh.stays
    have hrun : (s.envs cur).envStatus = .running := (huser k cur he).resolve_right hdy
    have hev : (Sect.trap k tf faultVa c).events s =
        if tf.tfTrapno = tSyscall then callEvents ((s.on k).saved cur tf) cur tf c else [] := by
      simp only [Sect.events, he, hdy, ne_eq, not_false_eq_true, and_true]
    have htold := hh.told (by rw [saved_recving]; exact hq k cur he)
    rw [hev]
    refine ⟨s₁, ?_, hx, hst.cpunum, by rw [hst.kernelLock, hst.cpunum]; rfl⟩
    by_cases htf : tf.tfTrapno = tSyscall
    · exact htold.split he hrun htf
    · rw [if_neg htf]
      -- not a call: the records change as if nothing had been called
      have hplain : ∀ e, Plain ((s.on k).saved cur tf) cur .yield e (s₁.envs e) := by
        cases hh with
        | nothing _ h => intro e; rw [h.envs]; exact .refl ..
        | upcall _ h => exact plain_update h.envs (.same rfl rfl rfl (fun h => absurd rfl h) (Or.inl rfl))
        | destroyed _ h henvs => exact plain_update henvs (plain_freed _ _)
        | returned h => exact absurd h htf
        | left h => exact absurd h htf
      exact .mild fun e => (hplain e).mild he hrun (Or.inr rfl) (show _ = Sect.trap k tf faultVa _ ∨ _ from Or.inr rfl)

/-- What is resumed when the kernel is left. -/
theorem Out.resume (hx : Out s s') (hl : s.kernelLock = some s.cpunum) :
    (s' = s ∧ resumeEvents s.cpunum s' = []) ∨
    ∃ e d, s.Ready e ∧ (s.envs e).envPgdir = some d ∧ s' = s.popTf e d ∧ resumeEvents s.cpunum s' =
      [.resume e (s.envs e).envTf.tfRegs.regEax (s.envs e).envIpcValue (s.envs e).envIpcFrom] := by
  cases hx with
  | monitor =>
    refine Or.inl ⟨rfl, if_neg ?_⟩
    rw [hl]; simp
  | run e d he hd =>
    refine Or.inr ⟨e, d, he, hd, rfl, ?_⟩
    have hcpu := popTf_cpus s e d s.cpunum
    rw [if_pos rfl] at hcpu
    obtain ⟨runs, cpu, henv⟩ := popTf_envs s e d e
    unfold resumeEvents
    rw [if_pos (show (s.popTf e d).kernelLock = none from rfl), hcpu]
    show [IpcEvent.resume e ((s.popTf e d).envs e).envTf.tfRegs.regEax ((s.popTf e d).envs e).envIpcValue
      ((s.popTf e d).envs e).envIpcFrom] = _
    rw [henv]

theorem mem_bornEvents {ev : IpcEvent} (h : ev ∈ bornEvents s s') :
    ev = .born ev.slot ∧ (s.envs ev.slot).envStatus = .free ∧ (s'.envs ev.slot).envStatus ≠ .free := by
  unfold bornEvents at h
  split at h
  · split at h
    · rename_i e hl hst
      cases List.mem_singleton.1 h
      exact ⟨rfl, hst⟩
    · cases h
  · cases h

/-- Only what the kernel is left for is resumed. -/
theorem resume_mem {eax value sender : Word} (h : .resume e eax value sender ∈ stepEvents s a s') :
    (s'.cpus a.cpu).cpuEnv = some e := by
  rcases List.mem_append.1 h with h | h
  · unfold resumeEvents at h
    split at h
    · split at h
      · rename_i e' he
        cases List.mem_singleton.1 h
        exact he
      · cases h
    · cases h
  · exfalso
    rcases List.mem_append.1 h with h | h
    · cases (mem_bornEvents h).1
    · cases a with
      | start k => cases h
      | trap k tf faultVa c =>
        simp only [Sect.events] at h
        split at h
        · split at h
          · unfold callEvents at h
            split at h
            · simp at h
            · split at h
              · split at h
                · simp at h
                · simp at h
              · simp at h
            · simp at h
          · simp at h
        · simp at h

/-! ## Receivers are blocked -/

/-- The section does not write the status of an environment that another CPU is running, and does not
make a receiving environment runnable. -/
def Tidy (s : State) : Sect → Prop
  | .trap k tf _ c => tf.tfTrapno = tSyscall → ∀ cur, (s.cpus k).cpuEnv = some cur →
    match c with
    | .envSetStatus envid status => ∀ e, s.resolve cur envid true = some e →
      ¬ s.Elsewhere k e ∧ (statusOfInt status = some .runnable → (s.envs e).envIpcRecving = false)
    | .envDestroy envid => ∀ e, s.resolve cur envid true = some e → (s.envs e).envStatus = .dying → ¬ s.Elsewhere k e
    | _ => True
  | .start _ => True

/-- The last event of `e` is the `sys_ipc_recv` that saved the frame `tf`. -/
def Blocked (tr : List IpcEvent) (e : Slot) (tf : Trapframe) : Prop :=
  ∃ newer older, tr = newer ++ .receive e tf :: older ∧ ∀ ev ∈ newer, ev.slot ≠ e

theorem Blocked.append {tr evs : List IpcEvent} (h : Blocked tr e tf) (hev : ∀ ev ∈ evs, ev.slot ≠ e) :
    Blocked (evs ++ tr) e tf := by
  obtain ⟨newer, older, rfl, hn⟩ := h
  refine ⟨evs ++ newer, older, by rw [List.append_assoc], fun ev hm => ?_⟩
  rcases List.mem_append.1 hm with hm | hm
  · exact hev ev hm
  · exact hn ev hm

/-- The live environments marked as receiving are blocked in their `sys_ipc_recv`. -/
def Recving (tr : List IpcEvent) (s : State) : Prop :=
  ∀ e, (s.envs e).envStatus ≠ .free → (s.envs e).envIpcRecving = true →
    (s.envs e).envStatus = .notRunnable ∧ Blocked tr e (s.envs e).envTf

theorem Recving.marked {tr : List IpcEvent} (h : Recving tr s) (hm : s.Marked e) : (s.envs e).envIpcRecving = false := by
  by_contra hr
  have hlive : (s.envs e).envStatus ≠ .free := by rcases hm with hm | hm <;> rw [hm] <;> simp
  have hst := (h e hlive (Bool.not_eq_false _ ▸ hr)).1
  rcases hm with hm | hm <;> rw [hm] at hst <;> cases hst

/-- Receivers are not on a CPU, so that a send spares the others. -/
theorem Tidy.orderly {tr : List IpcEvent} (ht : Tidy s a) (h : Apart s) (hr : Recving tr s) (hl : s.kernelLock = none) :
    Orderly s a := by
  cases a with
  | start k => trivial
  | trap k tf faultVa c =>
    intro htf cur hcur
    have hc := ht htf cur hcur
    cases c with
    | envSetStatus envid status => exact fun _ e he => (hc e he).1
    | envDestroy envid => exact hc
    | ipcTrySend envid value srcva perm =>
      rintro e he hrecv ⟨k', -, hk'⟩
      rw [hr.marked (h.unlocked hl k' e hk')] at hrecv
      cases hrecv
    | _ => trivial

section Step

variable {s₁ : State} {evs tr : List IpcEvent}

/-- A slot that was in use is not handed out. -/
theorem born_other (h : (s.envs e).envStatus ≠ .free) : ∀ ev ∈ bornEvents s s', ev.slot ≠ e := by
  rintro ev hev rfl
  exact h (mem_bornEvents hev).2.1

/-- A slot whose record was mildly changed and is in use was in use before, or it was handed out. -/
theorem Mild.live {w : Env} (h : Mild s a e w) (hu : ∀ k e, (s.cpus k).cpuEnv = some e → s.Marked e) (hw : w.envStatus ≠ .free) :
    (s.envs e).envStatus ≠ .free ∨ (s.envFreeList = some e ∧ w.envIpcRecving = false ∧ w.envStatus = .notRunnable) := by
  cases h with
  | spawned hl hrec hst => exact Or.inr ⟨hl, hrec, hst⟩
  | same hrec hfrom hval htf hst =>
    left
    rcases hst with hst | ⟨k, tf, faultVa, cur, envid, status, -, -, hk, hr, -⟩ | ⟨hst, -⟩ | hst
    · rw [← hst]; exact hw
    · exact resolve_live hr (by rcases hu k cur hk with h | h <;> rw [h] <;> simp)
    · rw [hst]; simp
    · exact absurd hst hw

/-- The receivers before the kernel is left. -/
theorem Recving.handle (hr : Recving tr s) (ht : Tidy s a) (hu : ∀ k e, (s.cpus k).cpuEnv = some e → s.Marked e)
    (hs : Split s a evs s₁) (s' : State) : Recving (bornEvents s s' ++ evs ++ tr) s₁ := by
  -- a record that is the same
  have hsame : ∀ e, s₁.envs e = s.envs e → (∀ ev ∈ evs, ev.slot ≠ e) → (s₁.envs e).envStatus ≠ .free →
      (s₁.envs e).envIpcRecving = true →
      (s₁.envs e).envStatus = .notRunnable ∧ Blocked (bornEvents s s' ++ evs ++ tr) e (s₁.envs e).envTf := by
    intro e heq hev hlive hrecv
    rw [heq] at hlive hrecv ⊢
    obtain ⟨hst, hb⟩ := hr e hlive hrecv
    refine ⟨hst, hb.append fun ev hm => ?_⟩
    rcases List.mem_append.1 hm with hm | hm
    · exact born_other hlive ev hm
    · exact hev ev hm
  intro e hlive hrecv
  cases hs with
  | mild h =>
    have he := h e
    -- a record that was there already, or that of a new child, which does not wait
    rcases he.live hu hlive with hl | ⟨-, hrec, -⟩
    · generalize s₁.envs e = w at *
      cases he with
      | spawned hl hrec hst => rw [hrec] at hrecv; cases hrecv
      | same hrec hfrom hval htf hst =>
        rw [hrec] at hrecv
        obtain ⟨hnr, hb⟩ := hr e hl hrecv
        have htf : w.envTf = (s.envs e).envTf := htf.resolve_right fun hm => by
          rw [hr.marked hm] at hrecv; cases hrecv
        refine ⟨?_, ?_⟩
        · rcases hst with hst | ⟨k, tf, faultVa, cur, envid, status, rfl, hsys, hk, hres, hst⟩ | ⟨hst, -⟩ | hst
          · rw [hst, hnr]
          · rcases statusOfInt_cases hst with h' | h'
            · rw [h'] at hst
              rw [((ht hsys cur hk) e hres).2 hst] at hrecv
              cases hrecv
            · exact h'
          · rw [hnr] at hst; cases hst
          · exact absurd hst hlive
        · rw [htf, List.append_nil]
          exact hb.append (born_other hl)
    · rw [hrec] at hrecv; cases hrecv
  | @receive cur tf dstva _ hrun hcur hother =>
    by_cases he : e = cur
    · rw [he, hcur]
      refine ⟨rfl, bornEvents s s', tr, by simp [ipcWaiting], born_other (by rw [hrun]; simp)⟩
    · refine hsame e (hother e he) (fun ev hm => ?_) hlive hrecv
      cases List.mem_singleton.1 hm
      exact Ne.symm he
  | @send cur dst value newPerm _ hrun hdlive hdrecv hne hdst hcur hother =>
    by_cases hed : e = dst
    · rw [hed, hdst] at hrecv; cases hrecv
    by_cases hec : e = cur
    · obtain ⟨tf, hcur⟩ := hcur
      rw [hec, hcur] at hrecv
      rw [hr.marked (Or.inl hrun)] at hrecv
      cases hrecv
    · refine hsame e (hother e hed hec) (fun ev hm => ?_) hlive hrecv
      cases List.mem_singleton.1 hm
      exact Ne.symm hed

/-- The receivers after the kernel is left. -/
theorem Recving.out (hr : Recving tr s) (hx : Out s s') (hl : s.kernelLock = some s.cpunum) :
    Recving (resumeEvents s.cpunum s' ++ tr) s' := by
  rcases hx.resume hl with ⟨rfl, hev⟩ | ⟨e, d, he, hd, rfl, hev⟩
  · rw [hev]; exact hr
  rw [hev]
  intro e' hlive hrecv
  obtain ⟨runs, cpu, henv⟩ := popTf_envs s e d e'
  rw [henv] at hlive hrecv ⊢
  have hlive : s.statusAfter e e' ≠ .free := hlive
  have hrecv : (s.envs e').envIpcRecving = true := hrecv
  have hne : e' ≠ e := by
    rintro rfl
    have hst : (s.envs e').envStatus = .runnable ∨ (s.envs e').envStatus = .running := he.imp id And.right
    have hnr := (hr e' (by rcases hst with h | h <;> rw [h] <;> simp) hrecv).1
    rcases hst with h | h <;> rw [h] at hnr <;> cases hnr
  show s.statusAfter e e' = _ ∧ Blocked _ _ (s.envs e').envTf
  unfold State.statusAfter at hlive ⊢
  rw [if_neg hne] at hlive ⊢
  by_cases hc : s.curenv = some e' ∧ (s.envs e').envStatus = .running
  · have hnr := (hr e' (by rw [hc.2]; simp) hrecv).1
    rw [hc.2] at hnr
    cases hnr
  · rw [if_neg hc] at hlive ⊢
    obtain ⟨hst, hb⟩ := hr e' hlive hrecv
    refine ⟨hst, hb.append fun ev hm => ?_⟩
    cases List.mem_singleton.1 hm
    exact Ne.symm hne

theorem Recving.step (hr : Recving tr s) (h : Apart s) (ht : Tidy s a) (hs : Step s a s') :
    Recving (stepEvents s a s' ++ tr) s' := by
  have hu := h.unlocked hs.unlocked
  obtain ⟨s₁, hsp, hx, hcpu, hl⟩ := hs.split h fun k e he => hr.marked (hu k e he)
  have hout := (hr.handle ht hu hsp s').out hx hl
  rw [hcpu] at hout
  unfold stepEvents
  rw [List.append_assoc]
  exact hout

theorem Traced.recving {P : List IpcEvent → State → Sect → Prop} (hP : ∀ tr s a, P tr s a → Tidy s a) (h₀ : Fresh s₀)
    (h : Traced P s₀ tr s) : Apart s ∧ Recving tr s := by
  induction h with
  | refl =>
    refine ⟨h₀.apart, fun e _ hrecv => ?_⟩
    rw [h₀.recving] at hrecv
    cases hrecv
  | step h hp hs ih =>
    have ht := hP _ _ _ hp
    exact ⟨ih.1.step (ht.orderly ih.1 ih.2 hs.unlocked) hs, ih.2.step ih.1 ht hs⟩

end Step

/-! ## A receiver on one CPU -/

/-- The parent has yielded to the child. -/
def childRuns : State := ((childReady.on 0).saved 0 callTf).popTf 1 127

/-- The state in which the child has blocked. -/
def childBlocked : State :=
  let t := (childRuns.on 0).saved 1 callTf
  t.setEnv 1 (ipcWaiting 0xffffffff#32 (t.envs 1))

/-- The child waits for a message and the parent runs. -/
def childWaits : State := childBlocked.popTf 0 128

theorem childRuns_step : Step childReady (.trap 0 callTf 0#32 .yield) childRuns :=
  yield_step childReady_duo (by decide +kernel) (by decide +kernel) (by decide +kernel)

theorem childRuns_duo : childRuns.Duo := by
  refine State.Duo.popTf (s := (childReady.on 0).saved 0 callTf) (fun e h0 h1 => ?_) (Or.inr rfl) _
  rw [saved_status]
  exact childReady_duo e h0 h1

theorem run_ipcRecv {dstva : Word} (hva : ¬ (dstva < utop ∧ rounddown dstva pgsize ≠ dstva)) (hcur : s.curenv = some cur)
    {x : Stop} (hy : schedYield.run (s.setEnv cur (ipcWaiting dstva (s.envs cur))) = .error x s') :
    (sysIpcRecv dstva).run s = .error x s' := by
  unfold sysIpcRecv
  rw [if_neg hva, run_bind_ok (EStateM.run_get s), hcur, run_bind_ok (run_deref_some cur), run_bind_ok (run_modifyEnv ..),
    run_bind_error hy]

/-- The child waits for a message, and the parent runs. -/
theorem recv_step {dstva : Word} (hva : ¬ (dstva < utop ∧ rounddown dstva pgsize ≠ dstva)) :
    let t := (childRuns.on 0).saved 1 callTf
    Step childRuns (.trap 0 callTf 0#32 (.ipcRecv dstva)) ((t.setEnv 1 (ipcWaiting dstva (t.envs 1))).popTf 0 128) := by
  intro t
  let v : Env := ipcWaiting dstva (t.envs 1)
  have hk : (childRuns.cpus 0).cpuEnv = some 1 := by decide +kernel
  have hparent : (t.envs 0).envStatus = .runnable ∧ (t.envs 0).envPgdir = some 128 := by decide +kernel
  have hself : ∀ e, (t.setEnv e v).envs e = v := fun e => Function.update_self ..
  have hother : ∀ e, e ≠ 1 → (t.setEnv 1 v).envs e = t.envs e := fun e he => Function.update_of_ne he _ _
  have hduo : (t.setEnv 1 v).Duo := by
    intro e h0 h1
    rw [hother e h1, saved_status]
    exact childRuns_duo e h0 h1
  refine step_leave (t := t.setEnv 1 v) rfl hk (by decide +kernel) (by decide +kernel) rfl
    (fun x s' hy => run_ipcRecv hva (saved_curenv callTf hk) hy) rfl ?_ (hduo.only (fun _ => rfl) fun h => ?_) ?_
  · exact (congrArg Env.envStatus (hother 0 (by decide))).trans hparent.1
  · cases (congrArg Env.envStatus (hself 1)).symm.trans h
  · rw [hother 0 (by decide)]
    exact hparent.2

theorem childWaits_step : Step childRuns (.trap 0 callTf 0#32 (.ipcRecv 0xffffffff#32)) childWaits :=
  recv_step (by decide)

/-- The parent makes the waiting child runnable. -/
def woken : State := childWaits.after 0 0 128 (setStatus .runnable) 0

theorem woken_step : Step childWaits (.trap 0 callTf 0#32 (.envSetStatus 4097#32 2#32)) woken :=
  setStatus_step rfl (by decide +kernel)

/-- The trace up to the birth of the child. -/
def childTrace : List IpcEvent :=
  stepEvents soloRun (.trap 0 callTf 0#32 .exofork) childMade ++ stepEvents firstEnv (.start 0) soloRun

theorem childRuns_traced {P : List IpcEvent → State → Sect → Prop} (h0 : ∀ tr, P tr firstEnv (.start 0))
    (h1 : ∀ tr, P tr soloRun (.trap 0 callTf 0#32 .exofork))
    (h2 : P childTrace childMade (.trap 0 callTf 0#32 (.envSetStatus 4097#32 2#32)))
    (h3 : ∀ tr, P tr childReady (.trap 0 callTf 0#32 .yield)) : ∃ tr, Traced P firstEnv tr childRuns := by
  have hsolo := Traced.refl.step (h0 _) soloRun_step
  rw [List.append_nil] at hsolo
  exact ⟨_, ((hsolo.step (h1 _) childMade_step).step h2 childReady_step).step (h3 _) childRuns_step⟩

theorem childWaits_traced {P : List IpcEvent → State → Sect → Prop} (h0 : ∀ tr, P tr firstEnv (.start 0))
    (h1 : ∀ tr, P tr soloRun (.trap 0 callTf 0#32 .exofork))
    (h2 : P childTrace childMade (.trap 0 callTf 0#32 (.envSetStatus 4097#32 2#32)))
    (h3 : ∀ tr, P tr childReady (.trap 0 callTf 0#32 .yield))
    (h4 : ∀ tr, P tr childRuns (.trap 0 callTf 0#32 (.ipcRecv 0xffffffff#32))) : ∃ tr, Traced P firstEnv tr childWaits := by
  obtain ⟨tr, h⟩ := childRuns_traced h0 h1 h2 h3
  exact ⟨_, h.step (h4 tr) childWaits_step⟩

/-- In every state that tidy sections reach, a live environment marked as receiving is not runnable, and
its frame is the one that its own `sys_ipc_recv` saved, the last thing that happened to it; so a send
leaves the status and the registers of an environment in any other status alone. -/
theorem recving_is_blocked {tr : List IpcEvent} (h₀ : Fresh s₀) (h : Traced (fun _ => Tidy) s₀ tr s) :
    (∀ e, (s.envs e).envStatus ≠ .free → (s.envs e).envIpcRecving = true →
      (s.envs e).envStatus = .notRunnable ∧ Blocked tr e (s.envs e).envTf) ∧
    ∀ k cur tf envid value srcva perm r s', (s.cpus k).cpuEnv = some cur →
      (Call.ipcTrySend envid value srcva perm).exec.run ((s.on k).saved cur tf) = .ok r s' →
      ∀ e, (s.envs e).envStatus ≠ .free → (s.envs e).envStatus ≠ .notRunnable →
        (s'.envs e).envStatus = (s.envs e).envStatus ∧
        (s'.envs e).envTf.tfRegs.regEax = (((s.on k).saved cur tf).envs e).envTf.tfRegs.regEax := by
  obtain ⟨ha, hr⟩ := h.recving (fun _ _ _ => id) h₀
  refine ⟨hr, fun k cur tf envid value srcva perm r s' hk hrun e hlive hne => ?_⟩
  have hcur := saved_curenv tf hk
  have hres := call_res hcur (.ipcTrySend envid value srcva perm)
  rw [hrun] at hres
  cases hres with
  | returns r s' hch =>
    have hm := hch.move e
    generalize s'.envs e = w at hm
    cases hm with
    | keep => exact ⟨saved_status .., rfl⟩
    | setUpcall => exact ⟨saved_status .., rfl⟩
    | status hc => cases hc
    | dying hc => cases hc
    | freed _ hc => cases hc
    | spawned hc => cases hc
    | received hc he hrecv =>
      rw [saved_recving] at hrecv
      exact absurd (hr e hlive hrecv).1 hne

theorem recving_is_blocked_childWaits : ∃ tr, (childWaits.envs 1).envIpcRecving = true ∧
    (childWaits.envs 1).envStatus = .notRunnable ∧ Blocked tr 1 (childWaits.envs 1).envTf := by
  have hstart : Tidy firstEnv (.start 0) := trivial
  have hfork : Tidy soloRun (.trap 0 callTf 0#32 .exofork) := fun _ _ _ => trivial
  have hset : Tidy childMade (.trap 0 callTf 0#32 (.envSetStatus 4097#32 2#32)) := by
    intro _ cur hcur e he
    cases show some (0 : Slot) = some cur from hcur
    cases show some (1 : Slot) = some e from he
    exact ⟨childMade_elsewhere 0, fun _ => rfl⟩
  have hyield : Tidy childReady (.trap 0 callTf 0#32 .yield) := fun _ _ _ => trivial
  have hrecv : Tidy childRuns (.trap 0 callTf 0#32 (.ipcRecv 0xffffffff#32)) := fun _ _ _ => trivial
  obtain ⟨tr, h⟩ := childWaits_traced (P := fun _ => Tidy) (fun _ => hstart) (fun _ => hfork) hset
    (fun _ => hyield) (fun _ => hrecv)
  have hlive : (childWaits.envs 1).envStatus ≠ .free := by decide +kernel
  have hrecving : (childWaits.envs 1).envIpcRecving = true := by decide +kernel
  exact ⟨tr, hrecving, (recving_is_blocked firstEnv_fresh h).1 1 hlive hrecving⟩

/-- `sys_env_set_status` makes a waiting environment runnable and leaves it marked as receiving. -/
theorem recving_and_runnable : Fresh firstEnv ∧ ∃ tr s, Traced (fun _ _ _ => True) firstEnv tr s ∧
    (s.envs 1).envIpcRecving = true ∧ (s.envs 1).envStatus = .runnable := by
  obtain ⟨tr, h⟩ := childWaits_traced (P := fun _ _ _ => True) (fun _ => trivial) (fun _ => trivial) trivial
    (fun _ => trivial) (fun _ => trivial)
  exact ⟨firstEnv_fresh, _, woken, h.step trivial woken_step, by decide +kernel, by decide +kernel⟩

end Jos
