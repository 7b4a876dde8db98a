/-
Which environment `sched_yield` picks. The loop looks at slot `(p + j) % 1023 + 1` in turn `j`,
where `p` is the slot of `curenv`, or 0 without one, and slot 0 comes after the loop. From this
follow when the scheduler finds something to run, and who waits how long over many calls of it.
-/
import Jos.Sys.Sched

namespace Jos

open Lib Kern

variable {s : State} {e k : Slot}

/-! ## The search -/

/-- The slot the loop of `sched_yield` looks at in turn `j`, started after slot `p`. -/
def scanSlot (p j : Nat) : Slot := Fin.ofNat nenv ((p + j) % 1023 + 1)

/-- The slot after which the search starts. -/
def State.schedPtr (s : State) : Nat :=
  match s.curenv with
  | none => 0
  | some e => e.val

def State.Runnable (s : State) (e : Slot) : Prop := (s.envs e).envStatus = .runnable

instance (s : State) : DecidablePred s.Runnable := fun e =>
  inferInstanceAs (Decidable ((s.envs e).envStatus = .runnable))

theorem scanSlot_val (p j : Nat) : (scanSlot p j).val = (p + j) % 1023 + 1 := by
  show ((p + j) % 1023 + 1) % 1024 = _
  omega

theorem schedPtr_lt (s : State) : s.schedPtr < nenv := by
  unfold State.schedPtr
  split
  · decide
  · rename_i e _; exact e.isLt

/-- The loop runs the first runnable environment it looks at. -/
theorem schedLoop_scan (s : State) (n : Nat) : ∀ p, p < nenv →
    ((schedLoop n (p + 1)).run s = .ok () s ∧ ∀ j < n, ¬ s.Runnable (scanSlot p j)) ∨
    ∃ j < n, s.Runnable (scanSlot p j) ∧ (∀ i < j, ¬ s.Runnable (scanSlot p i)) ∧
      (schedLoop n (p + 1)).run s = (envRun (scanSlot p j)).run s := by
  induction n with
  | zero => exact fun _ _ => Or.inl ⟨rfl, by simp⟩
  | succ n ih =>
    intro p hp
    have hptr : (if p + 1 ≥ nenv then 1 else p + 1) = p % 1023 + 1 := by
      unfold nenv at *
      split <;> omega
    have hnext : ∀ j, scanSlot (p % 1023 + 1) j = scanSlot p (j + 1) := by
      intro j
      apply Fin.ext
      rw [scanSlot_val, scanSlot_val]
      omega
    have hslot : (Fin.ofNat nenv (p % 1023 + 1) : Slot) = scanSlot p 0 := rfl
    unfold schedLoop
    rw [hptr]
    dsimp only
    rw [hslot, run_bind_ok (run_env _)]
    by_cases hr : (s.envs (scanSlot p 0)).envStatus = .runnable
    · obtain ⟨x, s', hrun, -⟩ := envRun_switched hr
      refine Or.inr ⟨0, Nat.succ_pos n, hr, by simp, ?_⟩
      rw [if_pos hr, hrun]
      exact run_bind_error hrun
    · rw [if_neg hr]
      rcases ih (p % 1023 + 1) (by unfold nenv; omega) with ⟨hrun, hno⟩ | ⟨j, hj, hrj, hno, hrun⟩
      · refine Or.inl ⟨hrun, fun j hj => ?_⟩
        cases j with
        | zero => exact hr
        | succ j => rw [← hnext]; exact hno j (by omega)
      · rw [hnext] at hrj hrun
        refine Or.inr ⟨j + 1, by omega, hrj, fun i hi => ?_, hrun⟩
        cases i with
        | zero => exact hr
        | succ i => rw [← hnext]; exact hno i (by omega)

/-- The turn in which the loop looks at a slot other than 0. -/
theorem scanSlot_surj {p : Nat} (hp : p < nenv) (hk : k ≠ 0) : scanSlot p ((k.val + 1022 - p) % 1023) = k := by
  have hk0 : k.val ≠ 0 := fun h => hk (Fin.ext h)
  have hlt : k.val < 1024 := k.isLt
  have hp' : p < 1024 := hp
  apply Fin.ext
  rw [scanSlot_val]
  omega

/-- Environment `e` is the one `sched_yield` picks: the first runnable one of the loop, or slot 0
when it is the only runnable one. -/
inductive State.Picks (s : State) : Slot → Prop where
  | scan (j : Nat) (hr : s.Runnable (scanSlot s.schedPtr j)) (hmin : ∀ i < j, ¬ s.Runnable (scanSlot s.schedPtr i)) :
      Picks s (scanSlot s.schedPtr j)
  | idle (hr : s.Runnable 0) (honly : ∀ k, s.Runnable k → k = 0) : Picks s 0

theorem State.Picks.runnable (h : s.Picks e) : s.Runnable e := by
  cases h with
  | scan j hr => exact hr
  | idle hr => exact hr

/-- `sched_yield` runs the environment it picks, or ends in the monitor when none is runnable. -/
theorem schedYield_picks (s : State) :
    (∃ e, s.Picks e ∧ schedYield.run s = (envRun e).run s) ∨
    ((∀ e, ¬ s.Runnable e) ∧ schedYield.run s = .error .monitor s) := by
  have hyield : schedYield.run s = (do
      schedLoop nenv (s.schedPtr + 1)
      if (← env 0).envStatus = .runnable then
        envRun 0
      else
        throw Stop.monitor : Kern Unit).run s := by
    unfold schedYield
    rw [run_bind_ok (EStateM.run_get s)]
    rfl
  have hp := schedPtr_lt s
  rw [hyield]
  rcases schedLoop_scan s nenv s.schedPtr hp with ⟨hrun, hno⟩ | ⟨j, hj, hr, hno, hrun⟩
  · have hidle : ∀ k, k ≠ 0 → ¬ s.Runnable k := by
      intro k hk
      rw [← scanSlot_surj hp hk]
      exact hno _ (lt_trans (Nat.mod_lt _ (by decide)) (by decide))
    rw [run_bind_ok hrun, run_bind_ok (run_env 0)]
    by_cases h0 : (s.envs 0).envStatus = .runnable
    · rw [if_pos h0]
      exact Or.inl ⟨0, .idle h0 fun k hk => by_contra fun hne => hidle k hne hk, rfl⟩
    · rw [if_neg h0]
      refine Or.inr ⟨fun e => ?_, rfl⟩
      by_cases he : e = 0
      · rw [he]; exact h0
      · exact hidle e he
  · obtain ⟨x, s', herr, -⟩ := envRun_switched hr
    refine Or.inl ⟨_, .scan j hr hno, ?_⟩
    rw [herr] at hrun ⊢
    exact run_bind_error hrun

/-! ## Something can run -/

/-- The environment that called the scheduler is still running. -/
def State.StillRunning (s : State) (e : Slot) : Prop := s.curenv = some e ∧ (s.envs e).envStatus = .running

/-- The scheduler gives up only when nothing can run, and otherwise runs what can. -/
structure NeverGivesUp (s : State) : Prop where
  runs : ((∃ e, s.Runnable e) ∨ ∃ e, s.StillRunning e) →
    ∃ e, (s.Runnable e ∨ s.curenv = some e) ∧ schedYield.run s = (envRun e).run s
  monitor : ∀ s', schedYield.run s = .error .monitor s' → ¬ ((∃ e, s.Runnable e) ∨ ∃ e, s.StillRunning e)

/-- `env_run` does not end in the monitor. -/
theorem envRun_not_monitor (s t : State) (e : Slot) : (envRun e).run s ≠ .error .monitor t := by
  have hr := envRun_resumed s e
  generalize (envRun e).run s = r at hr
  rintro rfl
  cases hr

/-- The scheduler does what it should exactly when some environment is runnable or `curenv` is not
running: it never resumes a `curenv` that is still running. -/
theorem never_gives_up_iff (s : State) :
    NeverGivesUp s ↔ (∃ e, s.Runnable e) ∨ ¬ ∃ e, s.StillRunning e := by
  constructor
  · intro h
    by_contra hc
    rw [not_or, not_not] at hc
    obtain ⟨hno, hstill⟩ := hc
    rcases schedYield_picks s with ⟨e, he, -⟩ | ⟨-, hrun⟩
    · exact hno ⟨e, he.runnable⟩
    · exact h.monitor s hrun (Or.inr hstill)
  · intro h
    rcases schedYield_picks s with ⟨e, he, hrun⟩ | ⟨hno, hrun⟩
    · refine ⟨fun _ => ⟨e, Or.inl he.runnable, hrun⟩, fun s' hm => ?_⟩
      rw [hrun] at hm
      exact absurd hm (envRun_not_monitor s s' e)
    · have hnone : ¬ ((∃ e, s.Runnable e) ∨ ∃ e, s.StillRunning e) := by
        rintro (⟨e, he⟩ | hstill)
        · exact hno e he
        · rcases h with ⟨e, he⟩ | h
          · exact hno e he
          · exact h hstill
      exact ⟨fun hc => absurd hc hnone, fun _ _ => hnone⟩

/-- A state whose environments are `envs` and whose CPU 0 has `curenv`. -/
def schedState (envs : Slot → Env) (curenv : Option Slot) : State :=
  { npages := 0, npages_le := by decide, pages := fun _ => {}, pageFreeList := none, mem := fun _ _ => 0#32,
    kernPgdir := 0, envs := envs, envFreeList := none, cpus := fun _ => { cpuEnv := curenv },
    kernelLock := some 0 }

/-- One environment, the current one, is running, and it yields: the scheduler ends in the monitor. -/
theorem lone_yield_gives_up :
    ∃ s : State, s.curenv = some 1 ∧ (s.envs 1).envStatus = .running ∧ (∀ e, e ≠ 1 → (s.envs e).envStatus = .free) ∧
      schedYield.run s = .error .monitor s ∧ ¬ NeverGivesUp s := by
  let s : State := schedState (Function.update (fun _ => {}) 1 { envStatus := .running, envPgdir := some 0 }) (some 1)
  have hrun : (s.envs 1).envStatus = .running := rfl
  have hfree : ∀ e, e ≠ 1 → (s.envs e).envStatus = .free := fun e he => by
    show (Function.update (fun _ => ({} : Env)) 1 _ e).envStatus = _
    rw [Function.update_of_ne he]
  have hno : ∀ e, ¬ s.Runnable e := by
    intro e he
    unfold State.Runnable at he
    by_cases h1 : e = 1
    · rw [h1, hrun] at he; cases he
    · rw [hfree e h1] at he; cases he
  have hmon : schedYield.run s = .error .monitor s := by
    rcases schedYield_picks s with ⟨e, he, -⟩ | ⟨-, h⟩
    · exact absurd he.runnable (hno e)
    · exact h
  exact ⟨s, rfl, hrun, hfree, hmon, fun h => h.monitor s hmon (Or.inr ⟨1, rfl, hrun⟩)⟩

/-! ## Waiting for a turn -/

/-- Successive calls of `sched_yield`, `n` of them: in state `t i` it ends in `env_run` of `c i`, and
at the next call `curenv` is that environment, or null after its destruction. Anything else may
have changed in between. -/
structure Yields (n : Nat) (t : Nat → State) (c : Nat → Slot) : Prop where
  picks : ∀ i < n, (t i).Runnable (c i) ∧ schedYield.run (t i) = (envRun (c i)).run (t i)
  next : ∀ i, i + 1 < n → (t (i + 1)).curenv = some (c i) ∨
    ((t (i + 1)).curenv = none ∧ ((t (i + 1)).envs (c i)).envStatus = .free)

/-- The slot after which the search should go on at call `i`: the one picked last. -/
def lastSlot (t : Nat → State) (c : Nat → Slot) : Nat → Nat
  | 0 => (t 0).schedPtr
  | i + 1 => (c i).val

/-- The search of `sched_yield` goes around in a circle after slot `last`: it starts there, or with
a null `curenv` nothing above `last` is runnable, and slot 0 is not left out for a slot beyond it. -/
structure State.Circular (s : State) (last : Nat) : Prop where
  start : s.schedPtr = last ∨ (s.curenv = none ∧ ∀ m : Slot, last < m.val → ¬ s.Runnable m)
  zero : s.Runnable 0 → (∃ m : Slot, last < m.val ∧ s.Runnable m) ∨ ∀ m, s.Runnable m → m = 0

/-- How far slot `k` is ahead of slot `last` around the table. -/
def ahead (last : Nat) (k : Slot) : Nat := (k.val + 1023 - last) % 1024

/-- `env_run` leaves its environment as the current one. -/
theorem envRun_curenv (s : State) (e : Slot) : (finalState ((envRun e).run s)).curenv = some e := by
  have hr := envRun_resumed s e
  generalize (envRun e).run s = r at hr
  have hload : ∀ d, (s.loadDir e d).curenv = some e := fun d => by
    show ((s.loadDir e d).cpus (s.switchTo e).cpunum).cpuEnv = _
    rw [loadDir_cpus, switchTo_cpunum, Function.update_self]
  cases hr with
  | popTf d => exact hload d
  | noLock d => exact hload d
  | noDir =>
    show ((s.switchTo e).cpus (s.switchTo e).cpunum).cpuEnv = _
    rw [switchTo_cpus, switchTo_cpunum, Function.update_self]

theorem picks_of_run (hr : s.Runnable e) (hrun : schedYield.run s = (envRun e).run s) : s.Picks e := by
  rcases schedYield_picks s with ⟨k, hk, hk'⟩ | ⟨hno, -⟩
  · have hsame := congrArg (fun r => (finalState r).curenv) (hk'.symm.trans hrun)
    simp only [envRun_curenv] at hsame
    cases hsame
    exact hk
  · exact absurd hr (hno e)

/-- A runnable environment that is not picked is farther ahead than the one picked. -/
theorem State.Picks.ahead_lt {last : Nat} (h : s.Picks e) (hc : s.Circular last) (hlast : last < nenv)
    (hk : s.Runnable k) (hne : e ≠ k) : ahead last e < ahead last k := by
  have hkl : k.val < 1024 := k.isLt
  have hlast' : last < 1024 := hlast
  have hp : s.schedPtr < 1024 := schedPtr_lt s
  unfold ahead
  cases h with
  | idle hr honly => exact absurd (honly k hk).symm hne
  | scan j hr hmin =>
    -- every runnable slot but 0 has its turn at `j` or later
    have hturn : ∀ m : Slot, m ≠ 0 → s.Runnable m → j ≤ (m.val + 1022 - s.schedPtr) % 1023 := by
      intro m hm hrm
      by_contra hlt
      refine hmin _ (not_le.1 hlt) ?_
      rw [scanSlot_surj (schedPtr_lt s) hm]
      exact hrm
    have hval := scanSlot_val s.schedPtr j
    have hne' : (scanSlot s.schedPtr j).val ≠ k.val := fun h => hne (Fin.ext h)
    by_cases hk0 : k = 0
    · subst hk0
      have hk0 : ((0 : Slot) : Nat) = 0 := rfl
      rcases hc.zero hk with ⟨m, hm, hrm⟩ | honly
      · have hm0 : m ≠ 0 := by rintro rfl; simp at hm
        have hj := hturn m hm0 hrm
        have hml : m.val < 1024 := m.isLt
        rcases hc.start with hs | hs
        · omega
        · exact absurd hrm (hs.2 m hm)
      · exact absurd (honly _ hr) hne
    · have hj := hturn k hk0 hk
      have hkpos : k.val ≠ 0 := fun h => hk0 (Fin.ext h)
      rcases hc.start with hs | ⟨hcur, hs⟩
      · omega
      · have h0 : s.schedPtr = 0 := by unfold State.schedPtr; rw [hcur]
        have h1 : ¬ last < k.val := fun h => hs k h hk
        have h2 : ¬ last < (scanSlot s.schedPtr j).val := fun h => hs _ h hr
        omega

theorem lastSlot_lt (t : Nat → State) (c : Nat → Slot) (i : Nat) : lastSlot t c i < nenv := by
  cases i with
  | zero => exact schedPtr_lt (t 0)
  | succ i => exact (c i).isLt

/-- Round robin: where the search goes around in a circle, an environment that is runnable at `NENV`
calls in a row is picked by one of them. -/
theorem picked_within_nenv {n : Nat} {t : Nat → State} {c : Nat → Slot} (h : Yields n t c)
    (hc : ∀ i < n, (t i).Circular (lastSlot t c i)) (k : Slot) (i : Nat) (hi : i + nenv ≤ n)
    (hk : ∀ j < nenv, (t (i + j)).Runnable k) : ∃ j < nenv, c (i + j) = k := by
  by_contra hno
  rw [not_exists] at hno
  have hpass : ∀ j < nenv, c (i + j) ≠ k := fun j hj hp => hno j ⟨hj, hp⟩
  -- with every call that passes it over the environment is nearer
  have hnear : ∀ j ≤ nenv, ahead (lastSlot t c (i + j)) k + j ≤ 1023 := by
    intro j
    induction j with
    | zero =>
      intro _
      unfold ahead
      omega
    | succ j ih =>
      intro hj
      have hin : i + j < n := by omega
      have hp := h.picks (i + j) hin
      have hlt := (picks_of_run hp.1 hp.2).ahead_lt (hc _ hin) (lastSlot_lt t c _) (hk j (by omega)) (hpass j (by omega))
      have hnext : ahead (lastSlot t c (i + (j + 1))) k + 1 ≤ ahead (lastSlot t c (i + j)) k := by
        have hl : lastSlot t c (i + (j + 1)) = (c (i + j)).val := rfl
        have hcl : (c (i + j)).val < 1024 := (c (i + j)).isLt
        have hkl : k.val < 1024 := k.isLt
        have hll : lastSlot t c (i + j) < 1024 := lastSlot_lt t c _
        have hne : (c (i + j)).val ≠ k.val := fun h => hpass j (by omega) (Fin.ext h)
        rw [hl]
        unfold ahead at hlt ⊢
        omega
      have := ih (by omega)
      omega
  have := hnear nenv le_rfl
  unfold nenv at this
  omega

/-- Slot 0 is picked only when nothing else is runnable. -/
theorem State.Picks.zero (h : s.Picks e) (he : e = 0) (hk : s.Runnable k) : k = 0 := by
  cases h with
  | idle hr honly => exact honly k hk
  | scan j hr hmin =>
    have hval := scanSlot_val s.schedPtr j
    rw [he] at hval
    simp at hval

/-- Without a `curenv` the search starts at slot 1. -/
theorem State.Picks.le_of_none (h : s.Picks e) (hcur : s.curenv = none) (hk : s.Runnable k) (hk0 : k ≠ 0) :
    e.val ≤ k.val := by
  have hp : s.schedPtr = 0 := by unfold State.schedPtr; rw [hcur]
  have hkpos : k.val ≠ 0 := fun h => hk0 (Fin.ext h)
  have hkl : k.val < 1024 := k.isLt
  cases h with
  | idle hr honly => exact absurd (honly k hk) hk0
  | scan j hr hmin =>
    rw [hp, scanSlot_val]
    by_contra hlt
    refine hmin (k.val - 1) (by omega) ?_
    have hslot : scanSlot s.schedPtr (k.val - 1) = k := by
      apply Fin.ext
      rw [hp, scanSlot_val]
      omega
    rw [hslot]
    exact hk

/-- A state with these statuses. -/
def statusState (status : Slot → EnvStatus) (curenv : Option Slot) : State :=
  schedState (fun e => { envStatus := status e, envPgdir := some 0 }) curenv

/-- Slot 1 or 2, by turns. -/
def alternate (i : Nat) : Slot := if i % 2 = 0 then 1 else 2

theorem alternate_succ (i : Nat) : alternate (i + 1) ≠ alternate i := by
  unfold alternate
  rcases Nat.mod_two_eq_zero_or_one i with h | h
  · rw [if_pos h, if_neg (show ¬ (i + 1) % 2 = 0 by omega)]; decide
  · rw [if_neg (show ¬ i % 2 = 0 by omega), if_pos (show (i + 1) % 2 = 0 by omega)]; decide

theorem alternate_cases (i : Nat) : alternate i = 1 ∨ alternate i = 2 := by
  unfold alternate
  split
  · exact Or.inl rfl
  · exact Or.inr rfl

theorem alternate_ne (i : Nat) (h : k = 0 ∨ k = 3) : alternate i ≠ k := by
  rcases alternate_cases i with hi | hi <;> rcases h with rfl | rfl <;> rw [hi] <;> decide

theorem alternate_again (i : Nat) : alternate (i + 1 + 1) = alternate i := by
  unfold alternate
  rw [show (i + 1 + 1) % 2 = i % 2 by omega]

/-- Statuses in which the slots 1 and 2 are runnable. -/
def bothRunnable (e : Slot) : EnvStatus := if e = 1 ∨ e = 2 then .runnable else .free

theorem bothRunnable_cases (h : bothRunnable e = .runnable) (i : Nat) : e = alternate i ∨ e = alternate (i + 1) := by
  have he : e = 1 ∨ e = 2 := by
    by_contra hne
    rw [bothRunnable, if_neg hne] at h
    cases h
  unfold alternate
  rcases Nat.mod_two_eq_zero_or_one i with hi | hi
  · rw [if_pos hi, if_neg (show ¬ (i + 1) % 2 = 0 by omega)]
    exact he
  · rw [if_neg (show ¬ i % 2 = 0 by omega), if_pos (show (i + 1) % 2 = 0 by omega)]
    exact he.symm

theorem bothRunnable_alternate (i : Nat) : bothRunnable (alternate i) = .runnable :=
  if_pos (alternate_cases i)

theorem circular_both (e : Slot) : (statusState bothRunnable (some e)).Circular e.val := by
  have hno : bothRunnable 0 ≠ .runnable := by decide
  exact ⟨Or.inl rfl, fun h0 => absurd h0 hno⟩

/-- Two environments in slots 1 and 2 that are both runnable take turns. -/
theorem yields_turns (n : Nat) : Yields n (fun i => statusState bothRunnable (some (alternate (i + 1)))) alternate := by
  refine ⟨fun i _ => ?_, fun i _ => Or.inl ?_⟩
  · let s := statusState bothRunnable (some (alternate (i + 1)))
    have hr : s.Runnable (alternate i) := bothRunnable_alternate i
    refine ⟨hr, ?_⟩
    rcases schedYield_picks s with ⟨e, he, hrun⟩ | ⟨hnone, -⟩
    · rcases bothRunnable_cases he.runnable i with rfl | rfl
      · exact hrun
      · -- the one picked last is the farthest ahead
        have hlt := he.ahead_lt (circular_both _) (alternate (i + 1)).isLt hr (alternate_succ i)
        unfold ahead at hlt
        omega
    · exact absurd hr (hnone _)
  · show some (alternate (i + 1 + 1)) = _
    rw [alternate_again]

/-- Of two environments that take turns the second waits for its call. -/
theorem picked_within_nenv_turns : Yields nenv (fun i => statusState bothRunnable (some (alternate (i + 1)))) alternate ∧
    alternate 0 ≠ 2 ∧ ∃ j < nenv, alternate (0 + j) = 2 := by
  refine ⟨yields_turns nenv, by decide, picked_within_nenv (yields_turns nenv) (fun i _ => ?_) 2 0 (by simp) fun _ _ => rfl⟩
  cases i with
  | zero => exact circular_both (alternate 1)
  | succ i =>
    rw [alternate_again]
    exact circular_both (alternate i)

/-- Statuses in which slot 0 and `other` are runnable and `cur` is running. -/
def besideZero (cur other e : Slot) : EnvStatus :=
  if e = 0 ∨ e = other then .runnable else if e = cur then .running else .free

/-- Statuses in which slot 3 and `next` are runnable. -/
def besideThree (next e : Slot) : EnvStatus := if e = 3 ∨ e = next then .runnable else .free

/-- Two environments in slots 1 and 2 that yield to each other. -/
theorem yields_besideZero (n : Nat) : Yields n
    (fun i => statusState (besideZero (alternate (i + 1)) (alternate i)) (some (alternate (i + 1)))) alternate := by
  refine ⟨fun i _ => ?_, fun i _ => Or.inl ?_⟩
  · let s := statusState (besideZero (alternate (i + 1)) (alternate i)) (some (alternate (i + 1)))
    have hr : s.Runnable (alternate i) := if_pos (Or.inr rfl)
    refine ⟨hr, ?_⟩
    rcases schedYield_picks s with ⟨e, he, hrun⟩ | ⟨hnone, -⟩
    · have he' : e = 0 ∨ e = alternate i := by
        by_contra hne
        have := he.runnable
        simp only [State.Runnable, s, statusState, schedState, besideZero, if_neg hne] at this
        split at this <;> cases this
      rcases he' with he' | he'
      · exact absurd (he.zero he' hr) (alternate_ne i (Or.inl rfl))
      · rw [he'] at hrun
        exact hrun
    · exact absurd hr (hnone _)
  · show some (alternate (i + 1 + 1)) = _
    rw [alternate_again]

/-- Two environments in slots 1 and 2, each of which creates the other anew and exits. -/
theorem yields_besideThree (n : Nat) :
    Yields n (fun i => statusState (besideThree (alternate i)) none) alternate := by
  refine ⟨fun i _ => ?_, fun i _ => Or.inr ⟨rfl, ?_⟩⟩
  · let s := statusState (besideThree (alternate i)) none
    have hr : s.Runnable (alternate i) := if_pos (Or.inr rfl)
    refine ⟨hr, ?_⟩
    rcases schedYield_picks s with ⟨e, he, hrun⟩ | ⟨hnone, -⟩
    · have he' : e = 3 ∨ e = alternate i := by
        by_contra hne
        have := he.runnable
        simp only [State.Runnable, s, statusState, schedState, besideThree, if_neg hne] at this
        cases this
      rcases he' with he' | he'
      · have hle := he.le_of_none rfl hr (alternate_ne i (Or.inl rfl))
        rw [he'] at hle
        rcases alternate_cases i with h | h <;> rw [h] at hle <;> exact absurd hle (by decide)
      · rw [he'] at hrun
        exact hrun
    · exact absurd hr (hnone _)
  · show besideThree (alternate (i + 1)) (alternate i) = .free
    refine if_neg ?_
    rintro (h | h)
    · exact alternate_ne i (Or.inr rfl) h
    · exact alternate_succ i h.symm

/-- Two environments in slots 1 and 2 that yield to each other pass over slot 0 forever, and two
that exit after creating each other anew pass over slot 3 forever. -/
theorem passed_over_forever :
    (∃ t c, (∀ n, Yields n t c) ∧ ∀ i, (t i).Runnable 0 ∧ c i ≠ 0) ∧
    (∃ t c, (∀ n, Yields n t c) ∧ ∀ i, (t i).Runnable 3 ∧ c i ≠ 3) := by
  refine ⟨⟨_, _, yields_besideZero, fun i => ⟨?_, alternate_ne i (Or.inl rfl)⟩⟩,
    ⟨_, _, yields_besideThree, fun i => ⟨?_, alternate_ne i (Or.inr rfl)⟩⟩⟩
  · show besideZero (alternate (i + 1)) (alternate i) 0 = .runnable
    exact if_pos (Or.inl rfl)
  · show besideThree (alternate i) 3 = .runnable
    exact if_pos (Or.inl rfl)

end Jos
