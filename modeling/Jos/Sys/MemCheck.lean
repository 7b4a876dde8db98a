/-
`user_mem_check` against its specification: it accepts a range exactly when every address of it is
below `ULIM` and mapped with the permissions asked for, and otherwise names the first address that
is not. The sum `va + len` is computed in 32 bits, and where it wraps around the check is void.
-/
import Jos.Run.Boot

namespace Jos

open Lib Kern

variable {s s' : State} {e : Slot} {d : Nat} {va len perm : Word}

/-! ## The specification -/

/-- Integer address `a` is below `ULIM` and its page table entry in directory `d` is present and has all
bits of `perm|PTE_U|PTE_P`. -/
def Accessible (s : State) (d : Nat) (perm : Word) (a : Nat) : Prop :=
  a < ulim.toNat ∧ present (s.mem d (pdx (BitVec.ofNat 32 a))) = true ∧
    ∃ w, w = s.mem (pgnum (s.mem d (pdx (BitVec.ofNat 32 a)))) (ptx (BitVec.ofNat 32 a)) ∧ present w = true ∧
      w &&& (perm ||| pteU ||| pteP) = perm ||| pteU ||| pteP

/-- The addresses of `[lo, hi)` that are not accessible. -/
def faults (s : State) (d : Nat) (perm : Word) (lo hi : Nat) : Set Nat :=
  {a | lo ≤ a ∧ a < hi ∧ ¬ Accessible s d perm a}

/-- `user_mem_check` is exact: it returns 0 when every address of the range is accessible, and
otherwise `-E_FAULT`, with the smallest address that is not in `user_mem_check_addr`. -/
def MemCheckExact (s : State) (e : Slot) (d : Nat) (va len perm : Word) : Prop :=
  ∃ r s', (userMemCheck e va len perm).run s = .ok r s' ∧
    (r = 0 ↔ ∀ a, va.toNat ≤ a → a < va.toNat + len.toNat → Accessible s d perm a) ∧
    (r ≠ 0 → r = -eFault ∧ IsLeast (faults s d perm va.toNat (va.toNat + len.toNat)) s'.userMemCheckAddr.toNat)

/-! ## One turn of the loop -/

/-- The entries of directory `d` point into memory. -/
def PdesOk (s : State) (d : Nat) : Prop := ∀ i, present (s.mem d i) = true → pgnum (s.mem d i) < s.npages

theorem present_of_perm {w : Word} (h : w &&& (perm ||| pteU ||| pteP) = perm ||| pteU ||| pteP) : present w = true := by
  have hb := congrArg (fun x : Word => x.getLsbD 0) h
  rw [present_eq]
  simp [pteP] at hb
  simpa using hb

/-- A turn of the loop looks at the entry of the page of `start`. -/
theorem run_test (perm : Word) (hp : PdesOk s d) (start : Word) (hu : start.toNat < ulim.toNat) :
    ∃ bad, (do
        let pte ← pgdirWalk d start false
        pteLacks pte (perm ||| pteU ||| pteP) : Kern Bool).run s = .ok bad s ∧
      (bad = false ↔ Accessible s d perm start.toNat) := by
  have hof : BitVec.ofNat 32 start.toNat = start := by simp
  unfold Accessible
  rw [hof]
  cases hpde : present (s.mem d (pdx start)) with
  | false =>
    refine ⟨true, ?_, by simp⟩
    rw [run_bind_ok (pgdirWalk_absent hpde)]; rfl
  | true =>
    refine ⟨s.mem (pgnum (s.mem d (pdx start))) (ptx start) &&& (perm ||| pteU ||| pteP) != perm ||| pteU ||| pteP, ?_, ?_⟩
    · rw [run_bind_ok (pgdirWalk_present hpde (hp _ hpde) false)]; rfl
    · rw [bne_eq_false_iff_eq]
      constructor
      · exact fun h => ⟨hu, rfl, _, rfl, present_of_perm h, h⟩
      · rintro ⟨-, -, w, rfl, -, h⟩
        exact h

/-- The entry looked at is that of every address of the page. -/
theorem accessible_page {a b : Nat} (ha : a < ulim.toNat) (hb : b < ulim.toNat) (h : a / 4096 = b / 4096) :
    Accessible s d perm a ↔ Accessible s d perm b := by
  have hu : ulim.toNat < 2 ^ 32 := ulim.isLt
  have hidx := (idx_eq_iff (BitVec.ofNat 32 a) (BitVec.ofNat 32 b)).2 (by
    rw [pgnum_eq, pgnum_eq, BitVec.toNat_ofNat, BitVec.toNat_ofNat, Nat.mod_eq_of_lt (by omega),
      Nat.mod_eq_of_lt (by omega), h])
  unfold Accessible
  rw [hidx.1, hidx.2]
  simp [ha, hb]

/-- The next `start`. -/
theorem next_toNat {start : Word} (h : start.toNat < ulim.toNat) :
    (rounddown start pgsize + pgsize).toNat = start.toNat / 4096 * 4096 + 4096 := by
  have hu : ulim.toNat = 0xef800000 := by decide
  have hp : pgsize.toNat = 4096 := rfl
  have hmod : (start % pgsize).toNat = start.toNat % 4096 := by rw [BitVec.toNat_umod, hp]
  unfold rounddown
  rw [BitVec.toNat_add, BitVec.toNat_sub, hmod, hp]
  omega

/-! ## The loop -/

/-- What the loop returns for `[start, stop)`. -/
structure LoopExact (s : State) (d : Nat) (perm start stop : Word) (r : Int) (s' : State) : Prop where
  zero : r = 0 ↔ ∀ a, start.toNat ≤ a → a < stop.toNat → Accessible s d perm a
  fault : r ≠ 0 → r = -eFault ∧ IsLeast (faults s d perm start.toNat stop.toNat) s'.userMemCheckAddr.toNat

/-- The loop stops at `start`. -/
theorem LoopExact.stop {start stop : Word} (hlt : start < stop) (hbad : ¬ Accessible s d perm start.toNat) :
    LoopExact s d perm start stop (-eFault) { s with userMemCheckAddr := start } where
  zero := by
    constructor
    · intro h; cases h
    · intro h; exact absurd (h _ (le_refl _) (BitVec.lt_def.1 hlt)) hbad
  fault _ := ⟨rfl, ⟨le_refl _, BitVec.lt_def.1 hlt, hbad⟩, fun a ha => ha.1⟩

/-- The loop goes on to the next page. -/
theorem LoopExact.next {start stop : Word} {r : Int} (hu : start.toNat < ulim.toNat)
    (hok : Accessible s d perm start.toNat) (h : LoopExact s d perm (rounddown start pgsize + pgsize) stop r s') :
    LoopExact s d perm start stop r s' := by
  have hn := next_toNat hu
  have hul : ulim.toNat = 0xef800000 := by decide
  have hpage : ∀ a, start.toNat ≤ a → a < (rounddown start pgsize + pgsize).toNat → Accessible s d perm a := by
    intro a h1 h2
    rw [hn] at h2
    exact (accessible_page hu (by omega) (by omega)).1 hok
  constructor
  · rw [h.zero]
    constructor
    · intro hall a h1 h2
      by_cases hc : (rounddown start pgsize + pgsize).toNat ≤ a
      · exact hall a hc h2
      · exact hpage a h1 (by omega)
    · intro hall a h1 h2
      exact hall a (by omega) h2
  · intro hr
    obtain ⟨hf, ⟨h1, h2, h3⟩, hleast⟩ := h.fault hr
    refine ⟨hf, ⟨by omega, h2, h3⟩, ?_⟩
    rintro a ⟨k1, k2, k3⟩
    by_cases hc : (rounddown start pgsize + pgsize).toNat ≤ a
    · exact hleast ⟨hc, k2, k3⟩
    · exact absurd (hpage a k1 (by omega)) k3

theorem loop_spec (perm : Word) (hp : PdesOk s d) (stop : Word) : ∀ n (start : Word), 2 ^ 32 - start.toNat = n →
    ∃ r s', (userMemCheckLoop (some d) start stop (perm ||| pteU ||| pteP)).run s = .ok r s' ∧
      LoopExact s d perm start stop r s' := by
  -- the loop terminates because `start` grows as long as it is below `ULIM`
  intro n
  induction n using Nat.strong_induction_on with
  | _ n ih =>
    intro start hn
    rw [userMemCheckLoop]
    by_cases hlt : start < stop
    · rw [if_pos hlt]
      by_cases hu : ulim ≤ start
      · rw [dif_pos hu]
        have hbad : ¬ Accessible s d perm start.toNat := fun h => absurd h.1 (Nat.not_lt.2 (BitVec.le_def.1 hu))
        exact ⟨_, _, rfl, .stop hlt hbad⟩
      · rw [dif_neg hu, run_bind_ok (run_derefPage_some d)]
        have hu' : start.toNat < ulim.toNat := BitVec.lt_def.1 (BitVec.not_le.1 hu)
        obtain ⟨bad, hrun, hbad⟩ := run_test perm hp start hu'
        rw [← bind_assoc, run_bind_ok hrun]
        cases bad with
        | true =>
          have hna : ¬ Accessible s d perm start.toNat := fun h => by cases hbad.2 h
          exact ⟨_, _, rfl, .stop hlt hna⟩
        | false =>
          have hgrow := start_lt_next hu
          have hlt32 := (rounddown start pgsize + pgsize).isLt
          obtain ⟨r, s', hr, hex⟩ := ih _ (by omega) (rounddown start pgsize + pgsize) rfl
          exact ⟨r, s', hr, hex.next hu' (hbad.1 rfl)⟩
    · rw [if_neg hlt]
      have hle : stop.toNat ≤ start.toNat := BitVec.le_def.1 (BitVec.not_lt.1 hlt)
      refine ⟨0, s, rfl, ⟨?_, fun h => absurd rfl h⟩⟩
      simp only [true_iff]
      intro a h1 h2
      omega

theorem run_userMemCheck (hd : (s.envs e).envPgdir = some d) :
    (userMemCheck e va len perm).run s = (userMemCheckLoop (some d) va (va + len) (perm ||| pteU ||| pteP)).run s := by
  unfold userMemCheck
  rw [run_bind_ok (run_env e), hd]

/-- The check is exact for the ranges whose end is a 32-bit number, and for no others. -/
theorem userMemCheck_exact_iff (hd : (s.envs e).envPgdir = some d) (hp : PdesOk s d) :
    MemCheckExact s e d va len perm ↔ va.toNat + len.toNat < 2 ^ 32 := by
  obtain ⟨r, s', hrun, hex⟩ := loop_spec perm hp (va + len) _ va rfl
  rw [← run_userMemCheck hd] at hrun
  have hadd : (va + len).toNat = (va.toNat + len.toNat) % 2 ^ 32 := BitVec.toNat_add ..
  have hva := va.isLt
  have hlen := len.isLt
  constructor
  · -- a range that wraps around is accepted, though it reaches beyond `ULIM`
    rintro ⟨r', s'', hrun', hzero, -⟩
    by_contra hc
    cases hrun.symm.trans hrun'
    have hr : r = 0 := hex.zero.2 fun a h1 h2 => by omega
    obtain ⟨hu, -⟩ := hzero.1 hr (2 ^ 32 - 1) (by omega) (by omega)
    exact absurd hu (by decide)
  · intro hlt
    rw [Nat.mod_eq_of_lt hlt] at hadd
    refine ⟨r, s', hrun, ?_, ?_⟩
    · rw [← hadd]; exact hex.zero
    · rw [← hadd]; exact hex.fault

theorem firstEnv_pdesOk : PdesOk firstEnv 128 := by
  unfold PdesOk
  decide +kernel

theorem userMemCheck_exact_iff_firstEnv : MemCheckExact firstEnv 0 128 utext 5#32 pteW :=
  (userMemCheck_exact_iff rfl firstEnv_pdesOk).2 (by decide)

/-- All memory from `KERNBASE` to the end of the address space passes the check. -/
theorem userMemCheck_wraps : (userMemCheck 0 kernbase 0x10000000#32 pteU).run firstEnv = .ok 0 firstEnv ∧
    ¬ Accessible firstEnv 128 pteU kernbase.toNat ∧ ¬ MemCheckExact firstEnv 0 128 kernbase 0x10000000#32 pteU := by
  have hrun : (userMemCheck 0 kernbase 0x10000000#32 pteU).run firstEnv = .ok 0 firstEnv := by
    rw [run_userMemCheck rfl, userMemCheckLoop, if_neg (by decide)]
    rfl
  have hna : ¬ Accessible firstEnv 128 pteU kernbase.toNat := fun h => absurd h.1 (by decide)
  refine ⟨hrun, hna, ?_⟩
  rintro ⟨r, s', hrun', hzero, -⟩
  cases hrun.symm.trans hrun'
  exact hna (hzero.1 rfl _ (le_refl _) (by decide))

end Jos
