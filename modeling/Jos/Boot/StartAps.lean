/-
`lapic_init` and `boot_aps` of kern/init.c on the boot processor, and the code of kern/mpentry.S and `mp_main` on the others,
which it starts one by one: the word `mpentry_kstack` hands each of them the top of its stack. A processor is named by its
LAPIC id, which is its place in `cpus`, and the processors take their steps in any order. The accesses through `lapic` fault
when nothing is mapped there, and after `mmio_map_region` nothing is.
-/
import Jos.Boot.Mp
import Jos.Lib.Fair
import Jos.Run.Mmio

namespace Jos

open Lib Kern

/-! ## The code -/

/-- Where a processor is that was started: at the load of its stack pointer from `mpentry_kstack`, in `mp_main`, or in the loop
that ends `mp_main`. -/
inductive ApPoint where
  | off
  | mpentry
  | mpMain (esp : Word)
  | spin (esp : Word)
  deriving DecidableEq

/-- Where the boot processor is: at `lapic_init`, in `boot_aps` with the index of `c` (at the head of the loop, at
`lapic_startap`, at the wait), behind the loop, or at a page fault in the kernel. -/
inductive BspPoint where
  | lapicInit
  | loop (c : Nat)
  | startap (c : Nat)
  | wait (c : Nat)
  | done
  | fault
  deriving DecidableEq

/-- What stays the same: `ncpu`, the value of `cpunum()` on the boot processor, the address of `percpu_kstacks`, the address
of the LAPIC, and whether the page at `lapic` is mapped. -/
structure ApSetup where
  ncpu : Nat
  self : Nat
  percpuKstacks : Word
  lapicaddr : Word
  lapicMapped : Bool

structure ApState where
  cpus : Nat → MpCpu
  mpentryKstack : Word := 0#32
  bsp : BspPoint := .lapicInit
  ap : Nat → ApPoint := fun _ => .off

/-- `percpu_kstacks[c - cpus] + KSTKSIZE`. -/
def ApSetup.kstackTop (A : ApSetup) (c : Nat) : Word := A.percpuKstacks + BitVec.ofNat 32 c * kstksize + kstksize

/-- A step of `lapic_init` or `boot_aps`. Without a LAPIC `lapic` stays null: `lapic_init` returns, `cpunum` is 0, and
`lapic_startap` faults. `cpunum` does not fault where `lapic_init` did not. -/
def ApSetup.bootAps (A : ApSetup) (s : ApState) : ApState :=
  match s.bsp with
  | .lapicInit => if A.lapicaddr = 0#32 ∨ A.lapicMapped then { s with bsp := .loop 0 } else { s with bsp := .fault }
  | .loop c =>
    if c < A.ncpu then
      -- "We've started already."
      if c = A.self then { s with bsp := .loop (c + 1) }
      else { s with mpentryKstack := A.kstackTop c, bsp := .startap c }
    else { s with bsp := .done }
  | .startap c =>
    if A.lapicaddr ≠ 0#32 ∧ A.lapicMapped then
      { s with ap := Function.update s.ap (s.cpus c).cpuId.toNat .mpentry, bsp := .wait c }
    else { s with bsp := .fault }
  | .wait c => if (s.cpus c).cpuStatus = .started then { s with bsp := .loop (c + 1) } else s
  | .done | .fault => s

/-- A step of mpentry.S and `mp_main` on processor `k`, which `lapic_startap` has started: `lapic` can be used. -/
def ApState.mpMain (s : ApState) (k : Nat) : ApState :=
  match s.ap k with
  | .off => s
  | .mpentry => { s with ap := Function.update s.ap k (.mpMain s.mpentryKstack) }
  | .mpMain esp =>
    { s with cpus := Function.update s.cpus k { s.cpus k with cpuStatus := .started },
             ap := Function.update s.ap k (.spin esp) }
  | .spin _ => s

def ApSetup.step (A : ApSetup) (k : Nat) (s : ApState) : ApState := if k = A.self then A.bootAps s else s.mpMain k

/-- The setup after `mp_init`, on a boot processor whose LAPIC id is its place in the table. -/
def MpState.setup (t : MpState) (percpuKstacks : Word) (lapicMapped : Bool) : ApSetup :=
  ⟨t.ncpu, t.bootcpu, percpuKstacks, t.lapicaddr, lapicMapped⟩

/-- The states that the processors reach from the one that `mp_init` leaves. -/
inductive ApReach (t : MpState) (percpuKstacks : Word) (lapicMapped : Bool) : ApState → Prop where
  | start : ApReach t percpuKstacks lapicMapped { cpus := t.cpus }
  | step {s : ApState} (h : ApReach t percpuKstacks lapicMapped s) (k : Nat) :
      ApReach t percpuKstacks lapicMapped ((t.setup percpuKstacks lapicMapped).step k s)

/-- The stack that a processor runs on. -/
def ApPoint.stack : ApPoint → Option Word
  | .mpMain esp | .spin esp => some esp
  | _ => none

/-- A processor that was started and has not said so yet. -/
def ApPoint.Starting : ApPoint → Prop
  | .mpentry | .mpMain _ => True
  | _ => False

/-! ## The status after `mp_init` -/

section

variable {mem : Bytes} {conf p : Word} {npages : Nat} {t : MpState}

def MpState.AllUnused (t : MpState) : Prop := ∀ i, (t.cpus i).cpuStatus = .unused

theorem MpState.AllUnused.proc (h : t.AllUnused) (mem : Bytes) (p : Word) : (t.proc mem p).AllUnused := by
  intro i
  unfold MpState.proc
  dsimp only
  split
  · show (Function.update t.cpus t.ncpu { t.cpus t.ncpu with cpuId := _ } i).cpuStatus = _
    by_cases hi : i = t.ncpu
    · rw [hi, Function.update_self]
      exact h _
    · rw [Function.update_of_ne hi]
      exact h i
  · exact h i

theorem MpState.AllUnused.loop (mem : Bytes) (conf : Word) : ∀ (n : Nat) (p : Word) {t : MpState}, t.AllUnused →
    (mpLoop mem conf n p t).AllUnused
  | 0, _, _, h => h
  | n + 1, p, t, h => by
    unfold mpLoop
    dsimp only
    split
    · have hv : ((t.read (entryField conf)).visit p).AllUnused := h
      exact MpState.AllUnused.loop mem conf n _ (hv.proc mem p)
    · split
      · exact MpState.AllUnused.loop mem conf n _ (t := (t.read (entryField conf)).visit p) h
      · exact h

/-- `mp_init` marks no processor but the boot processor. -/
theorem mpInit_unused (h : mpInit npages mem = some t) {i : Nat} (hi : i ≠ t.bootcpu) : (t.cpus i).cpuStatus = .unused := by
  unfold mpInit at h
  obtain ⟨found, -, h⟩ := Option.bind_eq_some_iff.1 h
  cases found with
  | none =>
    cases h
    rfl
  | some table =>
    obtain ⟨conf, mp⟩ := table
    have ht := (Option.some.inj h).symm
    subst ht
    rw [finish_bootcpu] at hi
    rw [finish_cpus, Function.update_of_ne hi]
    exact MpState.AllUnused.loop mem conf _ _ (fun _ => rfl) i

end

/-! ## The invariant -/

variable {A : ApSetup} {s : ApState} {c d k : Nat}

/-- Processor `k` is up, on its own stack. -/
def ApSetup.Up (A : ApSetup) (s : ApState) (k : Nat) : Prop :=
  s.ap k = .spin (A.kstackTop k) ∧ (s.cpus k).cpuStatus = .started

def ApState.Off (s : ApState) (k : Nat) : Prop := s.ap k = .off ∧ (s.cpus k).cpuStatus = .unused

/-- Processor `k` is between the interrupt and its mark; it has its own stack once it has one. -/
def ApSetup.Rising (A : ApSetup) (s : ApState) (k : Nat) : Prop :=
  (s.ap k = .mpentry ∨ s.ap k = .mpMain (A.kstackTop k)) ∧ (s.cpus k).cpuStatus = .unused

/-- The processors below `c` are up, and those from `d` on are off. -/
structure ApSetup.Split (A : ApSetup) (s : ApState) (c d : Nat) : Prop where
  up : ∀ k < c, k ≠ A.self → A.Up s k
  off : ∀ k, d ≤ k → k ≠ A.self → s.Off k

/-- What holds where the boot processor is at a point. -/
def ApSetup.At (A : ApSetup) (s : ApState) : BspPoint → Prop
  | .lapicInit => A.Split s 0 0
  | .loop c => c ≤ A.ncpu ∧ A.Split s c c
  | .startap c => c < A.ncpu ∧ c ≠ A.self ∧ A.Split s c c ∧ s.mpentryKstack = A.kstackTop c
  | .wait c => c < A.ncpu ∧ c ≠ A.self ∧ A.Split s c (c + 1) ∧ s.mpentryKstack = A.kstackTop c ∧ (A.Rising s c ∨ A.Up s c)
  | .done => A.Split s A.ncpu A.ncpu
  | .fault => ∃ c ≤ A.ncpu, A.Split s c c

structure ApInv (A : ApSetup) (s : ApState) : Prop where
  ids : ∀ i < A.ncpu, (s.cpus i).cpuId.toNat = i
  self : s.ap A.self = .off
  started : (s.cpus A.self).cpuStatus = .started
  point : A.At s s.bsp

theorem ApSetup.Split.congr {s' : ApState} (h : A.Split s c d) (hap : s'.ap = s.ap) (hcpus : s'.cpus = s.cpus) :
    A.Split s' c d where
  up k hk hne := by
    unfold ApSetup.Up
    rw [hap, hcpus]
    exact h.up k hk hne
  off k hk hne := by
    unfold ApState.Off
    rw [hap, hcpus]
    exact h.off k hk hne

/-- A change at `c` alone. -/
theorem ApSetup.Split.update {s' : ApState} (h : A.Split s c (c + 1)) (hap : ∀ k, k ≠ c → s'.ap k = s.ap k)
    (hcpu : ∀ k, k ≠ c → s'.cpus k = s.cpus k) : A.Split s' c (c + 1) where
  up k hk hne := by
    obtain ⟨h1, h2⟩ := h.up k hk hne
    exact ⟨by rw [hap k (by omega)]; exact h1, by rw [hcpu k (by omega)]; exact h2⟩
  off k hk hne := by
    obtain ⟨h1, h2⟩ := h.off k hk hne
    exact ⟨by rw [hap k (by omega)]; exact h1, by rw [hcpu k (by omega)]; exact h2⟩

theorem ApSetup.Split.widen (h : A.Split s c c) : A.Split s c (c + 1) where
  up := h.up
  off k hk := h.off k (by omega)

theorem ApSetup.Split.next (h : A.Split s c (c + 1)) (hc : c = A.self ∨ A.Up s c) : A.Split s (c + 1) (c + 1) where
  up k hk hne := by
    by_cases hkc : k = c
    · rw [hkc] at hne ⊢
      exact hc.resolve_left hne
    · exact h.up k (by omega) hne
  off := h.off

/-- At every point there is one place at most where a processor is neither up nor off. -/
theorem ApInv.around (h : ApInv A s) (hk : k ≠ A.self) : s.Off k ∨ A.Up s k ∨ s.bsp = .wait k ∧ A.Rising s k := by
  obtain ⟨-, -, -, hpoint⟩ := h
  have hsplit : ∀ {c}, A.Split s c c → s.Off k ∨ A.Up s k := by
    intro c hs
    by_cases hkc : k < c
    · exact .inr (hs.up k hkc hk)
    · exact .inl (hs.off k (by omega) hk)
  cases hb : s.bsp with
  | lapicInit =>
    rw [hb] at hpoint
    exact (hsplit hpoint).imp_right .inl
  | fault =>
    rw [hb] at hpoint
    obtain ⟨c, -, hs⟩ := hpoint
    exact (hsplit hs).imp_right .inl
  | loop c =>
    rw [hb] at hpoint
    exact (hsplit hpoint.2).imp_right .inl
  | startap c =>
    rw [hb] at hpoint
    exact (hsplit hpoint.2.2.1).imp_right .inl
  | wait c =>
    rw [hb] at hpoint
    obtain ⟨-, -, hs, -, hc⟩ := hpoint
    rcases lt_trichotomy k c with hlt | rfl | hgt
    · exact .inr (.inl (hs.up k hlt hk))
    · exact .inr (hc.symm.imp_right fun hr => ⟨rfl, hr⟩)
    · exact .inl (hs.off k (by omega) hk)
  | done =>
    rw [hb] at hpoint
    exact (hsplit hpoint).imp_right .inl

theorem ApInv.bootAps (h : ApInv A s) : ApInv A (A.bootAps s) := by
  obtain ⟨hids, hself, hst, hpoint⟩ := h
  unfold ApSetup.bootAps
  cases hb : s.bsp with
  | lapicInit =>
    rw [hb] at hpoint
    have hs : A.Split s 0 0 := hpoint
    dsimp only
    split
    · exact ⟨hids, hself, hst, Nat.zero_le _, hs.congr rfl rfl⟩
    · exact ⟨hids, hself, hst, 0, Nat.zero_le _, hs.congr rfl rfl⟩
  | loop c =>
    rw [hb] at hpoint
    obtain ⟨hle, hs⟩ := hpoint
    dsimp only
    by_cases hc : c < A.ncpu
    · rw [if_pos hc]
      by_cases hcs : c = A.self
      · rw [if_pos hcs]
        exact ⟨hids, hself, hst, hc, (hs.widen.next (.inl hcs)).congr rfl rfl⟩
      · rw [if_neg hcs]
        exact ⟨hids, hself, hst, hc, hcs, hs.congr rfl rfl, rfl⟩
    · rw [if_neg hc]
      obtain rfl : c = A.ncpu := by omega
      exact ⟨hids, hself, hst, hs.congr rfl rfl⟩
  | startap c =>
    rw [hb] at hpoint
    obtain ⟨hlt, hcs, hs, hstack⟩ := hpoint
    dsimp only
    split
    case isFalse => exact ⟨hids, hself, hst, c, hlt.le, hs.congr rfl rfl⟩
    rw [hids c hlt]
    -- the start-up call puts CPU `c` at the entry code
    have hrise : (Function.update s.ap c .mpentry c = .mpentry ∨ Function.update s.ap c .mpentry c = .mpMain (A.kstackTop c)) ∧
        (s.cpus c).cpuStatus = .unused := ⟨.inl (Function.update_self ..), (hs.off c le_rfl hcs).2⟩
    refine ⟨hids, ?_, hst, hlt, hcs, ?_, hstack, .inl hrise⟩
    · exact (Function.update_of_ne (Ne.symm hcs) ..).trans hself
    · exact hs.widen.update (fun k hk => Function.update_of_ne hk ..) fun _ _ => rfl
  | wait c =>
    rw [hb] at hpoint
    obtain ⟨hlt, hcs, hs, hstack, hc⟩ := hpoint
    dsimp only
    by_cases hup : (s.cpus c).cpuStatus = .started
    · rw [if_pos hup]
      -- a CPU whose status is `CPU_STARTED` has left the entry code
      have hup' : A.Up s c := hc.resolve_left fun hr => by
        rw [hr.2] at hup
        cases hup
      exact ⟨hids, hself, hst, hlt, (hs.next (.inr hup')).congr rfl rfl⟩
    · rw [if_neg hup]
      exact ⟨hids, hself, hst, by rw [hb]; exact ⟨hlt, hcs, hs, hstack, hc⟩⟩
  | done | fault => exact ⟨hids, hself, hst, by rw [hb] at hpoint ⊢; exact hpoint⟩

theorem ApInv.mpMain (h : ApInv A s) (hk : k ≠ A.self) : ApInv A (s.mpMain k) := by
  unfold ApState.mpMain
  rcases h.around hk with hoff | hup | ⟨hb, hap, hun⟩
  · rw [hoff.1]
    exact h
  · rw [hup.1]
    exact h
  · obtain ⟨hids, hself, hst, hpoint⟩ := h
    rw [hb] at hpoint
    obtain ⟨hlt, hcs, hs, hstack, -⟩ := hpoint
    rcases hap with hap | hap
    · rw [hap]
      dsimp only
      refine ⟨hids, (Function.update_of_ne (Ne.symm hk) ..).trans hself, hst, ?_⟩
      dsimp only
      rw [hb]
      refine ⟨hlt, hcs, hs.update (fun j hj => Function.update_of_ne hj ..) fun _ _ => rfl, hstack, .inl ⟨.inr ?_, hun⟩⟩
      rw [← hstack]
      exact Function.update_self ..
    · rw [hap]
      dsimp only
      refine ⟨?_, (Function.update_of_ne (Ne.symm hk) ..).trans hself, ?_, ?_⟩
      · intro i hi
        dsimp only
        by_cases hik : i = k
        · rw [hik, Function.update_self]
          exact hids k hlt
        · rw [Function.update_of_ne hik]
          exact hids i hi
      · dsimp only
        rw [Function.update_of_ne (Ne.symm hk)]
        exact hst
      · dsimp only
        rw [hb]
        refine ⟨hlt, hcs, hs.update (fun j hj => Function.update_of_ne hj ..) fun j hj => Function.update_of_ne hj .., hstack,
          .inr ⟨Function.update_self .., ?_⟩⟩
        dsimp only
        rw [Function.update_self]

theorem ApInv.step (h : ApInv A s) (k : Nat) : ApInv A (A.step k s) := by
  unfold ApSetup.step
  by_cases hk : k = A.self
  · rw [if_pos hk]
    exact h.bootAps
  · rw [if_neg hk]
    exact h.mpMain hk

variable {mem : Bytes} {npages : Nat} {t : MpState} {base : Word} {mapped : Bool}

theorem apInv_start (hinit : mpInit npages mem = some t) (ht : CpuTable t) : ApInv (t.setup base mapped) { cpus := t.cpus } where
  ids i hi := by
    have hle : i < 8 := lt_of_lt_of_le hi ht.le
    dsimp only
    rw [ht.ids i hi, BitVec.toNat_ofNat]
    omega
  self := rfl
  started := ht.started
  point := ⟨fun k hk => absurd hk (Nat.not_lt_zero k), fun _ _ hk => ⟨rfl, mpInit_unused hinit hk⟩⟩

theorem ApReach.inv (hinit : mpInit npages mem = some t) (ht : CpuTable t) (h : ApReach t base mapped s) :
    ApInv (t.setup base mapped) s := by
  induction h with
  | start => exact apInv_start hinit ht
  | step _ k ih => exact ih.step k

/-! ## The stacks -/

theorem kstackTop_toNat (hfit : A.percpuKstacks.toNat + ncpuMax * kstksize.toNat < 2 ^ 32) (hc : c < ncpuMax) :
    (A.kstackTop c).toNat = A.percpuKstacks.toNat + (c + 1) * 32768 := by
  have hs : kstksize.toNat = 32768 := by decide
  have hc8 : c < 8 := hc
  have hn : ncpuMax = 8 := rfl
  rw [hs, hn] at hfit
  unfold ApSetup.kstackTop
  rw [BitVec.toNat_add, BitVec.toNat_add, BitVec.toNat_mul, BitVec.toNat_ofNat, hs]
  omega

/-- Processors that the table does not have are not started. -/
theorem ApInv.off_of_le (h : ApInv A s) (hk : k ≠ A.self) (hn : A.ncpu ≤ k) : s.Off k := by
  obtain ⟨-, -, -, hpoint⟩ := h
  cases hb : s.bsp <;> rw [hb] at hpoint
  case lapicInit => exact hpoint.off k (Nat.zero_le _) hk
  case fault =>
    obtain ⟨c, hc, hs⟩ := hpoint
    exact hs.off k (by omega) hk
  case loop c => exact hpoint.2.off k (by have := hpoint.1; omega) hk
  case startap c => exact hpoint.2.2.1.off k (by have := hpoint.1; omega) hk
  case wait c => exact hpoint.2.2.1.off k (by have := hpoint.1; omega) hk
  case done => exact hpoint.off k hn hk

theorem ApInv.stack (h : ApInv A s) {esp : Word} (hesp : (s.ap k).stack = some esp) :
    k < A.ncpu ∧ k ≠ A.self ∧ esp = A.kstackTop k := by
  have hoff : s.ap k ≠ .off := by
    intro hap
    rw [hap] at hesp
    cases hesp
  have hk : k ≠ A.self := by
    rintro rfl
    exact hoff h.self
  refine ⟨?_, hk, ?_⟩
  · by_contra hn
    exact hoff (h.off_of_le hk (by omega)).1
  · rcases h.around hk with ho | hup | ⟨-, hap | hap, -⟩
    · exact absurd ho.1 hoff
    · rw [hup.1] at hesp
      exact (Option.some.inj hesp).symm
    · rw [hap] at hesp
      cases hesp
    · rw [hap] at hesp
      exact (Option.some.inj hesp).symm

/-- The boot processor waits for the one that is starting. -/
theorem ApInv.starting (h : ApInv A s) (hk : (s.ap k).Starting) : s.bsp = .wait k := by
  have hself : k ≠ A.self := by
    rintro rfl
    rw [h.self] at hk
    exact hk
  rcases h.around hself with ho | hup | ⟨hb, -⟩
  · rw [ho.1] at hk
    exact hk.elim
  · rw [hup.1] at hk
    exact hk.elim
  · exact hb

/-- In whatever order the processors run, each that was started is on its own stack once it has loaded one, no two stacks
overlap, and at most one processor is on its way. -/
theorem aps_own_stacks (hinit : mpInit npages mem = some t) (ht : CpuTable t)
    (hfit : base.toNat + ncpuMax * kstksize.toNat < 2 ^ 32) (h : ApReach t base mapped s) :
    (∀ k esp, (s.ap k).stack = some esp →
      k < t.ncpu ∧ k ≠ t.bootcpu ∧ esp.toNat = base.toNat + (k + 1) * kstksize.toNat) ∧
    (∀ k l esp esp', (s.ap k).stack = some esp → (s.ap l).stack = some esp' → k ≠ l →
      esp.toNat + kstksize.toNat ≤ esp'.toNat ∨ esp'.toNat + kstksize.toNat ≤ esp.toNat) ∧
    ∀ k l, (s.ap k).Starting → (s.ap l).Starting → k = l := by
  have hinv := h.inv hinit ht
  have hs : kstksize.toNat = 32768 := by decide
  have hown : ∀ k esp, (s.ap k).stack = some esp →
      k < t.ncpu ∧ k ≠ t.bootcpu ∧ esp.toNat = base.toNat + (k + 1) * kstksize.toNat := by
    intro k esp hesp
    obtain ⟨hlt, hne, rfl⟩ := hinv.stack hesp
    rw [hs]
    exact ⟨hlt, hne, kstackTop_toNat (A := t.setup base mapped) hfit (lt_of_lt_of_le hlt ht.le)⟩
  refine ⟨hown, ?_, ?_⟩
  · intro k l esp esp' hk hl hne
    obtain ⟨-, -, hek⟩ := hown k esp hk
    obtain ⟨-, -, hel⟩ := hown l esp' hl
    rw [hek, hel, hs]
    omega
  · intro k l hk hl
    have hb := (hinv.starting hk).symm.trans (hinv.starting hl)
    exact BspPoint.wait.inj hb

def twoTable : MpState := (mpInit 1024 twoCpus).getD {}

theorem twoTable_init : mpInit 1024 twoCpus = some twoTable := by
  obtain ⟨t, ht⟩ := Option.isSome_iff_exists.1 (show (mpInit 1024 twoCpus).isSome = true by decide +kernel)
  rw [twoTable, ht, Option.getD_some]

theorem twoTable_good : CpuTable twoTable where
  pos := by decide +kernel
  le := by decide +kernel
  ids := by decide +kernel
  boot := by decide +kernel
  started := by decide +kernel
  inside := by decide +kernel

theorem reach_scheduled {t : MpState} {base : Word} {mapped : Bool} (sched : Nat → Nat) :
    ∀ n, ApReach t base mapped (scheduled (t.setup base mapped).step sched { cpus := t.cpus } n)
  | 0 => .start
  | n + 1 => (reach_scheduled sched n).step (sched n)

theorem aps_own_stacks_two : ∃ s esp, ApReach twoTable 0xf0110000#32 true s ∧ (s.ap 1).stack = some esp ∧
    esp.toNat = 0xf0110000 + 2 * 0x8000 := by
  let sched := fun n => if n < 4 then 0 else 1
  have hreach : ApReach twoTable 0xf0110000#32 true _ := reach_scheduled sched 5
  have hesp : ((scheduled (twoTable.setup 0xf0110000#32 true).step sched { cpus := twoTable.cpus } 5).ap 1).stack =
      some (0xf0110000#32 + 1#32 * kstksize + kstksize) := by decide +kernel
  have hown := (aps_own_stacks twoTable_init twoTable_good (by decide) hreach).1 1 _ hesp
  exact ⟨_, _, hreach, hesp, hown.2.2⟩

/-! ## The end of `boot_aps` -/

/-- The steps that a started processor has before it. -/
def ApPoint.left : ApPoint → Nat
  | .off => 3
  | .mpentry => 2
  | .mpMain _ => 1
  | .spin _ => 0

def ApSetup.rank (A : ApSetup) (s : ApState) : Nat :=
  match s.bsp with
  | .lapicInit => 6 * A.ncpu + 2
  | .loop c => 6 * (A.ncpu - c) + 1
  | .startap c => 6 * (A.ncpu - c)
  | .wait c => 6 * (A.ncpu - c) - 4 + (s.ap c).left
  | .done | .fault => 0

end Jos
