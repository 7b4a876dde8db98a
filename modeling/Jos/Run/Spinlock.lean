/-
The spin lock of kern/spinlock.c, one access to its memory at a time, for any number of CPUs that call `spin_lock` and
`spin_unlock` in any order, rightly or not. The lock excludes, a CPU panics only where it calls the wrong one of the two, and
then before it changes anything, and the record of the holder is exact while its holder works. Accesses take effect in one
order; the two `xchg` are atomic.
-/
import Jos.Kern.State

namespace Jos

/-! ## The code -/

/-- `struct spinlock`, less its name; `cpu` is the index of a `CpuInfo`. -/
structure Spinlock (C : Type) where
  locked : Word := 0#32
  cpu : Option C := none
  pcs : Fin 10 → Word := fun _ => 0#32

/-- `get_caller_pcs`, the last `n` entries: the chain of saved `%ebp` in the words of memory, as far as it is at or above `ULIM`;
zeros follow. -/
def getCallerPcs (mem : Word → Word) : Nat → Word → List Word
  | 0, _ => []
  | n + 1, ebp =>
    if ebp = 0#32 ∨ ebp < ulim then List.replicate (n + 1) 0#32
    else mem (ebp + 4#32) :: getCallerPcs mem n (mem ebp)

/-- The two functions. -/
inductive LockOp where
  | lock
  | unlock
  deriving DecidableEq

/-- Where a CPU stands; `record i` is about to write `pcs[i]`. -/
inductive LockPoint where
  | idle
  | readLocked (op : LockOp)
  | readCpu (op : LockOp)
  | xchgLock
  | writeCpu
  | record (i : Fin 10)
  | clearPcs
  | clearCpu
  | xchgUnlock
  | panicked (op : LockOp)
  deriving DecidableEq

/-- A CPU; `inside` says that its last exchange took the lock, and `pcs` is the chain of its callers. -/
structure LockCpu where
  point : LockPoint := .idle
  inside : Bool := false
  pcs : List Word := []

/-- The lock and the CPUs. -/
structure LockState (C : Type) where
  lk : Spinlock C := {}
  cpus : C → LockCpu := fun _ => {}

section

variable {C : Type} [DecidableEq C]

/-- CPU `c` moves on to `point`. -/
def LockState.goto (m : LockState C) (c : C) (point : LockPoint) : LockState C :=
  { m with cpus := Function.update m.cpus c { m.cpus c with point := point } }

/-- What follows the test of `holding`. -/
def LockState.holding (m : LockState C) (c : C) (held : Bool) : LockOp → LockState C
  | .lock => m.goto c (if held then .panicked .lock else .xchgLock)
  | .unlock => m.goto c (if held then .clearPcs else .panicked .unlock)

/-- One access of CPU `c`. An idle CPU calls `op`, from a place where the chain of callers starts at `ebp` in its memory. -/
def LockState.access (m : LockState C) (c : C) (op : LockOp) (mem : Word → Word) (ebp : Word) : LockState C :=
  match (m.cpus c).point with
  | .idle =>
    { m with cpus := Function.update m.cpus c
              { m.cpus c with point := .readLocked op,
                              pcs := if op = .lock ∧ (m.cpus c).inside = false then
                                getCallerPcs mem 10 ebp else (m.cpus c).pcs } }
  | .readLocked op => if m.lk.locked = 0#32 then m.holding c false op else m.goto c (.readCpu op)
  | .readCpu op => m.holding c (m.lk.cpu = some c) op
  | .xchgLock =>
    if m.lk.locked = 0#32 then
      { lk := { m.lk with locked := 1#32 },
        cpus := Function.update m.cpus c { m.cpus c with point := .writeCpu, inside := true } }
    else { m with lk := { m.lk with locked := 1#32 } }
  | .writeCpu => { m with lk := { m.lk with cpu := some c } }.goto c (.record 0)
  | .record i =>
    { m with lk := { m.lk with pcs := Function.update m.lk.pcs i ((m.cpus c).pcs.getD i 0#32) } }.goto c
      (if h : i.val + 1 < 10 then .record ⟨i.val + 1, h⟩ else .idle)
  | .clearPcs => { m with lk := { m.lk with pcs := Function.update m.lk.pcs 0 0#32 } }.goto c .clearCpu
  | .clearCpu => { m with lk := { m.lk with cpu := none } }.goto c .xchgUnlock
  | .xchgUnlock =>
    { lk := { m.lk with locked := 0#32 },
      cpus := Function.update m.cpus c { m.cpus c with point := .idle, inside := false } }
  | .panicked _ => m

/-- The states that accesses reach, in any order of the CPUs, from the lock as `__spin_initlock` leaves it. -/
inductive LockReach : LockState C → Prop where
  | init : LockReach {}
  | step {m : LockState C} (h : LockReach m) (c : C) (op : LockOp) (mem : Word → Word) (ebp : Word) :
      LockReach (m.access c op mem ebp)

/-! ## The invariant -/

/-- The points between the write of `lk->cpu` and its removal. -/
def LockPoint.Named : LockPoint → Prop
  | .writeCpu | .xchgUnlock => False
  | _ => True

/-- Where a CPU may stand that is inside, and where one may that is not. -/
def LockPoint.Fits : LockPoint → Bool → Prop
  | .idle, _ | .readLocked _, _ | .readCpu _, _ => True
  | .xchgLock, inside | .panicked .unlock, inside => inside = false
  | .writeCpu, inside | .record _, inside | .clearPcs, inside | .clearCpu, inside | .xchgUnlock, inside
  | .panicked .lock, inside => inside = true

/-- The entries of `pcs` that a CPU inside has written and not cleared yet. -/
def LockPoint.Recorded : LockPoint → Fin 10 → Prop
  | .record i, j => j < i
  | .writeCpu, _ | .clearCpu, _ | .xchgUnlock, _ => False
  | _, _ => True

variable {m m' : LockState C} {c c' : C} {op : LockOp} {mem : Word → Word} {ebp : Word}

/-- The lock is taken while a CPU is inside, which is the only one; it is the one in `lk->cpu`, except at the two ends. -/
structure LockInv (m : LockState C) : Prop where
  fits : ∀ c, (m.cpus c).point.Fits (m.cpus c).inside
  taken : ∀ c, (m.cpus c).inside = true → m.lk.locked ≠ 0#32
  someone : m.lk.locked ≠ 0#32 → ∃ c, (m.cpus c).inside = true
  one : ∀ c c', (m.cpus c).inside = true → (m.cpus c').inside = true → c = c'
  cpu : ∀ c, m.lk.cpu = some c ↔ (m.cpus c).inside = true ∧ (m.cpus c).point.Named
  pcs : ∀ c, (m.cpus c).inside = true → ∀ j, (m.cpus c).point.Recorded j → m.lk.pcs j = (m.cpus c).pcs.getD j 0#32

omit [DecidableEq C] in
theorem lockInv_init : LockInv ({} : LockState C) where
  fits _ := trivial
  taken _ h := by cases h
  someone h := absurd rfl h
  one _ _ h := by cases h
  cpu c := by simp
  pcs _ h := by cases h

/-- A step that only moves CPU `c` on. -/
theorem LockInv.goto (h : LockInv m) {p : LockPoint} (hf : p.Fits (m.cpus c).inside)
    (hn : (m.cpus c).inside = true → (p.Named ↔ (m.cpus c).point.Named))
    (hr : (m.cpus c).inside = true → ∀ j, p.Recorded j → (m.cpus c).point.Recorded j) : LockInv (m.goto c p) := by
  have hin : ∀ x, ((m.goto c p).cpus x).inside = (m.cpus x).inside := by
    intro x
    by_cases hx : x = c <;> simp [LockState.goto, hx]
  have hpcs : ∀ x, ((m.goto c p).cpus x).pcs = (m.cpus x).pcs := by
    intro x
    by_cases hx : x = c <;> simp [LockState.goto, hx]
  have hpt : ∀ x, ((m.goto c p).cpus x).point = if x = c then p else (m.cpus x).point := by
    intro x
    by_cases hx : x = c <;> simp [LockState.goto, hx]
  constructor
  · intro x
    rw [hin, hpt]
    split
    · rename_i hx; rw [hx]; exact hf
    · exact h.fits x
  · intro x hx
    exact h.taken x (hin x ▸ hx)
  · intro hl
    obtain ⟨x, hx⟩ := h.someone hl
    exact ⟨x, (hin x).trans hx⟩
  · intro x y hx hy
    exact h.one x y (hin x ▸ hx) (hin y ▸ hy)
  · intro x
    rw [hin, hpt]
    refine (h.cpu x).trans (and_congr_right fun hx => ?_)
    split
    · rename_i hxc; rw [hxc]; exact (hn (hxc ▸ hx)).symm
    · exact Iff.rfl
  · intro x hx j hj
    rw [hin] at hx
    rw [hpt] at hj
    rw [hpcs]
    refine h.pcs x hx j ?_
    split at hj
    · rename_i hxc; rw [hxc]; exact hr (hxc ▸ hx) j hj
    · exact hj

/-- `holding` is exact: it finds the lock taken by CPU `c` if that is inside and has written its name. -/
theorem LockInv.holding (h : LockInv m) {held : Bool} (hp : (m.cpus c).point.Named ∧ ∀ j, (m.cpus c).point.Recorded j)
    (hh : held = (m.cpus c).inside) : LockInv (m.holding c held op) := by
  subst hh
  cases op with
  | lock =>
    refine h.goto ?_ (fun _ => ?_) fun _ j _ => hp.2 j
    · cases hi : (m.cpus c).inside <;> simp [LockPoint.Fits]
    · refine iff_of_true ?_ hp.1
      cases (m.cpus c).inside <;> trivial
  | unlock =>
    refine h.goto ?_ (fun _ => ?_) fun _ j _ => hp.2 j
    · cases hi : (m.cpus c).inside <;> simp [LockPoint.Fits]
    · refine iff_of_true ?_ hp.1
      cases (m.cpus c).inside <;> trivial

omit [DecidableEq C] in
theorem LockInv.outside (h : LockInv m) (hl : m.lk.locked = 0#32) (c : C) : (m.cpus c).inside = false := by
  cases hi : (m.cpus c).inside with
  | false => rfl
  | true => exact absurd hl (h.taken c hi)

theorem LockState.goto_cpus (m : LockState C) (c : C) (p : LockPoint) (x : C) :
    (m.goto c p).cpus x = if x = c then { m.cpus c with point := p } else m.cpus x := Function.update_apply ..

/-- The CPU inside writes to the lock, other than to `locked`; nobody else's part of the invariant speaks of it. -/
theorem LockInv.write (h : LockInv m) (hc : (m.cpus c).inside = true) {lk : Spinlock C} {p : LockPoint}
    (hl : lk.locked = m.lk.locked) (hf : p.Fits true) (hcpu : ∀ x, lk.cpu = some x ↔ x = c ∧ p.Named)
    (hpcs : ∀ j, p.Recorded j → lk.pcs j = (m.cpus c).pcs.getD j 0#32) : LockInv ({ m with lk := lk }.goto c p) := by
  have hat : ({ m with lk := lk }.goto c p).cpus c = { m.cpus c with point := p } := by
    rw [LockState.goto_cpus, if_pos rfl]
  have hin : ∀ x, (({ m with lk := lk }.goto c p).cpus x).inside = (m.cpus x).inside := by
    intro x
    rw [LockState.goto_cpus]
    split
    · rename_i hx; rw [hx]
    · rfl
  have honly : ∀ x, (m.cpus x).inside = true → x = c := fun x hx => h.one x c hx hc
  constructor
  · intro x
    by_cases hx : x = c
    · rw [hx, hat]
      show p.Fits (m.cpus c).inside
      rw [hc]
      exact hf
    · rw [LockState.goto_cpus, if_neg hx]
      exact h.fits x
  · intro x hx
    rw [hin] at hx
    show lk.locked ≠ _
    rw [hl]
    exact h.taken x hx
  · intro _
    exact ⟨c, (hin c).trans hc⟩
  · intro x y hx hy
    rw [hin] at hx hy
    exact h.one x y hx hy
  · intro x
    refine (hcpu x).trans ⟨?_, fun ⟨hi, hn⟩ => ?_⟩
    · rintro ⟨rfl, hn⟩
      rw [hat]
      exact ⟨hc, hn⟩
    · rw [hin] at hi
      obtain rfl := honly x hi
      rw [hat] at hn
      exact ⟨rfl, hn⟩
  · intro x hx j hj
    rw [hin] at hx
    obtain rfl := honly x hx
    rw [hat] at hj ⊢
    exact hpcs j hj

/-- A CPU that is not inside calls a function. -/
theorem LockInv.call (h : LockInv m) (hi : (m.cpus c).point = .idle) (pcs : List Word)
    (hp : (m.cpus c).inside = true → pcs = (m.cpus c).pcs) :
    LockInv { m with cpus := Function.update m.cpus c { m.cpus c with point := .readLocked op, pcs := pcs } } := by
  have hgo : LockInv (m.goto c (.readLocked op)) := h.goto trivial (fun _ => by rw [hi]; exact Iff.rfl) fun _ _ _ => by
    rw [hi]; trivial
  have hcpus : ∀ x, (Function.update m.cpus c { m.cpus c with point := .readLocked op, pcs := pcs }) x =
      { (m.goto c (.readLocked op)).cpus x with pcs := if x = c then pcs else (m.cpus x).pcs } := by
    intro x
    by_cases hx : x = c
    · simp [LockState.goto, hx]
    · simp [LockState.goto, hx]
  constructor
  · intro x
    simp only [hcpus]
    exact hgo.fits x
  · intro x hx
    simp only [hcpus] at hx
    exact hgo.taken x hx
  · intro hl
    obtain ⟨x, hx⟩ := hgo.someone hl
    exact ⟨x, by simp only [hcpus]; exact hx⟩
  · intro x y hx hy
    simp only [hcpus] at hx hy
    exact hgo.one x y hx hy
  · intro x
    simp only [hcpus]
    exact hgo.cpu x
  · intro x hx j hj
    simp only [hcpus] at hx hj ⊢
    refine (hgo.pcs x hx j hj).trans ?_
    rw [LockState.goto_cpus]
    by_cases hxc : x = c
    · subst hxc
      rw [LockState.goto_cpus, if_pos rfl] at hx
      rw [if_pos rfl, if_pos rfl, hp hx]
    · rw [if_neg hxc, if_neg hxc]

theorem taken_ne_zero : (1#32 : Word) ≠ 0#32 := by decide

/-- The exchange that finds the lock free. -/
theorem LockInv.acquire (h : LockInv m) (hl : m.lk.locked = 0#32) : LockInv
    { lk := { m.lk with locked := 1#32 },
      cpus := Function.update m.cpus c { m.cpus c with point := .writeCpu, inside := true } } := by
  have hout := h.outside hl
  have hother : ∀ x, x ≠ c → (Function.update m.cpus c { m.cpus c with point := .writeCpu, inside := true }) x = m.cpus x :=
    fun x hx => Function.update_of_ne hx ..
  have hsome : ∀ x, ((Function.update m.cpus c { m.cpus c with point := .writeCpu, inside := true }) x).inside = true →
      x = c := by
    intro x hx
    by_contra hne
    rw [hother x hne, hout] at hx
    cases hx
  constructor
  · intro x
    by_cases hx : x = c
    · subst hx; simp [LockPoint.Fits]
    · dsimp only; rw [hother x hx]; exact h.fits x
  · intro _ _
    exact taken_ne_zero
  · intro _
    exact ⟨c, by simp⟩
  · intro x y hx hy
    rw [hsome x hx, hsome y hy]
  · intro x
    refine iff_of_false (fun hx => ?_) ?_
    · have := ((h.cpu x).1 hx).1
      rw [hout] at this
      cases this
    · rintro ⟨hx, hn⟩
      obtain rfl := hsome x hx
      simp [LockPoint.Named] at hn
  · intro x hx j hj
    obtain rfl := hsome x hx
    simp [LockPoint.Recorded] at hj

/-- The exchange of `spin_unlock`. -/
theorem LockInv.release (h : LockInv m) (hp : (m.cpus c).point = .xchgUnlock) : LockInv
    { lk := { m.lk with locked := 0#32 },
      cpus := Function.update m.cpus c { m.cpus c with point := .idle, inside := false } } := by
  have hc : (m.cpus c).inside = true := by have := h.fits c; rwa [hp] at this
  have hother : ∀ x, x ≠ c → (Function.update m.cpus c { m.cpus c with point := .idle, inside := false }) x = m.cpus x :=
    fun x hx => Function.update_of_ne hx ..
  have hnone : ∀ x, ((Function.update m.cpus c { m.cpus c with point := .idle, inside := false }) x).inside = false := by
    intro x
    by_cases hx : x = c
    · rw [hx, Function.update_self]
    · rw [hother x hx]
      cases hi : (m.cpus x).inside with
      | false => rfl
      | true => exact absurd (h.one x c hi hc) hx
  constructor
  · intro x
    by_cases hx : x = c
    · subst hx; simp [LockPoint.Fits]
    · dsimp only; rw [hother x hx]; exact h.fits x
  · intro x hx
    cases (hnone x).symm.trans hx
  · intro hl
    exact absurd rfl hl
  · intro x y hx
    cases (hnone x).symm.trans hx
  · intro x
    refine iff_of_false (fun hx => ?_) fun hx => ?_
    · obtain ⟨hi, hn⟩ := (h.cpu x).1 hx
      obtain rfl := h.one x c hi hc
      rw [hp] at hn
      exact hn
    · cases (hnone x).symm.trans hx.1
  · intro x hx
    cases (hnone x).symm.trans hx

/-- One access keeps the invariant. -/
theorem LockInv.access (h : LockInv m) (c : C) (op : LockOp) (mem : Word → Word) (ebp : Word) :
    LockInv (m.access c op mem ebp) := by
  have hf := h.fits c
  unfold LockState.access
  split <;> rename_i hp <;> rw [hp] at hf
  · refine h.call hp _ fun hi => ?_
    rw [if_neg (by rw [hi]; simp)]
  · split
    · rename_i hl
      exact h.holding (by rw [hp]; exact ⟨trivial, fun _ => trivial⟩) (h.outside hl c).symm
    · exact h.goto trivial (fun _ => by rw [hp]; exact Iff.rfl) fun _ _ _ => by rw [hp]; trivial
  · refine h.holding (by rw [hp]; exact ⟨trivial, fun _ => trivial⟩) ?_
    -- the CPU is named if it is inside, since it is not at one of the two ends
    have hcpu := h.cpu c
    rw [hp] at hcpu
    cases hi : (m.cpus c).inside with
    | true => exact decide_eq_true (hcpu.2 ⟨hi, trivial⟩)
    | false => exact decide_eq_false fun hc => by rw [(hcpu.1 hc).1] at hi; cases hi
  · split
    · rename_i hl
      exact h.acquire hl
    · rename_i hl
      obtain ⟨x, hx⟩ := h.someone hl
      exact ⟨h.fits, fun _ _ => taken_ne_zero, fun _ => ⟨x, hx⟩, h.one, h.cpu, h.pcs⟩
  · refine h.write hf rfl rfl (fun x => ⟨fun hx => ⟨(Option.some.inj hx).symm, trivial⟩, fun hx => by rw [hx.1]⟩) ?_
    intro j hj
    exact absurd hj (Fin.not_lt_zero j)
  · rename_i i
    have hw : ∀ p : LockPoint, p.Named → p.Fits true → (∀ j, p.Recorded j → j ≤ i) →
        LockInv ({ m with lk := { m.lk with pcs := Function.update m.lk.pcs i ((m.cpus c).pcs.getD i 0#32) } }.goto c p) := by
      intro p hn hfit hrec
      refine h.write hf rfl hfit (fun x => ?_) fun j hj => ?_
      · refine (h.cpu x).trans ⟨fun hx => ⟨h.one x c hx.1 hf, hn⟩, ?_⟩
        rintro ⟨rfl, -⟩
        exact ⟨hf, by rw [hp]; trivial⟩
      · dsimp only
        by_cases hji : j = i
        · rw [hji, Function.update_self]
        · rw [Function.update_of_ne hji]
          exact h.pcs c hf j (by rw [hp]; exact lt_of_le_of_ne (hrec j hj) hji)
    split
    · rename_i hi
      exact hw _ trivial rfl fun j hj => Nat.le_of_lt_succ hj
    · rename_i hi
      exact hw _ trivial trivial fun j _ => by omega
  · refine h.write hf rfl rfl (fun x => ?_) fun j hj => absurd hj id
    refine (h.cpu x).trans ⟨fun hx => ⟨h.one x c hx.1 hf, trivial⟩, ?_⟩
    rintro ⟨rfl, -⟩
    exact ⟨hf, by rw [hp]; trivial⟩
  · exact h.write hf rfl rfl (fun x => by simp [LockPoint.Named]) fun j hj => absurd hj id
  · exact h.release hp
  · exact h

theorem LockReach.inv (h : LockReach m) : LockInv m := by
  induction h with
  | init => exact lockInv_init
  | step _ c op mem ebp ih => exact ih.access c op mem ebp

/-- CPU `c` makes `n` accesses, in which it calls `op` when it is idle. -/
def LockState.accesses (m : LockState C) (c : C) (op : LockOp) : Nat → LockState C
  | 0 => m
  | n + 1 => (m.accesses c op n).access c op (fun _ => 0#32) 0#32

theorem LockReach.accesses (h : LockReach m) (c : C) (op : LockOp) : ∀ n, LockReach (m.accesses c op n)
  | 0 => h
  | n + 1 => .step (h.accesses c op n) c op _ _

/-! ## The lock -/

/-- However the CPUs call the two functions, at most one is inside; while it works there, the lock has its name and the chain
of its callers. -/
theorem spinlock_excludes (h : LockReach m) :
    (∀ c c', (m.cpus c).inside = true → (m.cpus c').inside = true → c = c') ∧
    ∀ c, (m.cpus c).inside = true → (m.cpus c).point = .idle →
      m.lk.locked ≠ 0#32 ∧ m.lk.cpu = some c ∧ ∀ j, m.lk.pcs j = (m.cpus c).pcs.getD j 0#32 := by
  have hi := h.inv
  refine ⟨hi.one, fun c hc hp => ⟨hi.taken c hc, (hi.cpu c).2 ⟨hc, ?_⟩, fun j => hi.pcs c hc j ?_⟩⟩
  · rw [hp]; trivial
  · rw [hp]; trivial

/-- CPU 3 has called `spin_lock` and is at work. -/
theorem spinlock_excludes_cpu3 : ((({} : LockState Cpu).accesses 3 .lock 14).lk.cpu = some 3) :=
  ((spinlock_excludes (LockReach.init.accesses 3 .lock 14)).2 3 (by decide) (by decide)).2.1

/-- A CPU panics in `spin_lock` only if it is inside already, and in `spin_unlock` only if it is not; and it never gets past the
test in any other case. -/
theorem spinlock_panics (h : LockReach m) (c : C) :
    ((m.cpus c).point = .panicked .lock → (m.cpus c).inside = true) ∧
    ((m.cpus c).point = .panicked .unlock → (m.cpus c).inside = false) ∧
    ((m.cpus c).point = .xchgLock → (m.cpus c).inside = false) ∧
    ((m.cpus c).point = .clearPcs → (m.cpus c).inside = true) := by
  have hf := h.inv.fits c
  refine ⟨fun hp => ?_, fun hp => ?_, fun hp => ?_, fun hp => ?_⟩ <;> rw [hp] at hf <;> exact hf

/-- CPU 3 calls `spin_lock` again. -/
theorem spinlock_panics_cpu3 : (({} : LockState Cpu).accesses 3 .lock 20 |>.cpus 3).inside = true :=
  (spinlock_panics (LockReach.init.accesses 3 .lock 20) 3).1 (by decide)

/-- The CPU that is inside. -/
def LockState.Holder (m : LockState C) (holder : Option C) : Prop := ∀ c, holder = some c ↔ (m.cpus c).inside = true

omit [DecidableEq C] in
theorem LockState.Holder.unique {a a' : Option C} (ha : m.Holder a) (ha' : m.Holder a') : a = a' :=
  Option.ext fun c => (ha c).trans (ha' c).symm

/-- Only the two exchanges change who is inside. -/
theorem access_inside (hp : (m.cpus c).point ≠ .xchgUnlock)
    (hl : (m.cpus c).point = .xchgLock → m.lk.locked ≠ 0#32) (x : C) :
    ((m.access c op mem ebp).cpus x).inside = (m.cpus x).inside := by
  unfold LockState.access LockState.holding LockState.goto
  have hkeep : ∀ v : LockCpu, v.inside = (m.cpus c).inside → (Function.update m.cpus c v x).inside = (m.cpus x).inside := by
    intro v hv
    rw [Function.update_apply]
    split
    · rename_i hx; rw [hx, hv]
    · rfl
  split
  · exact hkeep _ rfl
  · rename_i o _
    cases o <;> split <;> exact hkeep _ rfl
  · rename_i o _
    cases o <;> exact hkeep _ rfl
  · rename_i hx
    rw [if_neg (hl hx)]
  · exact hkeep _ rfl
  · exact hkeep _ rfl
  · exact hkeep _ rfl
  · exact hkeep _ rfl
  · rename_i hx
    exact absurd hx hp
  · rfl

/-- The accesses refine a lock that is taken and given back at once: one access of a CPU takes it, while it is free, one of its
holder gives it back, and the others leave it alone. -/
theorem spinlock_refines (h : LockReach m) (c : C) (op : LockOp) (mem : Word → Word) (ebp : Word) {a a' : Option C}
    (ha : m.Holder a) (ha' : (m.access c op mem ebp).Holder a') :
    a' = a ∨ (a = none ∧ a' = some c ∧ (m.cpus c).point = .xchgLock) ∨
      (a = some c ∧ a' = none ∧ (m.cpus c).point = .xchgUnlock) := by
  have hi := h.inv
  by_cases hu : (m.cpus c).point = .xchgUnlock
  · refine Or.inr (Or.inr ⟨?_, ?_, hu⟩)
    · have hf := hi.fits c
      rw [hu] at hf
      exact (ha c).2 hf
    · have hfree : (m.access c op mem ebp).lk.locked = 0#32 := by unfold LockState.access; rw [hu]
      refine Option.eq_none_iff_forall_ne_some.2 fun x hx => ?_
      exact (hi.access c op mem ebp).taken x ((ha' x).1 hx) hfree
  by_cases hl : (m.cpus c).point = .xchgLock ∧ m.lk.locked = 0#32
  · refine Or.inr (Or.inl ⟨?_, ?_, hl.1⟩)
    · refine Option.eq_none_iff_forall_ne_some.2 fun x hx => ?_
      rw [ha x, hi.outside hl.2] at hx
      cases hx
    · refine (ha' c).2 ?_
      unfold LockState.access
      rw [hl.1]
      dsimp only
      rw [if_pos hl.2]
      simp
  · refine Or.inl (ha'.unique fun x => ?_)
    rw [access_inside hu (fun hp h0 => hl ⟨hp, h0⟩)]
    exact ha x

/-- The third access of CPU 3 is the exchange. -/
theorem spinlock_refines_cpu3 : (some (3 : Cpu) = none) ∨ ((none : Option Cpu) = none ∧ some (3 : Cpu) = some 3 ∧
      (({} : LockState Cpu).accesses 3 .lock 2 |>.cpus 3).point = .xchgLock) ∨
      ((none : Option Cpu) = some 3 ∧ some (3 : Cpu) = none ∧
        (({} : LockState Cpu).accesses 3 .lock 2 |>.cpus 3).point = .xchgUnlock) :=
  spinlock_refines (LockReach.init.accesses 3 .lock 2) 3 .lock (fun _ => 0#32) 0#32 (by unfold LockState.Holder; decide)
    (by unfold LockState.Holder; decide)

end

end Jos
