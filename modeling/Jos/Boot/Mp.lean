/-
`mp_init` of kern/mpconfig.c: the search for the firmware's table of processors, and the walk through its entries, which
fills `cpus[]`. Memory is read at kernel addresses.
-/
import Jos.Kern.State
import Jos.Lib.Bytes

namespace Jos

open Lib

/-! ## Finding the table -/

/-- `KADDR(pa)`; it panics on an address outside memory. -/
def kaddrOf (npages : Nat) (pa : Word) : Option Word := if npages ≤ pgnum pa then none else some (pa + kernbase)

def read16 (mem : Bytes) (a : Word) : BitVec 16 := mem (a + 1#32) ++ mem a

/-- The bytes at `a` are those of `str`. -/
def hasBytes (mem : Bytes) (a : Word) (str : List (BitVec 8)) : Bool :=
  (List.range str.length).all fun k => mem (a + BitVec.ofNat 32 k) == str.getD k 0#8

/-- `sum` modulo 256. -/
def sum (mem : Bytes) (addr : Word) (len : Nat) : BitVec 8 :=
  (List.range len).foldl (fun acc i => acc + mem (addr + BitVec.ofNat 32 i)) 0#8

/-- `mpsearch1`: none for a panic, and `some none` for a null pointer. -/
def mpsearch1 (npages : Nat) (mem : Bytes) (a len : Word) : Option (Option Word) := do
  let mp ← kaddrOf npages a
  let last ← kaddrOf npages (a + len)
  let places := (List.range ((last.toNat - mp.toNat + 15) / 16)).map fun k => mp + BitVec.ofNat 32 (16 * k)
  return places.find? fun mp => hasBytes mem mp [0x5f#8, 0x4d#8, 0x50#8, 0x5f#8] && sum mem mp 16 == 0#8

def mpsearch (npages : Nat) (mem : Bytes) : Option (Option Word) := do
  let bda ← kaddrOf npages 0x400#32
  let ebda := read16 mem (bda + 0x0E#32)
  let mp ← if ebda ≠ 0#16 then mpsearch1 npages mem (ebda.setWidth 32 <<< 4) 1024#32
    else mpsearch1 npages mem ((read16 mem (bda + 0x13#32)).setWidth 32 * 1024#32 - 1024#32) 1024#32
  match mp with
  | some mp => return some mp
  | none => mpsearch1 npages mem 0xF0000#32 0x10000#32

/-- `mpconfig`: the table and the structure that points to it. -/
def mpconfig (npages : Nat) (mem : Bytes) : Option (Option (Word × Word)) := do
  match ← mpsearch npages mem with
  | none => return none
  | some mp =>
    if mem.read (mp + 4#32) = 0#32 ∨ mem (mp + 11#32) ≠ 0#8 then
      return none
    let conf ← kaddrOf npages (mem.read (mp + 4#32))
    let length := (read16 mem (conf + 4#32)).toNat
    if hasBytes mem conf [0x50#8, 0x43#8, 0x4d#8, 0x50#8] = false then
      return none
    if sum mem conf length ≠ 0#8 then
      return none
    if mem (conf + 6#32) ≠ 1#8 ∧ mem (conf + 6#32) ≠ 4#8 then
      return none
    if sum mem (conf + BitVec.ofNat 32 length) (read16 mem (conf + 40#32)).toNat ≠ mem (conf + 42#32) then
      return none
    return some (conf, mp)

/-! ## The processors -/

/-- `NCPU`. -/
def ncpuMax : Nat := 8

/-- The fields of `struct CpuInfo` that `mp_init` writes. -/
structure MpCpu where
  cpuId : BitVec 8 := 0#8
  cpuStatus : CpuStatus := .unused
  deriving DecidableEq

/-- The variables of `mp_init`. `writes` are the elements of `cpus` that were written, `visited` the entries of the
table that the loop came to, and `reads` the bytes of the table that it read. -/
structure MpState where
  cpus : Nat → MpCpu := fun _ => {}
  bootcpu : Nat := 0
  ismp : Bool := false
  ncpu : Nat := 0
  lapicaddr : Word := 0#32
  writes : List Nat := []
  visited : List Word := []
  reads : List Word := []

def MpState.setCpu (s : MpState) (i : Nat) (c : MpCpu) : MpState :=
  { s with cpus := Function.update s.cpus i c, writes := i :: s.writes }

def MpState.read (s : MpState) (as : List Word) : MpState := { s with reads := s.reads ++ as }

def MpState.visit (s : MpState) (p : Word) : MpState := { s with visited := s.visited ++ [p], reads := s.reads ++ [p] }

/-- `cpus[ncpu].cpu_id = ncpu; ncpu++`. -/
def MpState.addCpu (s : MpState) : MpState :=
  { s.setCpu s.ncpu { s.cpus s.ncpu with cpuId := BitVec.ofNat 8 s.ncpu } with ncpu := s.ncpu + 1 }

/-- A processor entry. -/
def MpState.proc (mem : Bytes) (p : Word) (s : MpState) : MpState :=
  let bootcpu := if mem (p + 3#32) &&& 2#8 ≠ 0#8 then s.ncpu else s.bootcpu
  let s := { s.read [p + 3#32] with bootcpu }
  if s.ncpu < ncpuMax then s.addCpu else s.read [p + 1#32]

/-- The field `entry`, which the loop reads in its test. -/
def entryField (conf : Word) : List Word := [conf + 34#32, conf + 35#32]

/-- The types of entries that are no processors. -/
def OtherType (t : BitVec 8) : Prop := t = 1#8 ∨ t = 2#8 ∨ t = 3#8 ∨ t = 4#8

instance (t : BitVec 8) : Decidable (OtherType t) := inferInstanceAs (Decidable (_ ∨ _))

/-- The loop of `mp_init`, with the number of entries to come. -/
def mpLoop (mem : Bytes) (conf : Word) : Nat → Word → MpState → MpState
  | 0, _, s => s.read (entryField conf)
  | n + 1, p, s =>
    let s := (s.read (entryField conf)).visit p
    if mem p = 0#8 then
      mpLoop mem conf n (p + 20#32) (s.proc mem p)
    else if OtherType (mem p) then
      mpLoop mem conf n (p + 8#32) s
    else
      -- `i = conf->entry` ends the loop
      { s.read (entryField conf ++ entryField conf) with ismp := false }

/-- What follows the loop. -/
def MpState.finish (s : MpState) : MpState :=
  let s := s.setCpu s.bootcpu { s.cpus s.bootcpu with cpuStatus := .started }
  if s.ismp = false then { s with ncpu := 1, lapicaddr := 0#32 } else s

/-- `mp_init`, less the output to the interrupt mode register. -/
def mpInit (npages : Nat) (mem : Bytes) : Option MpState := do
  match ← mpconfig npages mem with
  | none => return { bootcpu := 0 }
  | some (conf, _) =>
    let s : MpState := { bootcpu := 0, ismp := true, lapicaddr := mem.read (conf + 36#32) }
    return (mpLoop mem conf (read16 mem (conf + 34#32)).toNat (conf + 44#32) s).finish

/-! ## The table of processors -/

/-- What the kernel relies on after `mp_init`. -/
structure CpuTable (s : MpState) : Prop where
  pos : 1 ≤ s.ncpu
  le : s.ncpu ≤ ncpuMax
  ids : ∀ i < s.ncpu, (s.cpus i).cpuId = BitVec.ofNat 8 i
  boot : s.bootcpu < s.ncpu
  started : (s.cpus s.bootcpu).cpuStatus = .started
  inside : ∀ i ∈ s.writes, i < ncpuMax

/-- The boot flags of the processors among the first `n` entries, up to one of unknown type. -/
def bootFlags (mem : Bytes) : Nat → Word → List Bool
  | 0, _ => []
  | n + 1, p =>
    if mem p = 0#8 then (mem (p + 3#32) &&& 2#8 != 0#8) :: bootFlags mem n (p + 20#32)
    else if OtherType (mem p) then bootFlags mem n (p + 8#32) else []

/-- One of the first `n` entries is of unknown type. -/
def someUnknown (mem : Bytes) : Nat → Word → Bool
  | 0, _ => false
  | n + 1, p =>
    if mem p = 0#8 then someUnknown mem n (p + 20#32)
    else if OtherType (mem p) then someUnknown mem n (p + 8#32) else true

/-- The place of the last flag that is set. -/
def lastBoot : List Bool → Option Nat
  | [] => none
  | b :: bs =>
    match lastBoot bs with
    | some j => some (j + 1)
    | none => if b then some 0 else none

/-- The table has a processor, and the boot processor is one of those that find room in `cpus`; with an entry of unknown
type it is the first one, to which the kernel falls back. -/
def GoodProcs (flags : List Bool) (unknown : Bool) : Prop :=
  (unknown = false → flags ≠ []) ∧ ∀ j, lastBoot flags = some j → j < if unknown then 1 else ncpuMax

variable {mem : Bytes} {conf p : Word} {n npages : Nat} {s : MpState}

/-- The invariant of the loop: the elements of `cpus` up to `ncpu` are numbered, and nothing outside was written. -/
structure Numbered (s : MpState) : Prop where
  le : s.ncpu ≤ ncpuMax
  ids : ∀ i, (s.cpus i).cpuId = if i < s.ncpu then BitVec.ofNat 8 i else 0#8
  inside : ∀ i ∈ s.writes, i < ncpuMax

theorem Numbered.congr {t : MpState} (h : Numbered s) (hn : t.ncpu = s.ncpu) (hc : t.cpus = s.cpus) (hw : t.writes = s.writes) :
    Numbered t := by
  refine ⟨by rw [hn]; exact h.le, ?_, by rw [hw]; exact h.inside⟩
  rw [hn, hc]
  exact h.ids

theorem Numbered.addCpu (h : Numbered s) (hn : s.ncpu < ncpuMax) : Numbered s.addCpu := by
  constructor
  · show s.ncpu + 1 ≤ _
    omega
  · intro i
    show (Function.update s.cpus s.ncpu _ i).cpuId = if i < s.ncpu + 1 then _ else _
    by_cases hi : i = s.ncpu
    · rw [hi, Function.update_self, if_pos (by omega)]
    · rw [Function.update_of_ne hi, h.ids i]
      by_cases hlt : i < s.ncpu
      · rw [if_pos hlt, if_pos (by omega)]
      · rw [if_neg hlt, if_neg (by omega)]
  · intro i hi
    rcases List.mem_cons.1 hi with rfl | hi
    · exact hn
    · exact h.inside i hi

theorem proc_spec (mem : Bytes) (p : Word) (h : Numbered s) :
    Numbered (s.proc mem p) ∧ (s.proc mem p).ncpu = min (s.ncpu + 1) ncpuMax ∧
      (s.proc mem p).bootcpu = (if mem (p + 3#32) &&& 2#8 ≠ 0#8 then s.ncpu else s.bootcpu) ∧
      (s.proc mem p).ismp = s.ismp := by
  have hle := h.le
  let b := if mem (p + 3#32) &&& 2#8 ≠ 0#8 then s.ncpu else s.bootcpu
  have hb : Numbered { s.read [p + 3#32] with bootcpu := b } := h.congr rfl rfl rfl
  by_cases hn : s.ncpu < ncpuMax
  · have hp : s.proc mem p = ({ s.read [p + 3#32] with bootcpu := b } : MpState).addCpu := if_pos hn
    rw [hp]
    refine ⟨hb.addCpu hn, ?_, rfl, rfl⟩
    show s.ncpu + 1 = _
    omega
  · have hp : s.proc mem p = ({ s.read [p + 3#32] with bootcpu := b } : MpState).read [p + 1#32] := if_neg hn
    rw [hp]
    refine ⟨h.congr rfl rfl rfl, ?_, rfl, rfl⟩
    show s.ncpu = _
    omega

theorem lastBoot_cons (b : Bool) (bs : List Bool) :
    lastBoot (b :: bs) = (lastBoot bs).elim (if b then some 0 else none) (fun j => some (j + 1)) := by
  rw [lastBoot]
  cases lastBoot bs <;> rfl

theorem lastBoot_lt {flags : List Bool} {j : Nat} (h : lastBoot flags = some j) : j < flags.length := by
  induction flags generalizing j with
  | nil => simp [lastBoot] at h
  | cons b bs ih =>
    rw [lastBoot_cons] at h
    cases hl : lastBoot bs with
    | some k =>
      have := ih hl
      have hk : some (k + 1) = some j := by simpa [hl] using h
      simp only [Option.some.injEq, List.length_cons] at hk ⊢
      omega
    | none =>
      have hj : b = true ∧ 0 = j := by simpa [hl] using h
      simp only [List.length_cons]
      omega

/-- The loop numbers the processors that find room and takes the last one with the flag for the boot processor. -/
theorem mpLoop_spec (mem : Bytes) (conf : Word) : ∀ (n : Nat) (p : Word) {s : MpState}, Numbered s →
    Numbered (mpLoop mem conf n p s) ∧
      (mpLoop mem conf n p s).ncpu = min (s.ncpu + (bootFlags mem n p).length) ncpuMax ∧
      (mpLoop mem conf n p s).bootcpu = (lastBoot (bootFlags mem n p)).elim s.bootcpu (fun j => min (s.ncpu + j) ncpuMax) ∧
      (mpLoop mem conf n p s).ismp = (s.ismp && !someUnknown mem n p)
  | 0, p, s, h => by
    have hle := h.le
    refine ⟨h.congr rfl rfl rfl, ?_, rfl, ?_⟩
    · show s.ncpu = min (s.ncpu + 0) _
      omega
    · show s.ismp = _
      simp [someUnknown]
  | n + 1, p, s, h => by
    have hle := h.le
    have h' : Numbered ((s.read (entryField conf)).visit p) := h.congr rfl rfl rfl
    unfold mpLoop bootFlags someUnknown
    dsimp only
    by_cases hproc : mem p = 0#8
    · rw [if_pos hproc, if_pos hproc, if_pos hproc]
      obtain ⟨hp, hcnt, hboot, hmp⟩ := proc_spec mem p h'
      obtain ⟨hn, hcnt', hboot', hmp'⟩ := mpLoop_spec mem conf n (p + 20#32) hp
      refine ⟨hn, ?_, ?_, hmp'.trans (by rw [hmp]; rfl)⟩
      · rw [hcnt', hcnt, List.length_cons]
        show min (min (s.ncpu + 1) _ + _) _ = _
        omega
      · -- a boot flag further on takes the place of this entry's
        rw [hboot', hcnt, hboot, lastBoot_cons]
        cases lastBoot (bootFlags mem n (p + 20#32)) with
        | some j =>
          show min (min (s.ncpu + 1) _ + j) _ = min (s.ncpu + (j + 1)) _
          omega
        | none =>
          by_cases hf : mem (p + 3#32) &&& 2#8 = 0#8
          · simp [hf, MpState.visit, MpState.read]
          · simp [hf, MpState.visit, MpState.read, hle]
    · rw [if_neg hproc, if_neg hproc, if_neg hproc]
      by_cases hother : OtherType (mem p)
      · rw [if_pos hother, if_pos hother, if_pos hother]
        exact mpLoop_spec mem conf n (p + 8#32) h'
      · rw [if_neg hother, if_neg hother, if_neg hother]
        refine ⟨h.congr rfl rfl rfl, ?_, rfl, by simp⟩
        show s.ncpu = min (s.ncpu + 0) _
        omega

theorem ncpuMax_eq : ncpuMax = 8 := rfl

theorem finish_bootcpu (s : MpState) : s.finish.bootcpu = s.bootcpu := by
  unfold MpState.finish
  dsimp only
  split <;> rfl

theorem finish_ncpu (s : MpState) : s.finish.ncpu = if s.ismp = false then 1 else s.ncpu := by
  unfold MpState.finish
  exact apply_ite MpState.ncpu ..

theorem finish_cpus (s : MpState) :
    s.finish.cpus = Function.update s.cpus s.bootcpu { s.cpus s.bootcpu with cpuStatus := .started } := by
  unfold MpState.finish
  dsimp only
  split <;> rfl

theorem finish_writes (s : MpState) : s.finish.writes = s.bootcpu :: s.writes := by
  unfold MpState.finish
  dsimp only
  split <;> rfl

/-- After the loop the table is good when the boot processor is one of those that count. -/
theorem finish_table (h : Numbered s) (hle : s.finish.ncpu ≤ ncpuMax) (hids : s.finish.ncpu ≤ s.ncpu ∨ s.finish.ncpu = 1)
    (hboot : s.bootcpu < s.finish.ncpu) : CpuTable s.finish where
  pos := by omega
  le := hle
  ids i hi := by
    have hid : (s.finish.cpus i).cpuId = (s.cpus i).cpuId := by
      rw [finish_cpus]
      by_cases hib : i = s.bootcpu
      · rw [hib, Function.update_self]
      · rw [Function.update_of_ne hib]
    rw [hid, h.ids i]
    split
    · rfl
    · -- only with the fallback to one processor
      rw [show i = 0 by omega]
  boot := by rwa [finish_bootcpu]
  started := by rw [finish_cpus, finish_bootcpu, Function.update_self]
  inside i hi := by
    rw [finish_writes] at hi
    rcases List.mem_cons.1 hi with rfl | hi
    · omega
    · exact h.inside i hi

/-- After the loop, in terms of the flags it met. -/
theorem finish_consistent_iff {flags : List Bool} {unknown : Bool} (h : Numbered s) (hn : s.ncpu = min flags.length ncpuMax)
    (hb : s.bootcpu = (lastBoot flags).elim 0 (fun j => min j ncpuMax)) (hm : s.ismp = !unknown) :
    CpuTable s.finish ↔ GoodProcs flags unknown := by
  have hmax := ncpuMax_eq
  have hle := h.le
  have hncpu := finish_ncpu s
  have hboot : s.bootcpu < s.finish.ncpu ↔ GoodProcs flags unknown := by
    unfold GoodProcs
    rw [hncpu, hm, hn, hb]
    cases hl : lastBoot flags with
    | none => cases unknown <;> simp [List.length_pos_iff, hmax]
    | some j =>
      -- a flag that is set has a place in the list
      have hj := lastBoot_lt hl
      have hne : flags ≠ [] := List.length_pos_iff.1 (by omega)
      cases unknown with
      | true => simp [hne, hmax]
      | false => simpa [hne, hmax] using fun _ => Or.inl hj
  have hfin : s.finish.ncpu ≤ ncpuMax := by
    rw [hncpu]
    split <;> omega
  constructor
  · intro ht
    refine hboot.1 ?_
    have := ht.boot
    rwa [finish_bootcpu] at this
  · intro hg
    refine finish_table h hfin ?_ (hboot.2 hg)
    rw [hncpu]
    split <;> omega

/-- The table after the call: it is good when a table was found whose processors are. -/
theorem mpInit_consistent_iff (h : mpInit npages mem = some s) :
    CpuTable s ↔ ∃ conf mp, mpconfig npages mem = some (some (conf, mp)) ∧
      GoodProcs (bootFlags mem (read16 mem (conf + 34#32)).toNat (conf + 44#32))
        (someUnknown mem (read16 mem (conf + 34#32)).toNat (conf + 44#32)) := by
  unfold mpInit at h
  cases hc : mpconfig npages mem with
  | none => simp [hc] at h
  | some found =>
    cases found with
    | none =>
      have hs : s = {} := by simpa [hc] using h.symm
      subst hs
      constructor
      · intro ht
        exact absurd ht.pos (by decide)
      · rintro ⟨_, _, hn, _⟩
        cases hn
    | some found =>
      obtain ⟨conf, mp⟩ := found
      let start : MpState := { ismp := true, lapicaddr := mem.read (conf + 36#32) }
      have hs : (mpLoop mem conf (read16 mem (conf + 34#32)).toNat (conf + 44#32) start).finish = s := by
        simpa [hc] using h
      have hstart : Numbered start := ⟨Nat.zero_le _, fun _ => rfl, by simp [start]⟩
      obtain ⟨hnum, hncpu, hboot, hismp⟩ := mpLoop_spec mem conf (read16 mem (conf + 34#32)).toNat (conf + 44#32) hstart
      rw [← hs, finish_consistent_iff hnum (by simpa [start] using hncpu)
        (by simpa [start] using hboot) hismp]
      constructor
      · intro hg
        exact ⟨conf, mp, rfl, hg⟩
      · rintro ⟨_, _, he, hg⟩
        cases he
        exact hg

/-- A memory with an extended data area at 16 and nothing in it. -/
def noTable : Bytes := fun a => if a = kernbase + 0x40e#32 then 1#8 else 0#8

theorem mpsearch1_noTable {a len : Word} (h₁ : pgnum a < npages) (h₂ : pgnum (a + len) < npages) :
    mpsearch1 npages noTable a len = some none := by
  have hno : ∀ a, hasBytes noTable a [0x5f#8, 0x4d#8, 0x50#8, 0x5f#8] = false := by
    intro a
    refine List.all_eq_false.2 ⟨0, by simp, ?_⟩
    have hne : noTable (a + BitVec.ofNat 32 0) ≠ 0x5f#8 := by
      unfold noTable
      split <;> decide
    simpa using hne
  unfold mpsearch1 kaddrOf
  rw [if_neg (by omega), if_neg (by omega)]
  simp only [hno, Option.bind_eq_bind, Option.bind_some, Bool.false_and]
  exact congrArg some (List.find?_eq_none.2 fun _ _ => Bool.false_ne_true)

theorem mpInit_none {b : Word} (hbda : kaddrOf npages 0x400#32 = some b) (hebda : read16 mem (b + 0x0E#32) ≠ 0#16)
    (h₁ : mpsearch1 npages mem ((read16 mem (b + 0x0E#32)).setWidth 32 <<< 4) 1024#32 = some none)
    (h₂ : mpsearch1 npages mem 0xF0000#32 0x10000#32 = some none) : mpInit npages mem = some {} := by
  have hsearch : mpsearch npages mem = some none := by
    unfold mpsearch
    simp only [hbda, Option.bind_eq_bind, Option.bind_some]
    rw [if_pos hebda, h₁]
    simpa using h₂
  unfold mpInit mpconfig
  simp only [hsearch, Option.bind_eq_bind, Option.bind_some]
  rfl

theorem mpInit_noTable : mpInit 1024 noTable = some {} :=
  mpInit_none (b := 0x400#32 + kernbase) (if_neg (by decide)) (by decide +kernel)
    (mpsearch1_noTable (by decide +kernel) (by decide +kernel)) (mpsearch1_noTable (by decide +kernel) (by decide +kernel))

/-- Without a table no processor is counted. -/
theorem mpInit_uncounted : ¬ ∀ (npages : Nat) (mem : Bytes) (s : MpState), mpInit npages mem = some s → CpuTable s := by
  intro h
  have ht := (h 1024 noTable {} mpInit_noTable).pos
  exact absurd ht (by decide)

/-- A table with a processor, which boots, a bus, another processor and an I/O APIC. -/
def twoCpus : Bytes := fun a =>
  if a = kernbase + 0x40e#32 then 1#8
  else if a = kernbase + 0x42#32 then 4#8
  else if a = kernbase + 0x46#32 then 0xe0#8
  else if a = kernbase + 0x47#32 then 0xfe#8
  else if a = kernbase + 0x4f#32 then 3#8
  else if a = kernbase + 0x60#32 then 1#8
  else if a = kernbase + 0x6b#32 then 1#8
  else if a = kernbase + 0x7c#32 then 2#8
  else [0x5f#8, 0x4d#8, 0x50#8, 0x5f#8, 0x20#8, 0#8, 0#8, 0#8, 1#8, 4#8, 0x80#8, 0#8, 0#8, 0#8, 0#8, 0#8,
    0x50#8, 0x43#8, 0x4d#8, 0x50#8, 100#8, 0#8, 4#8, 0x7f#8].getD (a - (kernbase + 0x10#32)).toNat 0#8

theorem mpInit_consistent_iff_twoCpus : ∃ s, mpInit 1024 twoCpus = some s ∧ CpuTable s := by
  have hconf : mpconfig 1024 twoCpus = some (some (kernbase + 0x20#32, kernbase + 0x10#32)) := by decide +kernel
  obtain ⟨s, hs⟩ : ∃ s, mpInit 1024 twoCpus = some s := Option.isSome_iff_exists.1 (by decide +kernel)
  have hflags : bootFlags twoCpus (read16 twoCpus (kernbase + 0x20#32 + 34#32)).toNat (kernbase + 0x20#32 + 44#32) =
      [true, false] := by
    decide +kernel
  refine ⟨s, hs, (mpInit_consistent_iff hs).2 ⟨_, _, hconf, ?_⟩⟩
  rw [hflags]
  exact ⟨fun _ => List.cons_ne_nil _ _, fun j hj => by cases hj; decide +kernel⟩

/-! ## What the loop reads -/

/-- The size of an entry; none for an unknown type. -/
def entrySize (t : BitVec 8) : Option Nat := if t = 0#8 then some 20 else if OtherType t then some 8 else none

/-- The offsets of the first `n` entries from `o` on, laid out one after the other, up to one of unknown type. -/
def entryOffsets (mem : Bytes) (conf : Word) : Nat → Nat → List Nat
  | 0, _ => []
  | n + 1, o =>
    o :: match entrySize (mem (conf + BitVec.ofNat 32 o)) with
      | some k => entryOffsets mem conf n (o + k)
      | none => []

/-- The last byte that the loop needs of the entry at `o`: the flags of a processor, the type of any other. -/
def lastNeeded (mem : Bytes) (conf : Word) (o : Nat) : Nat := if mem (conf + BitVec.ofNat 32 o) = 0#8 then o + 3 else o

theorem at_add (conf : Word) (o k : Nat) : conf + BitVec.ofNat 32 o + BitVec.ofNat 32 k = conf + BitVec.ofNat 32 (o + k) := by
  rw [BitVec.add_assoc, ← BitVec.ofNat_add]

theorem entryOffsets_le {n o k : Nat} (h : k ∈ entryOffsets mem conf n o) : o ≤ k ∧ k < o + 20 * n := by
  induction n generalizing o with
  | zero => simp [entryOffsets] at h
  | succ n ih =>
    unfold entryOffsets at h
    rcases List.mem_cons.1 h with rfl | h
    · omega
    · cases hs : entrySize (mem (conf + BitVec.ofNat 32 o)) with
      | none => simp [hs] at h
      | some size =>
        rw [hs] at h
        have hsize : size ≤ 20 := by
          unfold entrySize at hs
          split_ifs at hs <;> simp only [Option.some.injEq] at hs <;> omega
        have := ih h
        omega

theorem mpLoop_visited (mem : Bytes) (conf : Word) (n o : Nat) (s : MpState) :
    (mpLoop mem conf n (conf + BitVec.ofNat 32 o) s).visited =
      s.visited ++ (entryOffsets mem conf n o).map (conf + BitVec.ofNat 32 ·) := by
  induction n generalizing o s with
  | zero => exact (List.append_nil _).symm
  | succ n ih =>
    unfold mpLoop entryOffsets entrySize
    dsimp only
    by_cases hproc : mem (conf + BitVec.ofNat 32 o) = 0#8
    · have hv : (((s.read (entryField conf)).visit (conf + BitVec.ofNat 32 o)).proc mem (conf + BitVec.ofNat 32 o)).visited =
          s.visited ++ [conf + BitVec.ofNat 32 o] := by
        unfold MpState.proc
        dsimp only
        split <;> rfl
      rw [if_pos hproc, if_pos hproc, at_add conf o 20, ih, hv]
      simp
    · rw [if_neg hproc, if_neg hproc]
      by_cases hother : OtherType (mem (conf + BitVec.ofNat 32 o))
      · rw [if_pos hother, if_pos hother, at_add conf o 8, ih]
        simp [MpState.visit, MpState.read]
      · rw [if_neg hother, if_neg hother]
        simp [MpState.visit, MpState.read]

theorem proc_reads (mem : Bytes) (p : Word) (s : MpState) :
    (s.proc mem p).reads = s.reads ++ [p + 3#32] ∨ (s.proc mem p).reads = s.reads ++ [p + 3#32] ++ [p + 1#32] := by
  unfold MpState.proc
  dsimp only
  split
  · exact Or.inl rfl
  · exact Or.inr rfl

/-- What holds of the bytes read for each of the entries holds of all that the loop reads. -/
theorem mpLoop_reads {P : Word → Prop} (hfield : ∀ a ∈ entryField conf, P a) (n o : Nat) (s : MpState) (hs : ∀ a ∈ s.reads, P a)
    (he : ∀ k ∈ entryOffsets mem conf n o, ∀ j, k + j ≤ lastNeeded mem conf k → P (conf + BitVec.ofNat 32 (k + j))) :
    ∀ a ∈ (mpLoop mem conf n (conf + BitVec.ofNat 32 o) s).reads, P a := by
  have hread : ∀ {s : MpState}, (∀ a ∈ s.reads, P a) → ∀ {as : List Word}, (∀ a ∈ as, P a) → ∀ a ∈ (s.read as).reads, P a :=
    fun hs _ has a ha => (List.mem_append.1 ha).elim (hs a) (has a)
  induction n generalizing o s with
  | zero => exact hread hs hfield
  | succ n ih =>
    unfold entryOffsets at he
    have hhere := he o (List.mem_cons_self ..)
    have hstart : P (conf + BitVec.ofNat 32 o) := hhere 0 (by unfold lastNeeded; split <;> omega)
    have hv : ∀ a ∈ ((s.read (entryField conf)).visit (conf + BitVec.ofNat 32 o)).reads, P a :=
      hread (hread hs hfield) (by simpa using hstart)
    unfold mpLoop
    dsimp only
    by_cases hproc : mem (conf + BitVec.ofNat 32 o) = 0#8
    · have hlast : lastNeeded mem conf o = o + 3 := if_pos hproc
      have h₁ : P (conf + BitVec.ofNat 32 o + 1#32) := by
        rw [at_add conf o 1]
        exact hhere 1 (by omega)
      have h₃ : P (conf + BitVec.ofNat 32 o + 3#32) := by
        rw [at_add conf o 3]
        exact hhere 3 (by omega)
      rw [if_pos hproc, at_add conf o 20]
      refine ih (o + 20) _ ?_ fun k hk => he k (List.mem_cons_of_mem _ (by simpa [entrySize, hproc] using hk))
      rcases proc_reads mem (conf + BitVec.ofNat 32 o) ((s.read (entryField conf)).visit (conf + BitVec.ofNat 32 o)) with hr | hr
      · rw [hr]
        exact hread hv (by simpa using h₃)
      · rw [hr]
        exact hread (hread hv (List.forall_mem_singleton.2 h₃)) (List.forall_mem_singleton.2 h₁)
    · rw [if_neg hproc]
      by_cases hother : OtherType (mem (conf + BitVec.ofNat 32 o))
      · rw [if_pos hother, at_add conf o 8]
        exact ih (o + 8) _ hv fun k hk => he k (List.mem_cons_of_mem _ (by simpa [entrySize, hproc, hother] using hk))
      · rw [if_neg hother]
        exact hread hv fun a ha => (List.mem_append.1 ha).elim (hfield a) (hfield a)

theorem mpLoop_reads_mono {a : Word} (n : Nat) (p : Word) (s : MpState) (ha : a ∈ s.reads) :
    a ∈ (mpLoop mem conf n p s).reads := by
  induction n generalizing p s with
  | zero => exact List.mem_append_left _ ha
  | succ n ih =>
    have hv : a ∈ ((s.read (entryField conf)).visit p).reads := List.mem_append_left _ (List.mem_append_left _ ha)
    unfold mpLoop
    dsimp only
    split_ifs
    · refine ih _ _ ?_
      rcases proc_reads mem p ((s.read (entryField conf)).visit p) with hr | hr <;> rw [hr] <;> simp [hv]
    · exact ih _ _ hv
    · exact List.mem_append_left _ hv

/-- The loop reads its count, and the needed byte of each entry it comes to. -/
theorem mpLoop_reads_needed (mem : Bytes) (conf : Word) (n o : Nat) (s : MpState) :
    (∀ a ∈ entryField conf, a ∈ (mpLoop mem conf n (conf + BitVec.ofNat 32 o) s).reads) ∧
      ∀ k ∈ entryOffsets mem conf n o,
        conf + BitVec.ofNat 32 (lastNeeded mem conf k) ∈ (mpLoop mem conf n (conf + BitVec.ofNat 32 o) s).reads := by
  induction n generalizing o s with
  | zero => exact ⟨fun a ha => List.mem_append_right _ ha, by simp [entryOffsets]⟩
  | succ n ih =>
    have hvis : conf + BitVec.ofNat 32 o ∈ ((s.read (entryField conf)).visit (conf + BitVec.ofNat 32 o)).reads :=
      List.mem_append_right _ (List.mem_singleton.2 rfl)
    have hfield : ∀ a ∈ entryField conf, a ∈ ((s.read (entryField conf)).visit (conf + BitVec.ofNat 32 o)).reads :=
      fun a ha => List.mem_append_left _ (List.mem_append_right _ ha)
    unfold mpLoop entryOffsets
    dsimp only
    by_cases hproc : mem (conf + BitVec.ofNat 32 o) = 0#8
    · rw [if_pos hproc, at_add conf o 20]
      have hflags : conf + BitVec.ofNat 32 (o + 3) ∈
          (((s.read (entryField conf)).visit (conf + BitVec.ofNat 32 o)).proc mem (conf + BitVec.ofNat 32 o)).reads := by
        rw [← at_add conf o 3]
        rcases proc_reads mem (conf + BitVec.ofNat 32 o) ((s.read (entryField conf)).visit (conf + BitVec.ofNat 32 o)) with
          hr | hr <;> rw [hr] <;> simp
      obtain ⟨hf, hk⟩ := ih (o + 20) (((s.read (entryField conf)).visit (conf + BitVec.ofNat 32 o)).proc mem
        (conf + BitVec.ofNat 32 o))
      refine ⟨hf, fun k hk' => ?_⟩
      rcases List.mem_cons.1 hk' with rfl | hk'
      · rw [show lastNeeded mem conf k = k + 3 from if_pos hproc]
        exact mpLoop_reads_mono _ _ _ hflags
      · exact hk k (by simpa [entrySize, hproc] using hk')
    · rw [if_neg hproc]
      by_cases hother : OtherType (mem (conf + BitVec.ofNat 32 o))
      · rw [if_pos hother, at_add conf o 8]
        obtain ⟨hf, hk⟩ := ih (o + 8) ((s.read (entryField conf)).visit (conf + BitVec.ofNat 32 o))
        refine ⟨hf, fun k hk' => ?_⟩
        rcases List.mem_cons.1 hk' with rfl | hk'
        · rw [show lastNeeded mem conf k = k from if_neg hproc]
          exact mpLoop_reads_mono _ _ _ hvis
        · exact hk k (by simpa [entrySize, hproc, hother] using hk')
      · rw [if_neg hother]
        refine ⟨fun a ha => List.mem_append_left _ (hfield a ha), fun k hk' => ?_⟩
        have hk : k = o := by simpa [entrySize, hproc, hother] using hk'
        rw [hk, show lastNeeded mem conf o = o from if_neg hproc]
        exact List.mem_append_left _ hvis

/-- The loop visits the announced entries one after the other. What it reads lies in the part of the table that the
checksum covers when that part holds the count and the needed bytes of these entries. -/
theorem mpInit_entries (h : mpInit npages mem = some s) {mp : Word} (hc : mpconfig npages mem = some (some (conf, mp))) :
    s.visited = (entryOffsets mem conf (read16 mem (conf + 34#32)).toNat 44).map (conf + BitVec.ofNat 32 ·) ∧
      ((∀ a ∈ s.reads, (a - conf).toNat < (read16 mem (conf + 4#32)).toNat) ↔
        36 ≤ (read16 mem (conf + 4#32)).toNat ∧
          ∀ o ∈ entryOffsets mem conf (read16 mem (conf + 34#32)).toNat 44,
            lastNeeded mem conf o < (read16 mem (conf + 4#32)).toNat) := by
  let start : MpState := { ismp := true, lapicaddr := mem.read (conf + 36#32) }
  have hs : (mpLoop mem conf (read16 mem (conf + 34#32)).toNat (conf + BitVec.ofNat 32 44) start).finish = s := by
    unfold mpInit at h
    simpa [hc] using h
  generalize hn : (read16 mem (conf + 34#32)).toNat = n at hs ⊢
  have hn16 : n < 65536 := hn ▸ (read16 mem (conf + 34#32)).isLt
  generalize (read16 mem (conf + 4#32)).toNat = len
  have hvis : s.visited = (mpLoop mem conf n (conf + BitVec.ofNat 32 44) start).visited := by
    rw [← hs]
    unfold MpState.finish
    dsimp only
    split <;> rfl
  have hreads : s.reads = (mpLoop mem conf n (conf + BitVec.ofNat 32 44) start).reads := by
    rw [← hs]
    unfold MpState.finish
    dsimp only
    split <;> rfl
  have hoff : ∀ k, k < 2 ^ 32 → (conf + BitVec.ofNat 32 k - conf).toNat = k := fun _ hk => toNat_offset conf hk
  have hneeded : ∀ o, lastNeeded mem conf o ≤ o + 3 := fun o => by unfold lastNeeded; split <;> omega
  rw [hvis, hreads, mpLoop_visited]
  refine ⟨rfl, fun hin => ?_, fun ⟨hlen, hall⟩ => ?_⟩
  · obtain ⟨hf, hk⟩ := mpLoop_reads_needed mem conf n 44 start
    refine ⟨?_, fun o ho => ?_⟩
    · have := hin _ (hf (conf + BitVec.ofNat 32 35) (by simp [entryField]))
      rw [hoff 35 (by norm_num)] at this
      omega
    · have hlt := entryOffsets_le ho
      have := hin _ (hk o ho)
      rwa [hoff _ (by have := hneeded o; omega)] at this
  · refine mpLoop_reads (P := fun a => (a - conf).toNat < len) ?_ n 44 start (by simp [start]) fun k hk j hj => ?_
    · have h₁ := hoff 34 (by norm_num)
      have h₂ := hoff 35 (by norm_num)
      simp only [entryField, List.mem_cons, List.not_mem_nil, or_false, forall_eq_or_imp, forall_eq]
      exact ⟨by rw [h₁]; omega, by rw [h₂]; omega⟩
    · have hlt := entryOffsets_le hk
      have h₁ := hneeded k
      have h₂ := hall k hk
      rw [hoff _ (by omega)]
      omega

theorem mpInit_entries_twoCpus : ∃ s, mpInit 1024 twoCpus = some s ∧
    s.visited = [kernbase + 0x4c#32, kernbase + 0x60#32, kernbase + 0x68#32, kernbase + 0x7c#32] ∧
    ∀ a ∈ s.reads, (a - (kernbase + 0x20#32)).toNat < 100 := by
  have hconf : mpconfig 1024 twoCpus = some (some (kernbase + 0x20#32, kernbase + 0x10#32)) := by decide +kernel
  obtain ⟨s, hs⟩ : ∃ s, mpInit 1024 twoCpus = some s := Option.isSome_iff_exists.1 (by decide +kernel)
  obtain ⟨hvisited, hreads⟩ := mpInit_entries hs hconf
  have hlen : (read16 twoCpus (kernbase + 0x20#32 + 4#32)).toNat = 100 := by decide +kernel
  have hoff : entryOffsets twoCpus (kernbase + 0x20#32) (read16 twoCpus (kernbase + 0x20#32 + 34#32)).toNat 44 =
      [44, 64, 72, 92] := by
    decide +kernel
  rw [hoff] at hvisited hreads
  rw [hlen] at hreads
  exact ⟨s, hs, hvisited, hreads.2 ⟨by norm_num, by decide +kernel⟩⟩

/-- A table of 44 bytes that announces one entry. -/
def overCounted : Bytes := fun a =>
  if a = kernbase + 0x40e#32 then 1#8
  else if a = kernbase + 0x42#32 then 1#8
  else [0x5f#8, 0x4d#8, 0x50#8, 0x5f#8, 0x20#8, 0#8, 0#8, 0#8, 1#8, 4#8, 0x80#8, 0#8, 0#8, 0#8, 0#8, 0#8,
    0x50#8, 0x43#8, 0x4d#8, 0x50#8, 44#8, 0#8, 4#8, 0x9f#8].getD (a - (kernbase + 0x10#32)).toNat 0#8

theorem mpInit_reads_outside : ∃ conf mp s, mpconfig 1024 overCounted = some (some (conf, mp)) ∧
    mpInit 1024 overCounted = some s ∧ ∃ a ∈ s.reads, (read16 overCounted (conf + 4#32)).toNat ≤ (a - conf).toNat := by
  have hconf : mpconfig 1024 overCounted = some (some (kernbase + 0x20#32, kernbase + 0x10#32)) := by decide +kernel
  obtain ⟨s, hs⟩ : ∃ s, mpInit 1024 overCounted = some s := Option.isSome_iff_exists.1 (by decide +kernel)
  have hread : (mpInit 1024 overCounted).any (fun s => s.reads.contains (kernbase + 0x4c#32)) = true := by decide +kernel
  rw [hs] at hread
  exact ⟨_, _, s, hconf, hs, kernbase + 0x4c#32, by simpa using hread, by decide +kernel⟩

end Jos
