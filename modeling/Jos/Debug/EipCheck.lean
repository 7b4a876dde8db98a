/-
`debuginfo_eip` on a user address: the tables come from a structure in user memory, and `user_mem_check` is asked about
them first. For the stab table it is given the number of entries, not of bytes.
-/
import Jos.Debug.EipReads
import Jos.Sys.MemCheck

namespace Jos

open Lib Kern

/-! ## The call -/

def ustabdata : Word := 0x200000#32

/-- The entry at `i` of the table at `stabs`. -/
def stabAddr (stabs : Word) (i : Int) : Word := stabs + BitVec.ofInt 32 (12 * i)

def stabAt (mem : Bytes) (stabs : Word) (i : Int) : StabEntry where
  nStrx := mem.read (stabAddr stabs i)
  nType := mem (stabAddr stabs i + 4#32)
  nValue := mem.read (stabAddr stabs i + 8#32)

/-- The tables that `struct UserStabData` at `USTABDATA` announces, and the address of the first. -/
def userTables (mem : Bytes) : Word × StabTab :=
  let stabs := mem.read ustabdata
  let stabEnd := mem.read (ustabdata + 4#32)
  (stabs,
    { stabs := stabAt mem stabs
      -- `stab_end - stabs` counts entries
      n := (stabEnd - stabs).toInt / 12
      stabstr := mem.read (ustabdata + 8#32)
      stabstrEnd := mem.read (ustabdata + 12#32)
      mem })

/-- `user_mem_check(curenv, va, len, PTE_U)` is not negative. -/
def accepts (s : State) (e : Slot) (va len : Word) : Bool :=
  match (userMemCheck e va len pteU).run s with
  | .ok r _ => 0 ≤ r
  | .error _ _ => false

/-- A call, with the ranges for which `user_mem_check` succeeded. -/
structure CheckedRun extends EipRun where
  checked : List (Word × Word) := []

/-- `debuginfo_eip`. `e` is `curenv`, `kern` are the tables of the kernel, and `mem` is what its addresses hold. -/
def debuginfoEip (s : State) (e : Slot) (kern : StabTab) (mem : Bytes) (addr : Word) : CheckedRun :=
  let failed : EipRun := { ret := -1, info := { eipFnAddr := addr } }
  if ulim ≤ addr then { kern.debuginfo addr with }
  else if accepts s e ustabdata 16#32 = false then { failed with }
  else
    let (stabs, t) := userTables mem
    let len := BitVec.ofInt 32 t.n
    let strLen := t.stabstrEnd - t.stabstr
    if accepts s e stabs len = false then { failed with checked := [(ustabdata, 16#32)] }
    else if accepts s e t.stabstr strLen = false then { failed with checked := [(ustabdata, 16#32), (stabs, len)] }
    else { t.debuginfo addr with checked := [(ustabdata, 16#32), (stabs, len), (t.stabstr, strLen)] }

/-! ## The property and its condition -/

/-- The bytes of a field. -/
def StabField.bytes : StabField → List Nat
  | .strx => [0, 1, 2, 3]
  | .type => [4]
  | .value => [8, 9, 10, 11]

/-- A byte of the user's tables that the call reads, at an index inside the table. -/
def ReadsByte (mem : Bytes) (r : EipRun) (a : Word) : Prop :=
  (∃ x ∈ r.reads, 0 ≤ x.1 ∧ x.1 < (userTables mem).2.n ∧ ∃ k ∈ x.2.bytes,
    a = stabAddr (userTables mem).1 x.1 + BitVec.ofNat 32 k) ∨ a ∈ r.strReads

def InRange (a : Word) (c : Word × Word) : Prop := (a - c.1).toNat < c.2.toNat

/-- Every byte read was checked, and where a check failed nothing was read. -/
structure Validated (mem : Bytes) (r : CheckedRun) : Prop where
  checked : ∀ a, ReadsByte mem r.toEipRun a → ∃ c ∈ r.checked, InRange a c
  failed : r.checked.length < 3 → r.ret < 0 ∧ ∀ a, ¬ ReadsByte mem r.toEipRun a

/-- The call ends before it searches the table, or the table is empty or misordered. -/
def EndsEarly (s : State) (e : Slot) (mem : Bytes) : Prop :=
  accepts s e ustabdata 16#32 = false ∨ accepts s e (userTables mem).1 (BitVec.ofInt 32 (userTables mem).2.n) = false ∨
    accepts s e (userTables mem).2.stabstr ((userTables mem).2.stabstrEnd - (userTables mem).2.stabstr) = false ∨
    (userTables mem).2.BadStrings ∨ (userTables mem).2.n ≤ 0

/-- The type of the middle entry, which is read first, is in one of the other two ranges. -/
def Overlaps (mem : Bytes) : Prop :=
  InRange (stabAddr (userTables mem).1 (((userTables mem).2.n - 1) / 2) + 4#32) (ustabdata, 16#32) ∨
    InRange (stabAddr (userTables mem).1 (((userTables mem).2.n - 1) / 2) + 4#32)
      ((userTables mem).2.stabstr, (userTables mem).2.stabstrEnd - (userTables mem).2.stabstr)

variable {s : State} {e : Slot} {kern t : StabTab} {mem : Bytes} {addr : Word}

/-! ## The string table -/

theorem strfind_bounds (mem : Bytes) (c : BitVec 8) (stop : Word) : ∀ (k : Nat) (p a : Word), k = (stop - p).toNat →
    a ∈ strfind mem c k p → (a - p).toNat < k
  | 0, _, _, _, h => by simp [strfind] at h
  | k + 1, p, a, hk, h => by
    unfold strfind at h
    rcases List.mem_cons.1 h with rfl | h
    · simp
    · split at h
      · simp at h
      · have hk' : k = (stop - (p + 1#32)).toNat := by bv_omega
        have := strfind_bounds mem c stop k (p + 1#32) a hk' h
        bv_omega

theorem nameReads_inside (t : StabTab) (i : Int) :
    ∀ a ∈ t.nameReads (t.name i .unknown), InRange a (t.stabstr, t.stabstrEnd - t.stabstr) := by
  intro a ha
  unfold StabTab.name at ha
  split at ha
  · rename_i hlt
    have h := strfind_bounds _ _ t.stabstrEnd _ _ a rfl ha
    show (a - t.stabstr).toNat < (t.stabstrEnd - t.stabstr).toNat
    bv_omega
  · simp [StabTab.nameReads] at ha

/-- The bytes of strings that are read are of the string table. -/
theorem strReads_inside (t : StabTab) (addr : Word) :
    ∀ a ∈ (t.debuginfo addr).strReads, InRange a (t.stabstr, t.stabstrEnd - t.stabstr) := by
  unfold StabTab.debuginfo
  dsimp only
  by_cases hempty : t.stabstrEnd ≤ t.stabstr
  · rw [if_pos hempty]
    simp
  · have hlast : InRange (t.stabstrEnd - 1#32) (t.stabstr, t.stabstrEnd - t.stabstr) := by
      show (t.stabstrEnd - 1#32 - t.stabstr).toNat < (t.stabstrEnd - t.stabstr).toNat
      bv_omega
    rw [if_neg hempty]
    split
    · simpa using hlast
    · split
      · simpa using hlast
      · intro a ha
        rcases List.mem_cons.1 ha with rfl | ha
        · exact hlast
        · unfold StabTab.describe at ha
          dsimp only at ha
          split at ha
          · exact nameReads_inside t _ a ha
          · simp [StabTab.nameReads] at ha

/-- Nothing is read of the stab table when the string table is bad or there are no entries. -/
theorem debuginfo_reads_none (t : StabTab) (addr : Word) (h : t.BadStrings ∨ t.n ≤ 0) : (t.debuginfo addr).reads = [] := by
  unfold StabTab.debuginfo
  dsimp only
  by_cases hempty : t.stabstrEnd ≤ t.stabstr
  · rw [if_pos hempty]
  rw [if_neg hempty]
  by_cases hnul : t.mem (t.stabstrEnd - 1#32) ≠ 0#8
  · rw [if_pos hnul]
  rw [if_neg hnul]
  obtain ⟨hzero, hnone⟩ := search_empty t addr (by
    rcases h with (h | h) | h
    · exact absurd h hempty
    · exact absurd h hnul
    · omega)
  rw [if_pos hzero]
  exact hnone

/-- Otherwise the type of the middle entry is read. -/
theorem debuginfo_reads_middle (t : StabTab) (addr : Word) (hbad : ¬ t.BadStrings) (hn : 0 < t.n) :
    (((t.n - 1) / 2, .type) : StabRead) ∈ (t.debuginfo addr).reads := by
  have hmem : (((t.n - 1) / 2, .type) : StabRead) ∈ binsearchReads t.toStabs nSo 0 (t.n - 1) addr := by
    simpa using middle_mem t.toStabs nSo addr (show 0 ≤ t.n - 1 by omega)
  unfold StabTab.debuginfo
  dsimp only
  rw [if_neg fun h => hbad (Or.inl h), if_neg fun h => hbad (Or.inr h)]
  split
  · exact hmem
  · exact List.mem_append_left _ (List.mem_append_left _ hmem)

/-! ## The check of the table -/

theorem userTables_n_lt (mem : Bytes) : 12 * (userTables mem).2.n < 2 ^ 31 := by
  have h : (userTables mem).2.n = (mem.read (ustabdata + 4#32) - mem.read ustabdata).toInt / 12 := rfl
  have := BitVec.toInt_lt (x := mem.read (ustabdata + 4#32) - mem.read ustabdata)
  omega

/-- The middle entry lies beyond the range that was checked for the table. -/
theorem middle_outside (mem : Bytes) (hn : 0 < (userTables mem).2.n) :
    ¬ InRange (stabAddr (userTables mem).1 (((userTables mem).2.n - 1) / 2) + 4#32)
      ((userTables mem).1, BitVec.ofInt 32 (userTables mem).2.n) := by
  have hlt := userTables_n_lt mem
  generalize (userTables mem).1 = stabs at *
  generalize (userTables mem).2.n = n at *
  obtain ⟨k, rfl⟩ := Int.eq_ofNat_of_zero_le hn.le
  obtain ⟨j, hj⟩ : ∃ j : Nat, ((k : Int) - 1) / 2 = j := Int.eq_ofNat_of_zero_le (by omega)
  rw [hj]
  intro h
  have hoff : stabAddr stabs j + 4#32 - stabs = BitVec.ofNat 32 (12 * j + 4) := by
    unfold stabAddr
    rw [show (12 : Int) * j = ((12 * j : Nat) : Int) by push_cast; rfl, BitVec.ofInt_natCast, BitVec.ofNat_add]
    bv_omega
  have hk : (BitVec.ofInt 32 (k : Int)).toNat = k := by
    rw [BitVec.ofInt_natCast, BitVec.toNat_ofNat, Nat.mod_eq_of_lt (by omega)]
  unfold InRange at h
  dsimp only at h
  rw [hoff, hk, BitVec.toNat_ofNat, Nat.mod_eq_of_lt (by omega)] at h
  omega

/-- A call that fails before it looks at the tables. -/
theorem Validated.refused {r : CheckedRun} (hret : r.ret < 0) (hreads : r.reads = []) (hstr : r.strReads = []) :
    Validated mem r := by
  have hno : ∀ a, ¬ ReadsByte mem r.toEipRun a := by
    rintro a (⟨x, hx, -⟩ | ha)
    · rw [hreads] at hx
      cases hx
    · rw [hstr] at ha
      cases ha
  exact ⟨fun a ha => absurd ha (hno a), fun _ => ⟨hret, hno⟩⟩

/-- A call that is not refused. -/
theorem debuginfoEip_accepted (kern : StabTab) (haddr : addr < ulim) (hdata : accepts s e ustabdata 16#32 = true)
    (htab : accepts s e (userTables mem).1 (BitVec.ofInt 32 (userTables mem).2.n) = true)
    (hstr : accepts s e (userTables mem).2.stabstr ((userTables mem).2.stabstrEnd - (userTables mem).2.stabstr) = true) :
    debuginfoEip s e kern mem addr = { (userTables mem).2.debuginfo addr with
      checked := [(ustabdata, 16#32), ((userTables mem).1, BitVec.ofInt 32 (userTables mem).2.n),
        ((userTables mem).2.stabstr, (userTables mem).2.stabstrEnd - (userTables mem).2.stabstr)] } := by
  unfold debuginfoEip
  dsimp only
  rw [if_neg (BitVec.not_le.2 haddr), if_neg (by simp [hdata]), if_neg (by simp [htab]), if_neg (by simp [hstr])]

/-- What a call reads that searches a table with entries was not checked, unless the table overlaps. -/
theorem overlaps_of_validated (kern : StabTab) (haddr : addr < ulim) (hend : ¬ EndsEarly s e mem)
    (h : Validated mem (debuginfoEip s e kern mem addr)) : Overlaps mem := by
  unfold EndsEarly at hend
  simp only [not_or, Bool.not_eq_false, not_le] at hend
  obtain ⟨hdata, htab, hstr, hbad, hn⟩ := hend
  rw [debuginfoEip_accepted kern haddr hdata htab hstr] at h
  have hmiddle := debuginfo_reads_middle (userTables mem).2 addr hbad hn
  obtain ⟨c, hc, hin⟩ := h.checked _ (Or.inl ⟨_, hmiddle, by show 0 ≤ (_ - 1) / 2; omega, by show (_ - 1) / 2 < _; omega, 4,
    List.mem_singleton.2 rfl, rfl⟩)
  rcases List.mem_cons.1 hc with rfl | hc
  · exact Or.inl hin
  · rcases List.mem_cons.1 hc with rfl | hc
    · exact absurd hin (middle_outside mem hn)
    · rw [List.mem_singleton.1 hc] at hin
      exact Or.inr hin

/-- What the call reads for a user address was checked if it ends early; else it was not, unless the table overlaps one of
the two ranges that were checked in full. -/
theorem debuginfoEip_validated (s : State) (e : Slot) (kern : StabTab) (mem : Bytes) (haddr : addr < ulim) :
    (EndsEarly s e mem → Validated mem (debuginfoEip s e kern mem addr)) ∧
      (Validated mem (debuginfoEip s e kern mem addr) → EndsEarly s e mem ∨ Overlaps mem) := by
  constructor
  · intro h
    unfold EndsEarly at h
    cases hdata : accepts s e ustabdata 16#32 with
    | false =>
      unfold debuginfoEip
      dsimp only
      rw [if_neg (BitVec.not_le.2 haddr), if_pos hdata]
      exact .refused (by show (-1 : Int) < 0; decide) rfl rfl
    | true =>
      cases htab : accepts s e (userTables mem).1 (BitVec.ofInt 32 (userTables mem).2.n) with
      | false =>
        unfold debuginfoEip
        dsimp only
        rw [if_neg (BitVec.not_le.2 haddr), if_neg (by simp [hdata]), if_pos htab]
        exact .refused (by show (-1 : Int) < 0; decide) rfl rfl
      | true =>
        cases hstr : accepts s e (userTables mem).2.stabstr ((userTables mem).2.stabstrEnd - (userTables mem).2.stabstr) with
        | false =>
          unfold debuginfoEip
          dsimp only
          rw [if_neg (BitVec.not_le.2 haddr), if_neg (by simp [hdata]), if_neg (by simp [htab]), if_pos hstr]
          exact .refused (by show (-1 : Int) < 0; decide) rfl rfl
        | true =>
          rw [hdata, htab, hstr] at h
          have hnone := debuginfo_reads_none (userTables mem).2 addr (by simpa using h)
          rw [debuginfoEip_accepted kern haddr hdata htab hstr]
          refine ⟨?_, fun hlen => absurd hlen (lt_irrefl 3)⟩
          rintro a (⟨x, hx, -⟩ | ha)
          · rw [show _ = _ from hnone] at hx
            cases hx
          · exact ⟨_, List.mem_cons_of_mem _ (List.mem_cons_of_mem _ (List.mem_singleton.2 rfl)), strReads_inside _ addr a ha⟩
  · intro h
    by_cases hend : EndsEarly s e mem
    · exact Or.inl hend
    · exact Or.inr (overlaps_of_validated kern haddr hend h)

/-- Environment 0 has the page at `USTABDATA`, frame 3, and no other page. -/
def dataPage : State where
  npages := 16
  npages_le := by decide
  pages _ := {}
  pageFreeList := none
  mem f i := if f = 1 ∧ i = 0 then 0x2007#32 else if f = 2 ∧ i = 0x200 then 0x3007#32 else 0#32
  kernPgdir := 0
  envs _ := { envPgdir := some 1 }
  envFreeList := none

/-- Three entries that start 16 bytes before the end of that page, and a string table of one NUL. -/
def threeStabs : Bytes := Bytes.writes (fun _ => 0#8) ustabdata [0x200ff0#32, 0x201014#32, 0x200100#32, 0x200101#32]

theorem accepts_iff {d : Nat} (hd : (s.envs e).envPgdir = some d) (hp : PdesOk s d) (va len : Word) :
    accepts s e va len = true ↔ ∀ a, va.toNat ≤ a → a < (va + len).toNat → Accessible s d pteU a := by
  obtain ⟨r, s', hrun, hex⟩ := loop_spec pteU hp (va + len) _ va rfl
  rw [← run_userMemCheck hd] at hrun
  unfold accepts
  rw [hrun, ← hex.zero]
  constructor
  · intro h
    by_contra hne
    have := (hex.fault hne).1
    rw [this] at h
    exact absurd h (show ¬ decide ((0 : Int) ≤ -eFault) = true by decide)
  · intro h
    rw [h]
    rfl

theorem dataPage_accepts {va len : Word} (h₁ : 0x200000 ≤ va.toNat) (h₂ : (va + len).toNat ≤ 0x201000) :
    accepts dataPage 0 va len = true := by
  have hpdes : PdesOk dataPage 1 := by
    unfold PdesOk
    decide +kernel
  have hpage : Accessible dataPage 1 pteU 0x200000 := by
    refine ⟨by decide, by decide, _, rfl, by decide, by decide⟩
  refine (accepts_iff rfl hpdes va len).2 fun a ha hlt => ?_
  exact (accessible_page (by decide) (show a < ulim.toNat by have : ulim.toNat = 0xef800000 := rfl; omega) (by omega)).1 hpage

/-- An empty table and a string table of one NUL on that page. -/
def noStabs : Bytes := Bytes.writes (fun _ => 0#8) ustabdata [0x200ff0#32, 0x200ff0#32, 0x200100#32, 0x200101#32]

/-- All ranges pass, and the search has nothing to read. -/
theorem debuginfoEip_validated_noStabs :
    accepts dataPage 0 (userTables noStabs).1 (BitVec.ofInt 32 (userTables noStabs).2.n) = true ∧
    accepts dataPage 0 (userTables noStabs).2.stabstr
      ((userTables noStabs).2.stabstrEnd - (userTables noStabs).2.stabstr) = true ∧
    Validated noStabs (debuginfoEip dataPage 0 lateFile noStabs 0x800020#32) :=
  ⟨dataPage_accepts (by decide +kernel) (by decide +kernel), dataPage_accepts (by decide +kernel) (by decide +kernel),
    (debuginfoEip_validated dataPage 0 lateFile noStabs (by decide)).1 (Or.inr (Or.inr (Or.inr (Or.inr (by decide +kernel)))))⟩

/-- The type of the second entry is on the page after that, which is not mapped. -/
theorem debuginfoEip_unchecked :
    ¬ Validated threeStabs (debuginfoEip dataPage 0 lateFile threeStabs 0x800020#32) ∧
      stabAddr (userTables threeStabs).1 (((userTables threeStabs).2.n - 1) / 2) + 4#32 = 0x201000#32 ∧
      ¬ Accessible dataPage 1 pteU 0x201000 := by
  refine ⟨fun h => ?_, by decide +kernel, ?_⟩
  · have hend : ¬ EndsEarly dataPage 0 threeStabs := by
      rintro (h | h | h | h | h)
      · rw [dataPage_accepts (by decide) (by decide)] at h
        cases h
      · rw [dataPage_accepts (by decide +kernel) (by decide +kernel)] at h
        cases h
      · rw [dataPage_accepts (by decide +kernel) (by decide +kernel)] at h
        cases h
      · rcases h with h | h
        · exact absurd h (by decide +kernel)
        · exact absurd h (by decide +kernel)
      · exact absurd h (by decide +kernel)
    rcases overlaps_of_validated lateFile (by decide) hend h with h | h
    · exact absurd h (by unfold InRange; decide +kernel)
    · exact absurd h (by unfold InRange; decide +kernel)
  · rintro ⟨-, -, w, rfl, hp, -⟩
    exact absurd hp (by decide +kernel)

end Jos
