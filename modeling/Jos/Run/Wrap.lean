/-
The counter of a page wraps around: one page mapped at 65537 addresses of one environment counts a
single reference, and unmapping one of them puts the page on the free list.
-/
import Jos.Run.Share

namespace Jos

open Lib Kern

variable {b s s' : State} {M l : List Nat} {e : Slot} {d pp : Nat}

/-! ## Inserting without counting -/

/-- `page_insert` at an address where nothing is mapped, whatever the counters say. It takes a free page
only for a page table that is missing. -/
theorem insert_unmapped (va perm : Word) (hv : Vm b M s l) (hd : s.dir e = some d) (hva : va < utop) (hM : pp ∈ M) (hl : pp ∉ l)
    (hns : ¬ s.Struct pp) (hperm : LowPerm perm) (hz : s.pte e (pdx va) (ptx va) = none)
    (hfree : s.tab e (pdx va) ≠ none ∨ l ≠ []) :
    ∃ s' l', (pageInsert d pp va perm).run s = .ok 0 s' ∧ Vm b M s' l' ∧
      Remap s s' l l' e (pdx va) (ptx va) (some (entry pp perm)) ∧
      (s'.pages pp).ppRef = (s.pages pp).ppRef + 1#16 ∧ s'.tab e (pdx va) ≠ none ∧
      l.length ≤ l'.length + (if s.tab e (pdx va) = none then 1 else 0) := by
  have hlen : ∃ n s₁ l₁, (pgdirWalk d va true).run s = .ok (some (n, ptx va)) s₁ ∧ Vm b M s₁ l₁ ∧
      Tabled s s₁ l l₁ e (pdx va) n ∧ l.length ≤ l₁.length + (if s.tab e (pdx va) = none then 1 else 0) := by
    cases hn : s.tab e (pdx va) with
    | some n =>
      exact ⟨n, s, l, walk_tab hv.toTables hd hn true, hv, ⟨.refl s, hn, fun _ _ => Or.inl rfl, rfl, fun _ hf => hf,
        fun f hf hf' => absurd hf hf', fun _ _ => rfl, fun _ _ _ => rfl⟩, by simp⟩
    | none =>
      have hp := absent_of_no_tab hd hva hn
      cases l with
      | nil => exact absurd rfl (hfree.resolve_left (by rw [hn]; simp))
      | cons p l =>
        have hlt := hv.managed p (hv.freeM p (List.mem_cons_self ..))
        obtain ⟨hv₁, ht, -⟩ := hang_vm hv hd ((userIdx_pdx va).2 hva) hn
        exact ⟨p, _, l, pgdirWalk_create hp hv.chain.1 hlt, hv₁, ht, by simp⟩
  obtain ⟨n, s₁, l₁, hw, hv₁, ht, hlen⟩ := hlen
  have hz₁ : present (s₁.mem n (ptx va)) = false := by
    have hpte := pte_of_tab (j := ptx va) ht.tab
    rw [ht.pte, hz] at hpte
    cases hp : present (s₁.mem n (ptx va))
    · rfl
    · rw [hp] at hpte; cases hpte
  have hl₁ : pp ∉ l₁ := fun hm => hl (ht.sub pp hm)
  have hns₁ : ¬ s₁.Struct pp := fun hs => (ht.struct hs).elim hns hl
  have hlink := link_remap pp hv₁.toTables ht.tab l₁ ((s₁.pages pp).ppRef + 1#16) (ptx va) _ (present_entry pp perm)
  refine ⟨_, l₁, insert_absent hw hz₁, link_vm hv₁ ht.tab hM hl₁ hns₁ (Or.inl hperm) _ _, ht.remap hlink, ?_, ?_, hlen⟩
  · rw [← ht.pages pp hl]
    exact (setRef_ppRef s₁ pp pp _).trans (if_pos rfl)
  · have htab := hlink.tab e (pdx va) (Or.inl (by rw [ht.tab]; simp))
    show ((s₁.setRef pp ((s₁.pages pp).ppRef + 1#16)).setWord n (ptx va) (entry pp perm)).tab e (pdx va) ≠ none
    rw [htab, ht.tab]
    simp

/-! ## The run -/

/-- The address of page `n`. -/
def pageAt (n : Nat) : Word := BitVec.ofNat 32 (n * 4096)

theorem pageAt_toNat {n : Nat} (h : n < 2 ^ 20) : (pageAt n).toNat = n * 4096 := by
  unfold pageAt
  rw [BitVec.toNat_ofNat]
  omega

theorem pageAt_idx {n : Nat} (h : n < 2 ^ 20) {i j : Idx} :
    i = pdx (pageAt n) ∧ j = ptx (pageAt n) ↔ i.val * 1024 + j.val = n := by
  rw [Fin.ext_iff, Fin.ext_iff, pdx_val, ptx_val, pageAt_toNat h]
  have := j.isLt
  omega

/-- The first environment with page 127 mapped at address 0. -/
def sharedOnce : State := finalState ((Op.allocInsert 0#32 0 0#32 pteU).exec.run firstEnv)

/-- Page 127 is mapped at the addresses of the pages 1 to `k` too. -/
def sharedRun : Nat → State
  | 0 => sharedOnce
  | k + 1 => finalState ((Op.insert 0 127 (pageAt (k + 1)) pteU).exec.run (sharedRun k))

/-- The state after page 127 was mapped at pages 0 to `k`, with no mapping above them. -/
structure Shared (k : Nat) (s : State) : Prop where
  run : Shares (fun _ _ => True) bootState s
  vm : ∃ l, Vm bootState (pagesDown 128) s l ∧ 125 ≤ l.length + k / 1024 ∧ 127 ∉ l
  dir : s.dir 0 = some 128
  noTable : ¬ s.Struct 127
  ref : (s.pages 127).ppRef = BitVec.ofNat 16 (k + 1)
  tab : ∀ i : Idx, i.val ≤ k / 1024 → s.tab 0 i ≠ none
  mapped : ∀ i j : Idx, i.val * 1024 + j.val ≤ k → s.pte 0 i j = some (entry 127 pteU)
  unmapped : ∀ i j : Idx, k < i.val * 1024 + j.val → s.pte 0 i j = none

theorem Shared.looksUp {k : Nat} (h : Shared k s) : LooksUp s 127 := by
  obtain ⟨l, hv, -, -⟩ := h.vm
  have hw : s.pte 0 (pdx 0#32) (ptx 0#32) = some (entry 127 pteU) := h.mapped 0 0 (Nat.zero_le k)
  have hp : pgnum (entry 127 pteU) = 127 := by decide
  obtain ⟨n, hn, -, -⟩ := pte_eq_some.1 hw
  have hl := lookup_present hv.toTables h.dir hn hw
  rw [hp, if_pos (by rw [hv.npages]; decide)] at hl
  exact ⟨0, 128, 0#32, _, s, h.dir, by decide, hl⟩

/-- What `page_insert` of page 127 at page `k + 1` leads to, from the state before it to the state `s'`. -/
theorem Shared.insert {k : Nat} (hk : k < 65536) (h : Shared k s) :
    ∃ s', (Op.insert 0 127 (pageAt (k + 1)) pteU).exec.run s = .ok (.inserted 0 127 (pageAt (k + 1)) pteU) s' ∧
      Shared (k + 1) s' := by
  obtain ⟨l, hv, hlen, hl⟩ := h.vm
  have hn : k + 1 < 2 ^ 20 := by omega
  have hva : pageAt (k + 1) < utop := by
    rw [BitVec.lt_def, pageAt_toNat hn, utop_toNat]; omega
  have hpdx : (pdx (pageAt (k + 1))).val = (k + 1) / 1024 := by rw [pdx_val, pageAt_toNat hn]; omega
  have hidx := (pageAt_idx hn).1 ⟨rfl, rfl⟩
  have hz : s.pte 0 (pdx (pageAt (k + 1))) (ptx (pageAt (k + 1))) = none := h.unmapped _ _ (by omega)
  have hne : l ≠ [] := by
    rintro rfl
    simp at hlen
    omega
  obtain ⟨s', l', hrun, hv', hr, href, htab, hlen'⟩ := insert_unmapped (pageAt (k + 1)) pteU hv h.dir hva
    (mem_pagesDown.2 ⟨by omega, by omega⟩) hl h.noTable (by decide) hz (Or.inr hne)
  have hexec : (Op.insert 0 127 (pageAt (k + 1)) pteU).exec.run s = .ok (.inserted 0 127 (pageAt (k + 1)) pteU) s' := by
    simp only [Op.exec, run_pgdir h.dir]
    rw [run_bind_ok hrun]; rfl
  have hlive := (dir_eq_some.1 h.dir).1
  refine ⟨s', hexec, ?_⟩
  refine
    { run := .step (a := .kern (.insert 0 127 (pageAt (k + 1)) pteU)) h.run ⟨hlive, hva, by decide, h.looksUp⟩ trivial
        ⟨_, hexec⟩
      vm := ⟨l', hv', ?_, fun hm => ?_⟩
      dir := by rw [hr.rest.dir]; exact h.dir
      noTable := fun hs => (hr.tables 127 hs).elim h.noTable hl
      ref := ?_
      tab := fun i hi => ?_
      mapped := fun i j hij => ?_
      unmapped := fun i j hij => ?_ }
  · -- the table of page `k + 1` is missing only where a new table starts
    split at hlen'
    · rename_i hnone
      have : ¬ (pdx (pageAt (k + 1))).val ≤ k / 1024 := fun hle => h.tab _ hle hnone
      omega
    · omega
  · rcases hr.free 127 hm with hm | hc
    · exact hl hm
    · rw [cell_leaf, hz] at hc; cases hc
  · rw [href, h.ref]
    exact (BitVec.ofNat_add (k + 1) 1).symm
  · by_cases hii : i = pdx (pageAt (k + 1))
    · rw [hii]; exact htab
    · have hne : i.val ≠ (k + 1) / 1024 := fun hc => hii (Fin.ext (hc.trans hpdx.symm))
      have hold := h.tab i (by omega)
      rw [hr.tab 0 i (Or.inl hold)]
      exact hold
  · rw [hr.pte]
    split
    · rfl
    · rename_i hc
      refine h.mapped i j ?_
      have : ¬ i.val * 1024 + j.val = k + 1 := fun hc' => hc ⟨rfl, (pageAt_idx hn).2 hc'⟩
      omega
  · rw [hr.pte]
    split
    · rename_i hc
      have := (pageAt_idx hn).1 hc.2
      omega
    · exact h.unmapped i j (by omega)

theorem firstEnv_pte (e : Slot) (i j : Idx) : firstEnv.pte e i j = none := by
  have hg : Genuine bootState := by
    rintro e ⟨i, j, w, hw, -⟩
    rw [bootState_booted.pte] at hw; cases hw
  obtain ⟨ev, s', hrun, hs⟩ := op_step countRel_eq (bootState_booted.inv _) hg (.envAlloc 0#32) trivial
  cases firstEnv_run.symm.trans hrun
  rw [hs.pte]
  show (if e = 0 then none else bootState.pte e i j) = none
  rw [bootState_booted.pte, ite_self]

theorem firstEnv_freeList : FreeList firstEnv (pagesDown 127) := by
  refine Chain.congr (fun p _ => ?_) (chain_pagesDown (n := 127) (by decide))
  exact setRef_ppLink bootState 128 p _

theorem length_pagesDown (n : Nat) : (pagesDown n).length = n := by
  induction n with
  | zero => rfl
  | succ n ih => rw [pagesDown, List.length_cons, ih]

theorem sharedOnce_shared : Shared 0 sharedOnce := by
  obtain ⟨⟨l, le, hi⟩, -⟩ := reach_inv bootState_booted firstEnv_reach
  have hl := hi.toFreePages.unique firstEnv_freeList
  subst hl
  have hv : Vm bootState (pagesDown 128) firstEnv (127 :: pagesDown 126) := hi.toVm
  have ht := take_spec hv hi.counts 0#32
  have hd : firstEnv.dir 0 = some 128 := by decide
  have hd₁ : (firstEnv.take 0#32 127).dir 0 = some 128 := by rw [ht.rest.dir]; exact hd
  have hnl : 127 ∉ pagesDown 126 := by rw [mem_pagesDown]; omega
  have hns : ¬ (firstEnv.take 0#32 127).Struct 127 := by
    rw [struct_congr ht.tab ht.rest.dir]
    exact hv.free_not_struct (List.mem_cons_self ..)
  have hz : ∀ i j, (firstEnv.take 0#32 127).pte 0 i j = none := by
    rw [ht.pte]; exact firstEnv_pte 0
  obtain ⟨s', l', hrun, hv', hr, href, htab, hlen⟩ := insert_unmapped 0#32 pteU ht.vm hd₁ (by decide)
    (mem_pagesDown.2 ⟨by decide, by decide⟩) hnl hns (by decide) (hz _ _)
    (Or.inr fun hc => by have := congrArg List.length hc; rw [length_pagesDown] at this; cases this)
  have hexec : (Op.allocInsert 0#32 0 0#32 pteU).exec.run firstEnv = .ok (.inserted 0 127 0#32 pteU) s' := by
    simp only [Op.exec]
    rw [run_bind_ok (pageAlloc_take hv.chain.1 (by decide) 0#32)]
    simp only [run_pgdir hd₁]
    rw [run_bind_ok hrun]; rfl
  have hs' : sharedOnce = s' := by
    unfold sharedOnce
    rw [hexec]; rfl
  rw [hs']
  have hzero : ∀ i j : Idx, i.val * 1024 + j.val ≤ 0 ↔ i = pdx 0#32 ∧ j = ptx 0#32 := by
    intro i j
    rw [show (0#32 : Word) = pageAt 0 from rfl, pageAt_idx (by decide)]
    omega
  refine
    { run := .step (a := .kern (.allocInsert 0#32 0 0#32 pteU)) (firstEnv_shares trivial)
        ⟨(dir_eq_some.1 hd).1, by decide, by decide⟩ trivial ⟨_, hexec⟩
      vm := ⟨l', hv', ?_, fun hm => ?_⟩
      dir := by rw [hr.rest.dir]; exact hd₁
      noTable := fun hs => (hr.tables 127 hs).elim hns hnl
      ref := ?_
      tab := fun i hi => ?_
      mapped := fun i j hij => ?_
      unmapped := fun i j hij => ?_ }
  · rw [length_pagesDown] at hlen
    split at hlen <;> omega
  · rcases hr.free 127 hm with hm | hc
    · exact hnl hm
    · rw [cell_leaf, hz] at hc; cases hc
  · rw [href, ht.pages, hv.freeRef 127 (List.mem_cons_self ..)]; rfl
  · have : i = pdx 0#32 := Fin.ext (Nat.le_zero.1 hi)
    rw [this]; exact htab
  · rw [hr.pte, if_pos ⟨rfl, (hzero i j).1 hij⟩]
  · rw [hr.pte, if_neg, hz]
    rintro ⟨-, hc⟩
    have := (hzero i j).2 hc
    omega

theorem sharedRun_shared (k : Nat) : k ≤ 65536 → Shared k (sharedRun k) := by
  induction k with
  | zero => exact fun _ => sharedOnce_shared
  | succ k ih =>
    intro hk
    obtain ⟨s', hrun, hs⟩ := (ih (by omega)).insert (by omega)
    have heq : sharedRun (k + 1) = s' := by
      rw [sharedRun, hrun]; rfl
    rw [heq]
    exact hs

/-- The state after the mapping at address 0 was removed from `sharedRun 65536`. -/
def earlyFreed : State := finalState ((Op.remove 0 0#32).exec.run (sharedRun 65536))

/-- The mappings at pages 1 to 65536 are there, and page 127 is the first on the free list. -/
theorem Shared.early_free (hs : Shared 65536 s) : Shares (fun _ _ => True) bootState
      (finalState ((Op.remove 0 0#32).exec.run s)) ∧ ¬ NoEarlyFree (finalState ((Op.remove 0 0#32).exec.run s)) := by
  obtain ⟨l, hv, -, -⟩ := hs.vm
  have hw : s.pte 0 (pdx 0#32) (ptx 0#32) = some (entry 127 pteU) := hs.mapped 0 0 (Nat.zero_le _)
  have hp : pgnum (entry 127 pteU) = 127 := by decide
  obtain ⟨n, hn, -, -⟩ := pte_eq_some.1 hw
  have hrm := remove_present hv.toTables hs.dir hn hw
  rw [hp, if_pos (by rw [hv.npages]; decide)] at hrm
  have hexec : (Op.remove 0 0#32).exec.run s = .ok (.removed 0 0#32) (s.unmap 128 0#32 n (ptx 0#32) 127) := by
    simp only [Op.exec, run_pgdir hs.dir]
    rw [run_bind_ok hrm]; rfl
  rw [hexec]
  refine ⟨.step (a := .kern (.remove 0 0#32)) hs.run ⟨(dir_eq_some.1 hs.dir).1, by decide⟩ trivial ⟨_, hexec⟩, ?_⟩
  intro hno
  have hfree : (s.unmap 128 0#32 n (ptx 0#32) 127).pageFreeList = some 127 := by
    have hlast : (s.setWord n (ptx 0#32) 0#32).ref 127 = 1 := by
      show (s.pages 127).ppRef.toNat = 1
      rw [hs.ref]; rfl
    rw [unmap_pageFreeList, decref_of_last hlast]; rfl
  have hpte : (s.unmap 128 0#32 n (ptx 0#32) 127).pte 0 0 1 = some (entry 127 pteU) := by
    rw [(unmap_removed hv.toTables hn 128 0#32 l (cell_leaf_eq_some.2 ⟨_, hw, hp⟩)).pte, if_neg (by decide)]
    exact hs.mapped 0 1 (by decide)
  exact hno.alloc 0#32 127 _ (pageAlloc_plain hfree) 0 0 1 _ hpte hp

theorem page_freed_while_mapped : Shares (fun _ _ => True) bootState earlyFreed ∧ ¬ NoEarlyFree earlyFreed :=
  (sharedRun_shared 65536 (le_refl _)).early_free

end Jos
