/-
`sys_page_alloc` against its comment. What it accepts is what the comment asks for, except that the address need not be
aligned and that a permission with the sign bit set passes the test of the mask.
-/
import Jos.Sys.Perm
import Jos.Run.Share

namespace Jos

open Lib Kern

variable {b s s' : State} {M l l' : List Nat} {le : List Slot} {Q : Nat → Nat → Prop} {cur e : Slot} {envid va perm : Word}

/-! ## The contract -/

/-- `envid` names environment `e`: the caller, or an immediate child of it. -/
def Names (s : State) (cur : Slot) (envid : Word) (e : Slot) : Prop :=
  (envid = 0#32 ∧ e = cur) ∨ (envid ≠ 0#32 ∧ e = envx envid ∧ (s.envs e).envStatus ≠ .free ∧ (s.envs e).envId = envid ∧
    (e = cur ∨ (s.envs e).envParentId = (s.envs cur).envId))

/-- The free pages `l` are enough for the page, and for its page table if that is missing. -/
def Enough (s : State) (l : List Nat) (e : Slot) (va : Word) : Prop := 1 ≤ l.length ∧ (s.tab e (pdx va) = none → 2 ≤ l.length)

/-- What the comment asks of a call that succeeds. -/
structure Documented (s : State) (l : List Nat) (cur : Slot) (envid va perm : Word) (e : Slot) : Prop where
  names : Names s cur envid e
  user : va < utop
  aligned : va.toNat % 4096 = 0
  set : ¬ permUnset perm
  mask : perm &&& ~~~pteSyscall = 0#32
  enough : Enough s l e va

/-- What the code asks of it. -/
structure Accepts (s : State) (l : List Nat) (cur : Slot) (envid va perm : Word) (e : Slot) : Prop where
  names : Names s cur envid e
  user : va < utop
  set : ¬ permUnset perm
  mask : ¬ 0 < (perm &&& ~~~pteUser).toInt
  enough : Enough s l e va

/-- Page `p`, which was free, is mapped at `va` with flags `perm` and nowhere else, it is empty and has one reference,
and the page that was mapped there before has lost one. -/
structure NewlyMapped (l : List Nat) (s s' : State) (e : Slot) (va perm : Word) (p : Nat) : Prop where
  wasFree : p ∈ l
  pte : ∃ w, s'.pte e (pdx va) (ptx va) = some w ∧ pteAddr w = page2pa p ∧ w &&& 0xFFF#32 = perm
  ref : (s'.pages p).ppRef = 1#16
  zero : ∀ i, s'.mem p i = 0#32
  only : ∀ e' i j w, s'.pte e' i j = some w → pgnum w = p → e' = e ∧ i = pdx va ∧ j = ptx va
  old : ∀ w, s.pte e (pdx va) (ptx va) = some w → s'.ref (pgnum w) + 1 = s.ref (pgnum w)

/-- The call returns 0 exactly when it should, and then it has done what it should. -/
def MeetsContract (s : State) (l : List Nat) (cur : Slot) (envid va perm : Word) : Prop :=
  ((∃ s', (sysPageAlloc envid va perm).run s = .ok 0 s') ↔ ∃ e, Documented s l cur envid va perm e) ∧
    ∀ s', (sysPageAlloc envid va perm).run s = .ok 0 s' → ∃ e p, Names s cur envid e ∧ NewlyMapped l s s' e va perm p

theorem resolve_iff_names : s.resolve cur envid true = some e ↔ Names s cur envid e := by
  unfold State.resolve Names
  by_cases h0 : envid = 0#32
  · simp [h0, eq_comm]
  rw [if_neg h0]
  by_cases h1 : (s.envs (envx envid)).envStatus = .free ∨ (s.envs (envx envid)).envId ≠ envid
  · rw [if_pos h1]
    constructor
    · intro h; cases h
    · rintro (⟨h, -⟩ | ⟨-, rfl, hlive, hid, -⟩)
      · exact absurd h h0
      · exact absurd hid (h1.resolve_left hlive)
  rw [if_neg h1]
  rw [not_or, not_not] at h1
  by_cases h2 : true = true ∧ envx envid ≠ cur ∧ (s.envs (envx envid)).envParentId ≠ (s.envs cur).envId
  · rw [if_pos h2]
    constructor
    · intro h; cases h
    · rintro (⟨h, -⟩ | ⟨-, rfl, -, -, hc | hp⟩)
      · exact absurd h h0
      · exact absurd hc h2.2.1
      · exact absurd hp h2.2.2
  · rw [if_neg h2]
    constructor
    · intro h
      cases h
      refine Or.inr ⟨h0, rfl, h1.1, h1.2, ?_⟩
      by_contra hc
      rw [not_or] at hc
      exact h2 ⟨rfl, hc⟩
    · rintro (⟨h, -⟩ | ⟨-, rfl, -⟩)
      · exact absurd h h0
      · rfl

/-! ## What the call does -/

/-- A page table missing and no page free for it. -/
theorem insert_noTable (h : Vm b M s []) {d pp : Nat} (hd : s.dir e = some d) (hva : va < utop) (ht : s.tab e (pdx va) = none) :
    (pageInsert d pp va perm).run s = .ok (-eNoMem) s := by
  rcases walk_create h hd hva with ⟨hw, -, -⟩ | ⟨n, s₁, l₁, -, -, htab, -⟩
  · exact insert_noMem hw
  · rcases htab.tabs e (pdx va) with htab' | ⟨-, -, -, hn⟩
    · rw [htab.tab, ht] at htab'; cases htab'
    · cases hn

/-- A call whose arguments are accepted takes the first free page, inserts it and clears it. -/
theorem pageAlloc_accepts (hQ : CountRel Q) (h : InCall Q b M s l le cur) (hg : Genuine s) (hq : Q = (· ≤ ·) ∨ perm.msb = false)
    (ha : Accepts s l cur envid va perm e) :
    ∃ p l₀ l₁ s₁, l = p :: l₀ ∧ (sysPageAlloc envid va perm).run s = .ok 0 (s₁.setMem p fun _ => 0#32) ∧
      Taken b M Q s (s.take 0#32 p) l₀ p ∧ Remap (s.take 0#32 p) s₁ l₀ l₁ e (pdx va) (ptx va) (some (entry p perm)) ∧
      Vm b M s₁ l₁ ∧ Counts Q M l₁ none s₁ ∧ ¬ s₁.Struct p := by
  have hr := resolve_iff_names.2 ha.names
  obtain ⟨d, hd, -⟩ := h.toEnvTable.dir (resolve_live hr h.live)
  cases l with
  | nil => exact absurd ha.enough.1 (by simp)
  | cons p l =>
    have hpl : p ∈ p :: l := List.mem_cons_self ..
    have hM := h.freeM p hpl
    have hnl := (List.nodup_cons.1 h.nodup).1
    have ht := take_spec h.toVm h.counts 0#32
    have hd₁ : (s.take 0#32 p).dir e = some d := by rw [ht.rest.dir]; exact hd
    have hns : ¬ (s.take 0#32 p).Struct p := by
      rw [struct_congr ht.tab ht.rest.dir]; exact h.free_not_struct hpl
    have hperm := perm_cases s ha.mask p hq
    have hin := insert_spec hQ ht.vm ht.counts hd₁ ha.user hM hnl hns (by rw [ht.rest.npages]; exact hperm) ht.linkable
    have hstart : (sysPageAlloc envid va perm).run s = (do
        let r ← pageInsert d p va perm
        if r < 0 then
          pageFree p
          return -eNoMem
        zeroPage (← page2kva p)
        return 0 : Kern Int).run (s.take 0#32 p) := by
      unfold sysPageAlloc
      rw [if_neg (BitVec.not_le.2 ha.user), if_neg ha.set, if_neg ha.mask, run_bind_ok (run_envid2env h.curenv true), hr]
      dsimp only
      rw [if_neg (by decide), run_bind_ok (pageAlloc_take h.chain.1 (h.managed p hM) 0#32)]
      dsimp only
      rw [run_bind_ok (run_deref_some e), run_pgdir hd₁]
    generalize hrun : (pageInsert d p va perm).run (s.take 0#32 p) = r at hin
    cases hin with
    | noMem htab hnil =>
      -- there was a second free page for the table
      subst hnil
      rw [ht.tab] at htab
      exact absurd (ha.enough.2 htab) (by simp)
    | panic s' old ho hn =>
      rw [ht.pte] at ho
      rw [ht.rest.npages] at hn
      exact absurd ⟨_, _, old, ho, hn⟩ (hg e)
    | done s₁ l₁ hv hc hrm =>
      have hroom : Room (s.take 0#32 p) p (.leaf e (pdx va) (ptx va)) := by
        obtain hk | ⟨-, h0, -⟩ := ht.linkable
        · cases hk
        · exact Or.inl (by omega)
      have hns' : ¬ s₁.Struct p := fun hs => (hrm.tables p hs).elim hns hnl
      have hkva : (page2kva p).run s₁ = .ok p s₁ :=
        run_page2kva (by rw [(ht.remap hrm).rest.npages]; exact h.managed p hM)
      refine ⟨p, l, l₁, s₁, rfl, ?_, ht, hrm, hv, hc hroom, hns'⟩
      rw [hstart, run_bind_ok hrun, if_neg (by decide), run_bind_ok hkva]
      rfl

/-- A call that returns 0 has had its arguments accepted. -/
theorem accepts_of_run (h : InCall Q b M s l le cur) (hrun : (sysPageAlloc envid va perm).run s = .ok 0 s') :
    ∃ e, Accepts s l cur envid va perm e := by
  unfold sysPageAlloc at hrun
  split at hrun
  · cases hrun
  rename_i hva
  split at hrun
  · cases hrun
  rename_i hset
  split at hrun
  · cases hrun
  rename_i hmask
  rw [BitVec.not_le] at hva
  rw [run_bind_ok (run_envid2env h.curenv true)] at hrun
  cases hr : s.resolve cur envid true with
  | none =>
    rw [hr] at hrun
    cases hrun
  | some e =>
    obtain ⟨d, hd, -⟩ := h.toEnvTable.dir (resolve_live hr h.live)
    rw [hr] at hrun
    dsimp only at hrun
    rw [if_neg (by decide)] at hrun
    cases l with
    | nil =>
      rw [run_bind_ok (pageAlloc_none h.chain 0#32)] at hrun
      cases hrun
    | cons p l =>
      refine ⟨e, resolve_iff_names.1 hr, hva, hset, hmask, by simp, fun htab => ?_⟩
      have hpl : p ∈ p :: l := List.mem_cons_self ..
      have ht := take_spec h.toVm h.counts 0#32
      have hd₁ : (s.take 0#32 p).dir e = some d := by rw [ht.rest.dir]; exact hd
      rw [run_bind_ok (pageAlloc_take h.chain.1 (h.managed p (h.freeM p hpl)) 0#32)] at hrun
      dsimp only at hrun
      rw [run_bind_ok (run_deref_some e), run_pgdir hd₁] at hrun
      cases l with
      | nil =>
        have hno : (pageInsert d p va perm).run (s.take 0#32 p) = .ok (-eNoMem) (s.take 0#32 p) :=
          insert_noTable ht.vm hd₁ hva (by rw [ht.tab]; exact htab)
        rw [run_bind_ok hno, if_pos (by decide)] at hrun
        obtain ⟨_, s₁, -, hrun⟩ := run_bind_eq_ok.1 hrun
        cases hrun
      | cons q l => simp

/-! ## What it leaves -/

/-- The page mapped by an insertion whose page table existed before: the cells change at the entry only. -/
theorem Remap.cell_eq {i j : Idx} {x : Option Word} (h : Remap s s' l l' e i j x) (ht : s.tab e i ≠ none) :
    s'.cell = Function.update s.cell (.leaf e i j) (x.bind dec) := by
  funext c
  cases c with
  | root e' =>
    rw [Function.update_of_ne (by simp), cell_root, cell_root, h.rest.dir]
  | node e' i' =>
    rw [Function.update_of_ne (by simp), cell_node, cell_node]
    refine h.tab e' i' ?_
    by_cases hc : e' = e ∧ i' = i
    · exact Or.inl (by rw [hc.1, hc.2]; exact ht)
    · exact Or.inr hc
  | leaf e' i' j' =>
    rw [cell_leaf, h.pte, Function.update_apply]
    by_cases hc : e' = e ∧ i' = i ∧ j' = j
    · obtain ⟨rfl, rfl, rfl⟩ := hc
      rw [if_pos ⟨rfl, rfl, rfl⟩, if_pos rfl]
    · rw [if_neg hc, if_neg (by simpa using hc), cell_leaf]

/-- The only cell that points at the page just mapped is its entry. -/
theorem Remap.only {i j : Idx} {w : Word} {p : Nat} (h : Remap s s' l l' e i j (some w)) (hz : ∀ c, s.cell c ≠ some p)
    (hns : ¬ s'.Struct p) {c : Cell Slot Idx} (hc : s'.cell c = some p) : c = .leaf e i j := by
  cases c with
  | root e' => exact absurd (Or.inl ⟨e', hc⟩) hns
  | node e' i' => exact absurd (Or.inr ⟨e', i', hc⟩) hns
  | leaf e' i' j' =>
    by_contra hne
    rw [cell_leaf, h.pte, if_neg (by simpa using hne), ← cell_leaf] at hc
    exact hz _ hc

/-- The counter of a managed page, free or in use, is the number of its references. -/
theorem Vm.ref_eq (h : Vm b M s l) (hc : Counts (· = ·) M l none s) {f : Nat} (hM : f ∈ M) : s.ref f = refs s.cell f := by
  by_cases hl : f ∈ l
  · rw [refs_eq_zero.2 (h.freeCell f hl)]
    unfold State.ref
    rw [h.freeRef f hl]
    rfl
  · exact ((hc f ⟨hM, hl, by simp⟩).2).symm

theorem entry_low (p : Nat) (hset : ¬ permUnset perm) (hlow : LowPerm perm) : entry p perm &&& 0xFFF#32 = perm := by
  unfold permUnset at hset
  rw [not_or, pteP_eq, and_flag_eq_zero _ (by decide), Bool.not_eq_false] at hset
  have hmask : ∀ i, i < 32 → (0xFFF#32).getLsbD i = decide (i < 12) := by decide
  refine BitVec.eq_of_getLsbD_eq fun i hi => ?_
  unfold entry
  rw [BitVec.getLsbD_and, BitVec.getLsbD_or, BitVec.getLsbD_or, hmask i hi]
  by_cases h12 : i < 12
  · rw [getLsbD_page2pa p h12, Bool.false_or, decide_eq_true h12, Bool.and_true]
    by_cases h0 : i = 0
    · rw [h0, hset.2, Bool.true_or]
    · have hP : pteP.getLsbD i = false := by
        rw [pteP_eq, BitVec.getLsbD_twoPow]
        simp [Ne.symm h0]
      rw [hP, Bool.or_false]
  · have hp : perm.getLsbD i = false :=
      Nat.testBit_lt_two_pow (Nat.lt_of_lt_of_le hlow (Nat.pow_le_pow_right (show 0 < 2 by decide) (show 12 ≤ i by omega)))
    rw [decide_eq_false h12, Bool.and_false, hp]

/-- With the sign bit clear, an accepted call does what it should. -/
theorem pageAlloc_newlyMapped (h : InCall (· = ·) b M s l le cur) (hg : Genuine s) (hm : perm.msb = false)
    (ha : Accepts s l cur envid va perm e) (hrun : (sysPageAlloc envid va perm).run s = .ok 0 s') :
    ∃ p, NewlyMapped l s s' e va perm p := by
  obtain ⟨p, l₀, l₁, s₁, rfl, hrun', ht, hrm, hv, hc, hns⟩ := pageAlloc_accepts countRel_eq h hg (Or.inr hm) ha
  cases hrun'.symm.trans hrun
  have hlow := lowPerm_masked (perm_signed ha.mask hm)
  have hpl : p ∈ p :: l₀ := List.mem_cons_self ..
  have hM := h.freeM p hpl
  have hlt := h.lt_pow hM
  have hz : ∀ c, (s.take 0#32 p).cell c ≠ some p := by rw [ht.cell]; exact h.freeCell p hpl
  -- clearing the page changes no view
  have hpte : (s₁.setMem p fun _ => 0#32).pte = s₁.pte := pte_setMem_other hns _
  have hw : s₁.pte e (pdx va) (ptx va) = some (entry p perm) := by rw [hrm.pte, if_pos ⟨rfl, rfl, rfl⟩]
  have hcell : s₁.cell (.leaf e (pdx va) (ptx va)) = some p := cell_leaf_eq_some.2 ⟨_, hw, pgnum_entry_low hlt hlow⟩
  refine ⟨p, hpl, ⟨_, by rw [hpte]; exact hw, ?_, entry_low p ha.set hlow⟩, ?_, fun i => ?_, fun e' i j w hw' hp => ?_,
    fun w hw' => ?_⟩
  · rw [pteAddr_eq_page2pa hlt, pgnum_entry_low hlt hlow]
  · have hone : s₁.ref p = 1 := by
      rw [hv.ref_eq hc hM]
      exact refs_eq_one hcell fun c hc => hrm.only hz hns hc
    exact BitVec.eq_of_toNat_eq hone
  · show Function.update s₁.mem p _ p i = _
    rw [Function.update_self]
  · rw [hpte] at hw'
    have := hrm.only hz hns (c := .leaf e' i j) (cell_leaf_eq_some.2 ⟨w, hw', hp⟩)
    simpa using this
  · -- the page mapped before
    have hlt' : pgnum w < s.npages := by
      by_contra hge
      exact hg e ⟨_, _, w, hw', by omega⟩
    have hM' := leaf_managed h.toTables hw' hlt'
    have hold : s.cell (.leaf e (pdx va) (ptx va)) = some (pgnum w) := cell_leaf_eq_some.2 ⟨w, hw', rfl⟩
    have htab : (s.take 0#32 p).tab e (pdx va) ≠ none := by
      obtain ⟨n, hn, -⟩ := pte_eq_some.1 hw'
      rw [ht.tab, hn]
      simp
    have hne : (some (entry p perm)).bind dec ≠ some (pgnum w) := by
      show dec (entry p perm) ≠ _
      rw [dec_entry_low hlt hlow]
      rintro hc
      exact h.freeCell p hpl _ (hold.trans hc.symm)
    have hrefs := refs_update s.cell (.leaf e (pdx va) (ptx va)) ((some (entry p perm)).bind dec) (pgnum w)
    rw [if_pos hold, if_neg hne, ← ht.cell, ← hrm.cell_eq htab, ht.cell, ← hv.ref_eq hc hM',
      ← h.toVm.ref_eq h.counts hM'] at hrefs
    exact hrefs

/-- The contract is met exactly when, of the arguments that the code accepts, the address is aligned and the sign bit of the
permission is clear. -/
theorem pageAlloc_contract_iff (h : InCall (· = ·) b M s l le cur) (hg : Genuine s) :
    MeetsContract s l cur envid va perm ↔
      ∀ e, Accepts s l cur envid va perm e → va.toNat % 4096 = 0 ∧ perm.msb = false := by
  have hsys : pteSyscall = pteUser := by decide
  have hok : ∀ e, Accepts s l cur envid va perm e → ∃ s', (sysPageAlloc envid va perm).run s = .ok 0 s' := by
    intro e ha
    obtain ⟨_, _, _, _, _, hrun, -⟩ := pageAlloc_accepts countRel_le h.relax hg (Or.inl rfl) ha
    exact ⟨_, hrun⟩
  constructor
  · rintro ⟨hiff, -⟩ e ha
    obtain ⟨e', hd⟩ := hiff.1 (hok e ha)
    refine ⟨hd.aligned, ?_⟩
    have hmask := congrArg BitVec.msb hd.mask
    rw [BitVec.msb_and, show (~~~pteSyscall).msb = true by decide, Bool.and_true] at hmask
    exact hmask
  · intro hcond
    refine ⟨⟨?_, ?_⟩, ?_⟩
    · rintro ⟨s', hrun⟩
      obtain ⟨e, ha⟩ := accepts_of_run h hrun
      obtain ⟨hal, hm⟩ := hcond e ha
      exact ⟨e, ha.names, ha.user, hal, ha.set, by rw [hsys]; exact perm_signed ha.mask hm, ha.enough⟩
    · rintro ⟨e, hd⟩
      refine hok e ⟨hd.names, hd.user, hd.set, ?_, hd.enough⟩
      rw [← hsys, hd.mask]
      decide
    · intro s' hrun
      obtain ⟨e, ha⟩ := accepts_of_run h hrun
      obtain ⟨p, hp⟩ := pageAlloc_newlyMapped h hg (hcond e ha).2 ha hrun
      exact ⟨e, p, ha.names, hp⟩

theorem pageAlloc_contract_iff_inCall : ∃ l, FreeList inCall l ∧ MeetsContract inCall l 0 0#32 utext 7#32 := by
  obtain ⟨⟨l, le, hi⟩, hg⟩ := reach_inv bootState_booted firstEnv_reach
  have h : InCall (· = ·) bootState (pagesDown 128) inCall l le 0 := .enter hi (by decide) 0
  exact ⟨l, h.chain, (pageAlloc_contract_iff h hg).2 fun e ha => ⟨by decide, by decide⟩⟩

/-- An address that is not aligned is accepted. -/
theorem pageAlloc_unaligned : ∃ l, FreeList inCall l ∧ (∃ s', (sysPageAlloc 0#32 (utext + 1#32) 7#32).run inCall = .ok 0 s') ∧
    ¬ MeetsContract inCall l 0 0#32 (utext + 1#32) 7#32 := by
  obtain ⟨⟨l, le, hi⟩, -⟩ := reach_inv bootState_booted firstEnv_reach
  have hrun : ∃ s', (sysPageAlloc 0#32 (utext + 1#32) 7#32).run inCall = .ok 0 s' := ⟨_, rfl⟩
  refine ⟨l, hi.chain, hrun, ?_⟩
  rintro ⟨hiff, -⟩
  obtain ⟨e, hd⟩ := hiff.1 hrun
  exact absurd hd.aligned (by decide)

end Jos
