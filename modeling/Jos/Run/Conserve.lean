/-
Conservation of pages over every run: each page the allocator manages is either on the free list,
once, with nothing pointing at it, or off it with a counter that is the number of its references.
-/
import Jos.Run.Boot
import Jos.Run.Step

namespace Jos

open Lib Kern

variable {b s s' : State} {M l : List Nat} {le : List Slot} {h : List Event} {ev : Event}

/-! ## The invariant over runs -/

/-- Events that insert managed pages with low permissions make no mapping point outside memory. -/
theorem Genuine.apply (hg : Genuine s) (hM : ∀ f ∈ M, f < s.npages) (hn : s'.npages = s.npages)
    (hpte : s'.pte = ev.apply s.pte) (hnew : ∀ e pp va perm, ev = .inserted e pp va perm → pp ∈ M ∧ LowPerm perm) :
    Genuine s' := by
  rintro e ⟨i, j, w, hw, hge⟩
  rw [hn] at hge
  have hold : ∀ x, s.pte e i j = some x → pgnum x < s.npages := by
    intro x hx
    by_contra hc
    exact hg e ⟨i, j, x, hx, Nat.le_of_not_lt hc⟩
  rw [hpte] at hw
  cases ev with
  | failed =>
    have := hold w hw
    omega
  | inserted e' pp va perm =>
    simp only [Event.apply] at hw
    split at hw
    · obtain ⟨hp, hlow⟩ := hnew _ _ _ _ rfl
      have hlt := hM pp hp
      have := s.npages_le
      cases hw
      rw [pgnum_entry_low (by omega) hlow] at hge
      omega
    · have := hold w hw
      omega
  | created e' | freed e' | removed e' va =>
    simp only [Event.apply] at hw
    split at hw
    · cases hw
    · have := hold w hw
      omega

theorem Stepped.genuine {Q : Nat → Nat → Prop} (hs : Stepped b M Q s s' ev) (hg : Genuine s)
    (hM : ∀ f ∈ M, f < s.npages) : Genuine s' :=
  hg.apply hM hs.npages hs.pte fun e pp va perm hev =>
    have ⟨hp, hlow, _⟩ := hs.new e pp va perm hev
    ⟨hp, hlow⟩

/-- An insertion that leaves at most 65535 references had room. -/
theorem Stepped.room (hs : Stepped b M (· = ·) s s' ev) (hv : Vm b M s l) (hc : Counts (· = ·) M l none s)
    (href : ∀ f, s'.refs f ≤ 65535) : ev.Room s := by
  cases ev with
  | inserted e pp va perm =>
    obtain ⟨hM, hlow, hns⟩ := hs.new _ _ _ _ rfl
    by_cases hcell : s.cell (.leaf e (pdx va) (ptx va)) = some pp
    · exact Or.inr hcell
    refine Or.inl ?_
    have hdec : dec (entry pp perm) = some pp := dec_entry_low (hv.lt_pow hM) hlow
    have hnew : s'.cell (.leaf e (pdx va) (ptx va)) = some pp := by
      rw [cell_leaf, hs.pte]
      simp [Event.apply, hdec]
    -- a page that is no table is referred to by mappings only, and these are kept
    have hkeep : ∀ c, s.cell c = some pp → s'.cell c = some pp := by
      rintro (e' | ⟨e', i⟩ | ⟨e', i, j⟩) hcc
      · exact absurd (Or.inl ⟨e', hcc⟩) hns
      · exact absurd (Or.inr ⟨e', i, hcc⟩) hns
      · rw [cell_leaf, hs.pte]
        simp only [Event.apply]
        split
        · exact hdec
        · exact hcc
    have hlt := refs_lt hkeep hnew hcell
    have hle := href pp
    by_cases hl : pp ∈ l
    · have h0 := hv.freeRef pp hl
      unfold State.ref
      rw [h0]; decide
    · have := (hc pp ⟨hM, hl, by simp⟩).2
      unfold State.refs at hle
      omega
  | created e | removed e va | freed e | failed => trivial

/-- The invariant in every state of a run. -/
theorem reach_inv (hb : Booted b M) (hr : Reach b h s) : (∃ l le, Inv (· = ·) b M s l le) ∧ Genuine s := by
  induction hr with
  | boot =>
    refine ⟨⟨M, _, hb.inv _⟩, ?_⟩
    rintro e ⟨i, j, w, hw, -⟩
    rw [hb.pte] at hw; cases hw
  | @step h s s' op ev _ hok hrun href ih =>
    obtain ⟨⟨l, le, hi⟩, hg⟩ := ih
    obtain ⟨ev', s'', hrun', hs⟩ := op_step countRel_eq hi hg _ hok
    cases hrun.symm.trans hrun'
    obtain ⟨l', le', hv, he, hc⟩ := hs.inv
    exact ⟨⟨l', le', { toVm := hv, toEnvTable := he, counts := hc (hs.room hi.toVm hi.counts href) }⟩,
      hs.genuine hg hi.managed⟩

/-- Pages that are not managed have no reference. -/
theorem refs_outside (hv : Vm b M s l) (hg : Genuine s) {f : Nat} (hf : f ∉ M) : s.refs f = 0 := by
  refine refs_eq_zero.2 ?_
  rintro (e | ⟨e, i⟩ | ⟨e, i, j⟩) hc
  · exact hf (hv.structM f (Or.inl ⟨e, hc⟩))
  · exact hf (hv.structM f (Or.inr ⟨e, i, hc⟩))
  · obtain ⟨w, hw, rfl⟩ := cell_leaf_eq_some.1 hc
    rcases hv.leafM e i j w hw with ⟨hM, -⟩ | hge
    · exact hf hM
    · exact hg e ⟨i, j, w, hw, hge⟩

theorem refs_le (hi : Inv (· = ·) b M s l le) (hg : Genuine s) (f : Nat) : s.refs f ≤ 65535 := by
  by_cases hM : f ∈ M
  · by_cases hl : f ∈ l
    · have : s.refs f = 0 := refs_eq_zero.2 (hi.freeCell f hl)
      omega
    · have := (hi.counts f ⟨hM, hl, by simp⟩).2
      have := ref_lt s f
      unfold State.refs
      omega
  · rw [refs_outside hi.toVm hg hM]; omega

/-- A run goes on with any operation whose insertion has room. -/
theorem Reach.next (hb : Booted b M) (hr : Reach b h s) (op : Op) (hok : op.Ok s) (hrun : op.exec.run s = .ok ev s')
    (hroom : ev.Room s) : Reach b (ev :: h) s' := by
  obtain ⟨⟨l, le, hi⟩, hg⟩ := reach_inv hb hr
  obtain ⟨ev', s'', hrun', hs⟩ := op_step countRel_eq hi hg _ hok
  cases hrun.symm.trans hrun'
  obtain ⟨l', le', hv, he, hc⟩ := hs.inv
  exact .step hr hok hrun
    (refs_le { toVm := hv, toEnvTable := he, counts := hc hroom } (hs.genuine hg hi.managed))

/-! ## Conservation -/

/-- Page `f` is free: once on the free list `l`, its counter zero, and no entry below `UTOP` and no
directory pointer targets it. -/
structure IsFree (s : State) (l : List Nat) (f : Nat) : Prop where
  once : l.count f = 1
  ref : (s.pages f).ppRef = 0#16
  noPte : ∀ e i j w, s.pte e i j = some w → pgnum w ≠ f
  noPde : ∀ e i, s.tab e i ≠ some f
  noDir : ∀ e, s.dir e ≠ some f

/-- Page `f` is in use: not on the free list, and its counter is the positive number of its references. -/
structure IsUsed (s : State) (l : List Nat) (f : Nat) : Prop where
  notFree : f ∉ l
  ref : (s.pages f).ppRef.toNat = s.refs f
  pos : 1 ≤ s.refs f

/-- In every state of every run the free list ends without a cycle and each managed page is either
free or in use. -/
theorem page_conservation (hb : Booted b M) (hr : Reach b h s) :
    ∃ l, FreeList s l ∧ l.Nodup ∧ ∀ f ∈ M, Xor (IsFree s l f) (IsUsed s l f) := by
  obtain ⟨⟨l, le, hi⟩, -⟩ := reach_inv hb hr
  refine ⟨l, hi.chain, hi.nodup, fun f hf => ?_⟩
  by_cases hl : f ∈ l
  · refine Or.inl ⟨⟨List.count_eq_one_of_mem hi.nodup hl, hi.freeRef f hl, ?_, ?_, ?_⟩, fun hu => hu.notFree hl⟩
    · intro e i j w hw hp
      exact hi.freeCell f hl (.leaf e i j) (cell_leaf_eq_some.2 ⟨w, hw, hp⟩)
    · exact fun e i => hi.freeCell f hl (.node e i)
    · exact fun e => hi.freeCell f hl (.root e)
  · obtain ⟨h1, h2⟩ := hi.counts f ⟨hf, hl, by simp⟩
    refine Or.inr ⟨⟨hl, h2.symm, ?_⟩, fun hfr => hl (List.count_pos_iff.1 (by rw [hfr.once]; omega))⟩
    unfold State.refs
    omega

theorem firstEnv_run : (Op.envAlloc 0#32).exec.run bootState = .ok (.created 0) firstEnv := by
  simp only [Op.exec]
  rw [run_bind_ok (envAlloc_ok rfl rfl (by decide) 0#32)]
  rfl

theorem firstEnv_reach : Reach bootState [.created 0] firstEnv :=
  Reach.next bootState_booted .boot (.envAlloc 0#32) trivial firstEnv_run trivial

/-- The first environment maps a new page. -/
def firstMap : State := finalState ((Op.allocInsert 0#32 0 utext (pteU ||| pteW)).exec.run firstEnv)

theorem firstMap_run : (Op.allocInsert 0#32 0 utext (pteU ||| pteW)).exec.run firstEnv =
    .ok (.inserted 0 127 utext (pteU ||| pteW)) firstMap := rfl

theorem firstMap_reach : Reach bootState [.inserted 0 127 utext (pteU ||| pteW), .created 0] firstMap := by
  have hok : (Op.allocInsert 0#32 0 utext (pteU ||| pteW)).Ok firstEnv := ⟨by decide, by decide, by decide⟩
  exact Reach.next bootState_booted firstEnv_reach _ hok firstMap_run (Or.inl (by decide))

/-- The page that was mapped is in use, and with it the directory and the page table. -/
theorem page_conservation_firstMap : (firstMap.pages 127).ppRef = 1#16 ∧ (firstMap.pages 126).ppRef = 1#16 ∧
    ∃ l, FreeList firstMap l ∧ l.Nodup ∧ ∀ f ∈ pagesDown 128, Xor (IsFree firstMap l f) (IsUsed firstMap l f) :=
  ⟨rfl, rfl, page_conservation bootState_booted firstMap_reach⟩

end Jos
