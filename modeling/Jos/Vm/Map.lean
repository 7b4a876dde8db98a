/-
`pgdir_walk` and `page_lookup` at a user address of an environment, on the views: lookup reads the
mapping, and the walk with `create` finds the page table or hangs up a new one that maps nothing.
-/
import Jos.Vm.Count

namespace Jos

open Lib

variable {b s s' s'' : State} {M l l' : List Nat} {Q : Nat → Nat → Prop} {held : Option Nat}
variable {e : Slot} {d : Nat} {va : Word}

/-! ## What page functions leave alone -/

/-- Nothing but memory, the page allocator and the TLB changed. -/
structure Rest (s s' : State) : Prop where
  npages : s'.npages = s.npages
  kernPgdir : s'.kernPgdir = s.kernPgdir
  envs : s'.envs = s.envs
  envFreeList : s'.envFreeList = s.envFreeList
  cpunum : s'.cpunum = s.cpunum
  kernelLock : s'.kernelLock = s.kernelLock
  cpuEnv : ∀ c, (s'.cpus c).cpuEnv = (s.cpus c).cpuEnv
  cpuStatus : ∀ c, (s'.cpus c).cpuStatus = (s.cpus c).cpuStatus

theorem Rest.refl (s : State) : Rest s s := ⟨rfl, rfl, rfl, rfl, rfl, rfl, fun _ => rfl, fun _ => rfl⟩

theorem Rest.trans (h : Rest s s') (h' : Rest s' s'') : Rest s s'' :=
  ⟨h'.npages.trans h.npages, h'.kernPgdir.trans h.kernPgdir, h'.envs.trans h.envs, h'.envFreeList.trans h.envFreeList,
    h'.cpunum.trans h.cpunum, h'.kernelLock.trans h.kernelLock, fun c => (h'.cpuEnv c).trans (h.cpuEnv c),
    fun c => (h'.cpuStatus c).trans (h.cpuStatus c)⟩

theorem Rest.dir (h : Rest s s') : s'.dir = s.dir := by
  funext e; unfold State.dir; rw [h.envs]

theorem Rest.curenv (h : Rest s s') : s'.curenv = s.curenv := by
  unfold State.curenv; rw [h.cpuEnv, h.cpunum]

theorem rest_decref (s : State) (f : Nat) : Rest s (s.decref f) := by
  unfold State.decref
  split <;> exact ⟨rfl, rfl, rfl, rfl, rfl, rfl, fun _ => rfl, fun _ => rfl⟩

theorem rest_setCpu {c : CpuInfo} (he : c.cpuEnv = (s.cpus s.cpunum).cpuEnv)
    (hs : c.cpuStatus = (s.cpus s.cpunum).cpuStatus) : Rest s (s.setCpu c) := by
  have hc : ∀ k, (s.setCpu c).cpus k = if k = s.cpunum then c else s.cpus k := fun k => Function.update_apply ..
  refine ⟨rfl, rfl, rfl, rfl, rfl, rfl, fun k => ?_, fun k => ?_⟩
  · rw [hc]
    split
    · rename_i hk; rw [hk, he]
    · rfl
  · rw [hc]
    split
    · rename_i hk; rw [hk, hs]
    · rfl

theorem rest_tlbInval (s : State) (d : Nat) (va : Word) : Rest s (s.tlbInval d va) := by
  have hcpu : ∀ c, ((s.tlbInval d va).cpus c).cpuEnv = (s.cpus c).cpuEnv ∧
      ((s.tlbInval d va).cpus c).cpuStatus = (s.cpus c).cpuStatus := by
    intro c
    unfold State.tlbInval
    simp only
    split
    · by_cases hc : c = s.cpunum
      · subst hc; rw [Function.update_self]; exact ⟨rfl, rfl⟩
      · rw [Function.update_of_ne hc]; exact ⟨rfl, rfl⟩
    · exact ⟨rfl, rfl⟩
  exact ⟨rfl, rfl, rfl, rfl, rfl, rfl, fun c => (hcpu c).1, fun c => (hcpu c).2⟩

theorem rest_setWord (s : State) (f : Nat) (i : Idx) (w : Word) : Rest s (s.setWord f i w) :=
  ⟨rfl, rfl, rfl, rfl, rfl, rfl, fun _ => rfl, fun _ => rfl⟩

theorem rest_setRef (s : State) (f : Nat) (r : BitVec 16) : Rest s (s.setRef f r) :=
  ⟨rfl, rfl, rfl, rfl, rfl, rfl, fun _ => rfl, fun _ => rfl⟩

/-! ## The page table of a user address -/

theorem tab_of_dir (hd : s.dir e = some d) (hva : va < utop) : s.tab e (pdx va) = dec (s.mem d (pdx va)) :=
  node_of_root hd ((userIdx_pdx va).2 hva)

theorem Tables.tab_lt (h : Tables b M s) {i : Idx} {n : Nat} (hn : s.tab e i = some n) : n < s.npages :=
  h.managed n (h.structM n (Or.inr ⟨e, i, hn⟩))

theorem walk_tab (h : Tables b M s) (hd : s.dir e = some d) {n : Nat} (hn : s.tab e (pdx va) = some n) (create : Bool) :
    (pgdirWalk d va create).run s = .ok (some (n, ptx va)) s := by
  have hva := (userIdx_pdx va).1 (tab_userIdx hn)
  have hlt := h.tab_lt hn
  rw [tab_of_dir hd hva, dec_eq_some] at hn
  obtain ⟨hp, rfl⟩ := hn
  exact pgdirWalk_present hp hlt create

theorem absent_of_no_tab (hd : s.dir e = some d) (hva : va < utop) (hn : s.tab e (pdx va) = none) :
    present (s.mem d (pdx va)) = false := by
  rw [tab_of_dir hd hva] at hn
  unfold dec at hn
  cases hp : present (s.mem d (pdx va))
  · rfl
  · rw [hp] at hn; cases hn

theorem pte_of_no_tab {i : Idx} (hn : s.tab e i = none) (j : Idx) : s.pte e i j = none := leaf_of_no_node hn j

theorem pte_of_tab {i j : Idx} {n : Nat} (hn : s.tab e i = some n) :
    s.pte e i j = if present (s.mem n j) then some (s.mem n j) else none := by
  refine (leaf_of_node hn j).trans ?_
  unfold dec
  cases present (s.mem n j) <;> rfl

/-! ## Lookup -/

theorem lookup_absent (h : Tables b M s) (hd : s.dir e = some d) (hva : va < utop)
    (hp : s.pte e (pdx va) (ptx va) = none) : ∃ q, (pageLookup d va).run s = .ok (none, q) s := by
  cases hn : s.tab e (pdx va) with
  | none =>
    refine ⟨none, ?_⟩
    unfold pageLookup
    rw [run_bind_ok (pgdirWalk_absent (absent_of_no_tab hd hva hn))]; rfl
  | some n =>
    refine ⟨some (n, ptx va), ?_⟩
    rw [pte_of_tab hn] at hp
    have hz : present (s.mem n (ptx va)) = false := by
      cases hc : present (s.mem n (ptx va))
      · rfl
      · rw [hc] at hp; cases hp
    unfold pageLookup
    rw [run_bind_ok (walk_tab h hd hn false)]
    simp [hz]

theorem lookup_present (h : Tables b M s) (hd : s.dir e = some d) {n : Nat} (hn : s.tab e (pdx va) = some n) {w : Word}
    (hw : s.pte e (pdx va) (ptx va) = some w) :
    (pageLookup d va).run s =
      if pgnum w < s.npages then .ok (some (pgnum w), some (n, ptx va)) s else .error .panic s := by
  obtain ⟨m, hm, rfl, hp⟩ := pte_eq_some.1 hw
  cases hn.symm.trans hm
  unfold pageLookup
  rw [run_bind_ok (walk_tab h hd hn false)]
  simp only [EStateM.run_bind, Kern.run_load, hp, if_true, pa2page_eq, run_kaddr, pgnum_pteAddr]
  by_cases hlt : pgnum (s.mem n (ptx va)) < s.npages <;> simp [hlt]

/-! ## The walk that creates the page table -/

theorem dec_pde {p : Nat} (h : p < 2 ^ 20) : dec (page2pa p ||| pteP ||| pteU ||| pteW) = some p := by
  have he : page2pa p ||| pteP ||| pteU ||| pteW = entry p (pteU ||| pteW) := by
    unfold entry
    rw [BitVec.or_assoc, BitVec.or_assoc, BitVec.or_comm pteP, BitVec.or_assoc (page2pa p)]
  rw [he]
  exact dec_entry_low h (by decide)

/-- The directory entry at `i` of `e` points at page table `n`, which existed or was hung up empty;
no mapping changed. -/
structure Tabled (s s' : State) (l l' : List Nat) (e : Slot) (i : Idx) (n : Nat) : Prop where
  rest : Rest s s'
  tab : s'.tab e i = some n
  tabs : ∀ e' i', s'.tab e' i' = s.tab e' i' ∨ (e' = e ∧ i' = i ∧ s.tab e i = none ∧ n ∈ l)
  pte : s'.pte = s.pte
  sub : ∀ f ∈ l', f ∈ l
  used : ∀ f ∈ l, f ∉ l' → f = n ∧ s.tab e i = none
  pages : ∀ f, f ∉ l → s'.pages f = s.pages f
  mem : ∀ f, f ∉ l → ¬ s.Struct f → s'.mem f = s.mem f

theorem hang_vm {p : Nat} (h : Vm b M s (p :: l)) (hd : s.dir e = some d) {i : Idx} (hi : userIdx i)
    (hn : s.tab e i = none) :
    Vm b M (s.hang d i p) l ∧ Tabled s (s.hang d i p) (p :: l) l e i p ∧
      (s.hang d i p).cell = Function.update s.cell (.node e i) (some p) := by
  have hpl : p ∈ p :: l := List.mem_cons_self ..
  have hM := h.freeM p hpl
  have hst := h.free_not_struct hpl
  have hnl : p ∉ l := (List.nodup_cons.1 h.nodup).1
  -- the page is taken, cleared and counted; no view sees it
  have h₁ : Vm b M (s.pop p) l := h.pop
  have h₂ := h₁.setMem_other hM hst fun _ => 0#32
  have h₃ := h₂.setRef hnl 1#16
  have hcell : (((s.pop p).setMem p fun _ => 0#32).setRef p 1#16).cell = s.cell := by
    refine (cell_congr rfl rfl).trans ((cell_setMem_other (s := s.pop p) hst _).trans ?_)
    exact cell_congr rfl rfl
  have htab : (((s.pop p).setMem p fun _ => 0#32).setRef p 1#16).tab = s.tab := by
    refine (tab_congr rfl rfl).trans ((tab_setMem_other (s := s.pop p) hst _).trans ?_)
    exact tab_congr rfl rfl
  have hpte : (((s.pop p).setMem p fun _ => 0#32).setRef p 1#16).pte = s.pte := by
    refine (pte_congr rfl rfl).trans ((pte_setMem_other (s := s.pop p) hst _).trans ?_)
    exact pte_congr rfl rfl
  have hfresh : FreshTable M (((s.pop p).setMem p fun _ => 0#32).setRef p 1#16) p := by
    refine ⟨hM, ?_, fun j => ?_⟩
    · rw [hcell]; exact h.freeCell p hpl
    · show Function.update s.mem p _ p j = _
      rw [Function.update_self]
  have hdec := dec_pde (h.lt_pow hM)
  have hold : ∀ j, (((s.pop p).setMem p fun _ => 0#32).setRef p 1#16).pte e i j = none := by
    rw [hpte]; exact pte_of_no_tab hn
  have hw : ∀ q, dec (page2pa p ||| pteP ||| pteU ||| pteW) = some q → q = p := by
    intro q hq; rw [hdec] at hq; exact (Option.some.inj hq).symm
  have hw₁ : ∀ q, dec (page2pa p ||| pteP ||| pteU ||| pteW) = some q →
      FreshTable M (((s.pop p).setMem p fun _ => 0#32).setRef p 1#16) q := by
    intro q hq; rw [hw q hq]; exact hfresh
  have htab' := tab_setWord_node h₃.toTables hd hi (page2pa p ||| pteP ||| pteU ||| pteW)
  refine ⟨?_, ?_, ?_⟩
  · refine h₃.setNode hd hi hold ?_
    intro q hq
    rw [hw q hq]
    exact ⟨hfresh, rfl, hnl⟩
  · refine
      { rest := ⟨rfl, rfl, rfl, rfl, rfl, rfl, fun _ => rfl, fun _ => rfl⟩
        tab := ?_
        tabs := ?_
        pte := ?_
        sub := fun f hf => List.mem_cons_of_mem _ hf
        used := ?_
        pages := ?_
        mem := ?_ }
    · exact (htab' e i).trans (by rw [if_pos ⟨rfl, rfl⟩, hdec])
    · intro e' i'
      by_cases hc : e' = e ∧ i' = i
      · exact Or.inr ⟨hc.1, hc.2, hn, hpl⟩
      · left
        refine (htab' e' i').trans ?_
        rw [if_neg hc, htab]
    · exact (pte_setWord_node h₃.toTables hd hi hold hw₁).trans hpte
    · intro f hf hf'
      rcases List.mem_cons.1 hf with rfl | hf
      · exact ⟨rfl, hn⟩
      · exact absurd hf hf'
    · intro f hf
      have hne : f ≠ p := fun hc => hf (hc ▸ hpl)
      show Function.update s.pages p _ f = _
      rw [Function.update_of_ne hne]
    · intro f hf hns
      have hne : f ≠ p := fun hc => hf (hc ▸ hpl)
      have hne' : f ≠ d := fun hc => hns (Or.inl ⟨e, hc ▸ hd⟩)
      show Function.update (Function.update s.mem p _) d _ f = _
      rw [Function.update_of_ne hne', Function.update_of_ne hne]
  · rw [← hcell, ← hdec]
    exact cell_setWord_node h₃.toTables hd hi hold hw₁

/-- The page table hung up has its one reference. -/
theorem hang_counts {p : Nat} (hQ : CountRel Q) (h : Vm b M s (p :: l)) (hd : s.dir e = some d) {i : Idx}
    (hi : userIdx i) (hn : s.tab e i = none) (hc : Counts Q M (p :: l) held s) : Counts Q M l held (s.hang d i p) := by
  have hpl : p ∈ p :: l := List.mem_cons_self ..
  have href : ∀ f, (s.hang d i p).ref f = if f = p then 1 else s.ref f := fun f => ref_setRef _ p f 1#16
  refine Counts.first hQ hc (c := .node e i) hn (h.freeCell p hpl) ?_ ?_ ?_ (hang_vm h hd hi hn).2.2
  · rintro g ⟨h1, h2, h3⟩ hg
    exact ⟨h1, by simp [hg, h2], h3⟩
  · rw [href, if_pos rfl]
  · intro g hg
    rw [href, if_neg hg]

/-- The walk with `create` fails only when the page table is missing and no page is free. -/
theorem walk_create (h : Vm b M s l) (hd : s.dir e = some d) (hva : va < utop) :
    ((pgdirWalk d va true).run s = .ok none s ∧ s.tab e (pdx va) = none ∧ l = []) ∨
    ∃ n s' l', (pgdirWalk d va true).run s = .ok (some (n, ptx va)) s' ∧ Vm b M s' l' ∧
      Tabled s s' l l' e (pdx va) n ∧
      ∀ Q held, CountRel Q → Counts Q M l held s → Counts Q M l' held s' := by
  cases hn : s.tab e (pdx va) with
  | some n =>
    refine Or.inr ⟨n, s, l, walk_tab h.toTables hd hn true, h, ?_, fun _ _ _ hc => hc⟩
    exact ⟨.refl s, hn, fun _ _ => Or.inl rfl, rfl, fun _ hf => hf, fun f hf hf' => absurd hf hf', fun _ _ => rfl,
      fun _ _ _ => rfl⟩
  | none =>
    have hp := absent_of_no_tab hd hva hn
    have hi := (userIdx_pdx va).2 hva
    cases l with
    | nil => exact Or.inl ⟨pgdirWalk_noMem hp h.chain, rfl, rfl⟩
    | cons p l =>
      have hlt := h.managed p (h.freeM p (List.mem_cons_self ..))
      obtain ⟨hv, ht, -⟩ := hang_vm h hd hi hn
      exact Or.inr ⟨p, _, l, pgdirWalk_create hp h.chain.1 hlt, hv, ht,
        fun _ _ hQ hc => hang_counts hQ h hd hi hn hc⟩

end Jos
