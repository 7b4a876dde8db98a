/-
`page_remove` and `page_insert` at a user address of an environment, on the views: they change the
mapping of that page and no other, release the page mapped there before when its last reference
goes, and keep the invariant and the reference counts.
-/
import Jos.Vm.Map

namespace Jos

open Lib

variable {b s s' s'' : State} {M l l' : List Nat} {Q : Nat → Nat → Prop} {held : Option Nat}
variable {e : Slot} {d : Nat} {va : Word} {i j : Idx} {n : Nat}

/-- The mapping of `e` at `i`, `j` became `x` and no other mapping changed. Pages that were neither
free nor a table keep their contents, a new table was free, and only the page that was mapped there may
have been freed. -/
structure Remap (s s' : State) (l l' : List Nat) (e : Slot) (i j : Idx) (x : Option Word) : Prop where
  rest : Rest s s'
  pte : ∀ e' i' j', s'.pte e' i' j' = if e' = e ∧ i' = i ∧ j' = j then x else s.pte e' i' j'
  tab : ∀ e' i', s.tab e' i' ≠ none ∨ ¬ (e' = e ∧ i' = i) → s'.tab e' i' = s.tab e' i'
  mem : ∀ f, f ∉ l → ¬ s.Struct f → s'.mem f = s.mem f
  tables : ∀ f, s'.Struct f → s.Struct f ∨ f ∈ l
  free : ∀ f ∈ l', f ∈ l ∨ s.cell (.leaf e i j) = some f

/-- A mapping was removed: the page tables stay, and so do the counters of other pages and the contents
of all pages that are no table. -/
structure Removed (s s' : State) (l l' : List Nat) (e : Slot) (i j : Idx) : Prop extends
    Remap s s' l l' e i j none where
  tabs : s'.tab = s.tab
  ref : ∀ g, s.cell (.leaf e i j) ≠ some g → s'.ref g = s.ref g
  data : ∀ f, ¬ s.Struct f → s'.mem f = s.mem f

/-! ## Removing a mapping -/

/-- What `page_remove` does once it has found entry `j` of page table `n` to map page `f`. -/
def State.unmap (s : State) (d : Nat) (va : Word) (n : Nat) (j : Idx) (f : Nat) : State :=
  ((s.decref f).tlbInval d va).setWord n j 0#32

theorem remove_absent (h : Tables b M s) (hd : s.dir e = some d) (hva : va < utop)
    (hp : s.pte e (pdx va) (ptx va) = none) : (pageRemove d va).run s = .ok () s := by
  obtain ⟨q, hq⟩ := lookup_absent h hd hva hp
  unfold pageRemove
  rw [run_bind_ok hq]; rfl

theorem remove_present (h : Tables b M s) (hd : s.dir e = some d) (hn : s.tab e (pdx va) = some n) {w : Word}
    (hw : s.pte e (pdx va) (ptx va) = some w) :
    (pageRemove d va).run s =
      if pgnum w < s.npages then .ok () (s.unmap d va n (ptx va) (pgnum w)) else .error .panic s := by
  have hl := lookup_present h hd hn hw
  unfold pageRemove
  split
  · rename_i hlt
    rw [if_pos hlt] at hl
    rw [run_bind_ok hl]
    simp [State.unmap]
  · rename_i hlt
    rw [if_neg hlt] at hl
    rw [run_bind_error hl]

section Unmap

variable {f : Nat}

/-- The order of the release and the write does not matter to the views. -/
theorem unmap_pages (s : State) (d : Nat) (va : Word) (n : Nat) (j : Idx) (f : Nat) :
    (s.unmap d va n j f).pages = ((s.setWord n j 0#32).decref f).pages := by
  unfold State.unmap State.decref; split <;> split <;> first | rfl | contradiction

theorem unmap_pageFreeList (s : State) (d : Nat) (va : Word) (n : Nat) (j : Idx) (f : Nat) :
    (s.unmap d va n j f).pageFreeList = ((s.setWord n j 0#32).decref f).pageFreeList := by
  unfold State.unmap State.decref; split <;> split <;> first | rfl | contradiction

theorem unmap_mem (s : State) (d : Nat) (va : Word) (n : Nat) (j : Idx) (f : Nat) :
    (s.unmap d va n j f).mem = (s.setWord n j 0#32).mem := by
  unfold State.unmap State.decref; split <;> rfl

theorem rest_unmap (s : State) (d : Nat) (va : Word) (n : Nat) (j : Idx) (f : Nat) : Rest s (s.unmap d va n j f) :=
  ((rest_decref s f).trans (rest_tlbInval _ d va)).trans (rest_setWord _ n j 0#32)

theorem unmap_cell (h : Tables b M s) (hn : s.tab e i = some n) (d : Nat) (va : Word) (j : Idx) (f : Nat) :
    (s.unmap d va n j f).cell = Function.update s.cell (.leaf e i j) none := by
  rw [cell_congr (unmap_mem s d va n j f) (rest_unmap s d va n j f).dir, cell_setWord_leaf h hn, dec_zero]

theorem unmap_vm (h : Vm b M s l) (hn : s.tab e i = some n) (d : Nat) (va : Word) (hM : f ∈ M) (hl : f ∉ l)
    (hz : s.ref f = 1 → ∀ c, c ≠ .leaf e i j → s.cell c ≠ some f) :
    Vm b M (s.unmap d va n j f) (freeAfter s l f) := by
  have h₁ : Vm b M (s.setWord n j 0#32) l := h.setLeaf hn j (by simp)
  have hcell := cell_setWord_leaf h.toTables hn j 0#32
  have h₂ : Vm b M ((s.setWord n j 0#32).decref f) (freeAfter s l f) := by
    refine h₁.decref hM hl fun h1 c => ?_
    rw [hcell, dec_zero]
    by_cases hc : c = .leaf e i j
    · rw [hc, Function.update_self]; simp
    · rw [Function.update_of_ne hc]; exact hz h1 c hc
  have hr := rest_decref (s.setWord n j 0#32) f
  refine h₂.congr (unmap_pages s d va n j f) (unmap_pageFreeList s d va n j f) ?_ ?_ ?_ ?_
  · rw [unmap_mem, mem_decref]
  · rw [(rest_unmap s d va n j f).dir, hr.dir]; rfl
  · rw [(rest_unmap s d va n j f).kernPgdir, hr.kernPgdir]; rfl
  · rw [(rest_unmap s d va n j f).npages, hr.npages]; rfl

theorem unmap_counts (hQ : CountRel Q) (h : Tables b M s) (hn : s.tab e i = some n) (d : Nat) (va : Word)
    (hf : InUse M l held f) (hcell : s.cell (.leaf e i j) = some f) (hc : Counts Q M l held s) :
    Counts Q M (freeAfter s l f) held (s.unmap d va n j f) := by
  have h₁ := cell_setWord_leaf h hn j 0#32
  rw [dec_zero] at h₁
  refine (Counts.decref (t := s.setWord n j 0#32) hQ hc hcell hf rfl h₁).congr (unmap_pages s d va n j f) ?_
  rw [unmap_cell h hn, cell_decref, h₁]

theorem unmap_data (hn : s.tab e i = some n) (d : Nat) (va : Word) (j : Idx) (f : Nat) {g : Nat} (hg : ¬ s.Struct g) :
    (s.unmap d va n j f).mem g = s.mem g := by
  have hne : g ≠ n := by rintro rfl; exact hg (Or.inr ⟨e, i, hn⟩)
  rw [unmap_mem]
  show Function.update s.mem n _ g = _
  rw [Function.update_of_ne hne]

theorem unmap_removed (h : Tables b M s) (hn : s.tab e i = some n) (d : Nat) (va : Word) (l : List Nat)
    (hcell : s.cell (.leaf e i j) = some f) :
    Removed s (s.unmap d va n j f) l (freeAfter s l f) e i j where
  rest := rest_unmap s d va n j f
  pte := by
    intro e' i' j'
    rw [pte_congr (unmap_mem s d va n j f) (rest_unmap s d va n j f).dir, pte_setWord_leaf h hn]; simp
  tab := by
    intro e' i' _
    rw [tab_congr (unmap_mem s d va n j f) (rest_unmap s d va n j f).dir, tab_setWord_leaf h hn]
  mem := fun g _ hg => unmap_data hn d va j f hg
  tables := by
    intro g hg
    have ht : (s.unmap d va n j f).tab = s.tab := by
      rw [tab_congr (unmap_mem s d va n j f) (rest_unmap s d va n j f).dir, tab_setWord_leaf h hn]
    rw [struct_congr ht (rest_unmap s d va n j f).dir] at hg
    exact Or.inl hg
  free := by
    intro g hg
    rcases mem_freeAfter.1 hg with hg | ⟨rfl, -⟩
    · exact Or.inl hg
    · exact Or.inr hcell
  tabs := by
    rw [tab_congr (unmap_mem s d va n j f) (rest_unmap s d va n j f).dir, tab_setWord_leaf h hn]
  ref := by
    intro g hg
    have hne : g ≠ f := by rintro rfl; exact hg hcell
    unfold State.ref
    rw [unmap_pages]
    exact ref_decref_other hne
  data := fun g hg => unmap_data hn d va j f hg

end Unmap

/-- A cell targets a page in use. -/
theorem InUse.of_cell (h : Vm b M s l) (hheld : ∀ p, held = some p → ∀ c, s.cell c ≠ some p) {c : Cell Slot Idx} {f : Nat}
    (hc : s.cell c = some f) (hM : f ∈ M) : InUse M l held f :=
  ⟨hM, fun hl => h.freeCell f hl c hc, fun hh => hheld f hh c hc⟩

theorem leaf_managed (h : Tables b M s) {w : Word} (hw : s.pte e i j = some w) (hlt : pgnum w < s.npages) : pgnum w ∈ M := by
  rcases h.leafM e i j w hw with ⟨hM, -⟩ | hge
  · exact hM
  · omega

/-- `page_remove` unmaps the page, unless its entry points outside memory. -/
theorem remove_spec (hQ : CountRel Q) (h : Vm b M s l) (hc : Counts Q M l held s)
    (hheld : ∀ p, held = some p → ∀ c, s.cell c ≠ some p) (hd : s.dir e = some d) (hva : va < utop) :
    (∃ s' l', (pageRemove d va).run s = .ok () s' ∧ Vm b M s' l' ∧ Counts Q M l' held s' ∧
      Removed s s' l l' e (pdx va) (ptx va)) ∨
    ∃ w, (pageRemove d va).run s = .error .panic s ∧ s.pte e (pdx va) (ptx va) = some w ∧ s.npages ≤ pgnum w := by
  cases hw : s.pte e (pdx va) (ptx va) with
  | none =>
    refine Or.inl ⟨s, l, remove_absent h.toTables hd hva hw, h, hc, ⟨?_, rfl, fun _ _ => rfl, fun _ _ => rfl⟩⟩
    refine ⟨.refl s, fun e' i' j' => ?_, fun _ _ _ => rfl, fun _ _ _ => rfl, fun _ hf => Or.inl hf,
      fun _ hf => Or.inl hf⟩
    split
    · rename_i hc
      rw [hc.1, hc.2.1, hc.2.2, hw]
    · rfl
  | some w =>
    obtain ⟨n, hn, -, -⟩ := pte_eq_some.1 hw
    have hrun := remove_present h.toTables hd hn hw
    by_cases hlt : pgnum w < s.npages
    · rw [if_pos hlt] at hrun
      have hcell := cell_leaf_eq_some.2 ⟨w, hw, rfl⟩
      have hin := InUse.of_cell h hheld hcell (leaf_managed h.toTables hw hlt)
      refine Or.inl ⟨_, _, hrun, ?_, unmap_counts hQ h.toTables hn d va hin hcell hc,
        unmap_removed h.toTables hn d va l hcell⟩
      refine unmap_vm h hn d va hin.managed hin.notFree fun h1 c hne => ?_
      have hu := Counts.unused (t := s.setWord n (ptx va) 0#32) hQ hc hcell hin
        (by rw [cell_setWord_leaf h.toTables hn, dec_zero]) h1 c
      rwa [cell_setWord_leaf h.toTables hn, Function.update_of_ne hne] at hu
    · rw [if_neg hlt] at hrun
      exact Or.inr ⟨w, hrun, rfl, by omega⟩

/-! ## Inserting a mapping -/

/-- The last steps of `page_insert`: the new reference and the entry. -/
def State.link (s : State) (pp n : Nat) (j : Idx) (perm : Word) : State :=
  (s.setRef pp ((s.pages pp).ppRef + 1#16)).setWord n j (entry pp perm)

/-- `page_insert` of the page that is mapped already. -/
def State.relink (s : State) (d : Nat) (va : Word) (pp n : Nat) (j : Idx) (perm : Word) : State :=
  ((s.setRef pp ((s.pages pp).ppRef - 1#16)).tlbInval d va).link pp n j perm

section Equations

variable {s₁ s₂ : State} {pp : Nat} {perm : Word}

theorem insert_noMem (hw : (pgdirWalk d va true).run s = .ok none s₁) :
    (pageInsert d pp va perm).run s = .ok (-eNoMem) s₁ := by
  unfold pageInsert
  rw [run_bind_ok hw]; rfl

theorem insert_absent (hw : (pgdirWalk d va true).run s = .ok (some (n, j)) s₁) (hz : present (s₁.mem n j) = false) :
    (pageInsert d pp va perm).run s = .ok 0 (s₁.link pp n j perm) := by
  unfold pageInsert
  rw [run_bind_ok hw]
  simp [hz, State.link, entry]

theorem insert_same (hw : (pgdirWalk d va true).run s = .ok (some (n, j)) s₁) (hp : present (s₁.mem n j) = true)
    (hpp : pteAddr (s₁.mem n j) = page2pa pp) :
    (pageInsert d pp va perm).run s = .ok 0 (s₁.relink d va pp n j perm) := by
  unfold pageInsert
  rw [run_bind_ok hw]
  simp [hp, hpp, State.link, State.relink, entry]

theorem insert_other (hw : (pgdirWalk d va true).run s = .ok (some (n, j)) s₁) (hp : present (s₁.mem n j) = true)
    (hpp : pteAddr (s₁.mem n j) ≠ page2pa pp) (hr : (pageRemove d va).run s₁ = .ok () s₂) :
    (pageInsert d pp va perm).run s = .ok 0 (s₂.link pp n j perm) := by
  unfold pageInsert
  rw [run_bind_ok hw]
  simp [hp, hpp, hr, State.link, entry]

theorem insert_panic (hw : (pgdirWalk d va true).run s = .ok (some (n, j)) s₁) (hp : present (s₁.mem n j) = true)
    (hpp : pteAddr (s₁.mem n j) ≠ page2pa pp) (hr : (pageRemove d va).run s₁ = .error .panic s₂) :
    (pageInsert d pp va perm).run s = .error .panic s₂ := by
  unfold pageInsert
  rw [run_bind_ok hw]
  simp [hp, hpp, hr]

end Equations

section Link

variable {pp : Nat} {perm : Word}

/-- An entry for page `pp` points at it, or outside memory. -/
theorem entry_target (h : Tables b M s) (hM : pp ∈ M) (hperm : LowPerm perm ∨ s.npages ≤ pp ||| pgnum perm) {f : Nat}
    (hf : dec (entry pp perm) = some f) : f = pp ∨ s.npages ≤ f := by
  rw [dec_entry (h.lt_pow hM)] at hf
  cases hf
  rcases hperm with hlow | hge
  · rw [pgnum_low hlow, Nat.or_zero]; exact Or.inl rfl
  · exact Or.inr hge

theorem link_vm (h : Vm b M s l) (hn : s.tab e i = some n) (hM : pp ∈ M) (hl : pp ∉ l) (hns : ¬ s.Struct pp)
    (hperm : LowPerm perm ∨ s.npages ≤ pp ||| pgnum perm) (r : BitVec 16) (j : Idx) :
    Vm b M ((s.setRef pp r).setWord n j (entry pp perm)) l := by
  refine (h.setRef hl r).setLeaf hn j fun f hf => ?_
  rcases entry_target h.toTables hM hperm hf with rfl | hge
  · exact Or.inl ⟨hM, hns, hl⟩
  · exact Or.inr hge

theorem link_remap (pp : Nat) (h : Tables b M s) (hn : s.tab e i = some n) (l : List Nat) (r : BitVec 16) (j : Idx) (w : Word)
    (hw : present w = true) : Remap s ((s.setRef pp r).setWord n j w) l l e i j (some w) where
  rest := (rest_setRef s pp r).trans (rest_setWord _ n j w)
  pte := by
    intro e' i' j'
    have hp := pte_setWord_leaf (h.congr (t := s.setRef pp r) rfl rfl rfl rfl) hn j w e' i' j'
    rw [if_pos hw] at hp
    exact hp
  tab := by
    intro e' i' _
    have ht := tab_setWord_leaf (h.congr (t := s.setRef pp r) rfl rfl rfl rfl) hn j w
    exact congrFun (congrFun ht e') i'
  mem := by
    intro g _ hg
    have hne : g ≠ n := by rintro rfl; exact hg (Or.inr ⟨e, i, hn⟩)
    show Function.update s.mem n _ g = _
    rw [Function.update_of_ne hne]
  tables := by
    intro g hg
    have ht := tab_setWord_leaf (h.congr (t := s.setRef pp r) rfl rfl rfl rfl) hn j w
    rw [struct_congr (ht.trans (tab_congr rfl rfl)) rfl] at hg
    exact Or.inl hg
  free := fun f hf => Or.inl hf

theorem link_cell (pp : Nat) (h : Tables b M s) (hn : s.tab e i = some n) (r : BitVec 16) (j : Idx) (w : Word) :
    ((s.setRef pp r).setWord n j w).cell = Function.update s.cell (.leaf e i j) (dec w) :=
  cell_setWord_leaf (h.congr (t := s.setRef pp r) rfl rfl rfl rfl) hn j w

theorem link_counts (hQ : CountRel Q) (h : Tables b M s) (hc : Counts Q M l held s) (hn : s.tab e i = some n)
    (hM : pp ∈ M) (hperm : LowPerm perm ∨ (Q = (· ≤ ·) ∧ s.npages ≤ pp ||| pgnum perm))
    (hz : s.cell (.leaf e i j) = none) (hl : Linkable s held pp) (hroom : s.ref pp < 65535) :
    Counts Q M l none (s.link pp n j perm) := by
  have hcell := link_cell pp h hn ((s.pages pp).ppRef + 1#16) j (entry pp perm)
  rcases hperm with hlow | ⟨rfl, hge⟩
  · rw [dec_entry_low (h.lt_pow hM) hlow] at hcell
    exact hc.link hQ hl hroom hz rfl hcell
  · have href : ∀ g, (s.link pp n j perm).ref g = if g = pp then s.ref pp + 1 else s.ref g := by
      intro g
      have := ref_setRef s pp g ((s.pages pp).ppRef + 1#16)
      rwa [toNat_succ hroom] at this
    rw [dec_entry (h.lt_pow hM)] at hcell
    refine hc.forge ?_ ?_ ?_ hcell
    · rintro f hf hc
      cases hc
      have := h.managed _ hf
      omega
    · intro g
      rw [href]; split
      · rename_i hg; rw [hg]; omega
      · exact le_refl _
    · intro p hp
      refine ⟨?_, hl.held_unused p hp⟩
      rcases hl with hl | ⟨hl, -, -⟩
      · rw [hl] at hp; cases hp
      · have : p = pp := Option.some.inj (hp.symm.trans hl)
        rw [href, if_pos this]; omega

/-! ## Inserting the page that is mapped already -/

theorem relink_pages (s : State) (d : Nat) (va : Word) (pp n : Nat) (j : Idx) (perm : Word) :
    (s.relink d va pp n j perm).pages = s.pages := by
  have hr : (s.pages pp).ppRef - 1#16 + 1#16 = (s.pages pp).ppRef := BitVec.sub_add_cancel ..
  funext f
  show Function.update (Function.update s.pages pp _) pp _ f = _
  by_cases hf : f = pp
  · subst hf
    rw [Function.update_self]
    simp [State.tlbInval, State.setRef, State.setPage, hr]
  · rw [Function.update_of_ne hf, Function.update_of_ne hf]

theorem rest_relink (s : State) (d : Nat) (va : Word) (pp n : Nat) (j : Idx) (perm : Word) :
    Rest s (s.relink d va pp n j perm) :=
  ((rest_setRef s pp _).trans (rest_tlbInval _ d va)).trans ((rest_setRef _ pp _).trans (rest_setWord _ n j _))

theorem relink_spec (h : Vm b M s l) (hc : Counts Q M l none s) (hn : s.tab e i = some n) (hM : pp ∈ M)
    (hperm : LowPerm perm ∨ (Q = (· ≤ ·) ∧ s.npages ≤ pp ||| pgnum perm)) (d : Nat) (va : Word)
    (hcell : s.cell (.leaf e i j) = some pp) (hns : ¬ s.Struct pp) :
    Vm b M (s.relink d va pp n j perm) l ∧ Counts Q M l none (s.relink d va pp n j perm) ∧
      Remap s (s.relink d va pp n j perm) l l e i j (some (entry pp perm)) := by
  have hl : pp ∉ l := fun hl => h.freeCell pp hl _ hcell
  have hp := relink_pages s d va pp n j perm
  have hr := rest_relink s d va pp n j perm
  have hv : Vm b M (s.setWord n j (entry pp perm)) l := by
    refine h.setLeaf hn j fun f hf => ?_
    rcases entry_target h.toTables hM (hperm.imp id And.right) hf with rfl | hge
    · exact Or.inl ⟨hM, hns, hl⟩
    · exact Or.inr hge
  have hcell' : (s.relink d va pp n j perm).cell = Function.update s.cell (.leaf e i j) (dec (entry pp perm)) := by
    have hset : (s.relink d va pp n j perm).cell = (s.setWord n j (entry pp perm)).cell := cell_congr rfl hr.dir
    rw [hset, cell_setWord_leaf h.toTables hn]
  refine ⟨hv.congr hp rfl rfl hr.dir rfl rfl, ?_, ?_⟩
  · rcases hperm with hlow | ⟨rfl, hge⟩
    · refine hc.congr hp ?_
      rw [hcell', dec_entry_low (h.lt_pow hM) hlow, ← hcell, Function.update_eq_self]
    · rw [dec_entry (h.lt_pow hM)] at hcell'
      refine hc.forge ?_ (fun g => ?_) (fun p hp => by cases hp) hcell'
      · rintro f hf hc
        cases hc
        have := h.managed _ hf
        omega
      · unfold State.ref; rw [hp]
  · have hlink := link_remap pp h.toTables hn l (s.pages pp).ppRef j (entry pp perm) (present_entry pp perm)
    have hpte : (s.relink d va pp n j perm).pte = ((s.setRef pp (s.pages pp).ppRef).setWord n j (entry pp perm)).pte :=
      pte_congr rfl hr.dir
    have htab : (s.relink d va pp n j perm).tab = ((s.setRef pp (s.pages pp).ppRef).setWord n j (entry pp perm)).tab :=
      tab_congr rfl hr.dir
    exact ⟨hr, by rw [hpte]; exact hlink.pte, by rw [htab]; exact hlink.tab, hlink.mem,
      by rw [struct_congr htab hr.dir]; exact hlink.tables, fun f hf => Or.inl hf⟩

end Link

/-! ## Putting the phases together -/

section Phases

variable {s₁ s₂ : State} {l₁ : List Nat} {x y : Option Word} {pp : Nat}

theorem Tabled.struct (h : Tabled s s₁ l l₁ e i n) {f : Nat} (hf : s₁.Struct f) : s.Struct f ∨ f ∈ l := by
  rcases hf with ⟨e', he⟩ | ⟨e', i', hf⟩
  · rw [h.rest.dir] at he
    exact Or.inl (Or.inl ⟨e', he⟩)
  · change s₁.tab e' i' = some f at hf
    rcases h.tabs e' i' with ht | ⟨rfl, rfl, -, hn⟩
    · rw [ht] at hf
      exact Or.inl (Or.inr ⟨e', i', hf⟩)
    · rw [h.tab] at hf
      cases hf
      exact Or.inr hn

theorem Tabled.cell_leaf (h : Tabled s s₁ l l₁ e i n) (e' : Slot) (i' j' : Idx) :
    s₁.cell (.leaf e' i' j') = s.cell (.leaf e' i' j') := by
  rw [Jos.cell_leaf, Jos.cell_leaf, h.pte]

/-- The only new target is the page table. -/
theorem Tabled.cell (h : Tabled s s₁ l l₁ e i n) {f : Nat} (hf : f ∉ l) (hz : ∀ c, s.cell c ≠ some f) :
    ∀ c, s₁.cell c ≠ some f := by
  rintro (e' | ⟨e', i'⟩ | ⟨e', i', j'⟩) hc
  · rw [cell_root, h.rest.dir] at hc
    exact hz (.root e') hc
  · rw [cell_node] at hc
    rcases h.tabs e' i' with ht | ⟨rfl, rfl, -, hn⟩
    · rw [ht] at hc
      exact hz (.node e' i') hc
    · rw [h.tab] at hc
      cases hc
      exact hf hn
  · rw [h.cell_leaf] at hc
    exact hz _ hc

theorem Tabled.remap (h : Tabled s s₁ l l₁ e i n) (h' : Remap s₁ s' l₁ l' e i j x) : Remap s s' l l' e i j x where
  rest := h.rest.trans h'.rest
  pte := by rw [← h.pte]; exact h'.pte
  tab := by
    intro e' i' hc
    have ht : s₁.tab e' i' = s.tab e' i' := by
      rcases h.tabs e' i' with ht | ⟨rfl, rfl, hn, -⟩
      · exact ht
      · simp [hn] at hc
    rw [h'.tab e' i' (by rwa [ht]), ht]
  mem := by
    intro f hf hns
    rw [h'.mem f (fun hl => hf (h.sub f hl)) (fun hs => (h.struct hs).elim hns hf), h.mem f hf hns]
  tables := by
    intro f hf
    rcases h'.tables f hf with hs | hl
    · exact h.struct hs
    · exact Or.inr (h.sub f hl)
  free := by
    intro f hf
    rw [← h.cell_leaf]
    exact (h'.free f hf).imp (h.sub f) id

theorem Tabled.ref (h : Tabled s s₁ l l₁ e i n) (hl : pp ∉ l) : s₁.ref pp = s.ref pp := by
  unfold State.ref; rw [h.pages pp hl]

theorem Tabled.linkable (h : Tabled s s₁ l l₁ e i n) (hl : pp ∉ l) (hk : Linkable s held pp) : Linkable s₁ held pp :=
  hk.imp id fun ⟨h1, h2, h3⟩ => ⟨h1, (h.ref hl).trans h2, h.cell hl h3⟩

theorem Tabled.room (h : Tabled s s₁ l l₁ e i n) (hl : pp ∉ l) (hr : Room s pp (.leaf e i j)) :
    Room s₁ pp (.leaf e i j) := by
  unfold Room
  rw [h.ref hl, h.cell_leaf]; exact hr

theorem Removed.struct (h : Removed s s₁ l l₁ e i j) : s₁.Struct = s.Struct := struct_congr h.tabs h.rest.dir

theorem Removed.cell_leaf (h : Removed s s₁ l l₁ e i j) : s₁.cell (.leaf e i j) = none := by
  rw [Jos.cell_leaf, h.pte, if_pos ⟨rfl, rfl, rfl⟩]; rfl

theorem Removed.cell (h : Removed s s₁ l l₁ e i j) {f : Nat} {c : Cell Slot Idx} (hc : s₁.cell c = some f) :
    s.cell c = some f := by
  cases c with
  | root e' => rwa [cell_root, h.rest.dir] at hc
  | node e' i' => rwa [cell_node, h.tabs] at hc
  | leaf e' i' j' =>
    rw [Jos.cell_leaf, h.pte] at hc
    split at hc
    · cases hc
    · exact hc

/-- A page is mapped at the place that was cleared. -/
theorem Removed.remap (h : Removed s s₁ l l₁ e i j) (h' : ∀ l, Remap s₁ s₂ l l e i j y) :
    Remap s s₂ l l₁ e i j y where
  rest := h.rest.trans (h' []).rest
  pte := by
    intro e' i' j'
    rw [(h' []).pte, h.pte]
    split <;> rfl
  tab := by
    intro e' i' hc
    rw [(h' []).tab e' i' (by rwa [h.tabs]), h.tabs]
  mem := by
    intro f hf hns
    rw [(h' []).mem f (by simp) (by rwa [h.struct]), h.mem f hf hns]
  tables := by
    intro f hf
    rw [← h.struct]
    exact Or.inl (((h' []).tables f hf).resolve_right (by simp))
  free := h.free

theorem Removed.linkable (h : Removed s s₁ l l₁ e i j) (hne : s.cell (.leaf e i j) ≠ some pp)
    (hk : Linkable s held pp) : Linkable s₁ held pp :=
  hk.imp id fun ⟨h1, h2, h3⟩ => ⟨h1, (h.ref pp hne).trans h2, fun c hc => h3 c (h.cell hc)⟩

theorem Room.of_ne {c : Cell Slot Idx} (h : Room s pp c) (hc : s.cell c ≠ some pp) : s.ref pp < 65535 := h.resolve_right hc

end Phases

/-- `page_insert` of a page that may be linked: no memory for the page table, an entry to be replaced
that points outside memory, or the page is mapped. The counters are right when there was room. -/
inductive Inserted (b : State) (M : List Nat) (Q : Nat → Nat → Prop) (s : State) (l : List Nat) (e : Slot) (i j : Idx)
    (pp : Nat) (w : Word) : EStateM.Result Stop State Int → Prop where
  | noMem (ht : s.tab e i = none) (hl : l = []) : Inserted b M Q s l e i j pp w (.ok (-eNoMem) s)
  | panic (s₁ : State) (old : Word) (ho : s.pte e i j = some old) (hn : s.npages ≤ pgnum old) (hr : Rest s s₁)
    (hp : s₁.pte = s.pte) : Inserted b M Q s l e i j pp w (.error .panic s₁)
  | done (s₁ : State) (l₁ : List Nat) (hv : Vm b M s₁ l₁) (hc : Room s pp (.leaf e i j) → Counts Q M l₁ none s₁)
    (hr : Remap s s₁ l l₁ e i j (some w)) : Inserted b M Q s l e i j pp w (.ok 0 s₁)

theorem insert_spec (hQ : CountRel Q) (h : Vm b M s l) (hc : Counts Q M l held s) (hd : s.dir e = some d) (hva : va < utop)
    {pp : Nat} (hM : pp ∈ M) (hl : pp ∉ l) (hns : ¬ s.Struct pp) {perm : Word}
    (hperm : LowPerm perm ∨ (Q = (· ≤ ·) ∧ s.npages ≤ pp ||| pgnum perm))
    (hk : Linkable s held pp) :
    Inserted b M Q s l e (pdx va) (ptx va) pp (entry pp perm) ((pageInsert d pp va perm).run s) := by
  rcases walk_create h hd hva with ⟨hw, ht, hl0⟩ | ⟨n, s₁, l₁, hw, h₁, ht, hcs⟩
  · rw [insert_noMem hw]
    exact .noMem ht hl0
  have hc₁ := hcs Q held hQ hc
  have hk₁ := ht.linkable hl hk
  have hl₁ : pp ∉ l₁ := fun hm => hl (ht.sub pp hm)
  have hns₁ : ¬ s₁.Struct pp := fun hs => (ht.struct hs).elim hns hl
  have hd₁ : s₁.dir e = some d := by rw [ht.rest.dir]; exact hd
  have hperm₁ : LowPerm perm ∨ (Q = (· ≤ ·) ∧ s₁.npages ≤ pp ||| pgnum perm) := by rw [ht.rest.npages]; exact hperm
  have hpte := pte_of_tab (j := ptx va) ht.tab
  cases hp : present (s₁.mem n (ptx va)) with
  | false =>
    -- nothing is mapped there
    rw [hp, if_neg (by simp)] at hpte
    have hz : s₁.cell (.leaf e (pdx va) (ptx va)) = none := by rw [Jos.cell_leaf, hpte]; rfl
    rw [insert_absent hw hp]
    exact .done _ l₁ (link_vm h₁ ht.tab hM hl₁ hns₁ (hperm₁.imp id And.right) _ _)
      (fun hroom => link_counts hQ h₁.toTables hc₁ ht.tab hM hperm₁ hz hk₁ ((ht.room hl hroom).of_ne (by simp [hz])))
      (ht.remap (link_remap pp h₁.toTables ht.tab l₁ _ _ _ (present_entry pp perm)))
  | true =>
    rw [hp, if_pos rfl] at hpte
    have hcell := cell_leaf_eq_some.2 ⟨_, hpte, rfl⟩
    by_cases hpp : pteAddr (s₁.mem n (ptx va)) = page2pa pp
    · -- the page itself is mapped there
      rw [insert_same hw hp hpp]
      rw [pteAddr_eq_page2pa (h.lt_pow hM)] at hpp
      rw [hpp] at hcell
      have hheld : held = none := by
        rcases hk₁ with hh | ⟨-, -, hz⟩
        · exact hh
        · exact absurd hcell (hz _)
      subst hheld
      obtain ⟨hv', hc', hr'⟩ := relink_spec h₁ hc₁ ht.tab hM hperm₁ d va hcell hns₁
      exact .done _ l₁ hv' (fun _ => hc') (ht.remap hr')
    · -- another page is mapped there and is removed first
      have hne : s₁.cell (.leaf e (pdx va) (ptx va)) ≠ some pp := by
        rw [hcell]
        intro heq
        exact hpp ((pteAddr_eq_page2pa (h.lt_pow hM)).2 (Option.some.inj heq))
      rcases remove_spec hQ h₁ hc₁ hk₁.held_unused hd₁ hva with ⟨s₂, l₂, hrm, h₂, hc₂, hr₂⟩ | ⟨old, hrm, ho, hge⟩
      · rw [insert_other hw hp hpp hrm]
        have hn₂ : s₂.tab e (pdx va) = some n := by rw [hr₂.tabs]; exact ht.tab
        have hl₂ : pp ∉ l₂ := fun hm => (hr₂.free pp hm).elim hl₁ hne
        have hperm₂ : LowPerm perm ∨ (Q = (· ≤ ·) ∧ s₂.npages ≤ pp ||| pgnum perm) := by
          rw [hr₂.rest.npages]; exact hperm₁
        exact .done _ l₂ (link_vm h₂ hn₂ hM hl₂ (by rwa [hr₂.struct]) (hperm₂.imp id And.right) _ _)
          (fun hroom => link_counts hQ h₂.toTables hc₂ hn₂ hM hperm₂ hr₂.cell_leaf (hr₂.linkable hne hk₁)
            (by rw [hr₂.ref pp hne]; exact (ht.room hl hroom).of_ne hne))
          (ht.remap (hr₂.remap fun l => link_remap pp h₂.toTables hn₂ l _ _ _ (present_entry pp perm)))
      · rw [insert_panic hw hp hpp hrm]
        rw [ht.pte] at ho
        rw [ht.rest.npages] at hge
        exact .panic _ old ho hge ht.rest ht.pte

end Jos
