/-
The moves the kernel makes on the page allocator and on page tables, one write at a time: taking
a page off the free list and putting one back, changing a reference count, writing a page table
entry, a directory entry and the directory of an environment. Each keeps the invariant and changes
at most one cell.
-/
import Jos.Vm.View

namespace Jos

open Lib

variable {b s s' : State} {M l : List Nat}

/-! ## Views of the updated states -/

@[simp] theorem dir_setMem (s : State) (f : Nat) (p : Idx → Word) : (s.setMem f p).dir = s.dir := rfl
@[simp] theorem dir_setWord (s : State) (f : Nat) (i : Idx) (w : Word) : (s.setWord f i w).dir = s.dir := rfl
@[simp] theorem dir_setPage (s : State) (f : Nat) (p : PageInfo) : (s.setPage f p).dir = s.dir := rfl
@[simp] theorem mem_setPage (s : State) (f : Nat) (p : PageInfo) : (s.setPage f p).mem = s.mem := rfl
@[simp] theorem mem_setMem (s : State) (f : Nat) (p : Idx → Word) :
    (s.setMem f p).mem = Function.update s.mem f p := rfl

/-- The views depend on memory and the directories only. -/
theorem cell_congr (hm : s'.mem = s.mem) (hd : s'.dir = s.dir) : s'.cell = s.cell := by
  unfold State.cell; rw [hm, hd]

theorem tab_congr (hm : s'.mem = s.mem) (hd : s'.dir = s.dir) : s'.tab = s.tab := by
  funext e i; unfold State.tab; rw [hm, hd]

theorem pte_congr (hm : s'.mem = s.mem) (hd : s'.dir = s.dir) : s'.pte = s.pte := by
  funext e i j; unfold State.pte; rw [hm, hd]

theorem struct_congr (ht : s'.tab = s.tab) (hd : s'.dir = s.dir) : s'.Struct = s.Struct := by
  funext f
  show ((∃ e, s'.dir e = some f) ∨ ∃ e i, s'.tab e i = some f) = _
  rw [ht, hd]; rfl

/-- Equal directories, tables and entries are equal cells. -/
theorem cell_ext (hd : s'.dir = s.dir) (ht : s'.tab = s.tab) (hp : s'.pte = s.pte) : s'.cell = s.cell := by
  funext c
  cases c with
  | root e => show s'.dir e = s.dir e; rw [hd]
  | node e i => show s'.tab e i = s.tab e i; rw [ht]
  | leaf e i j => rw [cell_leaf, cell_leaf, hp]

/-! ## The free list -/

/-- `page_free_list = page_free_list->pp_link`. -/
def State.pop (s : State) (p : Nat) : State := { s with pageFreeList := (s.pages p).ppLink }

theorem Vm.pop {p : Nat} (h : Vm b M s (p :: l)) : Vm b M (s.pop p) l where
  chain := h.chain.2
  nodup := h.nodup.of_cons
  freeM f hf := h.freeM f (List.mem_cons_of_mem _ hf)
  freeRef f hf := h.freeRef f (List.mem_cons_of_mem _ hf)
  freeCell f hf := h.freeCell f (List.mem_cons_of_mem _ hf)
  toTables := h.toTables.congr rfl rfl rfl rfl

/-- `pp->pp_link = page_free_list; page_free_list = pp`. -/
def State.push (s : State) (p : Nat) : State :=
  { s.setPage p { s.pages p with ppLink := s.pageFreeList } with pageFreeList := some p }

@[simp] theorem push_ppRef (s : State) (p f : Nat) : ((s.push p).pages f).ppRef = (s.pages f).ppRef := by
  unfold State.push State.setPage
  by_cases hf : f = p
  · subst hf; simp
  · simp [hf]

theorem Vm.push {p : Nat} (h : Vm b M s l) (hM : p ∈ M) (hl : p ∉ l) (hr : (s.pages p).ppRef = 0#16)
    (hc : ∀ c, s.cell c ≠ some p) : Vm b M (s.push p) (p :: l) where
  chain := by
    have := Chain.push h.chain hl
    refine Chain.congr (fun f _ => ?_) this
    unfold State.push State.setPage
    by_cases hf : f = p
    · subst hf; simp
    · simp [hf]
  nodup := h.nodup.cons hl
  freeM f hf := by
    rcases List.mem_cons.1 hf with rfl | hf
    · exact hM
    · exact h.freeM f hf
  freeRef f hf := by
    rw [push_ppRef]
    rcases List.mem_cons.1 hf with rfl | hf
    · exact hr
    · exact h.freeRef f hf
  freeCell f hf := by
    rcases List.mem_cons.1 hf with rfl | hf
    · exact hc
    · exact h.freeCell f hf
  toTables := h.toTables.congr rfl rfl rfl rfl

theorem setRef_ppRef (s : State) (p f : Nat) (r : BitVec 16) :
    ((s.setRef p r).pages f).ppRef = if f = p then r else (s.pages f).ppRef := by
  unfold State.setRef State.setPage
  by_cases hf : f = p
  · subst hf; simp
  · simp [hf]

theorem setRef_ppLink (s : State) (p f : Nat) (r : BitVec 16) :
    ((s.setRef p r).pages f).ppLink = (s.pages f).ppLink := by
  unfold State.setRef State.setPage
  by_cases hf : f = p
  · subst hf; simp
  · simp [hf]

/-- Changing the count of a page that is not free. -/
theorem Vm.setRef {p : Nat} (h : Vm b M s l) (hl : p ∉ l) (r : BitVec 16) : Vm b M (s.setRef p r) l where
  chain := by
    refine Chain.congr (fun f _ => ?_) h.chain
    exact setRef_ppLink s p f r
  nodup := h.nodup
  freeM := h.freeM
  freeRef f hf := by
    rw [setRef_ppRef, if_neg (ne_of_mem_of_not_mem hf hl)]
    exact h.freeRef f hf
  freeCell := h.freeCell
  toTables := h.toTables.congr rfl rfl rfl rfl

/-! ## Writing a frame that is no table -/

theorem tab_setMem_other {f : Nat} (hf : ¬ s.Struct f) (p : Idx → Word) : (s.setMem f p).tab = s.tab := by
  funext e i; exact node_write_other hf e i

theorem pte_setMem_other {f : Nat} (hf : ¬ s.Struct f) (p : Idx → Word) : (s.setMem f p).pte = s.pte := by
  funext e i j; exact leaf_write_other hf e i j

theorem cell_setMem_other {f : Nat} (hf : ¬ s.Struct f) (p : Idx → Word) : (s.setMem f p).cell = s.cell :=
  cell_ext rfl (tab_setMem_other hf p) (pte_setMem_other hf p)

theorem dir_ne_of_not_struct {f d : Nat} {e : Slot} (hf : ¬ s.Struct f) (hd : s.dir e = some d) : d ≠ f := by
  rintro rfl; exact hf (Or.inl ⟨e, hd⟩)

theorem Tables.setMem_other {f : Nat} (h : Tables b M s) (hM : f ∈ M) (hf : ¬ s.Struct f) (p : Idx → Word) :
    Tables b M (s.setMem f p) := by
  have htab := tab_setMem_other hf p
  have hst : (s.setMem f p).Struct = s.Struct := struct_congr htab rfl
  exact
    { sep := h.sep.congr fun e i => congrFun (congrFun htab e) i
      structM := by rw [hst]; exact h.structM
      leafM := by rw [pte_setMem_other hf, hst]; exact h.leafM
      pde := by
        intro e d i n hd hn
        rw [htab] at hn
        rw [mem_setMem, Function.update_of_ne (dir_ne_of_not_struct hf hd)]
        exact h.pde e d i n hd hn
      managed := h.managed
      outside := by
        intro g hg
        rw [mem_setMem, Function.update_of_ne (ne_of_mem_of_not_mem hM hg).symm]
        exact h.outside g hg
      kern := by
        intro e d i hd hi hu
        rw [mem_setMem, Function.update_of_ne (dir_ne_of_not_struct hf hd)]
        exact h.kern e d i hd hi hu
      self := by
        intro e d hd
        rw [mem_setMem, Function.update_of_ne (dir_ne_of_not_struct hf hd)]
        exact h.self e d hd
      kernPgdir := h.kernPgdir
      kernM := h.kernM
      npages := h.npages }

theorem Vm.setMem_other {f : Nat} (h : Vm b M s l) (hM : f ∈ M) (hf : ¬ s.Struct f) (p : Idx → Word) :
    Vm b M (s.setMem f p) l where
  toTables := h.toTables.setMem_other hM hf p
  toFreePages := h.toFreePages.congr rfl rfl
  freeCell := by
    rw [cell_setMem_other hf p]
    exact h.freeCell

/-! ## Writing a page table entry -/

section Leaf

variable {e : Slot} {i : Idx} {n : Nat}

theorem tab_setWord_leaf (h : Tables b M s) (hn : s.tab e i = some n) (j : Idx) (w : Word) :
    (s.setWord n j w).tab = s.tab := by
  funext e' i'; exact node_write_leaf h.sep hn _ e' i'

theorem pte_setWord_leaf (h : Tables b M s) (hn : s.tab e i = some n) (j : Idx) (w : Word) (e' : Slot) (i' j' : Idx) :
    (s.setWord n j w).pte e' i' j' =
      if e' = e ∧ i' = i ∧ j' = j then (if present w then some w else none) else s.pte e' i' j' := by
  have := leaf_write_leaf (j := j) h.sep hn w e' i' j'
  refine this.trans ?_
  unfold dec
  cases present w <;> rfl

theorem cell_setWord_leaf (h : Tables b M s) (hn : s.tab e i = some n) (j : Idx) (w : Word) :
    (s.setWord n j w).cell = Function.update s.cell (.leaf e i j) (dec w) := by
  funext c
  cases c with
  | root e' => rw [Function.update_of_ne (by simp)]; rfl
  | node e' i' =>
    rw [Function.update_of_ne (by simp)]
    exact congrFun (congrFun (tab_setWord_leaf h hn j w) e') i'
  | leaf e' i' j' =>
    rw [cell_leaf, pte_setWord_leaf h hn]
    by_cases hc : e' = e ∧ i' = i ∧ j' = j
    · obtain ⟨rfl, rfl, rfl⟩ := hc
      rw [if_pos ⟨rfl, rfl, rfl⟩, Function.update_self]
      unfold dec
      cases hw : present w <;> simp [hw]
    · rw [if_neg hc, Function.update_of_ne (by simpa using hc)]; rfl

theorem tab_ne_dir (h : Tables b M s) (hn : s.tab e i = some n) {e' : Slot} {d : Nat} (hd : s.dir e' = some d) :
    d ≠ n := by
  rintro rfl; exact h.sep.apart e' e i d hd hn

theorem Tables.setLeaf (h : Tables b M s) (hn : s.tab e i = some n) (j : Idx) {w : Word}
    (hw : ∀ f, dec w = some f → (f ∈ M ∧ ¬ s.Struct f) ∨ s.npages ≤ f) : Tables b M (s.setWord n j w) := by
  have htab := tab_setWord_leaf h hn j w
  have hst : (s.setWord n j w).Struct = s.Struct := struct_congr htab rfl
  exact
    { sep := h.sep.congr fun e i => congrFun (congrFun htab e) i
      structM := by rw [hst]; exact h.structM
      leafM := by
        intro e' i' j' x hx
        rw [pte_setWord_leaf h hn] at hx
        rw [hst]
        split at hx
        · split at hx
          · rename_i hp
            cases hx
            exact hw _ (dec_eq_some.2 ⟨hp, rfl⟩)
          · cases hx
        · exact h.leafM e' i' j' x hx
      pde := by
        intro e' d i' m hd hm
        rw [htab] at hm
        show Function.update s.mem n _ d i' = _
        rw [Function.update_of_ne (tab_ne_dir h hn hd)]
        exact h.pde e' d i' m hd hm
      managed := h.managed
      outside := by
        intro g hg
        have hne : g ≠ n := by rintro rfl; exact hg (h.structM g (Or.inr ⟨e, i, hn⟩))
        show Function.update s.mem n _ g = _
        rw [Function.update_of_ne hne]
        exact h.outside g hg
      kern := by
        intro e' d i' hd hi hu
        show Function.update s.mem n _ d i' = _
        rw [Function.update_of_ne (tab_ne_dir h hn hd)]
        exact h.kern e' d i' hd hi hu
      self := by
        intro e' d hd
        show Function.update s.mem n _ d _ = _
        rw [Function.update_of_ne (tab_ne_dir h hn hd)]
        exact h.self e' d hd
      kernPgdir := h.kernPgdir
      kernM := h.kernM
      npages := h.npages }

/-- One cell is redirected to a target that is not free. -/
theorem freeCell_update (h : ∀ f ∈ l, ∀ c, s.cell c ≠ some f) {c₀ : Cell Slot Idx} {x : Option Nat}
    (hx : ∀ f, x = some f → f ∉ l) (hc : s'.cell = Function.update s.cell c₀ x) :
    ∀ f ∈ l, ∀ c, s'.cell c ≠ some f := by
  intro f hf c
  rw [hc]
  by_cases he : c = c₀
  · subst he
    rw [Function.update_self]
    exact fun hx' => hx f hx' hf
  · rw [Function.update_of_ne he]
    exact h f hf c

theorem Vm.setLeaf (h : Vm b M s l) (hn : s.tab e i = some n) (j : Idx) {w : Word}
    (hw : ∀ f, dec w = some f → (f ∈ M ∧ ¬ s.Struct f ∧ f ∉ l) ∨ s.npages ≤ f) : Vm b M (s.setWord n j w) l where
  toTables := h.toTables.setLeaf hn j fun f hf => (hw f hf).imp (fun h => ⟨h.1, h.2.1⟩) id
  toFreePages := h.toFreePages.congr rfl rfl
  freeCell := by
    refine freeCell_update h.freeCell (fun f hf => ?_) (cell_setWord_leaf h.toTables hn j w)
    rcases hw f hf with ⟨-, -, hl⟩ | hf
    · exact hl
    · intro hl
      have := h.managed f (h.freeM f hl)
      omega

end Leaf

/-! ## Writing a page directory entry -/

theorem not_userIdx_uvpt : ¬ userIdx (pdx uvpt) := by decide

section Node

variable {e : Slot} {i : Idx} {d : Nat} {w : Word}

/-- What a directory entry may point at: an empty managed frame that no cell targets. -/
structure FreshTable (M : List Nat) (s : State) (p : Nat) : Prop where
  managed : p ∈ M
  unused : ∀ c, s.cell c ≠ some p
  empty : ∀ j, s.mem p j = 0#32

theorem FreshTable.not_struct {p : Nat} (h : FreshTable M s p) : ¬ s.Struct p := by
  rintro (⟨e, he⟩ | ⟨e, i, hi⟩)
  · exact h.unused (.root e) he
  · exact h.unused (.node e i) hi

theorem tab_setWord_node (h : Tables b M s) (hd : s.dir e = some d) (hi : userIdx i) (w : Word) (e' : Slot) (i' : Idx) :
    (s.setWord d i w).tab e' i' = if e' = e ∧ i' = i then dec w else s.tab e' i' :=
  node_write_node h.sep hd hi w e' i'

theorem pte_setWord_node (h : Tables b M s) (hd : s.dir e = some d) (hi : userIdx i)
    (hold : ∀ j, s.pte e i j = none) (hw : ∀ p, dec w = some p → FreshTable M s p) :
    (s.setWord d i w).pte = s.pte := by
  funext e' i' j'
  refine leaf_write_node h.sep hd hi hold ?_ e' i' j'
  intro p hp
  have hf := hw p hp
  refine ⟨(dir_ne_of_not_struct hf.not_struct hd).symm, fun j => ?_⟩
  rw [hf.empty j]; exact dec_zero

theorem cell_setWord_node (h : Tables b M s) (hd : s.dir e = some d) (hi : userIdx i)
    (hold : ∀ j, s.pte e i j = none) (hw : ∀ p, dec w = some p → FreshTable M s p) :
    (s.setWord d i w).cell = Function.update s.cell (.node e i) (dec w) := by
  funext c
  cases c with
  | root e' => rw [Function.update_of_ne (by simp)]; rfl
  | node e' i' =>
    rw [cell_node, tab_setWord_node h hd hi]
    by_cases hc : e' = e ∧ i' = i
    · obtain ⟨rfl, rfl⟩ := hc
      rw [if_pos ⟨rfl, rfl⟩, Function.update_self]
    · rw [if_neg hc, Function.update_of_ne (by simpa using hc)]; rfl
  | leaf e' i' j' =>
    rw [cell_leaf, pte_setWord_node h hd hi hold hw, Function.update_of_ne (by simp)]; rfl

/-- A page that becomes structural is managed, and no entry maps it. -/
theorem Tables.newStruct (h : Tables b M s) {x : Option Nat} (hpte : s'.pte = s.pte) (hn : s'.npages = s.npages)
    (hst : ∀ f, s'.Struct f → s.Struct f ∨ x = some f) (hx : ∀ p, x = some p → p ∈ M ∧ ∀ c, s.cell c ≠ some p) :
    (∀ f, s'.Struct f → f ∈ M) ∧
    ∀ e i j w, s'.pte e i j = some w → (pgnum w ∈ M ∧ ¬ s'.Struct (pgnum w)) ∨ s'.npages ≤ pgnum w := by
  refine ⟨fun f hf => ?_, fun e i j w hw => ?_⟩
  · rcases hst f hf with hf | hf
    · exact h.structM f hf
    · exact (hx f hf).1
  · rw [hpte] at hw
    rw [hn]
    rcases h.leafM e i j w hw with ⟨hM, hns⟩ | hf
    · refine Or.inl ⟨hM, fun hs => ?_⟩
      rcases hst _ hs with hs | hs
      · exact hns hs
      · exact (hx _ hs).2 (.leaf e i j) (cell_leaf_eq_some.2 ⟨w, hw, rfl⟩)
    · exact Or.inr hf

theorem Tables.setNode (h : Tables b M s) (hd : s.dir e = some d) (hi : userIdx i)
    (hold : ∀ j, s.pte e i j = none)
    (hw : ∀ p, dec w = some p → FreshTable M s p ∧ w = page2pa p ||| pteP ||| pteU ||| pteW) :
    Tables b M (s.setWord d i w) := by
  have htab := tab_setWord_node h hd hi w
  have hpte := pte_setWord_node h hd hi hold fun p hp => (hw p hp).1
  have hst : ∀ f, (s.setWord d i w).Struct f → s.Struct f ∨ dec w = some f := by
    rintro f (⟨e', he⟩ | ⟨e', i', hf⟩)
    · exact Or.inl (Or.inl ⟨e', he⟩)
    · change (s.setWord d i w).tab e' i' = some f at hf
      rw [htab] at hf
      split at hf
      · exact Or.inr hf
      · exact Or.inl (Or.inr ⟨e', i', hf⟩)
  have hdM : d ∈ M := h.structM d (Or.inl ⟨e, hd⟩)
  obtain ⟨hstructM, hleafM⟩ := h.newStruct hpte rfl hst fun p hp => ⟨(hw p hp).1.managed, (hw p hp).1.unused⟩
  -- no other directory is in the page of this one
  have hword : ∀ e' d' i', s.dir e' = some d' → (i' = i → e' ≠ e) → (s.setWord d i w).mem d' i' = s.mem d' i' := by
    intro e' d' i' hd' hne
    show Function.update s.mem d _ d' i' = _
    by_cases hdd : d' = d
    · subst hdd
      have hii : i' ≠ i := fun hii => hne hii (h.sep.roots e e' d' hd hd')
      rw [Function.update_self, Function.update_of_ne hii]
    · rw [Function.update_of_ne hdd]
  refine
    { sep := ⟨h.sep.roots, ?_, ?_⟩
      structM := hstructM
      leafM := hleafM
      pde := ?_
      managed := h.managed
      outside := ?_
      kern := ?_
      self := ?_
      kernPgdir := h.kernPgdir
      kernM := h.kernM
      npages := h.npages }
  · intro e₁ i₁ e₂ i₂ f h₁ h₂
    change (s.setWord d i w).tab e₁ i₁ = some f at h₁
    change (s.setWord d i w).tab e₂ i₂ = some f at h₂
    rw [htab] at h₁ h₂
    split at h₁ <;> split at h₂
    · rename_i c₁ c₂
      exact ⟨c₂.1.trans c₁.1.symm, c₂.2.trans c₁.2.symm⟩
    · exact absurd h₂ ((hw f h₁).1.unused (.node e₂ i₂))
    · exact absurd h₁ ((hw f h₂).1.unused (.node e₁ i₁))
    · exact h.sep.nodes e₁ i₁ e₂ i₂ f h₁ h₂
  · intro e₁ e₂ i₂ f h₁ h₂
    change (s.setWord d i w).tab e₂ i₂ = some f at h₂
    rw [htab] at h₂
    split at h₂
    · exact (hw f h₂).1.unused (.root e₁) h₁
    · exact h.sep.apart e₁ e₂ i₂ f h₁ h₂
  · intro e' d' i' m hd' hm
    rw [htab] at hm
    split at hm
    · rename_i hc
      obtain ⟨rfl, rfl⟩ := hc
      have : d' = d := Option.some.inj (hd'.symm.trans hd)
      subst this
      show Function.update s.mem d' _ d' i' = _
      rw [Function.update_self, Function.update_self]
      exact (hw m hm).2
    · rename_i hc
      rw [hword e' d' i' hd' (fun h1 h2 => hc ⟨h2, h1⟩)]
      exact h.pde e' d' i' m hd' hm
  · intro g hg
    show Function.update s.mem d _ g = _
    rw [Function.update_of_ne (ne_of_mem_of_not_mem hdM hg).symm]
    exact h.outside g hg
  · intro e' d' i' hd' hi' hu
    rw [hword e' d' i' hd' (fun h1 => absurd (h1 ▸ hi) hi')]
    exact h.kern e' d' i' hd' hi' hu
  · intro e' d' hd'
    rw [hword e' d' (pdx uvpt) hd' (fun h1 => absurd (h1 ▸ hi) not_userIdx_uvpt)]
    exact h.self e' d' hd'

theorem Vm.setNode (h : Vm b M s l) (hd : s.dir e = some d) (hi : userIdx i) (hold : ∀ j, s.pte e i j = none)
    (hw : ∀ p, dec w = some p → FreshTable M s p ∧ w = page2pa p ||| pteP ||| pteU ||| pteW ∧ p ∉ l) :
    Vm b M (s.setWord d i w) l where
  toTables := h.toTables.setNode hd hi hold fun p hp => ⟨(hw p hp).1, (hw p hp).2.1⟩
  toFreePages := h.toFreePages.congr rfl rfl
  freeCell := freeCell_update h.freeCell (fun p hp => (hw p hp).2.2)
    (cell_setWord_node h.toTables hd hi hold fun p hp => (hw p hp).1)

end Node

/-! ## Changing the directory of an environment -/

section Root

variable {e : Slot} {x : Option Nat}

/-- What a new directory looks like: empty below `UTOP`, the boot directory above it, itself at `UVPT`. -/
structure FreshDir (b : State) (M : List Nat) (s : State) (p : Nat) : Prop where
  managed : p ∈ M
  unused : ∀ c, s.cell c ≠ some p
  page : s.mem p = envPgdirPage (b.mem b.kernPgdir) p

theorem FreshDir.empty {p : Nat} (h : FreshDir b M s p) {i : Idx} (hi : userIdx i) : dec (s.mem p i) = none := by
  have hne : i ≠ pdx uvpt := by rintro rfl; exact not_userIdx_uvpt hi
  rw [h.page]
  unfold envPgdirPage
  rw [if_neg hne, if_pos (show i < pdx utop from hi)]; exact dec_zero

theorem tab_change_dir (hm : s'.mem = s.mem) (hd : s'.dir = Function.update s.dir e x)
    (hold : ∀ i, s.tab e i = none) (hx : ∀ p, x = some p → FreshDir b M s p) : s'.tab = s.tab := by
  funext e' i'
  unfold State.tab
  rw [hm, hd]
  exact node_change_root hold (fun p hp i hi => (hx p hp).empty hi) e' i'

theorem pte_change_dir (hm : s'.mem = s.mem) (hd : s'.dir = Function.update s.dir e x)
    (hold : ∀ i, s.tab e i = none) (hx : ∀ p, x = some p → FreshDir b M s p) : s'.pte = s.pte := by
  funext e' i' j'
  unfold State.pte
  rw [hm, hd]
  exact leaf_change_root hold (fun p hp i hi => (hx p hp).empty hi) e' i' j'

theorem cell_change_dir (hm : s'.mem = s.mem) (hd : s'.dir = Function.update s.dir e x)
    (hold : ∀ i, s.tab e i = none) (hx : ∀ p, x = some p → FreshDir b M s p) :
    s'.cell = Function.update s.cell (.root e) x := by
  funext c
  cases c with
  | root e' =>
    rw [cell_root, hd]
    by_cases he : e' = e
    · subst he; simp
    · rw [Function.update_of_ne he, Function.update_of_ne (by simpa using he)]; rfl
  | node e' i' =>
    rw [Function.update_of_ne (by simp)]
    exact congrFun (congrFun (tab_change_dir hm hd hold hx) e') i'
  | leaf e' i' j' =>
    rw [cell_leaf, pte_change_dir hm hd hold hx, Function.update_of_ne (by simp)]; rfl

theorem Tables.setDir (h : Tables b M s) (hm : s'.mem = s.mem) (hd : s'.dir = Function.update s.dir e x)
    (hk : s'.kernPgdir = s.kernPgdir) (hn : s'.npages = s.npages)
    (hold : ∀ i, s.tab e i = none) (hx : ∀ p, x = some p → FreshDir b M s p) : Tables b M s' := by
  have htab := tab_change_dir hm hd hold hx
  have hpte := pte_change_dir hm hd hold hx
  -- a directory of the new state is the new one or an old one
  have hdir : ∀ e' d, s'.dir e' = some d → (e' = e ∧ x = some d) ∨ (e' ≠ e ∧ s.dir e' = some d) := by
    intro e' d hd'
    rw [hd] at hd'
    by_cases he : e' = e
    · subst he; rw [Function.update_self] at hd'; exact Or.inl ⟨rfl, hd'⟩
    · rw [Function.update_of_ne he] at hd'; exact Or.inr ⟨he, hd'⟩
  have hst : ∀ f, s'.Struct f → s.Struct f ∨ x = some f := by
    rintro f (⟨e', he⟩ | ⟨e', i', hf⟩)
    · rcases hdir e' f he with ⟨-, hx⟩ | ⟨-, hd'⟩
      · exact Or.inr hx
      · exact Or.inl (Or.inl ⟨e', hd'⟩)
    · change s'.tab e' i' = some f at hf
      rw [htab] at hf
      exact Or.inl (Or.inr ⟨e', i', hf⟩)
  obtain ⟨hstructM, hleafM⟩ := h.newStruct hpte hn hst fun p hp => ⟨(hx p hp).managed, (hx p hp).unused⟩
  refine
    { sep := ⟨?_, ?_, ?_⟩
      structM := hstructM
      leafM := hleafM
      pde := ?_
      managed := by rw [hn]; exact h.managed
      outside := by rw [hm]; exact h.outside
      kern := ?_
      self := ?_
      kernPgdir := hk.trans h.kernPgdir
      kernM := h.kernM
      npages := hn.trans h.npages }
  · intro e₁ e₂ f h₁ h₂
    rcases hdir e₁ f h₁ with ⟨rfl, hx₁⟩ | ⟨hne₁, hd₁⟩ <;> rcases hdir e₂ f h₂ with ⟨rfl, hx₂⟩ | ⟨hne₂, hd₂⟩
    · rfl
    · exact absurd hd₂ ((hx f hx₁).unused (.root e₂))
    · exact absurd hd₁ ((hx f hx₂).unused (.root e₁))
    · exact h.sep.roots e₁ e₂ f hd₁ hd₂
  · intro e₁ i₁ e₂ i₂ f h₁ h₂
    change s'.tab e₁ i₁ = some f at h₁
    change s'.tab e₂ i₂ = some f at h₂
    rw [htab] at h₁ h₂
    exact h.sep.nodes e₁ i₁ e₂ i₂ f h₁ h₂
  · intro e₁ e₂ i₂ f h₁ h₂
    change s'.tab e₂ i₂ = some f at h₂
    rw [htab] at h₂
    rcases hdir e₁ f h₁ with ⟨rfl, hx₁⟩ | ⟨-, hd₁⟩
    · exact (hx f hx₁).unused (.node e₂ i₂) h₂
    · exact h.sep.apart e₁ e₂ i₂ f hd₁ h₂
  · intro e' d i' n hd' hn'
    rw [htab] at hn'
    rw [hm]
    rcases hdir e' d hd' with ⟨rfl, -⟩ | ⟨-, hd'⟩
    · rw [hold] at hn'; cases hn'
    · exact h.pde e' d i' n hd' hn'
  · intro e' d i' hd' hi hu
    rw [hm]
    rcases hdir e' d hd' with ⟨rfl, hx'⟩ | ⟨-, hd'⟩
    · rw [(hx d hx').page]
      unfold envPgdirPage
      rw [if_neg hu, if_neg (show ¬ i' < pdx utop from hi)]
    · exact h.kern e' d i' hd' hi hu
  · intro e' d hd'
    rw [hm]
    rcases hdir e' d hd' with ⟨rfl, hx'⟩ | ⟨-, hd'⟩
    · rw [(hx d hx').page]
      unfold envPgdirPage
      rw [if_pos rfl]
    · exact h.self e' d hd'

theorem Vm.setDir (h : Vm b M s l) (hp : s'.pages = s.pages) (hl : s'.pageFreeList = s.pageFreeList)
    (hm : s'.mem = s.mem) (hd : s'.dir = Function.update s.dir e x)
    (hk : s'.kernPgdir = s.kernPgdir) (hn : s'.npages = s.npages)
    (hold : ∀ i, s.tab e i = none) (hx : ∀ p, x = some p → FreshDir b M s p ∧ p ∉ l) : Vm b M s' l where
  toTables := h.toTables.setDir hm hd hk hn hold fun p hp => (hx p hp).1
  toFreePages := h.toFreePages.congr hp hl
  freeCell := freeCell_update h.freeCell (fun p hp => (hx p hp).2)
    (cell_change_dir hm hd hold fun p hp => (hx p hp).1)

end Root

end Jos
