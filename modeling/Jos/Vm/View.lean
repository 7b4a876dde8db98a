/-
The address spaces a kernel state represents. Each environment in use has a page directory; the
present entries of its user part point at page tables, whose present entries are the user
mappings. These pointers are the cells of a two-level table over physical memory. `Vm` is the
invariant that ties them to the page allocator and to the kernel half of the address space.
-/
import Jos.Kern.Syscall
import Jos.Lib.Chain
import Jos.Lib.Count
import Jos.Lib.TwoLevel
import Jos.Mmu.Entry

namespace Jos

open Lib

/-! ## Views -/

/-- The page directory of an environment in use. -/
def State.dir (s : State) (e : Slot) : Option Nat :=
  if (s.envs e).envStatus = .free then none else (s.envs e).envPgdir

/-- The page table at user index `i` of the directory of `e`. -/
def State.tab (s : State) (e : Slot) (i : Idx) : Option Nat := node dec userIdx s.dir s.mem e i

/-- The present page table entry of `e` at user indices `i`, `j`. -/
def State.pte (s : State) (e : Slot) (i j : Idx) : Option Word := leaf dec userIdx s.dir s.mem e i j

/-- What each pointer below `UTOP` targets: the directory of an environment, a present directory
entry, a present table entry. -/
def State.cell (s : State) : Cell Slot Idx → Option Nat := target dec userIdx s.dir s.mem

/-- A frame in use as a page directory or page table. -/
def State.Struct (s : State) (f : Nat) : Prop := Structural dec userIdx s.dir s.mem f

/-- The free list, as the links spell it out. -/
def FreeList (s : State) (l : List Nat) : Prop := Chain (fun p => (s.pages p).ppLink) s.pageFreeList l

/-- The number of pointers below `UTOP` that target frame `f`. -/
def State.refs (s : State) (f : Nat) : Nat := Lib.refs s.cell f

@[simp] theorem cell_root (s : State) (e : Slot) : s.cell (.root e) = s.dir e := rfl
@[simp] theorem cell_node (s : State) (e : Slot) (i : Idx) : s.cell (.node e i) = s.tab e i := rfl
theorem cell_leaf (s : State) (e : Slot) (i j : Idx) : s.cell (.leaf e i j) = (s.pte e i j).bind dec := rfl

theorem pte_eq_some {s : State} {e : Slot} {i j : Idx} {w : Word} :
    s.pte e i j = some w ↔ ∃ n, s.tab e i = some n ∧ s.mem n j = w ∧ present w = true := by
  unfold State.pte State.tab
  rw [leaf_eq_some]
  simp only [dec]
  constructor
  · rintro ⟨n, hn, hw, h⟩
    refine ⟨n, hn, hw, ?_⟩
    by_contra hc
    rw [if_neg hc] at h; cases h
  · rintro ⟨n, hn, hw, h⟩
    exact ⟨n, hn, hw, by rw [if_pos h]; rfl⟩

theorem cell_leaf_eq_some {s : State} {e : Slot} {i j : Idx} {f : Nat} :
    s.cell (.leaf e i j) = some f ↔ ∃ w, s.pte e i j = some w ∧ pgnum w = f := by
  rw [cell_leaf, Option.bind_eq_some_iff]
  constructor
  · rintro ⟨w, hw, h⟩
    exact ⟨w, hw, (dec_eq_some.1 h).2⟩
  · rintro ⟨w, hw, h⟩
    obtain ⟨n, -, -, hp⟩ := pte_eq_some.1 hw
    exact ⟨w, hw, dec_eq_some.2 ⟨hp, h⟩⟩

theorem tab_userIdx {s : State} {e : Slot} {i : Idx} {n : Nat} (h : s.tab e i = some n) : userIdx i := by
  obtain ⟨_, _, hi, _⟩ := node_eq_some.1 h
  exact hi

/-! ## The invariant -/

/-- The page tables over the frames `M` that the page allocator manages since boot state `b`.
Directories and tables are managed frames, each with one use. A user mapping targets a managed
frame that is neither, or an address outside memory. Frames that are not managed are as at boot,
and so is the kernel half of every directory, apart from the slot at `UVPT`. -/
structure Tables (b : State) (M : List Nat) (s : State) : Prop where
  sep : Separate dec userIdx s.dir s.mem
  structM : ∀ f, s.Struct f → f ∈ M
  leafM : ∀ e i j w, s.pte e i j = some w → (pgnum w ∈ M ∧ ¬ s.Struct (pgnum w)) ∨ s.npages ≤ pgnum w
  pde : ∀ e d i n, s.dir e = some d → s.tab e i = some n → s.mem d i = page2pa n ||| pteP ||| pteU ||| pteW
  managed : ∀ f ∈ M, f < s.npages
  outside : ∀ f, f ∉ M → s.mem f = b.mem f
  kern : ∀ e d i, s.dir e = some d → ¬ userIdx i → i ≠ pdx uvpt → s.mem d i = b.mem b.kernPgdir i
  self : ∀ e d, s.dir e = some d → s.mem d (pdx uvpt) = page2pa d ||| pteP ||| pteU
  kernPgdir : s.kernPgdir = b.kernPgdir
  kernM : b.kernPgdir ∉ M
  npages : s.npages = b.npages

/-- The pages `l` are free: linked without repetition, managed and without a reference. -/
structure FreePages (M : List Nat) (s : State) (l : List Nat) : Prop where
  chain : FreeList s l
  nodup : l.Nodup
  freeM : ∀ f ∈ l, f ∈ M
  freeRef : ∀ f ∈ l, (s.pages f).ppRef = 0#16

/-- The invariant of the address spaces: page tables, free pages, and no cell targets a free page. -/
structure Vm (b : State) (M : List Nat) (s : State) (l : List Nat) : Prop
    extends Tables b M s, FreePages M s l where
  freeCell : ∀ f ∈ l, ∀ c, s.cell c ≠ some f

section

variable {b s t : State} {M l l' : List Nat}

/-- The page tables are read off memory and the directories. -/
theorem Tables.congr (h : Tables b M s) (hm : t.mem = s.mem) (hd : t.dir = s.dir)
    (hk : t.kernPgdir = s.kernPgdir) (hn : t.npages = s.npages) : Tables b M t := by
  have htab : t.tab = s.tab := by funext e i; unfold State.tab; rw [hm, hd]
  have hpte : t.pte = s.pte := by funext e i j; unfold State.pte; rw [hm, hd]
  have hst : t.Struct = s.Struct := by funext f; unfold State.Struct; rw [hm, hd]
  exact
    { sep := by rw [hm, hd]; exact h.sep
      structM := by rw [hst]; exact h.structM
      leafM := by rw [hpte, hst, hn]; exact h.leafM
      pde := by rw [hm, hd, htab]; exact h.pde
      managed := by rw [hn]; exact h.managed
      outside := by rw [hm]; exact h.outside
      kern := by rw [hm, hd]; exact h.kern
      self := by rw [hm, hd]; exact h.self
      kernPgdir := hk.trans h.kernPgdir
      kernM := h.kernM
      npages := hn.trans h.npages }

theorem FreePages.congr (h : FreePages M s l) (hp : t.pages = s.pages) (hl : t.pageFreeList = s.pageFreeList) :
    FreePages M t l where
  chain := by unfold FreeList; rw [hp, hl]; exact h.chain
  nodup := h.nodup
  freeM := h.freeM
  freeRef := by rw [hp]; exact h.freeRef

/-- The invariant reads only the allocator, memory and the directories. -/
theorem Vm.congr (h : Vm b M s l) (hp : t.pages = s.pages) (hl : t.pageFreeList = s.pageFreeList)
    (hm : t.mem = s.mem) (hd : t.dir = s.dir) (hk : t.kernPgdir = s.kernPgdir) (hn : t.npages = s.npages) :
    Vm b M t l where
  toTables := h.toTables.congr hm hd hk hn
  toFreePages := h.toFreePages.congr hp hl
  freeCell := by unfold State.cell; rw [hm, hd]; exact h.freeCell

theorem Tables.lt_pow {f : Nat} (h : Tables b M s) (hf : f ∈ M) : f < 2 ^ 20 := by
  have := h.managed f hf
  have := s.npages_le
  omega

theorem Vm.free_not_struct (h : Vm b M s l) {f : Nat} (hf : f ∈ l) : ¬ s.Struct f := by
  rintro (⟨e, he⟩ | ⟨e, i, hi⟩)
  · exact h.freeCell f hf (.root e) he
  · exact h.freeCell f hf (.node e i) hi

/-- The free list is determined by the state. -/
theorem FreePages.unique (h : FreePages M s l) (hl : FreeList s l') : l' = l := Chain.unique hl h.chain

/-- The page that `page_alloc` would hand out is free. -/
theorem FreePages.head (h : FreePages M s l) {p : Nat} (hp : s.pageFreeList = some p) : p ∈ l := by
  have hc := h.chain
  unfold FreeList at hc
  rw [hp] at hc
  cases l with
  | nil => cases hc
  | cons q l =>
    cases hc.1
    exact List.mem_cons_self ..

end

end Jos
