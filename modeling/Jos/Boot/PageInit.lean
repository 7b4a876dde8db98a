/-
`page_init` of kern/pmap.c: the first free list. The code computes where the kernel's memory ends, but the list starts
at page 700 whatever that is.
-/
import Jos.Boot.Alloc
import Jos.Kern.BootMap
import Jos.Lib.Chain

namespace Jos

open Lib

/-! ## The code -/

/-- `pages[]` and `page_free_list`. -/
structure PageArray where
  pages : Nat → PageInfo
  pageFreeList : Option Nat

/-- `boot_alloc(0)` after the allocations of `mem_init`: `kern_pgdir`, `pages[]` and `envs[]`. -/
def bootTop (kernEnd : Word) (npages : Nat) : Word :=
  let nextfree := (bootAlloc kernEnd pgsize 0#32).2
  let nextfree := (bootAlloc kernEnd (BitVec.ofNat 32 (npages * sizeofPageInfo)) nextfree).2
  let nextfree := (bootAlloc kernEnd (BitVec.ofNat 32 (nenv * sizeofEnv)) nextfree).2
  (bootAlloc kernEnd 0#32 nextfree).1

/-- `PADDR(kva)`; it panics on an address below `KERNBASE`. -/
def paddrOf (kva : Word) : Option Word := if kva < kernbase then none else some (kva - kernbase)

/-- `PGNUM(IOPHYSMEM)`. -/
def lowPages : Nat := pgnum 0x0A0000#32

/-- `PGNUM(MPENTRY_PADDR)`. -/
def mpentry : Nat := pgnum 0x7000#32

/-- The body of both loops. -/
def PageArray.free (a : PageArray) (i : Nat) : PageArray where
  pages := Function.update a.pages i { ppRef := 0#16, ppLink := a.pageFreeList }
  pageFreeList := some i

/-- `page_init`; the first page after the kernel's memory is computed and not used. -/
def pageInit (kernEnd : Word) (npages : Nat) (a : PageArray) : Option PageArray := do
  let up ← (paddrOf (bootTop kernEnd npages)).map pgnum
  let _ := up
  let a := (List.range' 1 (lowPages - 1)).foldl (fun a i => if i = mpentry then a else a.free i) a
  return (List.range' 700 (npages - 700)).foldl PageArray.free a

/-! ## What is asked for -/

/-- The free list is a list of pages of memory, without repetition, of which none is in use: they lie in base memory or
from page `up` on, and the page of `MPENTRY_PADDR` is not among them. -/
def PageArray.Safe (a : PageArray) (npages npagesBasemem up : Nat) : Prop :=
  ∃ l, Chain (fun p => (a.pages p).ppLink) a.pageFreeList l ∧ l.Nodup ∧
    ∀ i ∈ l, 1 ≤ i ∧ i < npages ∧ i ≠ mpentry ∧ (i < npagesBasemem ∨ up ≤ i)

/-- The pages that `page_init` puts on the list. -/
def Listed (npages i : Nat) : Prop := (1 ≤ i ∧ i < lowPages ∧ i ≠ mpentry) ∨ (700 ≤ i ∧ i < npages)

variable {npages i : Nat} {a : PageArray} {l : List Nat}

/-! ## The list -/

/-- Freeing pages in order puts them in front, the last one first. -/
theorem chain_free : ∀ (is : List Nat) {a : PageArray} {l : List Nat}, Chain (fun p => (a.pages p).ppLink) a.pageFreeList l →
    (∀ i ∈ is, i ∉ l) → is.Nodup →
    Chain (fun p => ((is.foldl PageArray.free a).pages p).ppLink) (is.foldl PageArray.free a).pageFreeList (is.reverse ++ l)
  | [], a, l, h, _, _ => h
  | i :: is, a, l, h, hil, hnd => by
    have hi := hil i (List.mem_cons_self ..)
    have hpush : Chain (fun p => ((a.free i).pages p).ppLink) (a.free i).pageFreeList (i :: l) := by
      have hc := h.push hi
      refine Chain.congr (fun y _ => ?_) hc
      show (Function.update a.pages i _ y).ppLink = Function.update (fun p => (a.pages p).ppLink) i a.pageFreeList y
      by_cases hy : y = i
      · rw [hy, Function.update_self, Function.update_self]
      · rw [Function.update_of_ne hy, Function.update_of_ne hy]
    have hrest := chain_free is hpush (fun j hj hjl => ?_) (List.nodup_cons.1 hnd).2
    · rw [List.reverse_cons, List.append_assoc]
      exact hrest
    · rcases List.mem_cons.1 hjl with rfl | hjl
      · exact (List.nodup_cons.1 hnd).1 hj
      · exact hil j (List.mem_cons_of_mem _ hj) hjl

theorem chain_free_empty {is : List Nat} (hnd : is.Nodup) (pages : Nat → PageInfo) :
    Chain (fun p => ((is.foldl PageArray.free ⟨pages, none⟩).pages p).ppLink)
      (is.foldl PageArray.free ⟨pages, none⟩).pageFreeList is.reverse := by
  have h : Chain (fun p => ((⟨pages, none⟩ : PageArray).pages p).ppLink) none [] := rfl
  have hc := chain_free is h (fun _ _ => List.not_mem_nil) hnd
  rwa [List.append_nil] at hc

theorem foldl_skip (is : List Nat) (a : PageArray) :
    is.foldl (fun a i => if i = mpentry then a else a.free i) a = (is.filter (· ≠ mpentry)).foldl PageArray.free a := by
  induction is generalizing a with
  | nil => rfl
  | cons i is ih =>
    by_cases hi : i = mpentry
    · rw [List.foldl_cons, if_pos hi, ih, List.filter_cons_of_neg (by simpa using hi)]
    · rw [List.foldl_cons, if_neg hi, ih, List.filter_cons_of_pos (by simpa using hi), List.foldl_cons]

/-- The pages in the order in which they are freed. -/
@[irreducible] def freedPages (npages : Nat) : List Nat :=
  (List.range' 1 (lowPages - 1)).filter (· ≠ mpentry) ++ List.range' 700 (npages - 700)

theorem mem_freedPages : i ∈ freedPages npages ↔ Listed npages i := by
  have hlow : lowPages = 160 := by decide
  unfold freedPages Listed
  rw [List.mem_append, List.mem_filter, List.mem_range'_1, List.mem_range'_1, decide_eq_true_iff]
  omega

theorem nodup_freedPages (npages : Nat) : (freedPages npages).Nodup := by
  have hlow : lowPages = 160 := by decide
  unfold freedPages
  refine List.nodup_append.2 ⟨(List.nodup_range' ..).filter _, List.nodup_range' .., fun i hi j hj => ?_⟩
  have h₁ := List.mem_range'_1.1 (List.mem_filter.1 hi).1
  have h₂ := List.mem_range'_1.1 hj
  omega

theorem pageInit_some {kernEnd : Word} {top : Word} (h : paddrOf (bootTop kernEnd npages) = some top) :
    pageInit kernEnd npages a = some ((freedPages npages).foldl PageArray.free a) := by
  unfold pageInit freedPages
  rw [h, List.foldl_append, ← foldl_skip]
  rfl

/-- After `page_init` the free list is safe exactly when there are 160 pages and none of the pages that it frees lies
between base memory and the end of the kernel's memory. -/
theorem pageInit_safe_iff (kernEnd top : Word) (npages npagesBasemem : Nat) (pages : Nat → PageInfo)
    (h : paddrOf (bootTop kernEnd npages) = some top) :
    (∃ a, pageInit kernEnd npages ⟨pages, none⟩ = some a ∧ a.Safe npages npagesBasemem (pgnum top)) ↔
      lowPages ≤ npages ∧ ∀ i, npagesBasemem ≤ i → i < pgnum top → ¬ Listed npages i := by
  have hlow : lowPages = 160 := by decide
  have hmp : mpentry = 7 := by decide
  have hchain := chain_free_empty (nodup_freedPages npages) pages
  rw [pageInit_some h]
  constructor
  · rintro ⟨a, ha, l, hl, hnd, hall⟩
    obtain rfl := Option.some.inj ha
    obtain rfl := hl.unique hchain
    have hall' : ∀ i, Listed npages i → 1 ≤ i ∧ i < npages ∧ i ≠ mpentry ∧ (i < npagesBasemem ∨ pgnum top ≤ i) :=
      fun i hi => hall i (List.mem_reverse.2 (mem_freedPages.2 hi))
    refine ⟨?_, fun i hb ht hi => ?_⟩
    · have := (hall' 159 (Or.inl ⟨by omega, by omega, by omega⟩)).2.1
      omega
    · have := (hall' i hi).2.2.2
      omega
  · rintro ⟨hn, hall⟩
    refine ⟨_, rfl, _, hchain, List.nodup_reverse.2 (nodup_freedPages npages), fun i hi => ?_⟩
    have hi' := mem_freedPages.1 (List.mem_reverse.1 hi)
    refine ⟨?_, ?_, ?_, ?_⟩
    · rcases hi' with hi' | hi' <;> omega
    · rcases hi' with hi' | hi' <;> omega
    · rcases hi' with hi' | hi' <;> omega
    · by_contra hc
      exact hall i (by omega) (by omega) hi'

theorem pageInit_safe_iff_smallKernel :
    ∃ a, pageInit 0xf0113000#32 32768 ⟨fun _ => {}, none⟩ = some a ∧ a.Safe 32768 160 371 :=
  (pageInit_safe_iff 0xf0113000#32 0x173000#32 32768 160 (fun _ => {}) (by decide)).2
    ⟨by decide, fun i _ hi hf => by
      have hup : pgnum 0x173000#32 = 371 := by decide
      have hlow : lowPages = 160 := by decide
      unfold Listed at hf
      omega⟩

/-- A kernel that ends at page 640: `pages[]` and `envs[]` reach over page 700, which is free all the same. -/
theorem pageInit_frees_kernel : ¬ ∃ a, pageInit 0xf0280000#32 32768 ⟨fun _ => {}, none⟩ = some a ∧ a.Safe 32768 160 736 := by
  rintro ⟨a, ha, l, hl, -, hall⟩
  rw [pageInit_some (show paddrOf (bootTop 0xf0280000#32 32768) = some 0x2e0000#32 by decide)] at ha
  obtain rfl := Option.some.inj ha
  obtain rfl := hl.unique (chain_free_empty (nodup_freedPages 32768) fun _ => {})
  have h := hall 700 (List.mem_reverse.2 (mem_freedPages.2 (Or.inr ⟨le_rfl, by decide⟩)))
  omega

end Jos
