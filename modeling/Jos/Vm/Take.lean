/-
Taking a page for a new mapping: `page_alloc` hands out the head of the free list, which is then
held until `page_insert` maps it, or put back by `page_free`.
-/
import Jos.Vm.Envs

namespace Jos

open Lib

variable {b s s' : State} {M l : List Nat} {le : List Slot} {Q : Nat → Nat → Prop} {e : Slot} {d p : Nat}

/-- The state after `page_alloc(flags)` returned page `p`. -/
def State.take (s : State) (flags : Word) (p : Nat) : State :=
  if flags &&& allocZero ≠ 0#32 then (s.pop p).setMem p fun _ => 0#32 else s.pop p

theorem take_zero (s : State) (p : Nat) : s.take 0#32 p = s.pop p := by
  unfold State.take; rw [if_neg (by decide)]

theorem pageAlloc_take (h : s.pageFreeList = some p) (hp : p < s.npages) (flags : Word) :
    (pageAlloc flags).run s = .ok (some p) (s.take flags p) := by
  have hk : (page2kva p).run (s.pop p) = .ok p (s.pop p) := run_page2kva hp
  unfold State.pop at hk
  unfold State.take State.pop
  by_cases hf : flags &&& allocZero = 0#32
  · simp [pageAlloc, h, hf]
  · simp [pageAlloc, h, hk, hf]

theorem rest_take (s : State) (flags : Word) (p : Nat) : Rest s (s.take flags p) := by
  unfold State.take
  split <;> exact ⟨rfl, rfl, rfl, rfl, rfl, rfl, fun _ => rfl, fun _ => rfl⟩

theorem take_pages (s : State) (flags : Word) (p : Nat) : (s.take flags p).pages = s.pages := by
  unfold State.take; split <;> rfl

theorem take_mem (s : State) (flags : Word) {p f : Nat} (hf : f ≠ p) : (s.take flags p).mem f = s.mem f := by
  unfold State.take
  split
  · show Function.update s.mem p _ f = _
    rw [Function.update_of_ne hf]
  · rfl

/-- The page taken is held: no view sees it. -/
structure Taken (b : State) (M : List Nat) (Q : Nat → Nat → Prop) (s s' : State) (l : List Nat) (p : Nat) : Prop where
  vm : Vm b M s' l
  counts : Counts Q M l (some p) s'
  rest : Rest s s'
  tab : s'.tab = s.tab
  pte : s'.pte = s.pte
  cell : s'.cell = s.cell
  mem : ∀ f, f ≠ p → s'.mem f = s.mem f
  pages : s'.pages = s.pages
  linkable : Linkable s' (some p) p

theorem take_spec (h : Vm b M s (p :: l)) (hc : Counts Q M (p :: l) none s) (flags : Word) :
    Taken b M Q s (s.take flags p) l p := by
  have hpl : p ∈ p :: l := List.mem_cons_self ..
  have hst : ¬ (s.pop p).Struct p := h.free_not_struct hpl
  have hr := rest_take s flags p
  have htab : (s.take flags p).tab = s.tab := by
    unfold State.take
    split
    · exact (tab_setMem_other hst _).trans (tab_congr rfl rfl)
    · exact tab_congr rfl rfl
  have hpte : (s.take flags p).pte = s.pte := by
    unfold State.take
    split
    · exact (pte_setMem_other hst _).trans (pte_congr rfl rfl)
    · exact pte_congr rfl rfl
  have hcell := cell_ext hr.dir htab hpte
  refine ⟨?_, ?_, hr, htab, hpte, hcell, fun f hf => take_mem s flags hf, take_pages s flags p, ?_⟩
  · unfold State.take
    split
    · exact h.pop.setMem_other (h.freeM p hpl) hst _
    · exact h.pop
  · refine Counts.congr ?_ (take_pages s flags p) hcell
    rintro f ⟨h1, h2, h3⟩
    refine hc f ⟨h1, ?_, by simp⟩
    rw [List.mem_cons]
    rintro (rfl | hf)
    · exact h3 rfl
    · exact h2 hf
  · refine Or.inr ⟨rfl, ?_, by rw [hcell]; exact h.freeCell p hpl⟩
    unfold State.ref
    rw [take_pages, h.freeRef p hpl]; rfl

/-- `page_free` of the page held puts it back. -/
theorem Taken.putBack (h : Taken b M Q s s' l p) (hM : p ∈ M) (hl : p ∉ l) :
    (pageFree p).run s' = .ok () (s'.push p) ∧ Vm b M (s'.push p) (p :: l) ∧ Counts Q M (p :: l) none (s'.push p) := by
  obtain hk | ⟨-, hr, hz⟩ := h.linkable
  · cases hk
  have hr0 : (s'.pages p).ppRef = 0#16 := by
    apply BitVec.eq_of_toNat_eq
    exact hr
  refine ⟨pageFree_push hr0, h.vm.push hM hl hr0 hz, ?_⟩
  rintro f ⟨h1, h2, -⟩
  rw [List.mem_cons, not_or] at h2
  have := h.counts f ⟨h1, h2.2, fun hh => h2.1 (Option.some.inj hh).symm⟩
  rw [ref_push]
  exact this

/-- With no other page free, taking and putting back changes nothing. -/
theorem pop_push (h : FreePages M s [p]) : (s.pop p).push p = s := by
  have hlink : (s.pages p).ppLink = none := h.chain.2
  have hhead : s.pageFreeList = some p := h.chain.1
  unfold State.pop State.push State.setPage
  have hp : ({ s.pages p with ppLink := none } : PageInfo) = s.pages p := by rw [← hlink]
  simp only [hlink, hp, Function.update_eq_self, ← hhead]

end Jos
