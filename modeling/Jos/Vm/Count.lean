/-
Reference counts of pages: `Counts Q M l held s` says that `pp_ref` of every managed page that is
neither free nor held by the running function is positive and stands in relation `Q` to the number
of cells that target it. `page_decref` releases a page exactly when its last reference is dropped.
-/
import Jos.Vm.Walk

namespace Jos

open Lib

variable {b s t : State} {M l : List Nat} {Q : Nat → Nat → Prop} {held : Option Nat}

/-- The counter of page `f`. -/
def State.ref (s : State) (f : Nat) : Nat := (s.pages f).ppRef.toNat

/-- The counters of the pages in use; a page that was taken off the free list and is not yet mapped
is `held`. -/
def Counts (Q : Nat → Nat → Prop) (M l : List Nat) (held : Option Nat) (s : State) : Prop :=
  Counted Q (fun f => f ∈ M ∧ f ∉ l ∧ held ≠ some f) s.ref s.cell

/-- A page in use. -/
structure InUse (M l : List Nat) (held : Option Nat) (f : Nat) : Prop where
  managed : f ∈ M
  notFree : f ∉ l
  notHeld : held ≠ some f

theorem Counts.congr {s' : State} (h : Counts Q M l held s) (hp : s'.pages = s.pages) (hc : s'.cell = s.cell) :
    Counts Q M l held s' := by
  unfold Counts State.ref
  rw [hp, hc]; exact h

theorem Counts.ref_pos (h : Counts Q M l held s) {f : Nat} (hf : InUse M l held f) : 1 ≤ s.ref f :=
  (h f ⟨hf.managed, hf.notFree, hf.notHeld⟩).1

/-- Exact counters do not count too little. -/
theorem Counts.relax (h : Counts (· = ·) M l held s) : Counts (· ≤ ·) M l held s :=
  fun f hf => ⟨(h f hf).1, le_of_eq (h f hf).2⟩

theorem ref_lt (s : State) (f : Nat) : s.ref f < 65536 := (s.pages f).ppRef.isLt

/-! ## Counter arithmetic -/

theorem ref_setRef (s : State) (p f : Nat) (r : BitVec 16) : (s.setRef p r).ref f = if f = p then r.toNat else s.ref f := by
  unfold State.ref
  rw [setRef_ppRef]
  split <;> rfl

theorem ref_push (s : State) (p f : Nat) : (s.push p).ref f = s.ref f := by
  unfold State.ref; rw [push_ppRef]

theorem toNat_succ {r : BitVec 16} (h : r.toNat < 65535) : (r + 1#16).toNat = r.toNat + 1 := by
  rw [BitVec.toNat_add]
  have : (1#16).toNat = 1 := rfl
  omega

theorem toNat_pred {r : BitVec 16} (h : 1 ≤ r.toNat) : (r - 1#16).toNat = r.toNat - 1 := by
  rw [BitVec.toNat_sub]
  have : (1#16).toNat = 1 := rfl
  have := r.isLt
  omega

theorem pred_eq_zero {r : BitVec 16} : r - 1#16 = 0#16 ↔ r.toNat = 1 := by
  constructor
  · intro h
    have := congrArg BitVec.toNat h
    rw [BitVec.toNat_sub] at this
    have h1 : (1#16).toNat = 1 := rfl
    have h0 : (0#16).toNat = 0 := rfl
    have := r.isLt
    omega
  · intro h
    apply BitVec.eq_of_toNat_eq
    rw [toNat_pred (by omega), h]; rfl

/-! ## Dropping a reference -/

theorem decref_of_last {f : Nat} (h : s.ref f = 1) : s.decref f = (s.setRef f ((s.pages f).ppRef - 1#16)).push f := by
  unfold State.decref; rw [if_pos (pred_eq_zero.2 h)]

theorem decref_of_more {f : Nat} (h : s.ref f ≠ 1) : s.decref f = s.setRef f ((s.pages f).ppRef - 1#16) := by
  unfold State.decref; rw [if_neg (fun hc => h (pred_eq_zero.1 hc))]

/-- The free list after `page_decref`. -/
def freeAfter (s : State) (l : List Nat) (f : Nat) : List Nat := if s.ref f = 1 then f :: l else l

theorem mem_freeAfter {f g : Nat} : g ∈ freeAfter s l f ↔ g ∈ l ∨ (g = f ∧ s.ref f = 1) := by
  unfold freeAfter
  split
  · rename_i h; rw [List.mem_cons]; tauto
  · rename_i h; tauto

theorem ref_decref {f : Nat} (h : 1 ≤ s.ref f) (g : Nat) :
    (s.decref f).ref g = if g = f then s.ref f - 1 else s.ref g := by
  by_cases h1 : s.ref f = 1
  · rw [decref_of_last h1, ref_push, ref_setRef, toNat_pred h]; rfl
  · rw [decref_of_more h1, ref_setRef, toNat_pred h]; rfl

theorem ref_decref_other {f g : Nat} (h : g ≠ f) : (s.decref f).ref g = s.ref g := by
  unfold State.decref
  split
  · rw [ref_push, ref_setRef, if_neg h]
  · rw [ref_setRef, if_neg h]

@[simp] theorem mem_decref (s : State) (f : Nat) : (s.decref f).mem = s.mem := by
  unfold State.decref; split <;> rfl

@[simp] theorem dir_decref (s : State) (f : Nat) : (s.decref f).dir = s.dir := by
  unfold State.decref; split <;> rfl

theorem cell_decref (s : State) (f : Nat) : (s.decref f).cell = s.cell :=
  cell_congr (mem_decref s f) (dir_decref s f)

/-- Dropping a reference to a page keeps the invariant once no cell targets a page released by it. -/
theorem Vm.decref (h : Vm b M s l) {f : Nat} (hM : f ∈ M) (hl : f ∉ l) (hz : s.ref f = 1 → ∀ c, s.cell c ≠ some f) :
    Vm b M (s.decref f) (freeAfter s l f) := by
  have hv := h.setRef hl ((s.pages f).ppRef - 1#16)
  unfold freeAfter
  split
  · rename_i h1
    rw [decref_of_last h1]
    refine hv.push hM hl ?_ (hz h1)
    rw [setRef_ppRef, if_pos rfl]
    exact pred_eq_zero.2 h1
  · rename_i h1
    rw [decref_of_more h1]
    exact hv

/-- The counters when cell `c` is dropped and its page released. -/
theorem Counts.decref (hQ : CountRel Q) (h : Counts Q M l held s) {c : Cell Slot Idx} {f : Nat} (hc : s.cell c = some f)
    (hf : InUse M l held f) (hp : t.pages = s.pages) (h₂ : t.cell = Function.update s.cell c none) :
    Counts Q M (freeAfter s l f) held (t.decref f) := by
  have href : t.ref = s.ref := by unfold State.ref; rw [hp]
  have hpos : 1 ≤ t.ref f := by rw [href]; exact h.ref_pos hf
  unfold Counts
  rw [cell_decref, h₂]
  refine Counted.drop hQ h hc ?_ ?_ ?_ ?_
  · rintro g ⟨h1, h2, h3⟩
    exact ⟨h1, fun hg => h2 (mem_freeAfter.2 (Or.inl hg)), h3⟩
  · rintro ⟨-, h2, -⟩ h1
    exact h2 (mem_freeAfter.2 (Or.inr ⟨rfl, h1⟩))
  · rw [ref_decref hpos, if_pos rfl, href]
  · intro g hg
    rw [ref_decref hpos, if_neg hg, href]

/-- A page whose counter is one has no other cell than the one dropped. -/
theorem Counts.unused (hQ : CountRel Q) (h : Counts Q M l held s) {c : Cell Slot Idx} {f : Nat} (hc : s.cell c = some f)
    (hf : InUse M l held f) (h₂ : t.cell = Function.update s.cell c none) (h1 : s.ref f = 1) :
    ∀ c', t.cell c' ≠ some f := by
  rw [h₂]
  exact Counted.unused hQ h hc ⟨hf.managed, hf.notFree, hf.notHeld⟩ h1

/-! ## Adding a reference -/

/-- The counters when an empty cell is pointed at a page in use. -/
theorem Counts.incref (hQ : CountRel Q) (h : Counts Q M l held s) {c : Cell Slot Idx} {f : Nat} (hc : s.cell c = none)
    (hr : s.ref f < 65535) (hp : t.pages = (s.setRef f ((s.pages f).ppRef + 1#16)).pages)
    (h₂ : t.cell = Function.update s.cell c (some f)) : Counts Q M l held t := by
  have href : t.ref = (s.setRef f ((s.pages f).ppRef + 1#16)).ref := by unfold State.ref; rw [hp]
  unfold Counts
  rw [h₂, href]
  refine Counted.add hQ h hc ?_ ?_
  · rw [ref_setRef, if_pos rfl, toNat_succ hr]; rfl
  · intro g hg
    rw [ref_setRef, if_neg hg]

/-- The counters when an empty cell is pointed at a page that no cell targets, which gets its first
reference. The page is no longer held. -/
theorem Counts.first {l' : List Nat} {held' : Option Nat} (hQ : CountRel Q) (h : Counts Q M l held s)
    {c : Cell Slot Idx} {f : Nat} (hc : s.cell c = none) (hz : ∀ c, s.cell c ≠ some f)
    (hA : ∀ g, InUse M l' held' g → g ≠ f → InUse M l held g) (hf : t.ref f = 1)
    (hr : ∀ g, g ≠ f → t.ref g = s.ref g) (h₂ : t.cell = Function.update s.cell c (some f)) :
    Counts Q M l' held' t := by
  unfold Counts
  rw [h₂]
  refine Counted.first hQ h hc hz ?_ hf hr
  rintro g ⟨h1, h2, h3⟩ hg
  obtain ⟨k1, k2, k3⟩ := hA g ⟨h1, h2, h3⟩ hg
  exact ⟨k1, k2, k3⟩

/-- A page that `page_insert` may map: one in use, or the page held, which has no reference. -/
def Linkable (s : State) (held : Option Nat) (f : Nat) : Prop :=
  held = none ∨ (held = some f ∧ s.ref f = 0 ∧ ∀ c, s.cell c ≠ some f)

/-- The counter of page `f` has room for a reference from cell `c`. -/
def Room (s : State) (f : Nat) (c : Cell Slot Idx) : Prop := s.ref f < 65535 ∨ s.cell c = some f

theorem Linkable.held_unused {f : Nat} (h : Linkable s held f) : ∀ p, held = some p → ∀ c, s.cell c ≠ some p := by
  rintro p rfl
  rcases h with h | ⟨h, -, hz⟩
  · cases h
  · cases h; exact hz

/-- The counters when an empty cell is pointed at a page. -/
theorem Counts.link (hQ : CountRel Q) (h : Counts Q M l held s) {c : Cell Slot Idx} {f : Nat} (hl : Linkable s held f)
    (hroom : s.ref f < 65535) (hc : s.cell c = none) (hp : t.pages = (s.setRef f ((s.pages f).ppRef + 1#16)).pages)
    (h₂ : t.cell = Function.update s.cell c (some f)) : Counts Q M l none t := by
  rcases hl with rfl | ⟨rfl, h0, hz⟩
  · exact h.incref hQ hc hroom hp h₂
  · have href : t.ref = (s.setRef f ((s.pages f).ppRef + 1#16)).ref := by unfold State.ref; rw [hp]
    refine h.first hQ hc hz ?_ ?_ ?_ h₂
    · rintro g ⟨h1, h2, -⟩ hg
      exact ⟨h1, h2, fun hh => hg (Option.some.inj hh).symm⟩
    · rw [href, ref_setRef, if_pos rfl, toNat_succ hroom]
      change s.ref f + 1 = 1
      omega
    · intro g hg
      rw [href, ref_setRef, if_neg hg]

/-- The counters when a cell is pointed outside the managed pages: they may count too much. -/
theorem Counts.forge (h : Counts (· ≤ ·) M l held s) {c : Cell Slot Idx} {x : Option Nat} (hx : ∀ f ∈ M, x ≠ some f)
    (hr : ∀ g, s.ref g ≤ t.ref g) (hA : ∀ p, held = some p → 1 ≤ t.ref p ∧ ∀ c, s.cell c ≠ some p)
    (h₂ : t.cell = Function.update s.cell c x) : Counts (· ≤ ·) M l none t := by
  rintro g ⟨h1, h2, -⟩
  rw [h₂]
  have hle := refs_update_le s.cell c (hx g h1)
  by_cases hg : held = some g
  · obtain ⟨k1, k2⟩ := hA g hg
    have := refs_eq_zero.2 k2
    exact ⟨k1, by omega⟩
  · obtain ⟨k1, k2⟩ := h g ⟨h1, h2, hg⟩
    have := hr g
    exact ⟨by omega, by omega⟩

end Jos
