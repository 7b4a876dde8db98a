/-
Reference counting over arbitrary pointer cells: `refs t f` is the number of cells of `t` that
point at `f`. Redirecting one cell changes the number by what the cell pointed at before and
after. `Counted R A ref t` says that the counter of every allocated object stands in relation `R`
to the number of its references, where `R` is equality for exact counters and `≤` for counters
that may count too much.
-/
import Mathlib.Data.Fintype.Card
import Mathlib.Tactic

namespace Jos.Lib

variable {R F : Type*} [Fintype R] [DecidableEq F]

/-- The number of cells that point at `f`. -/
def refs (t : R → Option F) (f : F) : Nat := (Finset.univ.filter fun r => t r = some f).card

theorem refs_eq_zero {t : R → Option F} {f : F} : refs t f = 0 ↔ ∀ r, t r ≠ some f := by
  unfold refs; rw [Finset.card_eq_zero, Finset.filter_eq_empty_iff]
  simp

theorem refs_eq_one {t : R → Option F} {f : F} {r : R} (h : t r = some f) (honly : ∀ c, t c = some f → c = r) : refs t f = 1 := by
  unfold refs
  rw [Finset.card_eq_one]
  refine ⟨r, Finset.ext fun c => ?_⟩
  rw [Finset.mem_filter, Finset.mem_singleton]
  constructor
  · exact fun hc => honly c hc.2
  · rintro rfl
    exact ⟨Finset.mem_univ c, h⟩

/-- Redirecting cell `r` to `x`. -/
theorem refs_update [DecidableEq R] (t : R → Option F) (r : R) (x : Option F) (f : F) :
    refs (Function.update t r x) f + (if t r = some f then 1 else 0) =
      refs t f + (if x = some f then 1 else 0) := by
  have split : ∀ u : R → Option F, refs u f =
      ((Finset.univ.erase r).filter fun q => u q = some f).card + (if u r = some f then 1 else 0) := by
    intro u
    unfold refs
    conv_lhs => rw [← Finset.insert_erase (Finset.mem_univ r), Finset.filter_insert]
    split
    · rw [Finset.card_insert_of_notMem (by simp)]
    · rfl
  have rest : ((Finset.univ.erase r).filter fun q => Function.update t r x q = some f) =
      (Finset.univ.erase r).filter fun q => t q = some f := by
    apply Finset.filter_congr
    intro q hq
    rw [Function.update_of_ne (Finset.ne_of_mem_erase hq)]
  rw [split (Function.update t r x), split t, rest, Function.update_self]
  omega

theorem refs_update_add [DecidableEq R] {t : R → Option F} {r : R} (h : t r = none) (f g : F) :
    refs (Function.update t r (some f)) g = refs t g + if f = g then 1 else 0 := by
  have := refs_update t r (some f) g
  rw [h, if_neg (by simp)] at this
  simpa using this

theorem refs_update_drop [DecidableEq R] {t : R → Option F} {r : R} {f : F} (h : t r = some f) (g : F) :
    refs (Function.update t r none) g + (if f = g then 1 else 0) = refs t g := by
  have := refs_update t r none g
  rw [h, if_neg (by simp : ¬ (none : Option F) = some g)] at this
  simpa using this

/-- Redirecting a cell away from `f`, or from elsewhere, adds no reference to `f`. -/
theorem refs_update_le [DecidableEq R] (t : R → Option F) (r : R) {x : Option F} {f : F} (h : x ≠ some f) :
    refs (Function.update t r x) f ≤ refs t f := by
  have := refs_update t r x f
  rw [if_neg h] at this
  omega

/-- More cells that point at `f`. -/
theorem refs_lt {t t' : R → Option F} {f : F} {r : R} (h : ∀ c, t c = some f → t' c = some f) (hr : t' r = some f)
    (hn : t r ≠ some f) : refs t f < refs t' f := by
  refine Finset.card_lt_card ⟨fun c hc => ?_, fun hsub => hn ?_⟩
  · rw [Finset.mem_filter] at hc ⊢
    exact ⟨hc.1, h c hc.2⟩
  · exact (Finset.mem_filter.1 (hsub (Finset.mem_filter.2 ⟨Finset.mem_univ r, hr⟩))).2

/-! ## Counters -/

/-- A relation between the number of references and a counter that adding and dropping a reference
keep, and under which a counter of zero means that there is none. -/
structure CountRel (Q : Nat → Nat → Prop) : Prop where
  base : Q 0 0
  succ : ∀ c r, Q (c + 1) (r + 1) ↔ Q c r
  zero : ∀ c, Q c 0 → c = 0

theorem countRel_eq : CountRel (· = ·) := ⟨rfl, fun _ _ => by omega, fun _ h => h⟩

theorem countRel_le : CountRel (· ≤ ·) := ⟨le_refl _, fun _ _ => by omega, fun _ h => by omega⟩

/-- Every allocated object has a positive counter that stands in relation `Q` to its references. -/
def Counted (Q : Nat → Nat → Prop) (A : F → Prop) (ref : F → Nat) (t : R → Option F) : Prop :=
  ∀ f, A f → 1 ≤ ref f ∧ Q (refs t f) (ref f)

variable {Q : Nat → Nat → Prop} {A A' : F → Prop} {ref ref' : F → Nat} {t : R → Option F} {f : F} {r : R}

/-- A new reference to an allocated object. -/
theorem Counted.add [DecidableEq R] (hQ : CountRel Q) (h : Counted Q A ref t) (ht : t r = none)
    (hf : ref' f = ref f + 1) (hr : ∀ g, g ≠ f → ref' g = ref g) :
    Counted Q A ref' (Function.update t r (some f)) := by
  intro g hg
  obtain ⟨h1, h2⟩ := h g hg
  rw [refs_update_add ht]
  by_cases hgf : g = f
  · subst hgf
    rw [hf, if_pos rfl]
    exact ⟨by omega, (hQ.succ _ _).2 h2⟩
  · rw [hr g hgf, if_neg (Ne.symm hgf), Nat.add_zero]
    exact ⟨h1, h2⟩

/-- The first reference to an object that is being allocated. -/
theorem Counted.first [DecidableEq R] (hQ : CountRel Q) (h : Counted Q A ref t) (ht : t r = none)
    (h0 : ∀ c, t c ≠ some f) (hA : ∀ g, A' g → g ≠ f → A g) (hf : ref' f = 1) (hr : ∀ g, g ≠ f → ref' g = ref g) :
    Counted Q A' ref' (Function.update t r (some f)) := by
  intro g hg
  rw [refs_update_add ht]
  by_cases hgf : g = f
  · subst hgf
    rw [hf, if_pos rfl, refs_eq_zero.2 h0]
    exact ⟨le_refl _, (hQ.succ 0 0).2 hQ.base⟩
  · rw [hr g hgf, if_neg (Ne.symm hgf), Nat.add_zero]
    exact h g (hA g hg hgf)

/-- Dropping a reference to an allocated object, which is released when its counter reaches zero. -/
theorem Counted.drop [DecidableEq R] (hQ : CountRel Q) (h : Counted Q A ref t) (ht : t r = some f)
    (hA : ∀ g, A' g → A g) (hlast : A' f → ref f ≠ 1) (hf : ref' f = ref f - 1)
    (hr : ∀ g, g ≠ f → ref' g = ref g) : Counted Q A' ref' (Function.update t r none) := by
  intro g hg
  obtain ⟨h1, h2⟩ := h g (hA g hg)
  have hd := refs_update_drop ht g
  by_cases hgf : g = f
  · subst hgf
    have hne := hlast hg
    rw [if_pos rfl] at hd
    obtain ⟨k, hk⟩ : ∃ k, ref g = k + 1 := ⟨ref g - 1, by omega⟩
    rw [hf, hk]
    rw [← hd, hk, hQ.succ] at h2
    exact ⟨by omega, h2⟩
  · rw [if_neg (Ne.symm hgf), Nat.add_zero] at hd
    rw [hr g hgf, hd]
    exact ⟨h1, h2⟩

/-- An object whose last counted reference is dropped has no reference left. -/
theorem Counted.unused [DecidableEq R] (hQ : CountRel Q) (h : Counted Q A ref t) (ht : t r = some f) (hf : A f)
    (h1 : ref f = 1) : ∀ c, Function.update t r none c ≠ some f := by
  have hd := refs_update_drop ht f
  have h2 := (h f hf).2
  rw [if_pos rfl] at hd
  rw [← hd, h1, show (1 : Nat) = 0 + 1 from rfl, hQ.succ] at h2
  exact refs_eq_zero.1 (hQ.zero _ h2)

end Jos.Lib
