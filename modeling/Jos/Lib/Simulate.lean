/-
Two programs over different states that take the same course: from related states, what the first returns the second
returns too, in related states again. A program that reads and writes its state only through given operations is so
related to itself over another implementation of them.
-/
import Mathlib.Tactic

namespace Jos.Lib

/-- A program over a state, which may fail. -/
abbrev Prog (σ α : Type) := StateT σ Option α

/-- The program that changes the state by `f`. -/
def Prog.update {σ : Type} (f : σ → σ) : Prog σ Unit := fun s => some ((), f s)

variable {σ τ α β : Type} {R : σ → τ → Prop}

def Sim (R : σ → τ → Prop) (m : Prog σ α) (m' : Prog τ α) : Prop :=
  ∀ ⦃s t⦄, R s t → ∀ ⦃a s'⦄, m.run s = some (a, s') → ∃ t', m'.run t = some (a, t') ∧ R s' t'

theorem run_bind_some {m : Prog σ α} {f : α → Prog σ β} {s s' : σ} {b : β} (h : (m >>= f).run s = some (b, s')) :
    ∃ a t, m.run s = some (a, t) ∧ (f a).run t = some (b, s') := by
  rw [StateT.run_bind] at h
  obtain ⟨⟨a, t⟩, hm, hf⟩ := Option.bind_eq_some_iff.1 h
  exact ⟨a, t, hm, hf⟩

theorem run_bind_of {m : Prog σ α} {f : α → Prog σ β} {s t : σ} {a : α} (h : m.run s = some (a, t)) :
    (m >>= f).run s = (f a).run t := by
  rw [StateT.run_bind, h]
  rfl

theorem Sim.pure (a : α) : Sim R (Pure.pure a) (Pure.pure a) := by
  intro s t hR b s' h
  cases h
  exact ⟨t, rfl, hR⟩

theorem Sim.fail {m : Prog τ α} : Sim R failure m := by
  intro s t _ a s' h
  cases h

theorem Sim.bind {m : Prog σ α} {m' : Prog τ α} {f : α → Prog σ β} {f' : α → Prog τ β} (hm : Sim R m m')
    (hf : ∀ a, Sim R (f a) (f' a)) : Sim R (m >>= f) (m' >>= f') := by
  intro s t hR b s' h
  obtain ⟨a, s₁, h₁, h₂⟩ := run_bind_some h
  obtain ⟨t₁, ht₁, hR₁⟩ := hm hR h₁
  obtain ⟨t', ht', hR'⟩ := hf a hR₁ h₂
  exact ⟨t', by rw [run_bind_of ht₁, ht'], hR'⟩

theorem Sim.ite {c : Prop} [Decidable c] {m n : Prog σ α} {m' n' : Prog τ α} (hm : Sim R m m') (hn : Sim R n n') :
    Sim R (if c then m else n) (if c then m' else n') := by
  by_cases hc : c
  · rw [if_pos hc, if_pos hc]
    exact hm
  · rw [if_neg hc, if_neg hc]
    exact hn

theorem Sim.update {f : σ → σ} {g : τ → τ} (h : ∀ ⦃s t⦄, R s t → R (f s) (g t)) : Sim R (Prog.update f) (Prog.update g) := by
  intro s t hR a s' hs
  cases hs
  exact ⟨g t, rfl, h hR⟩

/-- A property of the state that the operations keep, as a relation of a state with itself. -/
def Same (I : σ → Prop) (s t : σ) : Prop := s = t ∧ I s

theorem Sim.keeps {I : σ → Prop} {m : Prog σ α} (h : Sim (Same I) m m) {s s' : σ} {a : α} (hs : I s)
    (hr : m.run s = some (a, s')) : I s' := by
  obtain ⟨_, _, -, hI⟩ := h ⟨rfl, hs⟩ hr
  exact hI

/-! ## Programs that return -/

/-- From every state the program returns a value for which `P` holds. -/
def Yields (m : Prog σ α) (P : α → Prop) : Prop := ∀ s, ∃ a s', m.run s = some (a, s') ∧ P a

variable {P : α → Prop} {Q : β → Prop} {m : Prog σ α} {f : α → Prog σ β}

theorem Yields.weaken {P' : α → Prop} (h : Yields m P) (hP : ∀ a, P a → P' a) : Yields m P' := by
  intro s
  obtain ⟨a, s', hrun, ha⟩ := h s
  exact ⟨a, s', hrun, hP a ha⟩

theorem Yields.pure {a : α} (h : P a) : Yields (Pure.pure a : Prog σ α) P := fun s => ⟨a, s, rfl, h⟩

theorem Yields.update {f : σ → σ} : Yields (Prog.update f) fun _ => True := fun s => ⟨(), f s, rfl, trivial⟩

theorem Yields.bind (hm : Yields m P) (hf : ∀ a, P a → Yields (f a) Q) : Yields (m >>= f) Q := by
  intro s
  obtain ⟨a, t, hrun, ha⟩ := hm s
  obtain ⟨b, s', hrun', hb⟩ := hf a ha t
  exact ⟨b, s', by rw [run_bind_of hrun, hrun'], hb⟩

theorem Yields.ite {c : Prop} [Decidable c] {m n : Prog σ α} (hm : c → Yields m P) (hn : ¬ c → Yields n P) :
    Yields (if c then m else n) P := by
  by_cases hc : c
  · rw [if_pos hc]
    exact hm hc
  · rw [if_neg hc]
    exact hn hc

end Jos.Lib
