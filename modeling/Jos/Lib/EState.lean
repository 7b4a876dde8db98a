/-
Running programs with a state and an exception that keeps the state: what a composition returns
is what its parts return in turn, and a loop over a list keeps what each turn keeps.
-/
import Mathlib.Tactic

namespace Jos.Lib

variable {ε σ α β : Type}

@[simp] theorem run_map (f : α → β) (x : EStateM ε σ α) (s : σ) :
    (f <$> x).run s =
      match x.run s with
      | .ok a s' => .ok (f a) s'
      | .error e s' => .error e s' := by
  show EStateM.map f x s = _
  unfold EStateM.map EStateM.run
  cases x s <;> rfl

/-- The state in which a program ends, by returning or by an exception. -/
def finalState : EStateM.Result ε σ α → σ
  | .ok _ s => s
  | .error _ s => s

/-- What a program returns. -/
def okValue : EStateM.Result ε σ α → Option α
  | .ok a _ => some a
  | .error _ _ => none

theorem eq_ok_of_okValue {r : EStateM.Result ε σ α} {a : α} (h : okValue r = some a) : r = .ok a (finalState r) := by
  cases r with
  | ok a' s => rw [show a' = a from Option.some.inj h]; rfl
  | error e s => cases h

theorem run_bind_ok {x : EStateM ε σ α} {f : α → EStateM ε σ β} {s s' : σ} {a : α} (h : x.run s = .ok a s') :
    (x >>= f).run s = (f a).run s' := by
  rw [EStateM.run_bind, h]

theorem run_bind_error {x : EStateM ε σ α} {f : α → EStateM ε σ β} {s s' : σ} {e : ε} (h : x.run s = .error e s') :
    (x >>= f).run s = .error e s' := by
  rw [EStateM.run_bind, h]

theorem run_bind_eq_ok {x : EStateM ε σ α} {f : α → EStateM ε σ β} {s s' : σ} {b : β} :
    (x >>= f).run s = .ok b s' ↔ ∃ a s₁, x.run s = .ok a s₁ ∧ (f a).run s₁ = .ok b s' := by
  rw [EStateM.run_bind]
  cases h : x.run s <;> simp

theorem run_bind_eq_error {x : EStateM ε σ α} {f : α → EStateM ε σ β} {s s' : σ} {e : ε} :
    (x >>= f).run s = .error e s' ↔
      x.run s = .error e s' ∨ ∃ a s₁, x.run s = .ok a s₁ ∧ (f a).run s₁ = .error e s' := by
  rw [EStateM.run_bind]
  cases h : x.run s <;> simp

/-- A loop over a list: `I` holds of the elements to come and the state before each turn; a turn
keeps it, or ends the loop with an exception for which `E` holds. -/
theorem run_forM (I : List α → σ → Prop) (E : ε → σ → Prop) {f : α → EStateM ε σ Unit}
    (step : ∀ x xs s, I (x :: xs) s →
      (∃ s', (f x).run s = .ok () s' ∧ I xs s') ∨ ∃ e s', (f x).run s = .error e s' ∧ E e s') :
    ∀ xs s, I xs s →
      (∃ s', (forM xs f).run s = .ok () s' ∧ I [] s') ∨ ∃ e s', (forM xs f).run s = .error e s' ∧ E e s'
  | [], s, h => Or.inl ⟨s, rfl, h⟩
  | x :: xs, s, h => by
    rcases step x xs s h with ⟨s₁, hx, h₁⟩ | ⟨e, s₁, hx, h₁⟩
    · have hrun : (forM (x :: xs) f).run s = (forM xs f).run s₁ := by rw [List.forM_cons, run_bind_ok hx]
      rw [hrun]
      exact run_forM I E step xs s₁ h₁
    · exact Or.inr ⟨e, s₁, by rw [List.forM_cons, run_bind_error hx], h₁⟩

/-! ## Programs that change nothing -/

/-- A program that returns in the state in which it started. -/
def Reads (x : EStateM ε σ α) : Prop := ∀ s a s', x.run s = .ok a s' → s' = s

/-- A program that, started in a state with `I`, has changed nothing when it returns with `F`. -/
def Undoes (I : σ → Prop) (F : α → Prop) (x : EStateM ε σ α) : Prop :=
  ∀ s a s', I s → x.run s = .ok a s' → F a → s' = s

variable {I : σ → Prop} {F : β → Prop} {x : EStateM ε σ α} {f : α → EStateM ε σ β}

theorem Reads.pure (a : α) : Reads (pure a : EStateM ε σ α) := by
  rintro s _ _ ⟨⟩; rfl

theorem Reads.throw (e : ε) : Reads (throw e : EStateM ε σ α) := by
  rintro s _ _ ⟨⟩

theorem Reads.bind (hx : Reads x) (hf : ∀ a, Reads (f a)) : Reads (x >>= f) := by
  intro s b s' h
  obtain ⟨a, s₁, h₁, h₂⟩ := run_bind_eq_ok.1 h
  rw [hf a s₁ b s' h₂, hx s a s₁ h₁]

theorem Reads.undoes {x : EStateM ε σ β} (hx : Reads x) : Undoes I F x := fun s a s' _ h _ => hx s a s' h

theorem Undoes.bind (hx : Reads x) (hf : ∀ a, Undoes I F (f a)) : Undoes I F (x >>= f) := by
  intro s b s' hI h hF
  obtain ⟨a, s₁, h₁, h₂⟩ := run_bind_eq_ok.1 h
  have := hx s a s₁ h₁
  subst this
  exact hf a s₁ b s' hI h₂ hF

/-- The program fails only when its first part does, and does nothing after that. -/
theorem Undoes.bind_fail {G : α → Prop} (hx : Undoes I G x)
    (hf : ∀ a s b s', (f a).run s = .ok b s' → F b → G a ∧ s' = s) : Undoes I F (x >>= f) := by
  intro s b s' hI h hF
  obtain ⟨a, s₁, h₁, h₂⟩ := run_bind_eq_ok.1 h
  obtain ⟨hG, rfl⟩ := hf a s₁ b s' h₂ hF
  exact hx s a s' hI h₁ hG

/-- What a program returns has property `P`. -/
def Returns (P : α → Prop) (x : EStateM ε σ α) : Prop := ∀ s a s', x.run s = .ok a s' → P a

theorem Returns.pure {P : α → Prop} {a : α} (h : P a) : Returns P (pure a : EStateM ε σ α) := by
  rintro s _ _ ⟨⟩; exact h

theorem Returns.bind {P : β → Prop} (hf : ∀ a, Returns P (f a)) : Returns P (x >>= f) := by
  intro s b s' h
  obtain ⟨a, s₁, -, h₂⟩ := run_bind_eq_ok.1 h
  exact hf a s₁ b s' h₂

/-- A program that never returns with `F`. -/
theorem Undoes.never {x : EStateM ε σ β} (hx : Returns (fun a => ¬ F a) x) : Undoes I F x :=
  fun s a s' _ h hF => absurd hF (hx s a s' h)

/-- A branch. -/
theorem Undoes.ite {c : Prop} [Decidable c] {x y : EStateM ε σ β} (hx : Undoes I F x) (hy : Undoes I F y) :
    Undoes I F (if c then x else y) := by
  split
  · exact hx
  · exact hy

/-! ## Programs that keep a relation -/

/-- However the program ends when it starts in state `s`, `R` relates the states before and after it,
and it stops only by an exception for which `E` holds. -/
structure KeepsAt (R : σ → σ → Prop) (E : ε → Prop) (x : EStateM ε σ α) (s : σ) : Prop where
  state : R s (finalState (x.run s))
  stop : ∀ e s', x.run s = .error e s' → E e

/-- The program does so from every state. -/
def Keeps (R : σ → σ → Prop) (E : ε → Prop) (x : EStateM ε σ α) : Prop := ∀ s, KeepsAt R E x s

section Keeps

variable {R : σ → σ → Prop} {E : ε → Prop} {s : σ}

theorem KeepsAt.of_ok {a : α} {s' : σ} (h : x.run s = .ok a s') (hR : R s s') : KeepsAt R E x s :=
  ⟨by rw [h]; exact hR, by rw [h]; rintro _ _ ⟨⟩⟩

theorem KeepsAt.of_error {e : ε} {s' : σ} (h : x.run s = .error e s') (hR : R s s') (he : E e) : KeepsAt R E x s :=
  ⟨by rw [h]; exact hR, by rw [h]; rintro _ _ ⟨⟩; exact he⟩

theorem KeepsAt.bind (hR : ∀ s₁ s₂ s₃, R s₁ s₂ → R s₂ s₃ → R s₁ s₃) (hx : KeepsAt R E x s)
    (hf : ∀ a s', x.run s = .ok a s' → KeepsAt R E (f a) s') : KeepsAt R E (x >>= f) s := by
  cases hr : x.run s with
  | ok a s₁ =>
    have h₁ := hx.state
    have h₂ := hf a s₁ hr
    rw [hr] at h₁
    refine ⟨?_, ?_⟩
    · rw [run_bind_ok hr]; exact hR _ _ _ h₁ h₂.state
    · rw [run_bind_ok hr]; exact h₂.stop
  | error e s₁ =>
    have h₁ := hx.state
    rw [hr] at h₁
    exact .of_error (run_bind_error hr) h₁ (hx.stop e s₁ hr)

theorem Keeps.pure (hR : ∀ s, R s s) (a : α) : Keeps R E (pure a : EStateM ε σ α) := fun s => .of_ok rfl (hR s)

theorem Keeps.throw (hR : ∀ s, R s s) {e : ε} (he : E e) : Keeps R E (throw e : EStateM ε σ α) := fun s =>
  .of_error rfl (hR s) he

theorem Keeps.modify {f : σ → σ} (hf : ∀ s, R s (f s)) : Keeps R E (modify f : EStateM ε σ PUnit) := fun s =>
  .of_ok rfl (hf s)

theorem Keeps.bind (hR : ∀ s₁ s₂ s₃, R s₁ s₂ → R s₂ s₃ → R s₁ s₃) (hx : Keeps R E x) (hf : ∀ a, Keeps R E (f a)) :
    Keeps R E (x >>= f) := fun s => (hx s).bind hR fun a s' _ => hf a s'

/-- What follows a `get` starts in the state that was read. -/
theorem Keeps.get {f : σ → EStateM ε σ β} (hf : ∀ s, KeepsAt R E (f s) s) : Keeps R E (get >>= f) := fun s =>
  ⟨(hf s).state, (hf s).stop⟩

theorem Keeps.ite {c : Prop} [Decidable c] {x y : EStateM ε σ β} (hx : c → Keeps R E x) (hy : ¬ c → Keeps R E y) :
    Keeps R E (if c then x else y) := by
  split
  · rename_i h; exact hx h
  · rename_i h; exact hy h

theorem Keeps.forM_mem (hR : ∀ s, R s s) (htrans : ∀ s₁ s₂ s₃, R s₁ s₂ → R s₂ s₃ → R s₁ s₃) {f : α → EStateM ε σ PUnit} :
    ∀ xs : List α, (∀ a ∈ xs, Keeps R E (f a)) → Keeps R E (forM xs f)
  | [], _ => .pure hR _
  | x :: xs, hf => by
    rw [List.forM_cons]
    exact (hf x (List.mem_cons_self ..)).bind htrans fun _ =>
      Keeps.forM_mem hR htrans xs fun a ha => hf a (List.mem_cons_of_mem _ ha)

theorem Keeps.forM (hR : ∀ s, R s s) (htrans : ∀ s₁ s₂ s₃, R s₁ s₂ → R s₂ s₃ → R s₁ s₃) {f : α → EStateM ε σ PUnit}
    (hf : ∀ a, Keeps R E (f a)) (xs : List α) : Keeps R E (forM xs f) :=
  .forM_mem hR htrans xs fun a _ => hf a

end Keeps

end Jos.Lib
