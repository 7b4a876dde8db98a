/-
What the functions of kern/env.c do to the records of the environments, in any state: `env_alloc`
takes the first free slot or fails without a change, `env_free` gives the slot back.
-/
import Jos.Sys.Choice
import Jos.Sys.Quiet

namespace Jos

open Lib Kern

variable {s s' s'' : State} {e : Slot}

theorem Same.refl (s : State) : Same s s := ⟨rfl, rfl, rfl, rfl, fun _ => rfl, fun _ => rfl⟩

theorem Same.trans (h : Same s s') (h' : Same s' s'') : Same s s'' :=
  ⟨h'.npages.trans h.npages, h'.kernPgdir.trans h.kernPgdir, h'.cpunum.trans h.cpunum,
    h'.kernelLock.trans h.kernelLock, fun c => (h'.cpuEnv c).trans (h.cpuEnv c),
    fun c => (h'.cpuStatus c).trans (h.cpuStatus c)⟩

theorem Same.curenv (h : Same s s') : s'.curenv = s.curenv := by
  unfold State.curenv
  rw [h.cpuEnv, h.cpunum]

theorem same_setEnv (s : State) (e : Slot) (v : Env) : Same s (s.setEnv e v) := ⟨rfl, rfl, rfl, rfl, fun _ => rfl, fun _ => rfl⟩

/-- The result of a quiet program. -/
theorem quiet_ok {α : Type} {x : Kern α} {a : α} (h : Quiet x) (hr : x.run s = .ok a s') : Rest s s' := by
  have := (h s).state
  rw [hr] at this
  exact this

theorem quiet_error {α : Type} {x : Kern α} {y : Stop} (h : Quiet x) (hr : x.run s = .error y s') :
    y = .panic ∧ Rest s s' := by
  have := (h s).state
  rw [hr] at this
  exact ⟨(h s).stop y s' hr, this⟩

/-! ## Creating an environment -/

/-- What `env_alloc` does to the records. -/
inductive AllocRes (s : State) (parentId : Word) : EStateM.Result Stop State (Int × Option Slot) → Prop where
  | fails (r : Int) (s' : State) (hr : r < 0) (h : Rest s s') : AllocRes s parentId (.ok (r, none) s')
  | takes (e : Slot) (p : Nat) (s' : State) (hl : s.envFreeList = some e) (h : Same s s')
      (henvs : s'.envs = Function.update s.envs e (newEnv e parentId { s.envs e with envPgdir := some p }))
      (hfree : s'.envFreeList = (s.envs e).envLink) : AllocRes s parentId (.ok (0, some e) s')
  | panic (s' : State) (h : Rest s s') : AllocRes s parentId (.error .panic s')

/-- What `env_setup_vm` does to the records. -/
theorem envSetupVm_res (s : State) (e : Slot) :
    (∃ r s', (envSetupVm e).run s = .ok r s' ∧ r < 0 ∧ Rest s s') ∨
    (∃ p s', (envSetupVm e).run s = .ok 0 s' ∧ Rest (s.setEnv e { s.envs e with envPgdir := some p }) s') ∨
    ∃ s', (envSetupVm e).run s = .error .panic s' ∧ Rest s s' := by
  unfold envSetupVm
  cases ha : (pageAlloc allocZero).run s with
  | error y s₁ =>
    obtain ⟨rfl, h₁⟩ := quiet_error (quiet_pageAlloc _) ha
    exact Or.inr (Or.inr ⟨s₁, run_bind_error ha, h₁⟩)
  | ok p s₁ =>
    have h₁ := quiet_ok (quiet_pageAlloc _) ha
    rw [run_bind_ok ha]
    cases p with
    | none => exact Or.inl ⟨-eNoMem, s₁, rfl, by decide, h₁⟩
    | some p =>
      dsimp only
      let s₂ : State := s₁.setRef p ((s₁.pages p).ppRef + 1#16)
      have h₂ : Rest s s₂ := h₁.trans (rest_setRef s₁ _ _)
      rw [run_bind_ok (show (modify fun s : State => s.setRef p ((s.pages p).ppRef + 1#16) : Kern Unit).run s₁ =
        .ok () s₂ from rfl)]
      cases hk : (page2kva p).run s₂ with
      | error y s₃ =>
        obtain ⟨rfl, h₃⟩ := quiet_error (quiet_kaddr _) hk
        exact Or.inr (Or.inr ⟨s₃, run_bind_error hk, h₂.trans h₃⟩)
      | ok kva s₃ =>
        have h₃ := h₂.trans (quiet_ok (quiet_kaddr _) hk)
        rw [run_bind_ok hk]
        refine Or.inr (Or.inl ⟨kva, _, rfl, ?_⟩)
        refine ⟨h₃.npages, h₃.kernPgdir, ?_, h₃.envFreeList, h₃.cpunum, h₃.kernelLock, h₃.cpuEnv, h₃.cpuStatus⟩
        show Function.update s₃.envs e { s₃.envs e with envPgdir := some kva } = _
        rw [h₃.envs]
        rfl

theorem envAlloc_res (s : State) (parentId : Word) : AllocRes s parentId ((envAlloc parentId).run s) := by
  unfold envAlloc
  rw [run_bind_ok (EStateM.run_get s)]
  cases hl : s.envFreeList with
  | none => exact .fails _ s (by decide) (.refl s)
  | some e =>
    dsimp only
    rcases envSetupVm_res s e with ⟨r, s₁, hr, hneg, h₁⟩ | ⟨p, s₁, hr, h₁⟩ | ⟨s₁, hr, h₁⟩
    · rw [run_bind_ok hr, if_pos hneg]
      exact .fails r s₁ hneg h₁
    · rw [run_bind_ok hr, if_neg (by decide), run_bind_ok (run_modifyEnv ..), run_bind_ok (EStateM.run_modify _ _)]
      have hrec : s₁.envs = Function.update s.envs e { s.envs e with envPgdir := some p } := h₁.envs
      refine .takes e p _ hl ⟨h₁.npages, h₁.kernPgdir, h₁.cpunum, h₁.kernelLock, h₁.cpuEnv, h₁.cpuStatus⟩ ?_ ?_
      · show Function.update s₁.envs e (newEnv e parentId (s₁.envs e)) = _
        rw [hrec, Function.update_self, Function.update_idem]
      · show (Function.update s₁.envs e (newEnv e parentId (s₁.envs e)) e).envLink = _
        rw [hrec, Function.update_self, Function.update_self]; rfl
    · rw [run_bind_error hr]
      exact .panic s₁ h₁

/-! ## Freeing an environment -/

/-- The record of a freed environment. -/
def freedEnv (link : Option Slot) (v : Env) : Env := { v with envPgdir := none, envStatus := .free, envLink := link }

/-- What `env_free` does to the records. -/
inductive FreeRes (s : State) (e : Slot) : EStateM.Result Stop State Unit → Prop where
  | done (s' : State) (h : Same s s') (henvs : s'.envs = Function.update s.envs e (freedEnv s.envFreeList (s.envs e)))
      (hfree : s'.envFreeList = some e) : FreeRes s e (.ok () s')
  | panic (s' : State) (h : Same s s') : FreeRes s e (.error .panic s')

theorem envRetire_res (s : State) (e : Slot) : FreeRes s e ((envRetire e).run s) := by
  unfold envRetire
  rw [run_bind_ok (run_env e)]
  cases hp : (paddr (s.envs e).envPgdir).run s with
  | error y s₁ =>
    obtain ⟨rfl, h₁⟩ := quiet_error (quiet_paddr _) hp
    rw [run_bind_error hp]
    exact .panic s₁ h₁.same
  | ok pa s₁ =>
    have h₁ := quiet_ok (quiet_paddr _) hp
    let s₂ : State := s₁.setEnv e { s₁.envs e with envPgdir := none }
    have h₂ : Same s s₂ := h₁.same.trans (same_setEnv ..)
    rw [run_bind_ok hp, run_bind_ok (show (modifyEnv e fun v => { v with envPgdir := none }).run s₁ = .ok () s₂ from rfl)]
    have hq : Quiet (do pageDecref (← pa2page pa)) := quiet_bind (quiet_pa2page _) fun _ => quiet_pageDecref _
    rw [← bind_assoc]
    cases hr : (pa2page pa >>= pageDecref).run s₂ with
    | error y s₃ =>
      obtain ⟨rfl, h₃⟩ := quiet_error hq hr
      rw [run_bind_error hr]
      exact .panic s₃ (h₂.trans h₃.same)
    | ok _ s₃ =>
      have h₃ := quiet_ok hq hr
      rw [run_bind_ok hr]
      have henvs : s₃.envs = Function.update s.envs e { s.envs e with envPgdir := none } := by
        rw [h₃.envs]
        show Function.update s₁.envs e { s₁.envs e with envPgdir := none } = _
        rw [h₁.envs]
      have hlist : s₃.envFreeList = s.envFreeList := h₃.envFreeList.trans h₁.envFreeList
      have hsame := h₂.trans h₃.same
      refine .done _ ⟨hsame.npages, hsame.kernPgdir, hsame.cpunum, hsame.kernelLock, hsame.cpuEnv, hsame.cpuStatus⟩ ?_ rfl
      show Function.update s₃.envs e { s₃.envs e with envStatus := .free, envLink := s₃.envFreeList } = _
      rw [henvs, hlist, Function.update_self, Function.update_idem]
      rfl

theorem envFree_res (s : State) (e : Slot) : FreeRes s e ((envFree e).run s) := by
  have hq : Quiet (do
      let s ← get
      if s.curenv = some e then
        lcr3 (page2pa s.kernPgdir)
      envFlush e : Kern Unit) :=
    quiet_get fun s => .ite (fun _ => quiet_bind (quiet_lcr3 _) fun _ => quiet_envFlush e) fun _ => quiet_envFlush e
  have hsplit : (envFree e).run s = ((do
      let s ← get
      if s.curenv = some e then
        lcr3 (page2pa s.kernPgdir)
      envFlush e : Kern Unit) >>= fun _ => envRetire e).run s := by
    unfold envFree
    rw [bind_assoc, run_bind_ok (EStateM.run_get s), run_bind_ok (EStateM.run_get s)]
    split
    · rw [bind_assoc]
    · rfl
  rw [hsplit]
  cases hr : (do
      let s ← get
      if s.curenv = some e then
        lcr3 (page2pa s.kernPgdir)
      envFlush e : Kern Unit).run s with
  | error y s₁ =>
    obtain ⟨rfl, h₁⟩ := quiet_error hq hr
    rw [run_bind_error hr]
    exact .panic s₁ h₁.same
  | ok _ s₁ =>
    have h₁ := quiet_ok hq hr
    rw [run_bind_ok hr]
    have hret := envRetire_res s₁ e
    generalize (envRetire e).run s₁ = r at hret
    cases hret with
    | done s' h henvs hfree =>
      rw [h₁.envs, h₁.envFreeList] at henvs
      exact .done s' (h₁.same.trans h) henvs hfree
    | panic s' h => exact .panic s' (h₁.same.trans h)

end Jos
