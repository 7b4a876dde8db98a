/-
Sharing a page many times. Runs map and unmap pages by the functions of kern/pmap.c and by the
system calls; as long as every mapping finds room in the 16-bit counter of its page, no page is
freed while it is mapped. Without that the counter wraps around, and the page is freed early.
-/
import Jos.Run.Conserve
import Jos.Sys.MapCalls

namespace Jos

open Lib Kern

variable {b s s' : State} {M l : List Nat} {le : List Slot} {ev : Event}

/-! ## Runs -/

/-- An operation of the kernel, or a system call that environment `e` makes on CPU `cpu`. -/
inductive Act where
  | kern (op : Op)
  | call (cpu : Cpu) (e : Slot) (c : Call)

/-- The calls of these runs are `sys_page_map`, with a permission in the low bits, and `sys_page_unmap`. -/
def Act.Ok (s : State) : Act → Prop
  | .kern op => op.Ok s
  | .call _ e (.pageMap _ _ _ _ perm) => (s.envs e).envStatus ≠ .free ∧ LowPerm perm
  | .call _ e (.pageUnmap _ _) => (s.envs e).envStatus ≠ .free
  | .call _ _ _ => False

/-- The step from `s` to `s'`. -/
def Act.Runs (s s' : State) : Act → Prop
  | .kern op => ∃ ev, op.exec.run s = .ok ev s'
  | .call cpu e c => ∃ r, c.exec.run (s.enter cpu e) = .ok r s'

/-- The counter of the page that a step maps has room for one more reference. -/
def Op.Room (s : State) : Op → Prop
  | .insert e pp va _ => Jos.Room s pp (.leaf e (pdx va) (ptx va))
  | _ => True

def Act.Room (s : State) : Act → Prop
  | .kern op => op.Room s
  | .call cpu e c => c.Room (s.enter cpu e) e

/-- The states of the runs from `b` in which `P` holds of every step. -/
inductive Shares (P : State → Act → Prop) (b : State) : State → Prop where
  | boot : Shares P b b
  | step {s s' : State} {a : Act} : Shares P b s → a.Ok s → P s a → a.Runs s s' → Shares P b s'

/-- No page is free, handed out by `page_alloc` or has a counter of zero while an entry of an environment maps it. -/
structure NoEarlyFree (s : State) : Prop where
  free : ∀ l, FreeList s l → ∀ f ∈ l, ∀ e i j w, s.pte e i j = some w → pgnum w ≠ f
  alloc : ∀ flags f s', (pageAlloc flags).run s = .ok (some f) s' → ∀ e i j w, s.pte e i j = some w → pgnum w ≠ f
  ref : ∀ f, (s.pages f).ppRef = 0#16 → ∀ e i j w, s.pte e i j = some w → pgnum w ≠ f

/-! ## The invariant -/

theorem alloc_head {flags : Word} {f : Nat} (h : (pageAlloc flags).run s = .ok (some f) s') : s.pageFreeList = some f := by
  unfold pageAlloc at h
  rw [run_bind_ok (EStateM.run_get s)] at h
  cases hl : s.pageFreeList with
  | none => rw [hl] at h; cases h
  | some p =>
    rw [hl] at h
    obtain ⟨_, s₁, -, h⟩ := run_bind_eq_ok.1 h
    split at h
    · obtain ⟨_, s₂, -, h⟩ := run_bind_eq_ok.1 h
      obtain ⟨_, s₃, -, h⟩ := run_bind_eq_ok.1 h
      cases h; rfl
    · cases h; rfl

/-- What the invariant says about early frees. -/
theorem Inv.noEarlyFree {Q : Nat → Nat → Prop} (h : Inv Q b M s l le) (hg : Genuine s) : NoEarlyFree s := by
  have hfree : ∀ f ∈ l, ∀ e i j w, s.pte e i j = some w → pgnum w ≠ f :=
    fun f hf e i j w hw hp => h.freeCell f hf (.leaf e i j) (cell_leaf_eq_some.2 ⟨w, hw, hp⟩)
  refine ⟨fun l' hl' => ?_, fun flags f s' hrun => hfree f (h.toFreePages.head (alloc_head hrun)), ?_⟩
  · rw [h.toFreePages.unique hl']
    exact hfree
  · rintro f hz e i j w hw rfl
    rcases h.leafM e i j w hw with ⟨hM, -⟩ | hge
    · have hl : pgnum w ∉ l := fun hl => hfree _ hl e i j w hw rfl
      have := (h.counts _ ⟨hM, hl, by simp⟩).1
      unfold State.ref at this
      rw [hz] at this
      exact absurd this (by decide)
    · exact hg e ⟨i, j, w, hw, hge⟩

/-- An operation with room leaves an event with room: the page that `page_alloc` hands out has no reference. -/
theorem Op.Room.event {op : Op} (hv : Vm b M s l) (hrun : op.exec.run s = .ok ev s') (hr : op.Room s) : ev.Room s := by
  cases op with
  | envAlloc parentId =>
    obtain ⟨⟨r, o⟩, s₁, -, h⟩ := run_bind_eq_ok.1 hrun
    cases o <;> cases h <;> trivial
  | allocInsert flags e va perm =>
    obtain ⟨o, s₁, hal, h⟩ := run_bind_eq_ok.1 hrun
    cases o with
    | none => cases h; trivial
    | some pp =>
      obtain ⟨v, s₂, -, h⟩ := run_bind_eq_ok.1 h
      obtain ⟨d, s₃, -, h⟩ := run_bind_eq_ok.1 h
      obtain ⟨r, s₄, -, h⟩ := run_bind_eq_ok.1 h
      split at h
      · obtain ⟨_, s₅, -, h⟩ := run_bind_eq_ok.1 h
        cases h; trivial
      · cases h
        refine Or.inl ?_
        unfold State.ref
        rw [hv.freeRef pp (hv.toFreePages.head (alloc_head hal))]
        decide
  | insert e pp va perm =>
    obtain ⟨v, s₁, -, h⟩ := run_bind_eq_ok.1 hrun
    obtain ⟨d, s₂, -, h⟩ := run_bind_eq_ok.1 h
    obtain ⟨r, s₃, -, h⟩ := run_bind_eq_ok.1 h
    split at h
    · cases h; trivial
    · cases h; exact hr
  | remove e va =>
    obtain ⟨v, s₁, -, h⟩ := run_bind_eq_ok.1 hrun
    obtain ⟨d, s₂, -, h⟩ := run_bind_eq_ok.1 h
    obtain ⟨_, s₃, -, h⟩ := run_bind_eq_ok.1 h
    cases h; trivial
  | envFree e =>
    obtain ⟨_, s₁, -, h⟩ := run_bind_eq_ok.1 hrun
    cases h; trivial

/-- What the calls of these runs insert is low. -/
theorem Called.genuine {Q : Nat → Nat → Prop} {cur : Slot} {c : Call} (h : Called b M Q s l cur c s' ev) (hg : Genuine s)
    (hM : ∀ f ∈ M, f < s.npages) (hlow : ∀ e pp va perm, ev = .inserted e pp va perm → LowPerm perm) : Genuine s' :=
  hg.apply hM h.npages h.pte fun e pp va perm hev => ⟨(h.new e pp va perm hev).1, hlow e pp va perm hev⟩

theorem msb_low {perm : Word} (h : LowPerm perm) : perm.msb = false := by
  unfold LowPerm at h
  rw [BitVec.msb_eq_toNat]
  simp
  omega

/-- The calls of these runs map at user addresses, with low permissions. -/
theorem Act.Ok.call {cpu : Cpu} {e : Slot} {c : Call} (h : (Act.call cpu e c).Ok s) :
    (s.envs e).envStatus ≠ .free ∧ c.SignClear ∧ (∀ s, c.UserDst s e) ∧ ∀ s (l : List Nat) dst pp va perm,
      ((pp ∈ l ∧ ∃ envid, c = .pageAlloc envid va perm) ∨ c.Maps s e dst pp va perm) → LowPerm perm := by
  cases c with
  | pageMap srcenvid srcva dstenvid dstva perm =>
    obtain ⟨he, hlow⟩ := h
    refine ⟨he, msb_low hlow, fun s dst pp va p hm => ?_, ?_⟩
    · exact hm.user.resolve_right fun ⟨_, _, _, hc, _⟩ => by cases hc
    · rintro s l dst pp va p (⟨-, envid, hc⟩ | hm)
      · cases hc
      · cases hm; exact hlow
  | pageUnmap envid va =>
    refine ⟨h, trivial, fun s dst pp va p hm => ?_, ?_⟩
    · cases hm
    rintro s l dst pp va p (⟨-, envid, hc⟩ | hm)
    · cases hc
    · cases hm
  | _ => exact h.elim

/-- The invariant in every state of a run whose steps have room. -/
theorem shares_inv (hb : Booted b M) (hr : Shares (fun s a => a.Room s) b s) :
    (∃ l le, Inv (· = ·) b M s l le) ∧ Genuine s := by
  induction hr with
  | boot =>
    refine ⟨⟨M, _, hb.inv _⟩, ?_⟩
    rintro e ⟨i, j, w, hw, -⟩
    rw [hb.pte] at hw; cases hw
  | @step s s' a _ hok hroom hrun ih =>
    obtain ⟨⟨l, le, hi⟩, hg⟩ := ih
    cases a with
    | kern op =>
      obtain ⟨ev, hrun⟩ := hrun
      obtain ⟨ev', s'', hrun', hs⟩ := op_step countRel_eq hi hg op hok
      cases hrun.symm.trans hrun'
      obtain ⟨l', le', hv, he, hc⟩ := hs.inv
      exact ⟨⟨l', le', { toVm := hv, toEnvTable := he, counts := hc (hroom.event hi.toVm hrun) }⟩,
        hs.genuine hg hi.managed⟩
    | call cpu e c =>
      obtain ⟨r, hrun⟩ := hrun
      obtain ⟨he, hsign, hdst, hlow⟩ := Act.Ok.call hok
      obtain ⟨ev, hc⟩ := call_called countRel_eq (InCall.enter hi he cpu) c (Or.inr hsign) (hdst _)
        (fun s'' h => by rw [hrun] at h; cases h)
      rw [hrun] at hc
      obtain ⟨l', le', hv, het, hcount⟩ := hc.inv
      exact ⟨⟨l', le', { toVm := hv, toEnvTable := het, counts := hcount hroom }⟩,
        hc.genuine hg hi.managed fun e pp va perm hev => hlow _ _ _ _ _ _ (hc.new e pp va perm hev).2.2⟩

/-- In every run whose steps all find room in the counters no page is freed while it is mapped. -/
theorem no_early_free (hb : Booted b M) (hr : Shares (fun s a => a.Room s) b s) : NoEarlyFree s := by
  obtain ⟨⟨l, le, hi⟩, hg⟩ := shares_inv hb hr
  exact hi.noEarlyFree hg

theorem firstEnv_shares {P : State → Act → Prop} (h : P bootState (.kern (.envAlloc 0#32))) :
    Shares P bootState firstEnv :=
  .step (a := .kern (.envAlloc 0#32)) .boot trivial h ⟨_, firstEnv_run⟩

/-- The first environment maps page 127 at the next address too. -/
def secondMap : State := finalState ((Op.insert 0 127 (utext + pgsize) pteU).exec.run firstMap)

/-- With `sys_page_map` it maps it at a third address. -/
def thirdMap : State :=
  finalState ((Call.pageMap 0#32 utext 0#32 (utext + pgsize + pgsize) (pteU ||| pteP)).exec.run (secondMap.enter 0 0))

/-- The mapping made first is removed. -/
def firstGone : State := finalState ((Op.remove 0 utext).exec.run thirdMap)

theorem firstGone_shares : Shares (fun s a => a.Room s) bootState firstGone := by
  have h₁ : Shares (fun s a => a.Room s) bootState firstMap :=
    .step (a := .kern (.allocInsert 0#32 0 utext (pteU ||| pteW))) (firstEnv_shares trivial)
      ⟨by decide, by decide, by decide⟩ trivial ⟨_, firstMap_run⟩
  have h₂ : Shares (fun s a => a.Room s) bootState secondMap :=
    .step (a := .kern (.insert 0 127 (utext + pgsize) pteU)) h₁
      ⟨by decide, by decide, by decide, 0, 128, utext, _, _, rfl, by decide, rfl⟩ (Or.inl (by decide +kernel)) ⟨_, rfl⟩
  have h₃ : Shares (fun s a => a.Room s) bootState thirdMap := by
    refine .step (a := .call 0 0 (.pageMap 0#32 utext 0#32 (utext + pgsize + pgsize) (pteU ||| pteP))) h₂
      ⟨by decide +kernel, by decide⟩ (fun dst pp va perm hm => Or.inl ?_) ⟨_, rfl⟩
    cases hm with
    | pageMap _ _ _ hsrc _ hw _ =>
      have hs : (secondMap.enter 0 0).resolve 0 0#32 true = some 0 := rfl
      have hp : (secondMap.enter 0 0).pte 0 (pdx utext) (ptx utext) = some (entry 127 (pteU ||| pteW)) := rfl
      cases hs.symm.trans hsrc
      cases hp.symm.trans hw
      decide +kernel
  exact .step (a := .kern (.remove 0 utext)) h₃ ⟨by decide +kernel, by decide⟩ trivial ⟨_, rfl⟩

/-- Page 127 is mapped three times and unmapped once. -/
theorem no_early_free_firstGone : (firstGone.pages 127).ppRef = 2#16 ∧ NoEarlyFree firstGone :=
  ⟨by decide +kernel, no_early_free bootState_booted firstGone_shares⟩

end Jos
