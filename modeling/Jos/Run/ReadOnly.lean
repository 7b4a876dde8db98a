/-
Write access over runs of system calls. `sys_page_map` and `sys_ipc_try_send` map a page for writing only where the caller
has it so, and `sys_page_alloc` maps a page of the free list; so a page in use that no environment can write stays so.
-/
import Jos.Run.KernHalf
import Jos.Run.Wrap

namespace Jos

open Lib Kern

variable {b s s' s₀ : State} {M l : List Nat} {cur e dst : Slot} {c : Call} {f pp : Nat} {va perm : Word}

/-- No environment maps page `f` with `PTE_W`. -/
def ReadOnly (f : Nat) (s : State) : Prop := ∀ e i j w, s.pte e i j = some w → pgnum w = f → w &&& pteW = 0#32

/-- Page `f` is not on the free list. -/
def OffList (f : Nat) (s : State) : Prop := ∀ l, FreeList s l → f ∉ l

/-! ## One call -/

theorem and_pteW (w : Word) : w &&& pteW = 0#32 ∨ w &&& pteW = pteW := by
  rw [pteW_eq, BitVec.and_twoPow]
  split
  · exact Or.inr rfl
  · exact Or.inl rfl

/-- Where the source of a mapping is read-only, the tests of the call let it be mapped read-only. -/
theorem Call.Maps.readOnly (h : c.Maps s cur dst pp va perm) (hro : ReadOnly pp s) : perm &&& pteW = 0#32 := by
  cases h with
  | pageMap _ _ _ _ _ hw hperm =>
    refine (and_pteW perm).resolve_right fun hW => hperm ⟨?_, hro _ _ _ _ hw rfl⟩
    rw [hW]
    decide
  | ipcTrySend _ _ _ _ _ _ hw hperm =>
    refine (and_pteW perm).resolve_right fun hW => hperm ⟨hro _ _ _ _ hw rfl, ?_⟩
    rw [hW]
    decide

theorem entry_and_pteW (h : perm &&& pteW = 0#32) : entry pp perm &&& pteW = 0#32 := by
  rw [pteW_eq, and_flag_eq_zero _ (by decide)] at h ⊢
  have hz := getLsbD_page2pa pp (show 1 < 12 by decide)
  have hp : pteP.getLsbD 1 = false := by decide
  unfold entry
  rw [BitVec.getLsbD_or, BitVec.getLsbD_or, hz, h, hp]
  rfl

theorem Called.readOnly {Q : Nat → Nat → Prop} {ev : Event} (h : Called b M Q s l cur c s' ev) (hM : ∀ f ∈ M, f < s.npages)
    (hf : f < s.npages) (hl : f ∉ l) (hro : ReadOnly f s) : ReadOnly f s' := by
  intro e i j w hw hp
  rw [h.pte] at hw
  cases ev with
  | failed => exact hro _ _ _ _ hw hp
  | created e' | freed e' | removed e' va' =>
    simp only [Event.apply] at hw
    split at hw
    · cases hw
    · exact hro _ _ _ _ hw hp
  | inserted e' pp va perm =>
    obtain ⟨hpp, hlow, hnew⟩ := h.new _ _ _ _ rfl
    simp only [Event.apply] at hw
    split at hw
    · cases hw
      have hlt := hM pp hpp
      have hle := s.npages_le
      rw [pgnum_entry (by omega)] at hp
      -- a permission that names another page names one beyond memory
      have hlow' : LowPerm perm := hlow.resolve_right (by omega)
      rw [pgnum_low hlow', Nat.or_zero] at hp
      subst hp
      refine entry_and_pteW ?_
      rcases hnew with ⟨hfree, -⟩ | hm
      · exact absurd hfree hl
      · exact hm.readOnly hro
    · exact hro _ _ _ _ hw hp

/-! ## Runs -/

/-- From a state in which no environment can write page `f` on, as long as the page is not on the free list, none can. -/
theorem write_never_amplified (hb : Booted b M) (h₀ : Boots b s₀) (h₁ : Requests Roomy s₀ s) (hf : f < s.npages)
    (hro : ReadOnly f s) (h : Requests (fun t e c => Roomy t e c ∧ OffList f t) s s') : ReadOnly f s' := by
  have hinv := requests_inv (fun _ _ _ hp => hp) (h₀.inv hb) h₁
  have hrun : (∃ l le, Inv (· ≤ ·) b M s' l le) ∧ f < s'.npages ∧ ReadOnly f s' := by
    induction h with
    | refl => exact ⟨hinv, hf, hro⟩
    | call _ cpu he hp hrun ih =>
      obtain ⟨⟨l, le, hi⟩, hf', hro'⟩ := ih
      obtain ⟨⟨ev, hc⟩, hi'⟩ := request_inv hi cpu he hp.1 hrun
      have hl : f ∉ l := hp.2 l hi.chain
      exact ⟨hi', hc.npages.symm ▸ hf', hc.readOnly hi.managed hf' hl hro'⟩
  exact hrun.2.2

/-! ## A page to read -/

theorem Inv.offList {Q : Nat → Nat → Prop} {le : List Slot} {i j : Idx} {w : Word} (h : Inv Q b M s l le)
    (hw : s.pte e i j = some w) : OffList (pgnum w) s := by
  intro l' hl' hm
  rw [h.toFreePages.unique hl'] at hm
  exact h.freeCell _ hm (.leaf e i j) (cell_leaf_eq_some.2 ⟨w, hw, rfl⟩)

/-- The first environment has a page that it may read only. -/
def roMap : State := finalState ((Op.allocInsert 0#32 0 utext pteU).exec.run firstEnv)

theorem roMap_run : (Op.allocInsert 0#32 0 utext pteU).exec.run firstEnv = .ok (.inserted 0 127 utext pteU) roMap := rfl

theorem roMap_ok : (Op.allocInsert 0#32 0 utext pteU).Ok firstEnv := ⟨by decide, by decide, by decide⟩

theorem roMap_reach : Reach bootState [.inserted 0 127 utext pteU, .created 0] roMap :=
  Reach.next bootState_booted firstEnv_reach _ roMap_ok roMap_run (Or.inl (by decide))

theorem roMap_readOnly (f : Nat) : ReadOnly f roMap := by
  obtain ⟨⟨l, le, hi⟩, hg⟩ := reach_inv bootState_booted firstEnv_reach
  obtain ⟨ev, s', hrun, hs⟩ := op_step countRel_eq hi hg _ roMap_ok
  cases roMap_run.symm.trans hrun
  intro e i j w hw _
  rw [hs.pte] at hw
  simp only [Event.apply] at hw
  split at hw
  · cases hw
    exact entry_and_pteW (by decide)
  · rw [firstEnv_pte] at hw
    cases hw

theorem roMap_pte : roMap.pte 0 (pdx utext) (ptx utext) = some (entry 127 pteU) := by decide +kernel

theorem roMap_offList : OffList 127 roMap := by
  obtain ⟨⟨l, le, hi⟩, -⟩ := reach_inv bootState_booted roMap_reach
  exact hi.offList roMap_pte

/-- It has been given a new page, to write, at the next address. -/
def rwMap : State := finalState ((Call.pageAlloc 0#32 (utext + pgsize) 7#32).exec.run (roMap.enter 0 0))

theorem write_never_amplified_roMap : ReadOnly 127 rwMap :=
  write_never_amplified bootState_booted roMap_reach.boots .refl (by decide) (roMap_readOnly 127)
    (.call .refl 0 (by decide) ⟨⟨nofun, nofun⟩, roMap_offList⟩ (not_panic (by decide +kernel)))

/-- The new page was free: no environment mapped it, and it has not come to the free list since. -/
theorem free_page_written : ∃ s₀ s f, Boots bootState s₀ ∧ f < s₀.npages ∧ ReadOnly f s₀ ∧
    Requests Roomy s₀ s ∧ OffList f s ∧ ¬ ReadOnly f s := by
  have hrun : Requests Roomy roMap rwMap := .call .refl 0 (by decide) ⟨nofun, nofun⟩ (not_panic (by decide +kernel))
  have hpte : rwMap.pte 0 (pdx (utext + pgsize)) (ptx (utext + pgsize)) = some (entry 125 7#32) := by decide +kernel
  obtain ⟨l, le, hi⟩ := requests_inv (fun _ _ _ hp => hp) (roMap_reach.boots.inv bootState_booted) hrun
  refine ⟨roMap, rwMap, pgnum (entry 125 7#32), roMap_reach.boots, by decide, roMap_readOnly _, hrun, hi.offList hpte,
    fun hro => ?_⟩
  exact absurd (hro _ _ _ _ hpte rfl) (by decide)

end Jos
