/-
One environment while the others run: they make system calls that are not about it and store through their own writable
mappings, in any order. Its record and its mappings stay, a page that no other can write keeps its contents, and a page that no
other maps is never mapped by another.
-/
import Jos.Run.ReadOnly

namespace Jos

open Lib Kern

variable {b s s' s'' s₀ : State} {M l : List Nat} {le : List Slot} {Q : Nat → Nat → Prop} {v cur e : Slot} {c : Call}
variable {f pp : Nat} {va perm : Word} {C : Word → Prop}

/-! ## Activity -/

/-- The states that the environments in use reach from `s₀`, by system calls that do not panic and by stores to pages that they
may write. `P` holds of each call in the state in which it is made, and `A` of each environment that stores. -/
inductive Activity (P : State → Slot → Call → Prop) (A : Slot → Prop) (s₀ : State) : State → Prop where
  | refl : Activity P A s₀ s₀
  | call {s : State} {e : Slot} {c : Call} (h : Activity P A s₀ s) (cpu : Cpu) (he : (s.envs e).envStatus ≠ .free)
      (hp : P (s.enter cpu e) e c) (hrun : ∀ s', c.exec.run (s.enter cpu e) ≠ .error .panic s') :
      Activity P A s₀ (finalState (c.exec.run (s.enter cpu e)))
  | store {s : State} {e : Slot} {i j : Idx} {w : Word} (h : Activity P A s₀ s) (he : A e) (hw : s.pte e i j = some w)
      (hlt : pgnum w < s.npages) (hperm : w &&& pteW ≠ 0#32) (k : Idx) (x : Word) :
      Activity P A s₀ (s.setWord (pgnum w) k x)

theorem Inv.store (h : Inv Q b M s l le) {i j : Idx} {w : Word} (hw : s.pte e i j = some w) (hlt : pgnum w < s.npages)
    (k : Idx) (x : Word) : Inv Q b M (s.setWord (pgnum w) k x) l le ∧ (s.setWord (pgnum w) k x).pte = s.pte := by
  obtain ⟨hM, hns⟩ := (h.leafM e i j w hw).resolve_right (Nat.not_le.2 hlt)
  exact ⟨{ toVm := h.toVm.setMem_other hM hns _, toEnvTable := h.toEnvTable.rest (rest_setWord ..),
           counts := h.counts.congr rfl (cell_setMem_other hns _) }, pte_setMem_other hns _⟩

theorem activity_inv {P : State → Slot → Call → Prop} {A : Slot → Prop} (hP : ∀ s e c, P s e c → Roomy s e c)
    (h₀ : ∃ l le, Inv (· ≤ ·) b M s₀ l le) (h : Activity P A s₀ s) : ∃ l le, Inv (· ≤ ·) b M s l le := by
  induction h with
  | refl => exact h₀
  | call _ cpu he hp hrun ih =>
    obtain ⟨l, le, hi⟩ := ih
    exact (request_inv hi cpu he (hP _ _ _ hp) hrun).2
  | store _ _ hw hlt _ k x ih =>
    obtain ⟨l, le, hi⟩ := ih
    exact ⟨l, le, (hi.store hw hlt k x).1⟩

/-! ## What the others map -/

/-- Every mapping of page `f` by another environment than `v` has `C`. -/
def Others (v : Slot) (f : Nat) (C : Word → Prop) (s : State) : Prop :=
  ∀ e, e ≠ v → ∀ i j w, s.pte e i j = some w → pgnum w = f → C w

/-- The calls pass `C` on: they give no write access that the source does not have. -/
def Passes (C : Word → Prop) : Prop :=
  ∀ w pp perm, C w → (perm &&& pteW ≠ 0#32 → w &&& pteW ≠ 0#32) → C (entry pp perm)

theorem passes_readOnly : Passes (· &&& pteW = 0#32) := fun _ _ _ hw hperm =>
  entry_and_pteW (not_not.1 fun h => hperm h hw)

theorem passes_none : Passes fun _ => False := fun _ _ _ h _ => h

/-- A page that a call maps comes from an environment that the call is about. -/
theorem Call.Maps.source_ne (h : c.Maps s cur e pp va perm) (hv : ¬ c.Target s cur v) :
    ∃ src, src ≠ v ∧ ∃ i j w, s.pte src i j = some w ∧ pgnum w = pp ∧ (perm &&& pteW ≠ 0#32 → w &&& pteW ≠ 0#32) := by
  cases h with
  | @pageMap _ _ _ _ _ w src _ _ _ _ hsrc _ hw hperm =>
    refine ⟨src, ?_, _, _, w, hw, rfl, fun hp hz => hperm ⟨(flagW_pos hp).1, hz⟩⟩
    rintro rfl
    exact hv (resolve_target hsrc)
  | @ipcTrySend _ _ _ _ w _ _ _ _ _ _ _ hw hperm _ =>
    refine ⟨cur, ?_, _, _, w, hw, rfl, fun hp hz => hperm ⟨hz, (flagW_pos hp).2⟩⟩
    rintro rfl
    exact hv (Or.inl rfl)

theorem Called.others {ev : Event} (h : Called b M Q s l cur c s' ev) (hM : ∀ f ∈ M, f < s.npages) (hf : f < s.npages)
    (hl : f ∉ l) (hv : ¬ c.Target s cur v) (hC : Passes C) (ho : Others v f C s) : Others v f C s' := by
  intro e he i j w hw hp
  rw [h.pte] at hw
  cases ev with
  | failed => exact ho e he _ _ _ hw hp
  | created e' | freed e' | removed e' va' =>
    simp only [Event.apply] at hw
    split at hw
    · cases hw
    · exact ho e he _ _ _ hw hp
  | inserted e' pp va perm =>
    obtain ⟨hpp, hlow, hnew⟩ := h.new _ _ _ _ rfl
    simp only [Event.apply] at hw
    split at hw
    · cases hw
      have hlt := hM pp hpp
      have hle := s.npages_le
      rw [pgnum_entry (by omega)] at hp
      -- a permission that names another page names one beyond memory
      have hlow' : LowPerm perm := hlow.resolve_right (by omega)
      rw [pgnum_low hlow', Nat.or_zero] at hp
      subst hp
      rcases hnew with ⟨hfree, -⟩ | hm
      · exact absurd hfree hl
      · obtain ⟨src, hsrc, i', j', w', hw', hpg, hperm⟩ := hm.source_ne hv
        exact hC w' pp perm (ho src hsrc i' j' w' hw' hpg) hperm
    · exact ho e he _ _ _ hw hp

/-! ## One environment -/

/-- What environment `v` has from state `s` on to state `s'`. -/
structure LeftAlone (v : Slot) (s s' : State) : Prop where
  npages : s'.npages = s.npages
  live : (s'.envs v).envStatus ≠ .free
  record : EnvKeep (s.envs v) (s'.envs v)
  pte : s'.pte v = s.pte v
  contents : ∀ i j w, s.pte v i j = some w → pgnum w < s.npages → Others v (pgnum w) (· &&& pteW = 0#32) s →
    s'.mem (pgnum w) = s.mem (pgnum w) ∧ Others v (pgnum w) (· &&& pteW = 0#32) s'
  unshared : ∀ i j w, s.pte v i j = some w → pgnum w < s.npages → Others v (pgnum w) (fun _ => False) s →
    Others v (pgnum w) (fun _ => False) s'

theorem LeftAlone.refl (hv : (s.envs v).envStatus ≠ .free) : LeftAlone v s s :=
  ⟨rfl, hv, .refl _, rfl, fun _ _ _ _ _ ho => ⟨rfl, ho⟩, fun _ _ _ _ _ ho => ho⟩

theorem LeftAlone.trans (h : LeftAlone v s s') (h' : LeftAlone v s' s'') : LeftAlone v s s'' where
  npages := h'.npages.trans h.npages
  live := h'.live
  record := h.record.trans h'.record
  pte := h'.pte.trans h.pte
  contents i j w hw hlt ho := by
    obtain ⟨hmem, ho'⟩ := h.contents i j w hw hlt ho
    obtain ⟨hmem', ho''⟩ := h'.contents i j w (by rw [h.pte]; exact hw) (by rw [h.npages]; exact hlt) ho'
    exact ⟨hmem'.trans hmem, ho''⟩
  unshared i j w hw hlt ho :=
    h'.unshared i j w (by rw [h.pte]; exact hw) (by rw [h.npages]; exact hlt) (h.unshared i j w hw hlt ho)

/-- A call that is not about `v`. -/
theorem Called.leftAlone {ev : Event} (h : Called b M Q s l cur c s' ev) (hi : Inv Q b M s l le)
    (hlive : (s.envs v).envStatus ≠ .free)
    (hv : ¬ c.Target s cur v) : LeftAlone v s s' := by
  have hkeep := h.confined.envs v hlive hv
  have hfree : ∀ {i j w}, s.pte v i j = some w → pgnum w ∉ l := fun hw hl =>
    hi.freeCell _ hl (.leaf v _ _) (cell_leaf_eq_some.2 ⟨_, hw, rfl⟩)
  refine ⟨h.npages, fun hf => hlive (hkeep.free.1 hf), hkeep, h.confined.pte v hlive hv, ?_, ?_⟩
  · intro i j w hw hlt ho
    obtain ⟨-, hns⟩ := (hi.leafM v i j w hw).resolve_right (Nat.not_le.2 hlt)
    exact ⟨h.data _ (hfree hw) hns, h.others hi.managed hlt (hfree hw) hv passes_readOnly ho⟩
  · intro i j w hw hlt ho
    exact h.others hi.managed hlt (hfree hw) hv passes_none ho

/-- A store of another environment. -/
theorem Inv.store_leftAlone (hi : Inv Q b M s l le) (hlive : (s.envs v).envStatus ≠ .free) (he : e ≠ v) {i j : Idx} {w : Word}
    (hw : s.pte e i j = some w) (hlt : pgnum w < s.npages) (hperm : w &&& pteW ≠ 0#32) (k : Idx) (x : Word) :
    LeftAlone v s (s.setWord (pgnum w) k x) := by
  have hpte := (hi.store hw hlt k x).2
  have hothers : ∀ {f C}, Others v f C s → Others v f C (s.setWord (pgnum w) k x) := by
    intro f C ho
    unfold Others
    rw [hpte]
    exact ho
  refine ⟨rfl, hlive, .refl _, by rw [hpte], ?_, fun _ _ _ _ _ ho => hothers ho⟩
  intro i' j' w' hw' hlt' ho
  refine ⟨Function.update_of_ne ?_ .., hothers ho⟩
  intro hpg
  exact hperm (ho e he i j w hw hpg.symm)

/-- Whatever the other environments do that is not about `v`, it stays in use with its record, the scheduler's fields apart, and
its mappings; its pages that the others cannot write keep their contents, and those that they do not map stay unmapped. -/
theorem others_leave_alone (hb : Booted b M) (h₀ : Boots b s₀) (h₁ : Activity Roomy (fun _ => True) s₀ s)
    (hv : (s.envs v).envStatus ≠ .free)
    (h : Activity (fun t e c => Roomy t e c ∧ ¬ c.Target t e v) (· ≠ v) s s') : LeftAlone v s s' := by
  have hinv := activity_inv (fun _ _ _ hp => hp) (h₀.inv hb) h₁
  have hrun : (∃ l le, Inv (· ≤ ·) b M s' l le) ∧ LeftAlone v s s' := by
    induction h with
    | refl => exact ⟨hinv, .refl hv⟩
    | @call t e c _ cpu he hp hrun ih =>
      obtain ⟨⟨l, le, hi⟩, hkept⟩ := ih
      obtain ⟨⟨ev, hc⟩, hi'⟩ := request_inv hi cpu he hp.1 hrun
      have henter : Inv (· ≤ ·) b M (t.enter cpu e) l le := hi.congr rfl rfl rfl rfl rfl rfl rfl
      obtain ⟨hn, hl, hr, hp, hm, hu⟩ := hc.leftAlone henter hkept.live hp.2
      have hstep : LeftAlone v t (finalState (c.exec.run (t.enter cpu e))) := ⟨hn, hl, hr, hp, hm, hu⟩
      exact ⟨hi', hkept.trans hstep⟩
    | store _ he hw hlt hperm k x ih =>
      obtain ⟨⟨l, le, hi⟩, hkept⟩ := ih
      exact ⟨⟨l, le, (hi.store hw hlt k x).1⟩, hkept.trans (hi.store_leftAlone hkept.live he hw hlt hperm k x)⟩
  exact hrun.2

theorem twoMap_run : (Op.envAlloc 0#32).exec.run firstMap = .ok (.created 1) twoMap := by
  simp only [Op.exec]
  rw [run_bind_ok (envAlloc_ok rfl rfl (by decide) 0#32)]
  rfl

/-- The first of the two environments has its page to itself. -/
theorem twoMap_unshared : Others 0 127 (fun _ => False) twoMap := by
  obtain ⟨⟨l, le, hi⟩, hg⟩ := reach_inv bootState_booted firstEnv_reach
  obtain ⟨ev, s', hrun, hs⟩ :=
    op_step countRel_eq hi hg (.allocInsert 0#32 0 utext (pteU ||| pteW)) ⟨by decide, by decide, by decide⟩
  cases firstMap_run.symm.trans hrun
  obtain ⟨⟨l', le', hi'⟩, hg'⟩ := reach_inv bootState_booted firstMap_reach
  obtain ⟨ev', s', hrun', hs'⟩ := op_step countRel_eq hi' hg' (.envAlloc 0#32) trivial
  cases twoMap_run.symm.trans hrun'
  intro e he i j w hw _
  rw [hs'.pte, hs.pte] at hw
  simp only [Event.apply, firstEnv_pte] at hw
  split_ifs at hw with h₁ h₂
  exact he h₂.1

/-- The second allocates a page. -/
def twoOwn : State := finalState ((Call.pageAlloc 0#32 utext 7#32).exec.run (twoMap.enter 1 1))

/-- It stores to its page, at the address at which the first has its own. -/
theorem others_leave_alone_twoMap : (twoOwn.setWord 124 0 5#32).mem 127 = twoMap.mem 127 ∧
    Others 0 127 (fun _ => False) (twoOwn.setWord 124 0 5#32) := by
  have hnot : ¬ (Call.pageAlloc 0#32 utext 7#32).Target (twoMap.enter 1 1) 1 0 := by
    rintro (h | h | h)
    · cases h
    · exact absurd h (by decide +kernel)
    · exact h
  have hcall : Activity (fun t e c => Roomy t e c ∧ ¬ c.Target t e 0) (· ≠ 0) twoMap twoOwn :=
    .call .refl 1 (by decide) ⟨⟨nofun, nofun⟩, hnot⟩ (not_panic (by decide +kernel))
  have hpage : twoOwn.pte 1 (pdx utext) (ptx utext) = some (entry 124 7#32) := by decide +kernel
  have hstore := Activity.store hcall (by decide) hpage (by decide +kernel) (by decide) 0 5#32
  have hkept := others_leave_alone (v := 0) bootState_booted twoMap_boots .refl (by decide) hstore
  have hown : twoMap.pte 0 (pdx utext) (ptx utext) = some (entry 127 (pteU ||| pteW)) := by decide +kernel
  have hread : Others 0 127 (· &&& pteW = 0#32) twoMap := fun e he i j w hw hp => (twoMap_unshared e he i j w hw hp).elim
  exact ⟨(hkept.contents _ _ _ hown (by decide) hread).1, hkept.unshared _ _ _ hown (by decide) twoMap_unshared⟩

end Jos
