/-
`env_free`: both loops over the user part of an address space, on the views. Each turn of the inner
loop unmaps one page, each turn of the outer one releases an emptied page table, and at the end
the directory itself is released and the slot goes back to the free environments.
-/
import Jos.Vm.Remap

namespace Jos

open Lib

variable {b s s' s'' : State} {M l l' : List Nat} {Q : Nat → Nat → Prop}
variable {e : Slot} {d : Nat} {i j : Idx} {n : Nat}

/-- Mappings and page tables of `e` went away and nothing else changed. -/
structure Cleared (s s' : State) (e : Slot) : Prop where
  rest : Rest s s'
  pteOther : ∀ e' i j, e' ≠ e → s'.pte e' i j = s.pte e' i j
  pteOwn : ∀ i j, s'.pte e i j = none ∨ s'.pte e i j = s.pte e i j
  tabOther : ∀ e' i, e' ≠ e → s'.tab e' i = s.tab e' i
  tabOwn : ∀ i, s'.tab e i = none ∨ s'.tab e i = s.tab e i
  data : ∀ f, ¬ s.Struct f → s'.mem f = s.mem f

theorem Cleared.refl (s : State) (e : Slot) : Cleared s s e :=
  ⟨.refl s, fun _ _ _ _ => rfl, fun _ _ => Or.inr rfl, fun _ _ _ => rfl, fun _ => Or.inr rfl, fun _ _ => rfl⟩

theorem Cleared.tab (h : Cleared s s' e) (e' : Slot) (i : Idx) : s'.tab e' i = none ∨ s'.tab e' i = s.tab e' i := by
  by_cases he : e' = e
  · subst he; exact h.tabOwn i
  · exact Or.inr (h.tabOther e' i he)

theorem Cleared.struct (h : Cleared s s' e) {f : Nat} (hf : s'.Struct f) : s.Struct f := by
  rcases hf with ⟨e', he⟩ | ⟨e', i, hf⟩
  · rw [h.rest.dir] at he
    exact Or.inl ⟨e', he⟩
  · change s'.tab e' i = some f at hf
    rcases h.tab e' i with ht | ht
    · rw [ht] at hf; cases hf
    · rw [ht] at hf
      exact Or.inr ⟨e', i, hf⟩

theorem Cleared.trans (h : Cleared s s' e) (h' : Cleared s' s'' e) : Cleared s s'' e where
  rest := h.rest.trans h'.rest
  pteOther e' i j he := (h'.pteOther e' i j he).trans (h.pteOther e' i j he)
  pteOwn i j := (h'.pteOwn i j).elim Or.inl fun h1 => (h.pteOwn i j).imp h1.trans h1.trans
  tabOther e' i he := (h'.tabOther e' i he).trans (h.tabOther e' i he)
  tabOwn i := (h'.tabOwn i).elim Or.inl fun h1 => (h.tabOwn i).imp h1.trans h1.trans
  data f hf := (h'.data f fun hs => hf (h.struct hs)).trans (h.data f hf)

theorem Removed.cleared (h : Removed s s' l l' e i j) : Cleared s s' e where
  rest := h.rest
  pteOther e' i' j' he := by rw [h.pte, if_neg (fun hc => he hc.1)]
  pteOwn i' j' := by
    rw [h.pte]
    split
    · exact Or.inl rfl
    · exact Or.inr rfl
  tabOther e' i' _ := by rw [h.tabs]
  tabOwn i' := Or.inr (by rw [h.tabs])
  data := h.data

/-- A mapping of `e` whose entry points outside memory. -/
def Forged (s : State) (e : Slot) : Prop := ∃ i j w, s.pte e i j = some w ∧ s.npages ≤ pgnum w

theorem Cleared.forged (h : Cleared s s' e) (hf : Forged s' e) : Forged s e := by
  obtain ⟨i, j, w, hw, hn⟩ := hf
  rcases h.pteOwn i j with hp | hp
  · rw [hp] at hw; cases hw
  · exact ⟨i, j, w, hp ▸ hw, h.rest.npages ▸ hn⟩

/-! ## The inner loop -/

/-- Before a turn of the inner loop the entries of table `i` that are not to come are unmapped. -/
def InnerInv (b : State) (M : List Nat) (Q : Nat → Nat → Prop) (s : State) (e : Slot) (i : Idx) (rem : List Idx)
    (s' : State) : Prop :=
  ∃ l', Vm b M s' l' ∧ Counts Q M l' none s' ∧ Cleared s s' e ∧ s'.tab = s.tab ∧ ∀ j, j ∉ rem → s'.pte e i j = none

theorem envFreePte_spec (hQ : CountRel Q) (hd : s.dir e = some d) (hn : s.tab e i = some n) (j : Idx) (rem : List Idx)
    (s₁ : State) (hI : InnerInv b M Q s e i (j :: rem) s₁) :
    (∃ s₂, (envFreePte d i n j).run s₁ = .ok () s₂ ∧ InnerInv b M Q s e i rem s₂) ∨
    ∃ x s₂, (envFreePte d i n j).run s₁ = .error x s₂ ∧ x = .panic ∧ Forged s e ∧ Cleared s s₂ e := by
  obtain ⟨l₁, h₁, hc₁, hcl, ht, hz⟩ := hI
  have hn₁ : s₁.tab e i = some n := by rw [ht]; exact hn
  have hd₁ : s₁.dir e = some d := by rw [hcl.rest.dir]; exact hd
  have hpte := pte_of_tab (j := j) hn₁
  unfold envFreePte
  cases hp : present (s₁.mem n j) with
  | false =>
    rw [hp, if_neg (by simp)] at hpte
    refine Or.inl ⟨s₁, by simp [hp], l₁, h₁, hc₁, hcl, ht, fun j' hj' => ?_⟩
    by_cases hj : j' = j
    · rw [hj, hpte]
    · exact hz j' (by simp [hj, hj'])
  | true =>
    have hva : pgaddr i j 0 < utop := (userIdx_pdx _).1 (by rw [pdx_pgaddr]; exact tab_userIdx hn)
    have hrm := remove_spec hQ h₁ hc₁ (by simp) hd₁ hva
    rw [pdx_pgaddr, ptx_pgaddr] at hrm
    rcases hrm with ⟨s₂, l₂, hrun, h₂, hc₂, hr⟩ | ⟨w, hrun, hw, hge⟩
    · refine Or.inl ⟨s₂, by simp [hp, hrun], l₂, h₂, hc₂, hcl.trans hr.cleared, hr.tabs.trans ht, fun j' hj' => ?_⟩
      rw [hr.pte]
      split
      · rfl
      · rename_i hne
        exact hz j' (by simp [hj', show j' ≠ j from fun hj => hne ⟨rfl, rfl, hj⟩])
    · exact Or.inr ⟨.panic, s₁, by simp [hp, hrun], rfl, hcl.forged ⟨i, j, w, hw, hge⟩, hcl⟩

/-- The inner loop of `env_free` empties page table `i` of `e`. -/
theorem envFreePtes_spec (hQ : CountRel Q) (h : Vm b M s l) (hc : Counts Q M l none s) (hd : s.dir e = some d)
    (hn : s.tab e i = some n) :
    (∃ s', (forM (List.finRange 1024) (envFreePte d i n)).run s = .ok () s' ∧ InnerInv b M Q s e i [] s') ∨
    ∃ x s', (forM (List.finRange 1024) (envFreePte d i n)).run s = .error x s' ∧ x = .panic ∧ Forged s e ∧ Cleared s s' e :=
  run_forM (InnerInv b M Q s e i) (fun x s' => x = Stop.panic ∧ Forged s e ∧ Cleared s s' e) (envFreePte_spec hQ hd hn) _ s
    ⟨l, h, hc, .refl s e, rfl, fun j hj => absurd (List.mem_finRange j) hj⟩

/-! ## The outer loop -/

/-- Before a turn of the outer loop the page tables of `e` that are not to come are gone. -/
def OuterInv (b : State) (M : List Nat) (Q : Nat → Nat → Prop) (s : State) (e : Slot) (rem : List Idx) (s' : State) :
    Prop :=
  (∀ i ∈ rem, userIdx i) ∧
  ∃ l', Vm b M s' l' ∧ Counts Q M l' none s' ∧ Cleared s s' e ∧ ∀ i, i ∉ rem → s'.tab e i = none

/-- Releasing an emptied page table. -/
theorem dropTable_spec (hQ : CountRel Q) (h : Vm b M s l) (hc : Counts Q M l none s) (hd : s.dir e = some d)
    (hn : s.tab e i = some n) (hz : ∀ j, s.pte e i j = none) :
    ∃ l', Vm b M ((s.setWord d i 0#32).decref n) l' ∧ Counts Q M l' none ((s.setWord d i 0#32).decref n) ∧
      Cleared s ((s.setWord d i 0#32).decref n) e ∧
      ∀ i', ((s.setWord d i 0#32).decref n).tab e i' = if i' = i then none else s.tab e i' := by
  have hi := tab_userIdx hn
  have hfresh : ∀ p, dec 0#32 = some p → FreshTable M s p := by simp
  have htab := tab_setWord_node h.toTables hd hi 0#32
  have hpte := pte_setWord_node h.toTables hd hi hz hfresh
  have hcell := cell_setWord_node h.toTables hd hi hz hfresh
  have hrest : Rest s ((s.setWord d i 0#32).decref n) := (rest_setWord s d i 0#32).trans (rest_decref _ n)
  rw [dec_zero] at hcell
  have hin : InUse M l none n :=
    InUse.of_cell h (by simp) (c := .node e i) hn (h.structM n (Or.inr ⟨e, i, hn⟩))
  have h₁ : Vm b M (s.setWord d i 0#32) l := h.setNode hd hi hz (by simp)
  have hmem := mem_decref (s.setWord d i 0#32) n
  have hdir := dir_decref (s.setWord d i 0#32) n
  refine ⟨_, h₁.decref hin.managed hin.notFree fun h1 => Counts.unused (c := .node e i) hQ hc hn hin hcell h1,
    Counts.decref (c := .node e i) hQ hc hn hin rfl hcell, ?_, fun i' => ?_⟩
  · refine ⟨hrest, fun e' i' j' _ => ?_, fun i' j' => Or.inr ?_, fun e' i' he => ?_, fun i' => ?_, fun f hf => ?_⟩
    · rw [pte_congr hmem hdir, hpte]
    · rw [pte_congr hmem hdir, hpte]
    · rw [tab_congr hmem hdir, htab, if_neg (fun hc => he hc.1)]
    · rw [tab_congr hmem hdir, htab]
      split
      · exact Or.inl dec_zero
      · exact Or.inr rfl
    · rw [hmem]
      show Function.update s.mem d _ f = _
      rw [Function.update_of_ne (dir_ne_of_not_struct hf hd).symm]
  · rw [tab_congr hmem hdir, htab, dec_zero]
    simp

theorem envFreePde_spec (hQ : CountRel Q) (hd : s.dir e = some d) (i : Idx) (rem : List Idx)
    (s₁ : State) (hI : OuterInv b M Q s e (i :: rem) s₁) :
    (∃ s₂, (envFreePde d i).run s₁ = .ok () s₂ ∧ OuterInv b M Q s e rem s₂) ∨
    ∃ x s₂, (envFreePde d i).run s₁ = .error x s₂ ∧ x = .panic ∧ Forged s e ∧ Cleared s s₂ e := by
  obtain ⟨hu, l₁, h₁, hc₁, hcl, ht⟩ := hI
  have hi := hu i (List.mem_cons_self ..)
  have hrem : ∀ i ∈ rem, userIdx i := fun i' hi' => hu i' (List.mem_cons_of_mem _ hi')
  have hd₁ : s₁.dir e = some d := by rw [hcl.rest.dir]; exact hd
  have hnode : s₁.tab e i = dec (s₁.mem d i) := node_of_root hd₁ hi
  unfold envFreePde
  cases hn : s₁.tab e i with
  | none =>
    have hp : present (s₁.mem d i) = false := by
      cases hp : present (s₁.mem d i)
      · rfl
      · rw [hnode, dec, hp] at hn; cases hn
    refine Or.inl ⟨s₁, by simp [hp], hrem, l₁, h₁, hc₁, hcl, fun i' hi' => ?_⟩
    by_cases hii : i' = i
    · rw [hii, hn]
    · exact ht i' (by simp [hii, hi'])
  | some n =>
    obtain ⟨hp, rfl⟩ := dec_eq_some.1 (hnode.symm.trans hn)
    have hlt := h₁.toTables.tab_lt hn
    have hka : (kaddr (pteAddr (s₁.mem d i))).run s₁ = .ok (pgnum (s₁.mem d i)) s₁ := by
      rw [run_kaddr, pgnum_pteAddr, if_pos hlt]
    rcases envFreePtes_spec hQ h₁ hc₁ hd₁ hn with ⟨s₂, hrun, l₂, h₂, hc₂, hcl₂, ht₂, hz⟩ | ⟨x, s₂, hrun, hx, hf, hcl₂⟩
    · have hd₂ : s₂.dir e = some d := by rw [hcl₂.rest.dir]; exact hd₁
      have hpa : (pa2page (pteAddr (s₁.mem d i))).run (s₂.setWord d i 0#32) =
          .ok (pgnum (s₁.mem d i)) (s₂.setWord d i 0#32) := by
        rw [pa2page_eq, run_kaddr, pgnum_pteAddr, if_pos]
        show _ < s₂.npages
        rw [hcl₂.rest.npages]; exact hlt
      obtain ⟨l₃, h₃, hc₃, hcl₃, ht₃⟩ :=
        dropTable_spec hQ h₂ hc₂ hd₂ (by rw [ht₂]; exact hn) (fun j => hz j (by simp))
      refine Or.inl ⟨_, by simp [hp, hka, hrun, hpa], hrem, l₃, h₃, hc₃, (hcl.trans hcl₂).trans hcl₃, fun i' hi' => ?_⟩
      rw [ht₃, ht₂]
      split
      · rfl
      · rename_i hii
        exact ht i' (by simp [hii, hi'])
    · exact Or.inr ⟨x, s₂, by simp [hp, hka, hrun], hx, hcl.forged hf, hcl.trans hcl₂⟩

/-- The loops of `env_free` leave no page table of `e`. -/
theorem envFreePdes_spec (hQ : CountRel Q) (h : Vm b M s l) (hc : Counts Q M l none s) (hd : s.dir e = some d) :
    (∃ s', (forM ((List.finRange 1024).filter (· < pdx utop)) (envFreePde d)).run s = .ok () s' ∧
      OuterInv b M Q s e [] s') ∨
    ∃ x s', (forM ((List.finRange 1024).filter (· < pdx utop)) (envFreePde d)).run s = .error x s' ∧
      x = .panic ∧ Forged s e ∧ Cleared s s' e := by
  refine run_forM (OuterInv b M Q s e) (fun x s' => x = Stop.panic ∧ Forged s e ∧ Cleared s s' e) (envFreePde_spec hQ hd) _ s
    ⟨fun i hi => ?_, l, h, hc, .refl s e, fun i hi => ?_⟩
  · simpa [userIdx] using hi
  · cases hn : s.tab e i with
    | none => rfl
    | some n => exact absurd (by simpa [userIdx] using tab_userIdx hn) hi

end Jos
