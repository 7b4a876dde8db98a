/-
Authority is confined to the caller and its children: whatever a call does, every other environment
keeps its record and its mappings. A page sent to an address above `UTOP` is entered in the kernel
half of the receiver; there the writes are followed frame by frame.
-/
import Jos.Run.Conserve
import Jos.Sys.MapCalls

namespace Jos

open Lib Kern

variable {b s s' s'' : State} {M l : List Nat} {le : List Slot} {cur e : Slot} {d pp : Nat} {va perm : Word}
variable {F G : Nat → Prop}

/-! ## Frames written -/

/-- Nothing changed but the frames in `F`, the page allocator and the TLB. -/
structure Writes (s s' : State) (F : Nat → Prop) : Prop where
  rest : Rest s s'
  mem : ∀ g, ¬ F g → s'.mem g = s.mem g

theorem Writes.refl (s : State) (F : Nat → Prop) : Writes s s F := ⟨.refl s, fun _ _ => rfl⟩

theorem Writes.trans (h : Writes s s' F) (h' : Writes s' s'' F) : Writes s s'' F :=
  ⟨h.rest.trans h'.rest, fun g hg => (h'.mem g hg).trans (h.mem g hg)⟩

theorem Writes.mono (h : Writes s s' F) (hF : ∀ g, F g → G g) : Writes s s' G :=
  ⟨h.rest, fun g hg => h.mem g fun hf => hg (hF g hf)⟩

theorem writes_link (s : State) (pp n : Nat) (j : Idx) (perm : Word) : Writes s (s.link pp n j perm) (· = n) := by
  refine ⟨(rest_setRef s pp _).trans (rest_setWord _ n j _), fun g hg => ?_⟩
  show Function.update s.mem n _ g = _
  rw [Function.update_of_ne hg]

theorem writes_relink (s : State) (d : Nat) (va : Word) (pp n : Nat) (j : Idx) (perm : Word) :
    Writes s (s.relink d va pp n j perm) (· = n) := by
  refine ⟨rest_relink s d va pp n j perm, fun g hg => ?_⟩
  show Function.update s.mem n _ g = _
  rw [Function.update_of_ne hg]

theorem writes_unmap (s : State) (d : Nat) (va : Word) (n : Nat) (j : Idx) (f : Nat) :
    Writes s (s.unmap d va n j f) (· = n) := by
  refine ⟨rest_unmap s d va n j f, fun g hg => ?_⟩
  rw [unmap_mem]
  show Function.update s.mem n _ g = _
  rw [Function.update_of_ne hg]

/-- `page_lookup` at any address finds nothing, panics, or returns the entry in the page table that the
directory names there. -/
theorem lookup_any (s : State) (d : Nat) (va : Word) : (∃ q, (pageLookup d va).run s = .ok (none, q) s) ∨
    (pageLookup d va).run s = .error .panic s ∨
    ∃ p, (pageLookup d va).run s = .ok (some p, some (pgnum (s.mem d (pdx va)), ptx va)) s := by
  unfold pageLookup
  cases hp : present (s.mem d (pdx va)) with
  | false =>
    rw [run_bind_ok (pgdirWalk_absent hp)]
    exact Or.inl ⟨none, rfl⟩
  | true =>
    by_cases hlt : pgnum (s.mem d (pdx va)) < s.npages
    · rw [run_bind_ok (pgdirWalk_present hp hlt false)]
      dsimp only
      rw [run_bind_ok (run_load _)]
      split
      · have hka := run_kaddr (s := s) (pteAddr (s.mem (pgnum (s.mem d (pdx va))) (ptx va)))
        rw [pa2page_eq]
        split at hka
        · rw [run_bind_ok hka]
          exact Or.inr (Or.inr ⟨_, rfl⟩)
        · rw [run_bind_error hka]
          exact Or.inr (Or.inl rfl)
      · exact Or.inl ⟨_, rfl⟩
    · have hw : (pgdirWalk d va false).run s = .error .panic s := by
        unfold pgdirWalk
        rw [run_bind_ok (run_load _), if_pos hp]
        refine run_bind_error ?_
        rw [run_kaddr, pgnum_pteAddr, if_neg hlt]
      exact Or.inr (Or.inl (run_bind_error hw))

/-- `page_remove` at any address writes the page table that the directory names there. -/
theorem remove_writes (s : State) (d : Nat) (va : Word) :
    ((pageRemove d va).run s = .error .panic s) ∨
    ∃ s', (pageRemove d va).run s = .ok () s' ∧ Writes s s' (· = pgnum (s.mem d (pdx va))) := by
  unfold pageRemove
  rcases lookup_any s d va with ⟨q, hlk⟩ | hlk | ⟨p, hlk⟩
  · rw [run_bind_ok hlk]
    exact Or.inr ⟨s, rfl, .refl s _⟩
  · rw [run_bind_error hlk]
    exact Or.inl rfl
  · rw [run_bind_ok hlk]
    dsimp only
    rw [run_bind_ok (run_pageDecref p), run_bind_ok (run_tlbInvalidate d va), run_store]
    exact Or.inr ⟨_, rfl, writes_unmap s d va _ _ p⟩

/-- `page_insert` at any address writes the directory, the page table it names there, and the page that is
first on the free list. -/
theorem insert_writes (hhead : ∀ p, s.pageFreeList = some p → p < s.npages ∧ p ≠ d) (pp : Nat) (va perm : Word) :
    Writes s (finalState ((pageInsert d pp va perm).run s))
      fun g => g = d ∨ dec (s.mem d (pdx va)) = some g ∨ s.pageFreeList = some g := by
  cases hp : present (s.mem d (pdx va)) with
  | false =>
    cases hl : s.pageFreeList with
    | none =>
      rw [insert_noMem (pgdirWalk_noMem hp hl)]
      exact .refl s _
    | some p =>
      -- a page table is hung up, and its entries are all clear
      obtain ⟨hlt, hne⟩ := hhead p hl
      have hmem : (s.hang d (pdx va) p).mem p = fun _ => 0#32 := by
        show Function.update (Function.update s.mem p _) d _ p = _
        rw [Function.update_of_ne hne, Function.update_self]
      rw [insert_absent (pgdirWalk_create hp hl hlt) (by rw [hmem]; exact present_zero)]
      have hhang : Writes s (s.hang d (pdx va) p) fun g => g = d ∨ g = p := by
        refine ⟨⟨rfl, rfl, rfl, rfl, rfl, rfl, fun _ => rfl, fun _ => rfl⟩, fun g hg => ?_⟩
        rw [not_or] at hg
        show Function.update (Function.update s.mem p _) d _ g = _
        rw [Function.update_of_ne hg.1, Function.update_of_ne hg.2]
      refine (hhang.trans ((writes_link _ pp p (ptx va) perm).mono fun g hg => Or.inr hg)).mono fun g hg => ?_
      exact hg.imp id fun h => Or.inr (congrArg some h.symm)
  | true =>
    by_cases hlt : pgnum (s.mem d (pdx va)) < s.npages
    · have hw := pgdirWalk_present hp hlt true
      have hF : ∀ g, g = pgnum (s.mem d (pdx va)) → g = d ∨ dec (s.mem d (pdx va)) = some g ∨ s.pageFreeList = some g :=
        fun g hg => Or.inr (Or.inl (dec_eq_some.2 ⟨hp, hg.symm⟩))
      cases hz : present (s.mem (pgnum (s.mem d (pdx va))) (ptx va)) with
      | false =>
        rw [insert_absent hw hz]
        exact (writes_link s pp _ _ perm).mono hF
      | true =>
        by_cases hpp : pteAddr (s.mem (pgnum (s.mem d (pdx va))) (ptx va)) = page2pa pp
        · rw [insert_same hw hz hpp]
          exact (writes_relink s d va pp _ _ perm).mono hF
        · rcases remove_writes s d va with hr | ⟨s', hr, hwr⟩
          · rw [insert_panic hw hz hpp hr]
            exact .refl s _
          · rw [insert_other hw hz hpp hr]
            exact (hwr.trans (writes_link s' pp _ _ perm)).mono hF
    · have hw : (pgdirWalk d va true).run s = .error .panic s := by
        unfold pgdirWalk
        rw [run_bind_ok (run_load _), if_pos hp]
        refine run_bind_error ?_
        rw [run_kaddr, pgnum_pteAddr, if_neg hlt]
      have hrun : (pageInsert d pp va perm).run s = .error .panic s := run_bind_error hw
      rw [hrun]
      exact .refl s _

/-! ## Mappings that are kept -/

/-- The page tables of the kernel half are not pages of the allocator. -/
def KernTables (b : State) (M : List Nat) : Prop :=
  ∀ i, ¬ userIdx i → i ≠ pdx uvpt → present (b.mem b.kernPgdir i) = true → pgnum (b.mem b.kernPgdir i) ∉ M

/-- Writes to the directory of `e`, to frames that are not managed and to a free page leave the mappings
of other environments alone. -/
theorem Writes.pte_other (h : Writes s s' F) (hv : Vm b M s l) (hd : s.dir e = some d)
    (hF : ∀ g, F g → g = d ∨ g ∉ M ∨ g ∈ l) {e' : Slot} (he : e' ≠ e) : s'.pte e' = s.pte e' := by
  have hstruct : ∀ g, s.Struct g → g ≠ d → s'.mem g = s.mem g := by
    intro g hg hne
    refine h.mem g fun hf => ?_
    rcases hF g hf with h1 | h1 | h1
    · exact hne h1
    · exact h1 (hv.structM g hg)
    · exact hv.free_not_struct h1 hg
  funext i j
  unfold State.pte
  rw [h.rest.dir]
  refine leaf_congr (fun d' hd' i _ => ?_) (fun i n hn => ?_) i j
  · rw [hstruct d' (Or.inl ⟨e', hd'⟩)]
    rintro rfl
    exact he (hv.sep.roots _ _ _ hd hd')
  · rw [hstruct n (Or.inr ⟨e', i, hn⟩)]
    rintro rfl
    exact hv.sep.apart _ _ _ _ hd hn

/-- A directory entry of the kernel half names a frame that is not managed, or the directory itself. -/
theorem kern_pde (h : Tables b M s) (hk : KernTables b M) (hd : s.dir e = some d) (hva : ¬ va < utop) {g : Nat}
    (hg : dec (s.mem d (pdx va)) = some g) : g = d ∨ g ∉ M := by
  have hi : ¬ userIdx (pdx va) := fun hu => hva ((userIdx_pdx va).1 hu)
  obtain ⟨hp, rfl⟩ := dec_eq_some.1 hg
  by_cases hu : pdx va = pdx uvpt
  · left
    have hlt := h.lt_pow (h.structM d (Or.inl ⟨e, hd⟩))
    rw [hu, h.self e d hd, pgnum_or, pgnum_or, pgnum_page2pa hlt]
    simp [pgnum, pteP, pteU]
  · right
    rw [h.kern e d _ hd hi hu] at hp ⊢
    exact hk _ hi hu hp

/-- What a page entered in the kernel half of an environment may write. -/
theorem insert_writes_kern (h : Vm b M s l) (hk : KernTables b M) (hd : s.dir e = some d) (pp : Nat)
    (hva : ¬ va < utop) (perm : Word) :
    Writes s (finalState ((pageInsert d pp va perm).run s)) fun g => g = d ∨ g ∉ M ∨ g ∈ l := by
  have hhead : ∀ p, s.pageFreeList = some p → p < s.npages ∧ p ≠ d := by
    intro p hp
    have hl := h.toFreePages.head hp
    exact ⟨h.managed p (h.freeM p hl), by rintro rfl; exact h.free_not_struct hl (Or.inl ⟨e, hd⟩)⟩
  refine (insert_writes hhead pp va perm).mono fun g hg => ?_
  rcases hg with hg | hg | hg
  · exact Or.inl hg
  · exact (kern_pde h.toTables hk hd hva hg).imp id Or.inl
  · exact Or.inr (Or.inr (h.toFreePages.head hg))

/-! ## Confinement -/

/-- The transfer of a page to an address in the kernel half of the receiver. -/
theorem ipcTransfer_confined {Q : Nat → Nat → Prop} {c : Call} (h : InCall Q b M s l le cur) (hk : KernTables b M)
    (hd : s.dir e = some d) (ht : c.Target s cur e) (hva : ¬ va < utop) (pp : Nat) (perm value : Word) :
    Confined s (finalState ((ipcTransfer e d pp va perm value).run s)) (c.Target s cur) := by
  have hlive := (dir_eq_some.1 hd).1
  have hw := insert_writes_kern h.toVm hk hd pp hva perm
  have hconf : Confined s (finalState ((pageInsert d pp va perm).run s)) (c.Target s cur) :=
    .of_rest hw.rest fun e' hne => hw.pte_other h.toVm hd (fun g hg => hg) (by rintro rfl; exact hne ht)
  unfold ipcTransfer
  cases hrun : (pageInsert d pp va perm).run s with
  | error x s₁ =>
    rw [hrun] at hconf
    rw [run_bind_error hrun]
    exact hconf
  | ok r s₁ =>
    rw [hrun] at hw hconf
    change Writes s s₁ _ at hw
    rw [run_bind_ok hrun]
    split
    · exact hconf
    · have hlive₁ : (s₁.envs e).envStatus ≠ .free := by rw [hw.rest.envs]; exact hlive
      have hcur : (s₁.setEnv e { s₁.envs e with envIpcPerm := perm }).curenv = some cur :=
        hw.rest.curenv.trans h.curenv
      have hconf₁ := hconf.setEnv (v := { s₁.envs e with envIpcPerm := perm }) (fun _ => ht) hlive₁ hlive₁ rfl
      have hlive₂ : ((s₁.setEnv e { s₁.envs e with envIpcPerm := perm }).envs e).envStatus ≠ .free := by
        rw [envs_setEnv, if_pos rfl]
        exact hlive₁
      rw [run_bind_ok (run_modifyEnv ..)]
      unfold ipcDeliver
      rw [run_bind_ok (EStateM.run_get _), hcur, run_bind_ok (run_deref_some cur), run_bind_ok (run_env cur),
        run_bind_ok (run_modifyEnv ..)]
      exact hconf₁.setEnv (fun _ => ht) hlive₂ (by simp [ipcReceived]) rfl

/-- Every call leaves the environments outside its reach alone, whatever its outcome. -/
theorem call_confined (h : InCall (· ≤ ·) b M s l le cur) (hk : KernTables b M) (c : Call) :
    Confined s (finalState (c.exec.run s)) (c.Target s cur) := by
  by_cases hdst : c.UserDst s cur
  · exact (call_outcome countRel_le h c (Or.inl rfl) hdst).confined
  · obtain ⟨dst, pp, va, perm, hm, hva⟩ : ∃ dst pp va perm, c.Maps s cur dst pp va perm ∧ ¬ va < utop := by
      by_contra hc
      exact hdst fun dst pp va perm hm => by_contra fun hva => hc ⟨dst, pp, va, perm, hm, hva⟩
    -- the call is a send to an address above `UTOP`
    obtain ⟨envid, value, srcva, rfl, hr, rfl⟩ := hm.user.resolve_left hva
    show Confined s (finalState ((sysIpcTrySend envid value srcva perm).run s)) _
    have hsent := ipcTrySend_sent h envid value srcva perm
    generalize (sysIpcTrySend envid value srcva perm).run s = r at hsent
    cases hsent with
    | stay r => exact .refl s _
    | panic => exact .refl s _
    | deliver dst ht hlive => exact (outcome_deliver (.stay h.toInv) h.curenv ht hlive value).confined
    | transfer dst' d pp ht hlive hd hlt hlow hm' =>
      have hdst' : dst' = dst := by
        cases hm' with
        | ipcTrySend hr' => exact Option.some.inj (hr'.symm.trans hr)
      subst hdst'
      exact ipcTransfer_confined h hk hd ht hva pp perm value

/-- The call sends to `e`, which waits for a message. -/
def Call.SendsTo (s : State) (cur : Slot) (c : Call) (e : Slot) : Prop :=
  ∃ envid value srcva perm, c = .ipcTrySend envid value srcva perm ∧ s.resolve cur envid false = some e ∧
    (s.envs e).envIpcRecving = true

/-- An environment in use that is neither the caller, nor a child of it, nor the waiting target of its
message, is still in use after any call, with its record and its mappings; the scheduler may have started it. -/
theorem authority_confined (h : InCall (· = ·) b M s l le cur) (hk : KernTables b M) (c : Call)
    (he : (s.envs e).envStatus ≠ .free) (hcur : e ≠ cur) (hparent : (s.envs e).envParentId ≠ (s.envs cur).envId)
    (hsend : ¬ c.SendsTo s cur e) :
    ((finalState (c.exec.run s)).envs e).envStatus ≠ .free ∧
    EnvKeep (s.envs e) ((finalState (c.exec.run s)).envs e) ∧ (finalState (c.exec.run s)).pte e = s.pte e := by
  have hnot : ¬ c.Target s cur e := by
    rintro (h1 | h1 | h1)
    · exact hcur h1
    · exact hparent h1
    · split at h1
      · exact hsend ⟨_, _, _, _, rfl, h1⟩
      · exact h1
  have hconf := call_confined h.relax hk c
  have hkeep := hconf.envs e he hnot
  exact ⟨fun hf => he (hkeep.free.1 hf), hkeep, hconf.pte e he hnot⟩

/-- The machine after the kernel created two environments. -/
def twoEnvs : State := firstEnv.spawn 1 127 0#32

theorem twoEnvs_reach : Reach bootState [.created 1, .created 0] twoEnvs := by
  refine Reach.next bootState_booted firstEnv_reach (.envAlloc 0#32) trivial ?_ trivial
  simp only [Op.exec]
  rw [run_bind_ok (envAlloc_ok rfl rfl (by decide) 0#32)]
  rfl

theorem bootState_kernTables : KernTables bootState (pagesDown 128) := by
  have h : ∀ i, present (bootMem 256 i) = true → 128 < pgnum (bootMem 256 i) := by decide +kernel
  intro i _ _ hp hm
  have := h i hp
  rw [mem_pagesDown] at hm
  exact absurd hm.2 (Nat.not_le.2 this)

theorem authority_confined_twoEnvs :
    EnvKeep (twoEnvs.envs 1) ((finalState ((Call.envDestroy 0#32).exec.run (twoEnvs.enter 0 0))).envs 1) := by
  obtain ⟨⟨l, le, hi⟩, -⟩ := reach_inv bootState_booted twoEnvs_reach
  have hin : InCall (· = ·) bootState (pagesDown 128) (twoEnvs.enter 0 0) l le 0 :=
    ⟨hi.congr rfl rfl rfl rfl rfl rfl rfl, rfl, by decide⟩
  refine (authority_confined (e := 1) hin bootState_kernTables (.envDestroy 0#32) ?_ ?_ ?_ ?_).2.1
  · decide
  · decide
  · decide
  · rintro ⟨_, _, _, _, hc, -⟩
    cases hc

end Jos
