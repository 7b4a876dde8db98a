/-
The outcome of the system calls that create environments and map pages. Each either fails without a
change, stops on an entry that points outside memory, or does what its event says.
-/
import Jos.Sys.Calls

namespace Jos

open Lib Kern

variable {b s s' : State} {M l : List Nat} {le : List Slot} {Q : Nat → Nat → Prop} {cur e : Slot}

/-! ## Permissions -/

theorem lowPerm_masked {perm : Word} (h : perm &&& ~~~pteUser = 0#32) : LowPerm perm := by
  have hz := pteAddr_toNat perm
  rw [pteAddr_masked h, pgnum_eq] at hz
  unfold LowPerm
  have h0 : (0#32).toNat = 0 := rfl
  omega

/-- A permission that passes a signed test lies in the low bits, or leads an entry outside memory. -/
theorem perm_cases (s : State) {perm : Word} (h : ¬ 0 < (perm &&& ~~~pteUser).toInt) (pp : Nat)
    (hq : Q = (· ≤ ·) ∨ perm.msb = false) : LowPerm perm ∨ (Q = (· ≤ ·) ∧ s.npages ≤ pp ||| pgnum perm) := by
  cases hm : perm.msb with
  | false => exact Or.inl (lowPerm_masked (perm_signed h hm))
  | true =>
    refine Or.inr ⟨hq.resolve_right (by rw [hm]; simp), ?_⟩
    have hn := s.npages_le
    have hle : pgnum perm ≤ pp ||| pgnum perm := Nat.right_le_or
    rw [BitVec.msb_eq_toNat] at hm
    rw [pgnum_eq] at hle ⊢
    simp at hm
    omega

/-! ## Creating an environment -/

theorem Spawned.called {l' : List Nat} {le' : List Slot} {parentId : Word} {c : Call}
    (h : Spawned s s' l l' e parentId) (hi : Inv Q b M s' l' le') : Called b M Q s l cur c s' (.created e) where
  pte := by
    rw [h.pte]
    funext e' i j
    show _ = if e' = e then none else s.pte e' i j
    split
    · rename_i he
      rw [he]
      exact pte_of_no_dir (dir_free h.wasFree) i j
    · rfl
  npages := h.same.npages
  data f hf _ := h.mem f hf
  new := by simp
  confined := by
    refine ⟨fun e' he' _ => ?_, fun e' _ _ => by rw [h.pte]⟩
    obtain ⟨p, -, hp⟩ := h.envs
    rw [hp, Function.update_of_ne (by rintro rfl; exact he' h.wasFree)]
    exact .refl _
  inv := ⟨l', le', hi.toVm, hi.toEnvTable, fun _ => hi.counts⟩

/-- `sys_exofork` fails, or creates a child that does not run yet. -/
theorem exofork_cases (hQ : CountRel Q) (h : InCall Q b M s l le cur) :
    (∃ r, r < 0 ∧ sysExofork.run s = .ok r s) ∨
    ∃ e p s', (s.envs e).envStatus = .free ∧
      s'.envs = Function.update s.envs e
        (forkEnv (s.envs cur) (newEnv e (s.envs cur).envId { s.envs e with envPgdir := some p })) ∧
      sysExofork.run s = .ok (s'.envs e).envId.toInt s' ∧ Called b M Q s l cur .exofork s' (.created e) := by
  unfold sysExofork
  rw [run_bind_ok (run_getenvid h.curenv)]
  rcases alloc_spec hQ h.toInv (s.envs cur).envId with ⟨hrun, -⟩ | ⟨hrun, -⟩ | ⟨e, le', s₁, l', -, hrun, hi, hsp⟩
  · exact Or.inl ⟨-eNoFreeEnv, by decide, by rw [run_bind_ok hrun]; rfl⟩
  · exact Or.inl ⟨-eNoMem, by decide, by rw [run_bind_ok hrun]; rfl⟩
  · obtain ⟨p, -, hp⟩ := hsp.envs
    have hcur₁ : s₁.curenv = some cur := by
      unfold State.curenv
      rw [hsp.same.cpuEnv, hsp.same.cpunum]; exact h.curenv
    have hne : cur ≠ e := by rintro rfl; exact h.live hsp.wasFree
    have hec : s₁.envs cur = s.envs cur := by rw [hp, Function.update_of_ne hne]
    have hee : s₁.envs e = newEnv e (s.envs cur).envId { s.envs e with envPgdir := some p } := by
      rw [hp, Function.update_self]
    have hcalled : Called b M Q s l cur .exofork s₁ (.created e) := hsp.called hi
    refine Or.inr ⟨e, p, s₁.setEnv e (forkEnv (s.envs cur) (s₁.envs e)), hsp.wasFree, ?_, ?_, ?_⟩
    · show Function.update s₁.envs e _ = _
      rw [hee, hp, Function.update_idem]
    · rw [run_bind_ok hrun]
      dsimp only
      rw [if_neg (by decide), run_bind_ok (run_deref_some e), run_bind_ok (EStateM.run_get _), hcur₁,
        run_bind_ok (run_deref_some cur), run_bind_ok (run_env cur), hec, run_bind_ok (run_modifyEnv ..),
        run_bind_ok (run_env e)]
      rfl
    · refine hcalled.setEnv (fun hf => absurd hsp.wasFree hf) ?_ (by simp [forkEnv]) rfl rfl
      rw [hee]
      simp [newEnv]

theorem outcome_exofork (hQ : CountRel Q) (h : InCall Q b M s l le cur) :
    Outcome b M Q s l cur .exofork (Call.exofork.exec.run s) := by
  show Outcome b M Q s l cur .exofork (sysExofork.run s)
  rcases exofork_cases hQ h with ⟨r, -, hrun⟩ | ⟨e, p, s', -, -, hrun, hcalled⟩
  · rw [hrun]
    exact .stay h.toInv r
  · rw [hrun]
    exact .done _ _ hcalled

/-! ## Unmapping -/

theorem outcome_pageUnmap (hQ : CountRel Q) (h : InCall Q b M s l le cur) (envid va : Word) :
    Outcome b M Q s l cur (.pageUnmap envid va) ((Call.pageUnmap envid va).exec.run s) := by
  show Outcome b M Q s l cur _ ((sysPageUnmap envid va).run s)
  unfold sysPageUnmap
  split
  · exact .stay h.toInv _
  rename_i hva
  rw [not_or, BitVec.not_le] at hva
  rw [run_bind_ok (run_envid2env h.curenv true)]
  cases hr : s.resolve cur envid true with
  | none => exact .stay h.toInv _
  | some e =>
    obtain ⟨d, hd, -⟩ := h.toEnvTable.dir (resolve_live hr h.live)
    dsimp only
    rw [if_neg (by decide), run_bind_ok (run_deref_some e), run_pgdir hd]
    rcases remove_spec hQ h.toVm h.counts (by simp) hd hva.1 with ⟨s', l', hrun, hv, hc, hrm⟩ | ⟨w, hrun, -, -⟩
    · rw [run_bind_ok hrun]
      exact .done _ (.removed e va)
        (.of_remap h.toInv hrm.toRemap hv (fun _ => hc) (resolve_target hr) rfl (by simp))
    · rw [run_bind_error hrun]
      exact .panic s (.refl s _)

/-! ## Mapping a page that is mapped -/

theorem flagW_pos {perm : Word} (h : perm &&& pteW ≠ 0#32) : 0 < (perm &&& pteW).toInt ∧ 0 < (perm &&& pteW).toNat := by
  have hw : perm &&& pteW = pteW := by
    rw [pteW_eq, BitVec.and_twoPow] at h ⊢
    split at h
    · rename_i hb; rw [if_pos hb]
    · exact absurd rfl h
  rw [hw]
  exact ⟨by decide, by decide⟩

/-- The page of a mapping call is mapped somewhere, writable if the new mapping is to be. -/
theorem Call.Maps.source {c : Call} {pp : Nat} {va perm : Word} (h : c.Maps s cur e pp va perm) :
    ∃ src i j w, s.pte src i j = some w ∧ pgnum w = pp ∧ (perm &&& pteW ≠ 0#32 → w &&& pteW ≠ 0#32) := by
  cases h with
  | @pageMap _ _ _ _ _ w src _ _ _ _ _ _ hw hperm =>
    exact ⟨src, _, _, w, hw, rfl, fun hp hz => hperm ⟨(flagW_pos hp).1, hz⟩⟩
  | @ipcTrySend _ _ _ _ w _ _ _ _ _ _ _ hw hperm _ =>
    exact ⟨cur, _, _, w, hw, rfl, fun hp hz => hperm ⟨hz, (flagW_pos hp).2⟩⟩

/-- The insertion that a mapping call makes. -/
theorem insert_cases (hQ : CountRel Q) (h : InCall Q b M s l le cur) {c : Call} {d pp : Nat} {va perm : Word}
    (hd : s.dir e = some d) (ht : c.Target s cur e) (hva : va < utop) (hm : c.Maps s cur e pp va perm)
    (hlt : pp < s.npages) (hperm : LowPerm perm ∨ (Q = (· ≤ ·) ∧ s.npages ≤ pp ||| pgnum perm)) :
    (pageInsert d pp va perm).run s = .ok (-eNoMem) s ∨
    (∃ s', (pageInsert d pp va perm).run s = .error .panic s' ∧ Confined s s' (c.Target s cur)) ∨
    ∃ s', (pageInsert d pp va perm).run s = .ok 0 s' ∧ Called b M Q s l cur c s' (.inserted e pp va perm) ∧
      Rest s s' := by
  obtain ⟨src, i, j, w, hw, rfl, -⟩ := hm.source
  have hcell := cell_leaf_eq_some.2 ⟨w, hw, rfl⟩
  obtain ⟨hM, hns⟩ := (h.leafM src i j w hw).resolve_right (by omega)
  have hl : pgnum w ∉ l := fun hl => h.freeCell _ hl _ hcell
  have hin := insert_spec hQ h.toVm h.counts hd hva hM hl hns hperm (Or.inl rfl)
  generalize hrun : (pageInsert d (pgnum w) va perm).run s = r at hin
  cases hin with
  | noMem => exact Or.inl rfl
  | panic s' old _ _ hr hp => exact Or.inr (Or.inl ⟨s', rfl, .of_rest hr fun e _ => by rw [hp]⟩)
  | done s' l' hv hc hr =>
    refine Or.inr (Or.inr ⟨s', rfl, ?_, hr.rest⟩)
    refine .of_remap h.toInv hr hv (fun hroom => hc (hroom e _ va perm hm)) ht rfl ?_
    rintro _ _ _ _ ⟨⟩
    exact ⟨hM, hperm.imp id And.right, Or.inr hm⟩

/-- `page_lookup` at a source: no page, a panic, or the page of the mapping. -/
theorem lookup_cases (h : Tables b M s) {d : Nat} {va : Word} (hd : s.dir e = some d) (hva : va < utop) :
    (∃ q, (pageLookup d va).run s = .ok (none, q) s) ∨ (pageLookup d va).run s = .error .panic s ∨
    ∃ w n, s.pte e (pdx va) (ptx va) = some w ∧ s.mem n (ptx va) = w ∧ pgnum w < s.npages ∧
      (pageLookup d va).run s = .ok (some (pgnum w), some (n, ptx va)) s := by
  cases hw : s.pte e (pdx va) (ptx va) with
  | none => exact Or.inl (lookup_absent h hd hva hw)
  | some w =>
    obtain ⟨n, hn, hmem, -⟩ := pte_eq_some.1 hw
    rw [lookup_present h hd hn hw]
    split
    · rename_i hlt
      exact Or.inr (Or.inr ⟨w, n, rfl, hmem, hlt, rfl⟩)
    · exact Or.inr (Or.inl rfl)

/-- `sys_page_map` fails, stops on an entry that points outside memory, or maps the page. -/
theorem pageMap_cases (hQ : CountRel Q) (h : InCall Q b M s l le cur) (srcenvid srcva dstenvid dstva perm : Word)
    (hq : Q = (· ≤ ·) ∨ perm.msb = false) :
    (∃ r, r < 0 ∧ (sysPageMap srcenvid srcva dstenvid dstva perm).run s = .ok r s) ∨
    (∃ s', (sysPageMap srcenvid srcva dstenvid dstva perm).run s = .error .panic s' ∧
      Confined s s' ((Call.pageMap srcenvid srcva dstenvid dstva perm).Target s cur)) ∨
    ∃ dst pp s', (sysPageMap srcenvid srcva dstenvid dstva perm).run s = .ok 0 s' ∧
      (Call.pageMap srcenvid srcva dstenvid dstva perm).Maps s cur dst pp dstva perm ∧
      Called b M Q s l cur (.pageMap srcenvid srcva dstenvid dstva perm) s' (.inserted dst pp dstva perm) ∧
      Rest s s' := by
  unfold sysPageMap
  split
  · exact Or.inl ⟨-eInval, by decide, rfl⟩
  rename_i hva
  split
  · exact Or.inl ⟨-eInval, by decide, rfl⟩
  rename_i hset
  split
  · exact Or.inl ⟨-eInval, by decide, rfl⟩
  rename_i hmask
  rw [run_bind_ok (run_envid2env h.curenv true)]
  -- then come, in the order of the source, both environments, the page, its write permission and the new entry
  cases hsrc : s.resolve cur srcenvid true with
  | none => exact Or.inl ⟨-eBadEnv, by decide, rfl⟩
  | some src =>
    dsimp only
    rw [if_neg (by decide), run_bind_ok (run_envid2env h.curenv true)]
    cases hdst : s.resolve cur dstenvid true with
    | none => exact Or.inl ⟨-eBadEnv, by decide, rfl⟩
    | some dst =>
      have hva' := hva
      simp only [not_or, BitVec.not_le] at hva'
      obtain ⟨d, hd, -⟩ := h.toEnvTable.dir (resolve_live hsrc h.live)
      obtain ⟨d', hd', -⟩ := h.toEnvTable.dir (resolve_live hdst h.live)
      dsimp only
      rw [if_neg (by decide), run_bind_ok (run_deref_some src), run_pgdir hd]
      rcases lookup_cases h.toTables hd hva'.1 with ⟨q, hlk⟩ | hlk | ⟨w, n, hw, hmem, hlt, hlk⟩
      · rw [run_bind_ok hlk]
        exact Or.inl ⟨-eInval, by decide, rfl⟩
      · rw [run_bind_error hlk]
        exact Or.inr (Or.inl ⟨s, rfl, .refl s _⟩)
      · rw [run_bind_ok hlk]
        dsimp only
        rw [run_bind_ok (run_load _)]
        dsimp only
        rw [hmem]
        split
        · exact Or.inl ⟨-eInval, by decide, rfl⟩
        rename_i hperm
        have hm : (Call.pageMap srcenvid srcva dstenvid dstva perm).Maps s cur dst (pgnum w) dstva perm :=
          .pageMap hva hset hmask hsrc hdst hw hperm
        rw [run_bind_ok (run_deref_some dst), run_pgdir hd']
        rcases insert_cases hQ h hd' (resolve_target hdst) hva'.2.2.1 hm hlt (perm_cases s hmask _ hq) with
          hin | ⟨s', hin, hconf⟩ | ⟨s', hin, hcalled, hrest⟩
        · rw [run_bind_ok hin]
          exact Or.inl ⟨-eNoMem, by decide, rfl⟩
        · rw [run_bind_error hin]
          exact Or.inr (Or.inl ⟨s', rfl, hconf⟩)
        · rw [run_bind_ok hin]
          exact Or.inr (Or.inr ⟨dst, pgnum w, s', rfl, hm, hcalled, hrest⟩)

theorem outcome_pageMap (hQ : CountRel Q) (h : InCall Q b M s l le cur) (srcenvid srcva dstenvid dstva perm : Word)
    (hq : Q = (· ≤ ·) ∨ perm.msb = false) : Outcome b M Q s l cur (.pageMap srcenvid srcva dstenvid dstva perm)
      ((Call.pageMap srcenvid srcva dstenvid dstva perm).exec.run s) := by
  show Outcome b M Q s l cur _ ((sysPageMap srcenvid srcva dstenvid dstva perm).run s)
  rcases pageMap_cases hQ h srcenvid srcva dstenvid dstva perm hq with
    ⟨r, -, hrun⟩ | ⟨s', hrun, hconf⟩ | ⟨dst, pp, s', hrun, -, hcalled, -⟩
  · rw [hrun]
    exact .stay h.toInv r
  · rw [hrun]
    exact .panic s' hconf
  · rw [hrun]
    exact .done _ _ hcalled

/-! ## Mapping a new page -/

/-- The insertion of a page that was just taken, seen from the state before. -/
theorem Taken.remap {s₁ : State} {l' : List Nat} {p : Nat} {i j : Idx} {x : Option Word} (h : Taken b M Q s s' l p)
    (hr : Remap s' s₁ l l' e i j x) : Remap s s₁ (p :: l) l' e i j x where
  rest := h.rest.trans hr.rest
  pte := by rw [← h.pte]; exact hr.pte
  tab := by rw [← h.tab]; exact hr.tab
  mem f hf hns := by
    rw [List.mem_cons, not_or] at hf
    rw [hr.mem f hf.2 (by rwa [struct_congr h.tab h.rest.dir]), h.mem f hf.1]
  tables f hf := by
    rw [← struct_congr h.tab h.rest.dir]
    exact (hr.tables f hf).imp id (List.mem_cons_of_mem p)
  free f hf := by
    rw [← h.cell]
    exact (hr.free f hf).imp (List.mem_cons_of_mem p) id

/-- `sys_page_alloc` fails, stops on an entry that points outside memory, or maps a page that was free. -/
theorem pageAlloc_cases (hQ : CountRel Q) (h : InCall Q b M s l le cur) (envid va perm : Word)
    (hq : Q = (· ≤ ·) ∨ perm.msb = false) :
    (∃ r, r < 0 ∧ (sysPageAlloc envid va perm).run s = .ok r s) ∨
    (∃ s', (sysPageAlloc envid va perm).run s = .error .panic s' ∧
      Confined s s' ((Call.pageAlloc envid va perm).Target s cur)) ∨
    ∃ e p s', (sysPageAlloc envid va perm).run s = .ok 0 s' ∧ s.resolve cur envid true = some e ∧ p ∈ l ∧
      Called b M Q s l cur (.pageAlloc envid va perm) s' (.inserted e p va perm) ∧ Rest s s' := by
  unfold sysPageAlloc
  split
  · exact Or.inl ⟨-eInval, by decide, rfl⟩
  rename_i hva
  rw [BitVec.not_le] at hva
  split
  · exact Or.inl ⟨-eInval, by decide, rfl⟩
  split
  · exact Or.inl ⟨-eInval, by decide, rfl⟩
  rename_i hmask
  rw [run_bind_ok (run_envid2env h.curenv true)]
  cases hr : s.resolve cur envid true with
  | none => exact Or.inl ⟨-eBadEnv, by decide, rfl⟩
  | some e =>
    obtain ⟨d, hd, -⟩ := h.toEnvTable.dir (resolve_live hr h.live)
    dsimp only
    rw [if_neg (by decide)]
    cases l with
    | nil =>
      rw [run_bind_ok (pageAlloc_none h.chain 0#32)]
      exact Or.inl ⟨-eNoMem, by decide, rfl⟩
    | cons p l =>
      have hpl : p ∈ p :: l := List.mem_cons_self ..
      have hM := h.freeM p hpl
      have hnl := (List.nodup_cons.1 h.nodup).1
      have ht := take_spec h.toVm h.counts 0#32
      have hd₁ : (s.take 0#32 p).dir e = some d := by rw [ht.rest.dir]; exact hd
      have hns : ¬ (s.take 0#32 p).Struct p := by
        rw [struct_congr ht.tab ht.rest.dir]; exact h.free_not_struct hpl
      have hperm := perm_cases s hmask p hq
      rw [run_bind_ok (pageAlloc_take h.chain.1 (h.managed p hM) 0#32)]
      dsimp only
      rw [run_bind_ok (run_deref_some e), run_pgdir hd₁]
      have hin := insert_spec hQ ht.vm ht.counts hd₁ hva hM hnl hns (by rw [ht.rest.npages]; exact hperm) ht.linkable
      generalize hrun : (pageInsert d p va perm).run (s.take 0#32 p) = r at hin
      cases hin with
      | noMem _ hnil =>
        -- the page taken was the only one, so putting it back restores the state
        subst hnil
        obtain ⟨hfree, -, -⟩ := ht.putBack hM hnl
        rw [take_zero, pop_push h.toFreePages] at hfree
        rw [take_zero] at hrun
        rw [take_zero, run_bind_ok hrun, if_pos (by decide), run_bind_ok hfree]
        exact Or.inl ⟨-eNoMem, by decide, rfl⟩
      | panic s' old _ _ hrest hp =>
        rw [run_bind_error hrun]
        exact Or.inr (Or.inl ⟨s', rfl, .of_rest (ht.rest.trans hrest) fun e _ => by rw [hp, ht.pte]⟩)
      | done s' l' hv hc hrm =>
        have hrm' := ht.remap hrm
        have hroom : Room (s.take 0#32 p) p (.leaf e (pdx va) (ptx va)) := by
          obtain hk | ⟨-, h0, -⟩ := ht.linkable
          · cases hk
          · exact Or.inl (by omega)
        have hcalled : Called b M Q s (p :: l) cur (.pageAlloc envid va perm) s' (.inserted e p va perm) := by
          refine .of_remap h.toInv hrm' hv (fun _ => hc hroom) (resolve_target hr) rfl ?_
          rintro _ _ _ _ ⟨⟩
          exact ⟨hM, hperm.imp id And.right, Or.inl ⟨hpl, envid, rfl⟩⟩
        have hns' : ¬ s'.Struct p := fun hs => (hrm.tables p hs).elim hns hnl
        have hkva : (page2kva p).run s' = .ok p s' := run_page2kva (by rw [hrm'.rest.npages]; exact h.managed p hM)
        rw [run_bind_ok hrun, if_neg (by decide), run_bind_ok hkva]
        exact Or.inr (Or.inr ⟨e, p, s'.setMem p fun _ => 0#32, rfl, rfl, hpl, hcalled.setMem hM hpl hns' _,
          hrm'.rest.trans ⟨rfl, rfl, rfl, rfl, rfl, rfl, fun _ => rfl, fun _ => rfl⟩⟩)

theorem outcome_pageAlloc (hQ : CountRel Q) (h : InCall Q b M s l le cur) (envid va perm : Word)
    (hq : Q = (· ≤ ·) ∨ perm.msb = false) :
    Outcome b M Q s l cur (.pageAlloc envid va perm) ((Call.pageAlloc envid va perm).exec.run s) := by
  show Outcome b M Q s l cur _ ((sysPageAlloc envid va perm).run s)
  rcases pageAlloc_cases hQ h envid va perm hq with
    ⟨r, -, hrun⟩ | ⟨s', hrun, hconf⟩ | ⟨e, p, s', hrun, -, -, hcalled, -⟩
  · rw [hrun]
    exact .stay h.toInv r
  · rw [hrun]
    exact .panic s' hconf
  · rw [hrun]
    exact .done _ _ hcalled

/-! ## Messages -/

/-- The end of a send, after what it has mapped. -/
theorem outcome_deliver {c : Call} {ev : Event} {dst : Slot} (h : Called b M Q s l cur c s' ev)
    (hcur : s'.curenv = some cur) (ht : c.Target s cur dst) (hlive : (s'.envs dst).envStatus ≠ .free) (value : Word) :
    Outcome b M Q s l cur c ((ipcDeliver dst value).run s') := by
  unfold ipcDeliver
  rw [run_bind_ok (EStateM.run_get s'), hcur, run_bind_ok (run_deref_some cur), run_bind_ok (run_env cur),
    run_bind_ok (run_modifyEnv ..)]
  exact .done _ ev (h.setEnv (fun _ => ht) hlive (by simp [ipcReceived]) rfl rfl)

/-- The part of a send that maps page `pp` for the receiver and then delivers. -/
def ipcTransfer (dst : Slot) (d pp : Nat) (dstva perm value : Word) : Kern Int := do
  let r ← pageInsert d pp dstva perm
  if r < 0 then
    return -eNoMem
  modifyEnv dst fun v => { v with envIpcPerm := perm }
  ipcDeliver dst value

/-- A send fails, panics at the source, delivers a value, or transfers a page. -/
inductive Sent (s : State) (cur : Slot) (envid value srcva perm : Word) : EStateM.Result Stop State Int → Prop where
  | stay (r : Int) : Sent s cur envid value srcva perm (.ok r s)
  | panic : Sent s cur envid value srcva perm (.error .panic s)
  | deliver (dst : Slot) (ht : (Call.ipcTrySend envid value srcva perm).Target s cur dst)
      (hlive : (s.envs dst).envStatus ≠ .free) : Sent s cur envid value srcva perm ((ipcDeliver dst value).run s)
  | transfer (dst : Slot) (d pp : Nat) (ht : (Call.ipcTrySend envid value srcva perm).Target s cur dst)
      (hlive : (s.envs dst).envStatus ≠ .free) (hd : s.dir dst = some d) (hlt : pp < s.npages) (hlow : LowPerm perm)
      (hm : (Call.ipcTrySend envid value srcva perm).Maps s cur dst pp (s.envs dst).envIpcDstva perm) :
      Sent s cur envid value srcva perm ((ipcTransfer dst d pp (s.envs dst).envIpcDstva perm value).run s)

theorem ipcTrySend_sent (h : InCall Q b M s l le cur) (envid value srcva perm : Word) :
    Sent s cur envid value srcva perm ((sysIpcTrySend envid value srcva perm).run s) := by
  unfold sysIpcTrySend
  rw [run_bind_ok (run_envid2env h.curenv false)]
  cases hr : s.resolve cur envid false with
  | none => exact .stay _
  | some dst =>
    have hlive := resolve_live hr h.live
    dsimp only
    rw [if_neg (by decide), run_bind_ok (run_deref_some dst), run_bind_ok (run_env dst)]
    split
    · exact .stay _
    rename_i hrecv
    have ht : (Call.ipcTrySend envid value srcva perm).Target s cur dst :=
      Or.inr (Or.inr ⟨hr, by simpa using (not_or.1 hrecv).1⟩)
    split
    swap
    · exact .deliver dst ht hlive
    rename_i hva
    split
    · exact .stay _
    rename_i halign
    split
    · exact .stay _
    rename_i hset
    split
    · exact .stay _
    rename_i hmask
    obtain ⟨d, hd, -⟩ := h.toEnvTable.dir h.live
    obtain ⟨d', hd', hd''⟩ := h.toEnvTable.dir hlive
    rw [run_bind_ok (EStateM.run_get s), h.curenv, run_bind_ok (run_deref_some cur), run_pgdir hd]
    -- the page is looked up in the sender, and mapped in the receiver if that asked for one
    rcases lookup_cases h.toTables hd hva with ⟨q, hlk⟩ | hlk | ⟨w, n, hw, hmem, hlt, hlk⟩
    · rw [run_bind_ok hlk]
      exact .stay _
    · rw [run_bind_error hlk]
      exact .panic
    · rw [run_bind_ok hlk]
      dsimp only
      rw [run_bind_ok (run_load _)]
      dsimp only
      rw [hmem]
      split
      · exact .stay _
      rename_i hperm
      split
      swap
      · exact .deliver dst ht hlive
      rename_i hasked
      have hlow : LowPerm perm := by
        refine lowPerm_masked (BitVec.eq_of_toNat_eq ?_)
        simpa using hmask
      rw [hd'', run_bind_ok (run_derefPage_some d')]
      exact .transfer dst d' (pgnum w) ht hlive hd' hlt hlow
        (.ipcTrySend hr hrecv hva halign hset hmask hw hperm hasked)

theorem outcome_ipcTrySend (hQ : CountRel Q) (h : InCall Q b M s l le cur) (envid value srcva perm : Word)
    (hdst : (Call.ipcTrySend envid value srcva perm).UserDst s cur) :
    Outcome b M Q s l cur (.ipcTrySend envid value srcva perm)
      ((Call.ipcTrySend envid value srcva perm).exec.run s) := by
  show Outcome b M Q s l cur _ ((sysIpcTrySend envid value srcva perm).run s)
  have hsent := ipcTrySend_sent h envid value srcva perm
  generalize (sysIpcTrySend envid value srcva perm).run s = r at hsent
  cases hsent with
  | stay r => exact .stay h.toInv r
  | panic => exact .panic s (.refl s _)
  | deliver dst ht hlive => exact outcome_deliver (.stay h.toInv) h.curenv ht hlive value
  | transfer dst d pp ht hlive hd hlt hlow hm =>
    unfold ipcTransfer
    rcases insert_cases hQ h hd ht (hdst _ _ _ _ hm) hm hlt (Or.inl hlow) with
      hin | ⟨s', hin, hconf⟩ | ⟨s', hin, hcalled, hrest⟩
    · rw [run_bind_ok hin]
      exact .stay h.toInv _
    · rw [run_bind_error hin]
      exact .panic s' hconf
    · rw [run_bind_ok hin, if_neg (by decide), run_bind_ok (run_modifyEnv ..)]
      have hlive' : (s'.envs dst).envStatus ≠ .free := by rw [hrest.envs]; exact hlive
      have hcalled' := hcalled.setEnv (v := { s'.envs dst with envIpcPerm := perm }) (fun _ => ht) hlive' hlive' rfl rfl
      refine outcome_deliver hcalled' ?_ ht ?_ value
      · exact hrest.curenv.trans h.curenv
      · rw [envs_setEnv, if_pos rfl]
        exact hlive'

/-! ## All calls -/

/-- The outcome of every call that maps pages at user addresses only. -/
theorem call_outcome (hQ : CountRel Q) (h : InCall Q b M s l le cur) (c : Call) (hq : Q = (· ≤ ·) ∨ c.SignClear)
    (hdst : c.UserDst s cur) : Outcome b M Q s l cur c (c.exec.run s) := by
  cases c with
  | cputs str len => exact outcome_cputs hQ h str len
  | cgetc x => exact .stay h.toInv x
  | getenvid =>
    have hid : Call.getenvid.exec.run s = .ok (s.envs cur).envId.toInt s := run_bind_ok (run_getenvid h.curenv)
    rw [hid]
    exact .stay h.toInv _
  | envDestroy envid => exact outcome_sysEnvDestroy hQ h envid
  | yield => exact outcome_yield h
  | exofork => exact outcome_exofork hQ h
  | envSetStatus envid status => exact outcome_envSetStatus h envid status
  | envSetPgfaultUpcall envid func => exact outcome_envSetPgfaultUpcall h envid func
  | pageAlloc envid va perm => exact outcome_pageAlloc hQ h envid va perm hq
  | pageMap srcenvid srcva dstenvid dstva perm => exact outcome_pageMap hQ h srcenvid srcva dstenvid dstva perm hq
  | pageUnmap envid va => exact outcome_pageUnmap hQ h envid va
  | ipcTrySend envid value srcva perm => exact outcome_ipcTrySend hQ h envid value srcva perm hdst
  | ipcRecv dstva => exact outcome_ipcRecv h dstva

/-- A call that did not panic. -/
theorem call_called (hQ : CountRel Q) (h : InCall Q b M s l le cur) (c : Call) (hq : Q = (· ≤ ·) ∨ c.SignClear)
    (hdst : c.UserDst s cur) (hrun : ∀ s', c.exec.run s ≠ .error .panic s') :
    ∃ ev, Called b M Q s l cur c (finalState (c.exec.run s)) ev := by
  have hout := call_outcome hQ h c hq hdst
  generalize c.exec.run s = r at hout hrun
  cases hout with
  | panic s' _ => exact absurd rfl (hrun s')
  | done _ ev h => exact ⟨ev, h⟩

end Jos
