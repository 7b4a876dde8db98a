/-
A system call that fails changes nothing. Each call tests its arguments before it acts; what can
fail later is an allocation, and then the page taken before it is put back.
-/
import Jos.Run.Boot

namespace Jos

open Lib Kern

variable {s s' : State} {I : State → Prop} {d pp : Nat} {va perm : Word}

/-- The free list invariant: the free list is linked without repetition and its pages have no reference. -/
def FreeOk (s : State) : Prop := ∃ l, FreePages l s l

/-- A call that returns a negative value changed nothing. -/
def Atomic (x : Kern Int) : Prop := Undoes FreeOk (· < 0) x

/-! ## Functions that only read -/

theorem reads_get : Reads (get : Kern State) := by rintro s _ _ ⟨⟩; rfl

theorem reads_env (e : Slot) : Reads (env e) := by rintro s _ _ ⟨⟩; rfl

theorem reads_load (p : Nat × Idx) : Reads (load p) := by rintro s _ _ ⟨⟩; rfl

theorem reads_panic {α : Type} : Reads (panic : Kern α) := .throw _

theorem reads_deref (e : Option Slot) : Reads (deref e) := by
  cases e with
  | none => exact reads_panic
  | some e => exact .pure e

theorem reads_derefPage (f : Option Nat) : Reads (derefPage f) := by
  cases f with
  | none => exact reads_panic
  | some f => exact .pure f

theorem reads_kaddr (pa : Word) : Reads (kaddr pa) := by
  refine .bind reads_get fun s => ?_
  split
  · exact reads_panic
  · exact .pure _

theorem reads_envid2env (envid : Word) (checkperm : Bool) : Reads (envid2env envid checkperm) := by
  refine .bind reads_get fun s => ?_
  split
  · exact .pure _
  refine .bind (reads_env _) fun v => ?_
  split
  · exact .pure _
  dsimp only
  split
  · refine .bind (reads_deref _) fun c => .bind (reads_env _) fun cur => ?_
    split
    · exact .pure _
    · exact .pure _
  · exact .pure _

theorem reads_walk (d : Nat) (va : Word) : Reads (pgdirWalk d va false) := by
  refine .bind (reads_load _) fun pde => ?_
  split
  · exact .bind (reads_kaddr _) fun n => .pure _
  · exact .pure _

theorem reads_lookup (d : Nat) (va : Word) : Reads (pageLookup d va) := by
  refine .bind (reads_walk d va) fun w => ?_
  split
  · exact .pure _
  · refine .bind (reads_load _) fun pte => ?_
    split
    · exact .bind (reads_kaddr _) fun n => .pure _
    · exact .pure _

theorem reads_getenvid : Reads sysGetenvid :=
  .bind reads_get fun _ => .bind (reads_deref _) fun _ => .bind (reads_env _) fun _ => .pure _

/-! ## Allocations that fail -/

theorem alloc_none {flags : Word} (h : (pageAlloc flags).run s = .ok none s') : s' = s ∧ s.pageFreeList = none := by
  unfold pageAlloc at h
  rw [run_bind_ok (EStateM.run_get s)] at h
  cases hl : s.pageFreeList with
  | none =>
    rw [hl] at h
    cases h; exact ⟨rfl, rfl⟩
  | some p =>
    rw [hl] at h
    obtain ⟨_, s₁, -, h⟩ := run_bind_eq_ok.1 h
    split at h
    · obtain ⟨_, s₂, -, h⟩ := run_bind_eq_ok.1 h
      obtain ⟨_, s₃, -, h⟩ := run_bind_eq_ok.1 h
      cases h
    · cases h

/-- The walk returns nothing only when there is no page to make the table from. -/
theorem walk_none (h : (pgdirWalk d va true).run s = .ok none s') : s' = s ∧ s.pageFreeList = none := by
  unfold pgdirWalk at h
  rw [run_bind_ok (run_load _)] at h
  split at h
  · obtain ⟨_, s₁, -, h⟩ := run_bind_eq_ok.1 h
    cases h
  · rw [if_neg (by simp)] at h
    obtain ⟨o, s₁, ho, h⟩ := run_bind_eq_ok.1 h
    cases o with
    | none =>
      cases h
      exact alloc_none ho
    | some p =>
      obtain ⟨_, s₂, -, h⟩ := run_bind_eq_ok.1 h
      obtain ⟨_, s₃, -, h⟩ := run_bind_eq_ok.1 h
      obtain ⟨_, s₄, -, h⟩ := run_bind_eq_ok.1 h
      cases h

/-- `page_insert` returns 0 once the walk has found the entry. -/
theorem insert_returns_zero (pte : Nat × Idx) : Returns (fun r : Int => r = 0) (do
    let old ← load pte
    if present old then
      if pteAddr old = page2pa pp then
        modify fun s => s.setRef pp ((s.pages pp).ppRef - 1#16)
        tlbInvalidate d va
      else
        pageRemove d va
    modify fun s => s.setRef pp ((s.pages pp).ppRef + 1#16)
    store pte (page2pa pp ||| perm ||| pteP)
    return 0 : Kern Int) := by
  have hend : Returns (fun r : Int => r = 0) (do
      modify fun s => s.setRef pp ((s.pages pp).ppRef + 1#16)
      store pte (page2pa pp ||| perm ||| pteP)
      return 0 : Kern Int) := .bind fun _ => .bind fun _ => .pure rfl
  refine .bind fun old => ?_
  dsimp only
  split
  · split
    · exact .bind fun _ => .bind fun _ => hend
    · exact .bind fun _ => hend
  · exact hend

/-- `page_insert` fails only for want of a page table, before it has changed anything. -/
theorem insert_fails {r : Int} (h : (pageInsert d pp va perm).run s = .ok r s') (hr : r < 0) :
    s' = s ∧ s.pageFreeList = none := by
  unfold pageInsert at h
  obtain ⟨w, s₁, hw, h⟩ := run_bind_eq_ok.1 h
  cases w with
  | none =>
    cases h
    exact walk_none hw
  | some pte =>
    have := insert_returns_zero pte _ _ _ h
    omega

theorem insert_succeeds : Returns (fun r : Int => ¬ r < 0 → r = 0) (pageInsert d pp va perm) := by
  refine .bind fun w => ?_
  cases w with
  | none => exact .pure (by decide)
  | some pte => exact fun s r s' h _ => insert_returns_zero pte _ _ _ h

theorem undoes_insert : Undoes I (· < 0) (pageInsert d pp va perm) := fun _ _ _ _ h hr => (insert_fails h hr).1

/-- The test of the result of `page_insert` in the calls that map a page. -/
theorem undoes_insert_test {k : Kern Int} (hk : Returns (fun r => ¬ r < 0) k) :
    Undoes I (· < 0) (do
      let r ← pageInsert d pp va perm
      if r < 0 then return -eNoMem else k : Kern Int) := by
  refine .bind_fail undoes_insert fun r s b s' h hb => ?_
  split at h
  · rename_i hr
    cases h; exact ⟨hr, rfl⟩
  · exact absurd hb (hk s b s' h)

/-! ## The system calls -/

theorem atomic_sysEnvDestroy (envid : Word) : Atomic (sysEnvDestroy envid) := by
  refine .bind (reads_envid2env _ _) ?_
  rintro ⟨r, e⟩
  exact .ite (Reads.pure _).undoes (.never (.bind fun _ => .bind fun _ => .pure (by decide)))

theorem atomic_sysEnvSetStatus (envid status : Word) : Atomic (sysEnvSetStatus envid status) := by
  unfold sysEnvSetStatus Atomic
  split
  · exact (Reads.pure _).undoes
  · refine .bind (reads_envid2env _ _) ?_
    rintro ⟨r, e⟩
    exact .ite (Reads.pure _).undoes (.never (.bind fun _ => .bind fun _ => .pure (by decide)))

theorem atomic_sysEnvSetPgfaultUpcall (envid func : Word) : Atomic (sysEnvSetPgfaultUpcall envid func) := by
  refine .bind (reads_envid2env _ _) ?_
  rintro ⟨r, e⟩
  exact .ite (Reads.pure _).undoes (.never (.bind fun _ => .bind fun _ => .pure (by decide)))

theorem atomic_sysPageUnmap (envid va : Word) : Atomic (sysPageUnmap envid va) := by
  refine .ite (Reads.pure _).undoes (.bind (reads_envid2env _ _) ?_)
  rintro ⟨r, e⟩
  refine .ite (Reads.pure _).undoes (.never ?_)
  exact .bind fun _ => .bind fun _ => .bind fun _ => .bind fun _ => .pure (by decide)

theorem atomic_sysPageMap (srcenvid srcva dstenvid dstva perm : Word) :
    Atomic (sysPageMap srcenvid srcva dstenvid dstva perm) := by
  refine .ite (Reads.pure _).undoes (.ite (Reads.pure _).undoes (.ite (Reads.pure _).undoes ?_))
  refine .bind (reads_envid2env _ _) ?_
  rintro ⟨r₁, src⟩
  refine .ite (Reads.pure _).undoes (.bind (reads_envid2env _ _) ?_)
  rintro ⟨r₂, dst⟩
  refine .ite (Reads.pure _).undoes (.bind (reads_deref _) fun _ => .bind (reads_env _) fun _ =>
    .bind (reads_derefPage _) fun _ => .bind (reads_lookup _ _) ?_)
  rintro ⟨p, pte⟩
  split
  · refine .bind (reads_load _) fun w => .ite (Reads.pure _).undoes ?_
    refine .bind (reads_deref _) fun _ => .bind (reads_env _) fun _ => .bind (reads_derefPage _) fun _ => ?_
    exact undoes_insert_test (.pure (by decide))
  · exact (Reads.pure _).undoes

theorem ipcDeliver_returns (dst : Slot) (value : Word) : Returns (fun r => ¬ r < 0) (ipcDeliver dst value) :=
  .bind fun _ => .bind fun _ => .bind fun _ => .bind fun _ => .pure (by decide)

theorem atomic_sysIpcTrySend (envid value srcva perm : Word) : Atomic (sysIpcTrySend envid value srcva perm) := by
  refine .bind (reads_envid2env _ _) ?_
  rintro ⟨r, dstenv⟩
  refine .ite (Reads.pure _).undoes (.bind (reads_deref _) fun dst => .bind (reads_env _) fun v =>
    .ite (Reads.pure _).undoes (.ite ?_ (.never (ipcDeliver_returns _ _))))
  refine .ite (Reads.pure _).undoes (.ite (Reads.pure _).undoes (.ite (Reads.pure _).undoes ?_))
  refine .bind reads_get fun _ => .bind (reads_deref _) fun _ => .bind (reads_env _) fun cur =>
    .bind (reads_derefPage _) fun _ => .bind (reads_lookup _ _) ?_
  rintro ⟨p, pte⟩
  split
  · refine .bind (reads_load _) fun w => .ite (Reads.pure _).undoes (.ite ?_ (.never (ipcDeliver_returns _ _)))
    refine .bind (reads_derefPage _) fun _ => undoes_insert_test ?_
    exact .bind fun _ => ipcDeliver_returns _ _
  · exact (Reads.pure _).undoes

theorem atomic_sysIpcRecv (dstva : Word) : Atomic (sysIpcRecv dstva) :=
  .ite (Reads.pure _).undoes
    (.never (.bind fun _ => .bind fun _ => .bind fun _ => .bind fun _ => .pure (by decide)))

/-- The free page taken by `sys_page_alloc` is put back when `page_insert` fails. -/
theorem atomic_sysPageAlloc (envid va perm : Word) : Atomic (sysPageAlloc envid va perm) := by
  refine .ite (Reads.pure _).undoes (.ite (Reads.pure _).undoes (.ite (Reads.pure _).undoes ?_))
  refine .bind (reads_envid2env _ _) ?_
  rintro ⟨r, e⟩
  refine .ite (Reads.pure _).undoes ?_
  rintro s a s' ⟨l, hl⟩ h ha
  obtain ⟨o, s₁, ho, h⟩ := run_bind_eq_ok.1 h
  cases o with
  | none =>
    cases h
    exact (alloc_none ho).1
  | some p =>
    cases l with
    | nil =>
      rw [pageAlloc_none hl.chain] at ho; cases ho
    | cons q l =>
      rw [pageAlloc_plain hl.chain.1] at ho
      cases ho
      -- up to `page_insert` the call only reads
      obtain ⟨c, s₂, h₂, h⟩ := run_bind_eq_ok.1 h
      cases reads_deref e _ _ _ h₂
      obtain ⟨v, s₃, h₃, h⟩ := run_bind_eq_ok.1 h
      cases reads_env c _ _ _ h₃
      obtain ⟨d, s₄, h₄, h⟩ := run_bind_eq_ok.1 h
      cases reads_derefPage v.envPgdir _ _ _ h₄
      obtain ⟨r, s₅, h₅, h⟩ := run_bind_eq_ok.1 h
      split at h
      · rename_i hr
        obtain ⟨rfl, hnone⟩ := insert_fails h₅ hr
        have htail : Chain _ (s.pop p).pageFreeList l := hl.chain.2
        rw [hnone, Chain.none_iff] at htail
        subst htail
        have hfree : (pageFree p).run (s.pop p) = .ok () ((s.pop p).push p) :=
          pageFree_push (hl.freeRef p (List.mem_cons_self ..))
        rw [run_bind_ok hfree] at h
        cases h
        exact pop_push hl
      · have hz : Returns (fun r : Int => ¬ r < 0) (do zeroPage (← page2kva p); return 0 : Kern Int) :=
          .bind fun _ => .bind fun _ => .pure (by decide)
        exact absurd ha (hz _ _ _ h)

/-! ## Creating an environment -/

theorem envGeneration_msb (id : Word) : (envGeneration id).toNat < 2 ^ 31 := by
  unfold envGeneration
  dsimp only
  split
  · decide
  · rename_i h
    by_contra hc
    apply h
    rw [BitVec.toInt_eq_toNat_cond, if_neg (by omega)]
    have := ((id + 1#32 <<< 12) &&& ~~~1023#32).isLt
    omega

/-- The id of a new environment is not negative. -/
theorem newEnv_envId (e : Slot) (parentId : Word) (v : Env) : ¬ (newEnv e parentId v).envId.toInt < 0 := by
  have h1 := envGeneration_msb v.envId
  have h2 : (BitVec.ofNat 32 e.val).toNat < 2 ^ 31 := by
    rw [BitVec.toNat_ofNat]
    have := e.isLt
    have : nenv = 1024 := rfl
    omega
  have h3 : (newEnv e parentId v).envId.toNat < 2 ^ 31 := by
    show (envGeneration v.envId ||| BitVec.ofNat 32 e.val).toNat < _
    rw [BitVec.toNat_or]
    exact Nat.or_lt_two_pow h1 h2
  rw [BitVec.toInt_eq_toNat_cond, if_pos (by omega)]
  omega

theorem undoes_envSetupVm (e : Slot) : Undoes I (· < 0) (envSetupVm e) := by
  intro s r s' _ h hr
  obtain ⟨o, s₁, ho, h⟩ := run_bind_eq_ok.1 h
  cases o with
  | none =>
    cases h
    exact (alloc_none ho).1
  | some p =>
    have hz : Returns (fun r : Int => ¬ r < 0) (do
        modify fun s => s.setRef p ((s.pages p).ppRef + 1#16)
        let kva ← page2kva p
        modifyEnv e fun v => { v with envPgdir := some kva }
        modify fun s => s.setMem kva (envPgdirPage (s.mem s.kernPgdir) p)
        return 0 : Kern Int) := .bind fun _ => .bind fun _ => .bind fun _ => .bind fun _ => .pure (by decide)
    exact absurd hr (hz _ _ _ h)

/-- `env_alloc` fails before it has changed anything, and otherwise returns the new environment. -/
theorem envAlloc_cases {parentId : Word} {r : Int} {o : Option Slot} (h : (envAlloc parentId).run s = .ok (r, o) s') :
    (r < 0 ∧ s' = s) ∨ (r = 0 ∧ ∃ e v, o = some e ∧ s'.envs e = newEnv e parentId v) := by
  cases he : s.envFreeList with
  | none =>
    rw [envAlloc_noFreeEnv he] at h
    cases h; exact Or.inl ⟨by decide, rfl⟩
  | some e =>
    unfold envAlloc at h
    rw [run_bind_ok (EStateM.run_get s), he] at h
    obtain ⟨r₁, s₁, h₁, h⟩ := run_bind_eq_ok.1 h
    split at h
    · rename_i hr
      cases h
      exact Or.inl ⟨hr, undoes_envSetupVm (I := fun _ => True) e s _ _ trivial h₁ hr⟩
    · rw [run_bind_ok (run_modifyEnv ..), run_bind_ok (EStateM.run_modify _ _)] at h
      cases h
      refine Or.inr ⟨rfl, e, s₁.envs e, rfl, ?_⟩
      show Function.update s₁.envs e _ e = _
      rw [Function.update_self]

theorem atomic_sysExofork : Atomic sysExofork := by
  refine .bind reads_getenvid fun id => ?_
  rintro s a s' - hrun ha
  obtain ⟨⟨r, o⟩, s₁, h₁, h⟩ := run_bind_eq_ok.1 hrun
  dsimp only at h
  rcases envAlloc_cases h₁ with ⟨hr, rfl⟩ | ⟨rfl, e, v, rfl, hv⟩
  · rw [if_pos hr] at h
    cases h; rfl
  · -- the call returns the id of the new environment
    rw [if_neg (by decide), run_bind_ok (run_deref_some e), run_bind_ok (EStateM.run_get _)] at h
    obtain ⟨c, s₂, h₂, h⟩ := run_bind_eq_ok.1 h
    cases reads_deref _ _ _ _ h₂
    rw [run_bind_ok (run_env c), run_bind_ok (run_modifyEnv ..), run_bind_ok (run_env e)] at h
    cases h
    have hid : ∀ w, ((s₁.setEnv e w).envs e).envId = w.envId := by
      intro w
      show (Function.update s₁.envs e w e).envId = _
      rw [Function.update_self]
    rw [hid] at ha
    have : (s₁.envs e).envId.toInt < 0 := ha
    rw [hv] at this
    exact absurd this (newEnv_envId e id v)

/-- The calls that may return an error. -/
def Call.CanFail : Call → Prop
  | .exofork | .envSetStatus .. | .envSetPgfaultUpcall .. | .pageAlloc .. | .pageMap .. | .pageUnmap ..
  | .ipcTrySend .. | .ipcRecv .. | .envDestroy .. => True
  | _ => False

/-- A call that returns a negative value leaves the whole state as it was. -/
theorem failed_call_changes_nothing {c : Call} (hc : c.CanFail) {r : Int} (hs : FreeOk s)
    (h : c.exec.run s = .ok r s') (hr : r < 0) : s' = s := by
  have hatomic : Atomic c.exec := by
    cases c with
    | exofork => exact atomic_sysExofork
    | envSetStatus envid status => exact atomic_sysEnvSetStatus envid status
    | envSetPgfaultUpcall envid func => exact atomic_sysEnvSetPgfaultUpcall envid func
    | pageAlloc envid va perm => exact atomic_sysPageAlloc envid va perm
    | pageMap srcenvid srcva dstenvid dstva perm => exact atomic_sysPageMap srcenvid srcva dstenvid dstva perm
    | pageUnmap envid va => exact atomic_sysPageUnmap envid va
    | ipcTrySend envid value srcva perm => exact atomic_sysIpcTrySend envid value srcva perm
    | ipcRecv dstva => exact atomic_sysIpcRecv dstva
    | envDestroy envid => exact atomic_sysEnvDestroy envid
    | cputs str len => exact hc.elim
    | cgetc c => exact hc.elim
    | getenvid => exact hc.elim
    | yield => exact hc.elim
  exact hatomic s r s' hs h hr

/-- An environment whose call finds a single free page, and none for the page table. -/
def lowMem : State := State.enter { firstEnv with pageFreeList := some 1 } 0 0

theorem lowMem_freeOk : FreeOk lowMem := ⟨[1], ⟨rfl, rfl⟩, List.nodup_singleton 1, fun _ h => h, by decide⟩

theorem failed_call_changes_nothing_lowMem :
    finalState ((Call.pageAlloc 0#32 utext (pteP ||| pteU ||| pteW)).exec.run lowMem) = lowMem :=
  failed_call_changes_nothing (c := .pageAlloc 0#32 utext (pteP ||| pteU ||| pteW)) (r := -4) trivial lowMem_freeOk rfl
    (by decide)

end Jos
