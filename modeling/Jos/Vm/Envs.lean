/-
Environments come and go: `env_alloc` gives a free slot a page directory with an empty user part,
`env_free` takes the address space down and frees the slot. The invariant of the kernel joins the
address spaces, the reference counts and the list of free environments.
-/
import Jos.Vm.Teardown

namespace Jos

open Lib

variable {b s s' s'' : State} {M l l' : List Nat} {le : List Slot} {Q : Nat → Nat → Prop}
variable {e : Slot} {d : Nat}

/-- The slots `le` are linked from `env_free_list`, they are the free ones, and the others have a
page directory. -/
structure EnvTable (s : State) (le : List Slot) : Prop where
  envChain : Chain (fun e => (s.envs e).envLink) s.envFreeList le
  envNodup : le.Nodup
  mem_iff : ∀ e, e ∈ le ↔ (s.envs e).envStatus = .free
  pgdir : ∀ e, (s.envs e).envStatus ≠ .free → (s.envs e).envPgdir ≠ none

/-- The invariant of the kernel. -/
structure Inv (Q : Nat → Nat → Prop) (b : State) (M : List Nat) (s : State) (l : List Nat) (le : List Slot) : Prop
    extends Vm b M s l, EnvTable s le where
  counts : Counts Q M l none s

theorem EnvTable.dir (h : EnvTable s le) (hs : (s.envs e).envStatus ≠ .free) :
    ∃ d, s.dir e = some d ∧ (s.envs e).envPgdir = some d := by
  obtain ⟨d, hd⟩ := Option.ne_none_iff_exists'.1 (h.pgdir e hs)
  exact ⟨d, by unfold State.dir; rw [if_neg hs, hd], hd⟩

theorem dir_free (h : (s.envs e).envStatus = .free) : s.dir e = none := by
  unfold State.dir; rw [if_pos h]

theorem dir_eq_some : s.dir e = some d ↔ (s.envs e).envStatus ≠ .free ∧ (s.envs e).envPgdir = some d := by
  unfold State.dir
  split
  · rename_i h; simp [h]
  · rename_i h; simp [h]

/-- Nothing changed but memory, the page allocator, the TLB and the environments. -/
structure Same (s s' : State) : Prop where
  npages : s'.npages = s.npages
  kernPgdir : s'.kernPgdir = s.kernPgdir
  cpunum : s'.cpunum = s.cpunum
  kernelLock : s'.kernelLock = s.kernelLock
  cpuEnv : ∀ c, (s'.cpus c).cpuEnv = (s.cpus c).cpuEnv
  cpuStatus : ∀ c, (s'.cpus c).cpuStatus = (s.cpus c).cpuStatus

theorem Rest.same (h : Rest s s') : Same s s' := ⟨h.npages, h.kernPgdir, h.cpunum, h.kernelLock, h.cpuEnv,
  h.cpuStatus⟩

/-! ## Creating an environment -/

/-- The state after `env_setup_vm` made page `p` the directory of slot `e`. -/
def State.setupVm (s : State) (e : Slot) (p : Nat) : State :=
  let s₁ := ((s.pop p).setMem p fun _ => 0#32).setRef p ((s.pages p).ppRef + 1#16)
  let s₂ := s₁.setEnv e { s₁.envs e with envPgdir := some p }
  s₂.setMem p (envPgdirPage (s₂.mem s₂.kernPgdir) p)

/-- The state after `env_alloc` took slot `e` and page `p`. -/
def State.spawn (s : State) (e : Slot) (p : Nat) (parentId : Word) : State :=
  let s₁ := s.setupVm e p
  let s₂ := s₁.setEnv e (newEnv e parentId (s₁.envs e))
  { s₂ with envFreeList := (s₂.envs e).envLink }

theorem envAlloc_noFreeEnv (h : s.envFreeList = none) (parentId : Word) :
    (envAlloc parentId).run s = .ok (-eNoFreeEnv, none) s := by
  simp [envAlloc, h]

theorem envAlloc_noMem (h : s.envFreeList = some e) (hl : s.pageFreeList = none) (parentId : Word) :
    (envAlloc parentId).run s = .ok (-eNoMem, none) s := by
  simp [envAlloc, envSetupVm, h, pageAlloc_none hl, eNoMem]

theorem envSetupVm_ok {p : Nat} (hl : s.pageFreeList = some p) (hp : p < s.npages) (e : Slot) :
    (envSetupVm e).run s = .ok 0 (s.setupVm e p) := by
  have hkva : ∀ r, (page2kva p).run (((s.pop p).setMem p fun _ => 0#32).setRef p r) =
      .ok p (((s.pop p).setMem p fun _ => 0#32).setRef p r) := fun r => run_page2kva hp
  unfold envSetupVm
  rw [run_bind_ok (pageAlloc_zero hl hp)]
  dsimp only
  rw [run_bind_ok (EStateM.run_modify _ _), run_bind_ok (hkva _), run_bind_ok (Kern.run_modifyEnv ..),
    run_bind_ok (EStateM.run_modify _ _)]
  rfl

theorem envAlloc_ok {p : Nat} (h : s.envFreeList = some e) (hl : s.pageFreeList = some p) (hp : p < s.npages)
    (parentId : Word) : (envAlloc parentId).run s = .ok (0, some e) (s.spawn e p parentId) := by
  unfold envAlloc
  rw [run_bind_ok (EStateM.run_get _), h]
  dsimp only
  rw [run_bind_ok (envSetupVm_ok hl hp e), if_neg (by decide), run_bind_ok (Kern.run_modifyEnv ..),
    run_bind_ok (EStateM.run_modify _ _)]
  rfl

section Spawn

variable {p : Nat} {parentId : Word}

theorem spawn_mem (hk : s.kernPgdir ≠ p) :
    (s.spawn e p parentId).mem = Function.update s.mem p (envPgdirPage (s.mem s.kernPgdir) p) := by
  show Function.update (Function.update s.mem p _) p (envPgdirPage (Function.update s.mem p _ s.kernPgdir) p) = _
  rw [Function.update_of_ne hk, Function.update_idem]

theorem spawn_envs :
    (s.spawn e p parentId).envs = Function.update s.envs e (newEnv e parentId { s.envs e with envPgdir := some p }) := by
  show Function.update (Function.update s.envs e _) e (newEnv e parentId (Function.update s.envs e _ e)) = _
  rw [Function.update_self, Function.update_idem]; rfl

theorem spawn_envFreeList : (s.spawn e p parentId).envFreeList = (s.envs e).envLink := by
  show ((s.spawn e p parentId).envs e).envLink = _
  rw [spawn_envs, Function.update_self]; rfl

theorem spawn_dir : (s.spawn e p parentId).dir = Function.update s.dir e (some p) := by
  funext e'
  unfold State.dir
  rw [spawn_envs]
  by_cases he : e' = e
  · subst he; rw [Function.update_self, Function.update_self]; rfl
  · rw [Function.update_of_ne he, Function.update_of_ne he]

end Spawn

/-- Slot `e` became an environment with an empty address space; its directory was a free page. -/
structure Spawned (s s' : State) (l l' : List Nat) (e : Slot) (parentId : Word) : Prop where
  same : Same s s'
  envs : ∃ p ∈ l, s'.envs = Function.update s.envs e (newEnv e parentId { s.envs e with envPgdir := some p })
  wasFree : (s.envs e).envStatus = .free
  pte : s'.pte = s.pte
  tab : s'.tab = s.tab
  mem : ∀ f, f ∉ l → s'.mem f = s.mem f
  sub : ∀ f ∈ l', f ∈ l

/-- The new directory, ready but not yet given to the environment. -/
def State.readyDir (s : State) (p : Nat) : State :=
  ((s.pop p).setRef p ((s.pages p).ppRef + 1#16)).setMem p (envPgdirPage (s.mem s.kernPgdir) p)

theorem readyDir_views {p : Nat} (h : Vm b M s (p :: l)) :
    (s.readyDir p).cell = s.cell ∧ (s.readyDir p).tab = s.tab ∧ (s.readyDir p).pte = s.pte := by
  have hst : ¬ ((s.pop p).setRef p ((s.pages p).ppRef + 1#16)).Struct p := h.free_not_struct (List.mem_cons_self ..)
  exact ⟨(cell_setMem_other hst _).trans (cell_congr rfl rfl), (tab_setMem_other hst _).trans (tab_congr rfl rfl),
    (pte_setMem_other hst _).trans (pte_congr rfl rfl)⟩

theorem readyDir_vm {p : Nat} (h : Vm b M s (p :: l)) : Vm b M (s.readyDir p) l :=
  (h.pop.setRef (List.nodup_cons.1 h.nodup).1 _).setMem_other (h.freeM p (List.mem_cons_self ..))
    (h.free_not_struct (List.mem_cons_self ..)) _

theorem readyDir_fresh {p : Nat} (h : Vm b M s (p :: l)) : FreshDir b M (s.readyDir p) p := by
  have hpl : p ∈ p :: l := List.mem_cons_self ..
  refine ⟨h.freeM p hpl, ?_, ?_⟩
  · rw [(readyDir_views h).1]; exact h.freeCell p hpl
  · show Function.update s.mem p _ p = _
    rw [Function.update_self, h.kernPgdir, h.outside _ h.kernM]

theorem EnvTable.spawn {p : Nat} {parentId : Word} (h : EnvTable s (e :: le)) : EnvTable (s.spawn e p parentId) le := by
  have hne : ∀ e' ∈ le, e' ≠ e := fun e' he => ne_of_mem_of_not_mem he (List.nodup_cons.1 h.envNodup).1
  refine ⟨?_, h.envNodup.of_cons, fun e' => ?_, fun e' hs => ?_⟩
  · rw [spawn_envFreeList, spawn_envs]
    refine Chain.congr (fun e' he => ?_) h.envChain.2
    rw [Function.update_of_ne (hne e' he)]
  · rw [spawn_envs]
    by_cases he : e' = e
    · subst he
      rw [Function.update_self]
      exact ⟨fun hm => absurd rfl (hne e' hm), fun hs => by cases hs⟩
    · rw [Function.update_of_ne he, ← h.mem_iff]
      simp [he]
  · rw [spawn_envs] at hs ⊢
    by_cases he : e' = e
    · subst he
      rw [Function.update_self]
      exact Option.some_ne_none p
    · rw [Function.update_of_ne he] at hs ⊢
      exact h.pgdir e' hs

/-- `env_alloc` fails for want of a slot or a page, or creates an environment. -/
theorem alloc_spec (hQ : CountRel Q) (h : Inv Q b M s l le) (parentId : Word) :
    ((envAlloc parentId).run s = .ok (-eNoFreeEnv, none) s ∧ le = []) ∨
    ((envAlloc parentId).run s = .ok (-eNoMem, none) s ∧ l = []) ∨
    ∃ e le' s' l', le = e :: le' ∧ (envAlloc parentId).run s = .ok (0, some e) s' ∧ Inv Q b M s' l' le' ∧
      Spawned s s' l l' e parentId := by
  cases le with
  | nil => exact Or.inl ⟨envAlloc_noFreeEnv h.envChain parentId, rfl⟩
  | cons e le' =>
    cases l with
    | nil => exact Or.inr (Or.inl ⟨envAlloc_noMem h.envChain.1 h.chain parentId, rfl⟩)
    | cons p l' =>
      have hpl : p ∈ p :: l' := List.mem_cons_self ..
      have hM := h.freeM p hpl
      have hk : s.kernPgdir ≠ p := by rw [h.kernPgdir]; exact (ne_of_mem_of_not_mem hM h.kernM).symm
      have hfree : (s.envs e).envStatus = .free := (h.mem_iff e).1 (List.mem_cons_self ..)
      have hdir := dir_free hfree
      have hr0 : (s.pages p).ppRef = 0#16 := h.freeRef p hpl
      obtain ⟨hcell, htab, hpte⟩ := readyDir_views h.toVm
      have hm : (s.spawn e p parentId).mem = (s.readyDir p).mem := spawn_mem hk
      have hd : (s.spawn e p parentId).dir = Function.update (s.readyDir p).dir e (some p) := spawn_dir
      have hold : ∀ i, (s.readyDir p).tab e i = none := by rw [htab]; exact node_of_no_root hdir
      have hx : ∀ q, some p = some q → FreshDir b M (s.readyDir p) q := by
        rintro q ⟨⟩; exact readyDir_fresh h.toVm
      have hcell' := cell_change_dir hm hd hold hx
      refine Or.inr (Or.inr ⟨e, le', _, l', rfl, envAlloc_ok h.envChain.1 h.chain.1 (h.managed p hM) parentId, ?_, ?_⟩)
      · refine
          { toVm := (readyDir_vm h.toVm).setDir rfl rfl hm hd rfl rfl hold ?_
            toEnvTable := h.toEnvTable.spawn
            counts := ?_ }
        · rintro q ⟨⟩
          exact ⟨readyDir_fresh h.toVm, (List.nodup_cons.1 h.nodup).1⟩
        · have href : ∀ f, (s.spawn e p parentId).ref f = if f = p then 1 else s.ref f := by
            intro f
            have h1 : ((s.pages p).ppRef + 1#16).toNat = 1 := by rw [hr0]; rfl
            have := ref_setRef s p f ((s.pages p).ppRef + 1#16)
            rwa [h1] at this
          refine Counts.first (c := .root e) hQ h.counts hdir (h.freeCell p hpl) ?_ ?_ ?_ (by rw [hcell', hcell])
          · rintro g ⟨h1, h2, h3⟩ hg
            exact ⟨h1, by simp [hg, h2], h3⟩
          · rw [href, if_pos rfl]
          · intro g hg
            rw [href, if_neg hg]
      · refine ⟨⟨rfl, rfl, rfl, rfl, fun _ => rfl, fun _ => rfl⟩, ⟨p, hpl, spawn_envs⟩, hfree, ?_, ?_, fun f hf => ?_,
          fun f hf => List.mem_cons_of_mem _ hf⟩
        · rw [pte_change_dir hm hd hold hx, hpte]
        · rw [tab_change_dir hm hd hold hx, htab]
        · rw [spawn_mem hk, Function.update_of_ne (ne_of_mem_of_not_mem hpl hf).symm]

/-! ## Freeing an environment -/

/-- The environment in slot `e` is gone, with its mappings; nothing else changed. -/
structure Freed (s s' : State) (e : Slot) : Prop where
  same : Same s s'
  envs : ∀ e', e' ≠ e → s'.envs e' = s.envs e'
  free : (s'.envs e).envStatus = .free
  envId : (s'.envs e).envId = (s.envs e).envId
  pteOther : ∀ e' i j, e' ≠ e → s'.pte e' i j = s.pte e' i j
  pteOwn : ∀ i j, s'.pte e i j = none
  data : ∀ f, ¬ s.Struct f → s'.mem f = s.mem f

/-- `e->env_pgdir = 0`. -/
def State.dropDir (s : State) (e : Slot) : State := s.setEnv e { s.envs e with envPgdir := none }

/-- The last steps of `env_free`, once the page tables are gone: release the directory, free the slot. -/
def State.retire (s : State) (e : Slot) (d : Nat) : State :=
  let s₁ := (s.dropDir e).decref d
  { s₁.setEnv e { s₁.envs e with envStatus := .free, envLink := s₁.envFreeList } with envFreeList := some e }

theorem envs_decref (s : State) (f : Nat) : (s.decref f).envs = s.envs := (rest_decref s f).envs

theorem retire_envs : (s.retire e d).envs = Function.update s.envs e
    { s.envs e with envPgdir := none, envStatus := .free, envLink := s.envFreeList } := by
  show Function.update (State.decref _ d).envs e
    { (State.decref _ d).envs e with envStatus := .free, envLink := (State.decref _ d).envFreeList } = _
  rw [envs_decref, (rest_decref _ d).envFreeList]
  show Function.update (Function.update s.envs e _) e _ = _
  rw [Function.update_idem]
  simp [State.dropDir, State.setEnv]

theorem retire_dir : (s.retire e d).dir = Function.update s.dir e none := by
  funext e'
  unfold State.dir
  rw [retire_envs]
  by_cases he : e' = e
  · subst he; rw [Function.update_self, Function.update_self]; rfl
  · rw [Function.update_of_ne he, Function.update_of_ne he]

theorem dropDir_dir : (s.dropDir e).dir = Function.update s.dir e none := by
  funext e'
  show (if (Function.update s.envs e _ e').envStatus = .free then none else (Function.update s.envs e _ e').envPgdir) = _
  by_cases he : e' = e
  · subst he; rw [Function.update_self, Function.update_self]; simp
  · rw [Function.update_of_ne he, Function.update_of_ne he]; rfl

theorem EnvTable.retire (h : EnvTable s le) (hs : (s.envs e).envStatus ≠ .free) : EnvTable (s.retire e d) (e :: le) := by
  have hnot : e ∉ le := fun hm => hs ((h.mem_iff e).1 hm)
  refine ⟨⟨rfl, ?_⟩, h.envNodup.cons hnot, fun e' => ?_, fun e' hs' => ?_⟩
  · rw [retire_envs]
    beta_reduce
    rw [Function.update_self]
    refine Chain.congr (fun e' he => ?_) h.envChain
    rw [Function.update_of_ne (ne_of_mem_of_not_mem he hnot)]
  · rw [retire_envs]
    by_cases he : e' = e
    · subst he
      rw [Function.update_self]
      simp
    · rw [Function.update_of_ne he, ← h.mem_iff]
      simp [he]
  · rw [retire_envs] at hs' ⊢
    by_cases he : e' = e
    · subst he
      rw [Function.update_self] at hs'
      exact absurd rfl hs'
    · rw [Function.update_of_ne he] at hs' ⊢
      exact h.pgdir e' hs'

theorem retire_mem : (s.retire e d).mem = s.mem := mem_decref ..

theorem retire_spec (hQ : CountRel Q) (h : Inv Q b M s l le) (hd : s.dir e = some d) (ht : ∀ i, s.tab e i = none) :
    (∃ l', Inv Q b M (s.retire e d) l' (e :: le)) ∧ Freed s (s.retire e d) e := by
  have hx : ∀ p, none = some p → FreshDir b M s p := by simp
  have hcell : (s.dropDir e).cell = Function.update s.cell (.root e) none := cell_change_dir rfl dropDir_dir ht hx
  have h₁ : Vm b M (s.dropDir e) l :=
    h.toVm.setDir rfl rfl rfl dropDir_dir rfl rfl ht (by simp)
  have hin : InUse M l none d :=
    InUse.of_cell h.toVm (by simp) (c := .root e) hd (h.structM d (Or.inl ⟨e, hd⟩))
  have hrest := rest_decref (s.dropDir e) d
  have hdir : (s.retire e d).dir = ((s.dropDir e).decref d).dir := by
    rw [retire_dir, dir_decref, dropDir_dir]
  refine ⟨⟨freeAfter s l d, ?_⟩, ?_⟩
  · refine
      { toVm := (h₁.decref hin.managed hin.notFree fun h1 => Counts.unused (c := .root e) hQ h.counts hd hin hcell h1).congr
          rfl rfl rfl hdir rfl rfl
        toEnvTable := h.toEnvTable.retire (dir_eq_some.1 hd).1
        counts := (Counts.decref (t := s.dropDir e) (c := .root e) hQ h.counts hd hin rfl hcell).congr rfl
          (cell_congr rfl hdir) }
  · refine
      { same := ⟨hrest.npages, hrest.kernPgdir, hrest.cpunum, hrest.kernelLock, hrest.cpuEnv, hrest.cpuStatus⟩
        envs := fun e' he => by rw [retire_envs, Function.update_of_ne he]
        free := by rw [retire_envs, Function.update_self]
        envId := by rw [retire_envs, Function.update_self]
        pteOther := fun e' i j _ => by rw [pte_change_dir retire_mem retire_dir ht hx]
        pteOwn := fun i j => by rw [pte_change_dir retire_mem retire_dir ht hx]; exact leaf_of_no_node (ht i) j
        data := fun f _ => by rw [retire_mem] }

/-- The invariant reads the page allocator, memory and the environments. -/
theorem Inv.congr (h : Inv Q b M s l le) (hp : s'.pages = s.pages) (hl : s'.pageFreeList = s.pageFreeList)
    (hm : s'.mem = s.mem) (he : s'.envs = s.envs) (hf : s'.envFreeList = s.envFreeList)
    (hk : s'.kernPgdir = s.kernPgdir) (hn : s'.npages = s.npages) : Inv Q b M s' l le := by
  have hd : s'.dir = s.dir := by funext e; unfold State.dir; rw [he]
  exact
    { toVm := h.toVm.congr hp hl hm hd hk hn
      toEnvTable := ⟨by rw [he, hf]; exact h.envChain, h.envNodup, by rw [he]; exact h.mem_iff, by rw [he]; exact h.pgdir⟩
      counts := h.counts.congr hp (cell_congr hm hd) }

/-- The state in which the loops of `env_free` start: the CPU leaves the address space. -/
def State.leave (s : State) (e : Slot) : State :=
  if s.curenv = some e then s.setCpu { s.cpus s.cpunum with cr3 := page2pa s.kernPgdir, tlb := [] } else s

theorem Inv.rest (h : Inv Q b M s l le) (hr : Rest s s') (hv : Vm b M s' l') (hc : Counts Q M l' none s') :
    Inv Q b M s' l' le where
  toVm := hv
  toEnvTable := ⟨by rw [hr.envs, hr.envFreeList]; exact h.envChain, h.envNodup, by rw [hr.envs]; exact h.mem_iff,
    by rw [hr.envs]; exact h.pgdir⟩
  counts := hc

theorem rest_leave (s : State) (e : Slot) : Rest s (s.leave e) := by
  unfold State.leave
  split
  · exact rest_setCpu rfl rfl
  · exact .refl s

theorem Inv.leave (h : Inv Q b M s l le) (e : Slot) : Inv Q b M (s.leave e) l le := by
  unfold State.leave
  split
  · exact h.congr rfl rfl rfl rfl rfl rfl rfl
  · exact h

theorem mem_leave (s : State) (e : Slot) : (s.leave e).mem = s.mem := by
  unfold State.leave; split <;> rfl

theorem leave_cleared (s : State) (e : Slot) : Cleared s (s.leave e) e := by
  have hpte := pte_congr (mem_leave s e) (rest_leave s e).dir
  have htab := tab_congr (mem_leave s e) (rest_leave s e).dir
  exact ⟨rest_leave s e, fun _ _ _ _ => by rw [hpte], fun _ _ => Or.inr (by rw [hpte]), fun _ _ _ => by rw [htab],
    fun _ => Or.inr (by rw [htab]), fun _ _ => by rw [mem_leave]⟩

theorem Cleared.freed (h : Cleared s s' e) (h' : Freed s' s'' e) : Freed s s'' e where
  same := ⟨h'.same.npages.trans h.rest.npages, h'.same.kernPgdir.trans h.rest.kernPgdir,
    h'.same.cpunum.trans h.rest.cpunum, h'.same.kernelLock.trans h.rest.kernelLock,
    fun c => (h'.same.cpuEnv c).trans (h.rest.cpuEnv c), fun c => (h'.same.cpuStatus c).trans (h.rest.cpuStatus c)⟩
  envs e' he := by rw [h'.envs e' he, h.rest.envs]
  free := h'.free
  envId := by rw [h'.envId, h.rest.envs]
  pteOther e' i j he := by rw [h'.pteOther e' i j he, h.pteOther e' i j he]
  pteOwn := h'.pteOwn
  data f hf := by rw [h'.data f fun hs => hf (h.struct hs), h.data f hf]

theorem envFree_leave (s : State) (e : Slot) : (envFree e).run s = (do envFlush e; envRetire e : Kern Unit).run (s.leave e) := by
  unfold envFree State.leave
  rw [run_bind_ok (EStateM.run_get _)]
  by_cases hc : s.curenv = some e
  · rw [if_pos hc, if_pos hc]; rfl
  · rw [if_neg hc, if_neg hc]

theorem envRetire_ok (hd : (s.envs e).envPgdir = some d) (hlt : d < s.npages) :
    (envRetire e).run s = .ok () (s.retire e d) := by
  have hpa : (pa2page (page2pa d)).run (s.dropDir e) = .ok d (s.dropDir e) := run_page2kva hlt
  have hpaddr : (paddr (some d)).run s = .ok (page2pa d) s := rfl
  have hdrop : (Kern.modifyEnv e fun v => { v with envPgdir := none }).run s = .ok () (s.dropDir e) := rfl
  unfold envRetire
  rw [run_bind_ok (Kern.run_env e), hd, run_bind_ok hpaddr, run_bind_ok hdrop, run_bind_ok hpa,
    run_bind_ok (run_pageDecref d)]
  rfl

/-- `env_free` of an environment in use; it stops on an entry that points outside memory. -/
theorem free_spec (hQ : CountRel Q) (h : Inv Q b M s l le) (hd : s.dir e = some d) :
    (∃ s' l', (envFree e).run s = .ok () s' ∧ Inv Q b M s' l' (e :: le) ∧ Freed s s' e) ∨
    ∃ s', (envFree e).run s = .error .panic s' ∧ Forged s e ∧ Cleared s s' e := by
  have hr₀ := rest_leave s e
  have h₀ := h.leave e
  have hd₀ : (s.leave e).dir e = some d := by rw [hr₀.dir]; exact hd
  have hflush : (envFlush e).run (s.leave e) =
      (forM ((List.finRange 1024).filter (· < pdx utop)) (envFreePde d)).run (s.leave e) := by
    unfold envFlush
    rw [run_bind_ok (Kern.run_env e), (dir_eq_some.1 hd₀).2, run_bind_ok (Kern.run_derefPage_some d)]
    rfl
  rw [envFree_leave]
  rcases envFreePdes_spec hQ h₀.toVm h₀.counts hd₀ with ⟨s₁, hrun, -, l₁, h₁, hc₁, hcl, ht⟩ | ⟨x, s₁, hrun, rfl, hf, hcl⟩
  · have hd₁ : s₁.dir e = some d := by rw [hcl.rest.dir]; exact hd₀
    have hlt := h₁.managed d (h₁.structM d (Or.inl ⟨e, hd₁⟩))
    obtain ⟨⟨l', hi⟩, hfr⟩ := retire_spec hQ (h₀.rest hcl.rest h₁ hc₁) hd₁ fun i => ht i (by simp)
    rw [run_bind_ok (hflush.trans hrun), envRetire_ok (dir_eq_some.1 hd₁).2 hlt]
    exact Or.inl ⟨_, l', rfl, hi, ((leave_cleared s e).trans hcl).freed hfr⟩
  · rw [run_bind_error (hflush.trans hrun)]
    exact Or.inr ⟨s₁, rfl, (leave_cleared s e).forged hf, (leave_cleared s e).trans hcl⟩

end Jos
