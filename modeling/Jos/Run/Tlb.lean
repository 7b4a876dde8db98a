/-
The TLB over runs of a CPU that edits page tables and switches environments while the processor fills at any
moment. A fill of the page of an edit between its invalidation and the store leaves an entry that no later
statement drops; without such fills no entry is ever stale.
-/
import Jos.Run.Fills
import Jos.User.Overflow

namespace Jos

open Lib Kern

variable {b s t s' t' : State} {M l : List Nat} {le : List Slot} {cur e : Slot} {d n pp : Nat} {va perm : Word} {i j : Idx}
variable {P : Nat → Prop}

/-! ## Edits -/

/-- An edit of page tables: `page_insert` of a new page or of one mapped already, and `page_remove`. -/
inductive Edit where
  | allocInsert (flags : Word) (e : Slot) (va perm : Word)
  | insert (e : Slot) (pp : Nat) (va perm : Word)
  | remove (e : Slot) (va : Word)

def Edit.op : Edit → Op
  | .allocInsert flags e va perm => .allocInsert flags e va perm
  | .insert e pp va perm => .insert e pp va perm
  | .remove e va => .remove e va

/-- The edit with fills. -/
def Edit.exec (φ : Nat → List Word) : Edit → Kern Event
  | .allocInsert flags e va perm => do
    match ← pageAlloc flags with
    | none => return .failed
    | some pp =>
      fills (φ 9)
      let pgdir ← derefPage (← env e).envPgdir
      let r ← pageInsertT φ pgdir pp va perm
      if r < 0 then
        fills (φ 10)
        pageFree pp
        return .failed
      return .inserted e pp va perm
  | .insert e pp va perm => do
    let pgdir ← derefPage (← env e).envPgdir
    let r ← pageInsertT φ pgdir pp va perm
    if r < 0 then
      return .failed
    return .inserted e pp va perm
  | .remove e va => do
    pageRemoveT φ (← derefPage (← env e).envPgdir) va
    return .removed e va

/-- The counter of the page to be inserted has room. -/
def Edit.Room (s : State) : Edit → Prop
  | .insert e pp va _ => Jos.Room s pp (.leaf e (pdx va) (ptx va))
  | _ => True

/-- The processor does not fill the page of the edit between its invalidation and the store. -/
def Edit.Settled (φ : Nat → List Word) (s : State) (cur : Slot) : Edit → Prop
  | .allocInsert _ e va _ => e = cur → s.pte e (pdx va) (ptx va) ≠ none → ∀ a ∈ φ 6, pgnum a ≠ pgnum va
  | .insert e pp va perm => InsertSettled φ s cur e pp va perm
  | .remove e va => e = cur → s.pte e (pdx va) (ptx va) ≠ none → ∀ a ∈ φ 2, pgnum a ≠ pgnum va

theorem Cached.pageFree (h : Cached P s t) (pp : Nat) :
    ∃ s' t', (pageFree pp).run s = .ok () s' ∧ (pageFree pp).run t = .ok () t' ∧ Cached P s' t' := by
  obtain ⟨tlb, rfl, -⟩ := id h
  by_cases h0 : (s.pages pp).ppRef = 0#16
  · exact ⟨_, _, pageFree_push h0, pageFree_push (s := s.setTlb tlb) h0, h.push pp⟩
  · have hrun : ∀ u : State, u.pages = s.pages → (Jos.pageFree pp).run u = .ok () u := by
      intro u hu
      simp [Jos.pageFree, hu, h0]
    exact ⟨_, _, hrun s rfl, hrun (s.setTlb tlb) rfl, h⟩

theorem Cached.run_pgdir {α : Type} (h : Cached P s t) (hd : s.dir e = some d) (k : Nat → Kern α) :
    (do let v ← env e; let pgdir ← derefPage v.envPgdir; k pgdir).run t = (k d).run t := by
  obtain ⟨tlb, rfl, -⟩ := h
  exact Jos.run_pgdir (s := s.setTlb tlb) hd k

section Edits

variable (φ : Nat → List Word) (hi : Inv (· = ·) b M s l le) (hg : Genuine s) (hk : KernDir b M) {dl : Nat}
variable (ho : OnCpu cur dl s) (hc : s.TlbOk)
include hi hg hk ho hc

theorem edit_remove (hop : (Op.remove e va).Ok s) (hset : (Edit.remove e va).Settled φ s cur) :
    ∃ ev s' t', (Op.remove e va).exec.run s = .ok ev s' ∧ ((Edit.remove e va).exec φ).run s = .ok ev t' ∧
      Cached (fun _ => True) s' t' ∧ OnCpu cur dl s' ∧ ev.Room s := by
  obtain ⟨d, hd, -⟩ := hi.toEnvTable.dir hop.1
  simp only [Op.exec, Edit.exec, run_pgdir hd]
  cases hw : s.pte e (pdx va) (ptx va) with
  | none =>
    exact ⟨.removed e va, _, _, by rw [run_bind_ok (remove_absent hi.toTables hd hop.2 hw)]; rfl,
      by rw [run_bind_ok (pageRemoveT_absent φ hi.toTables hd hop.2 hw)]; rfl, hc.cached, ho, trivial⟩
  | some w =>
    obtain ⟨n, hn, -, -⟩ := pte_eq_some.1 hw
    have hlt : pgnum w < s.npages := by
      by_contra hge
      exact hg e ⟨_, _, _, hw, Nat.le_of_not_lt hge⟩
    have hrem := remove_present hi.toTables hd hn hw
    rw [if_pos hlt] at hrem
    obtain ⟨t', hT, hc', ho'⟩ := pageRemoveT_cached φ hi.toTables hk ho hd hn hw hlt hc.cached fun he =>
      hset he (by rw [hw]; simp)
    exact ⟨.removed e va, _, _, by rw [run_bind_ok hrem]; rfl, by rw [run_bind_ok hT]; rfl, hc', ho', trivial⟩

theorem edit_insert (hop : (Op.insert e pp va perm).Ok s) (hroom : (Edit.insert e pp va perm).Room s)
    (hset : (Edit.insert e pp va perm).Settled φ s cur) :
    ∃ ev s' t', (Op.insert e pp va perm).exec.run s = .ok ev s' ∧ ((Edit.insert e pp va perm).exec φ).run s = .ok ev t' ∧
      Cached (fun _ => True) s' t' ∧ OnCpu cur dl s' ∧ ev.Room s := by
  obtain ⟨d, hd, -⟩ := hi.toEnvTable.dir hop.1
  have hM := (hop.2.2.2.managed hi.toVm).1
  simp only [Op.exec, Edit.exec, run_pgdir hd]
  obtain ⟨r, s', t', hs, ht, hc', ho'⟩ := pageInsertT_cached φ hi.toVm hg hk ho hd hop.2.1 (hi.lt_pow hM) hc.cached hset
  by_cases hr : r < 0
  · exact ⟨.failed, _, _, by rw [run_bind_ok hs, if_pos hr]; rfl, by rw [run_bind_ok ht, if_pos hr]; rfl, hc', ho', trivial⟩
  · exact ⟨.inserted e pp va perm, _, _, by rw [run_bind_ok hs, if_neg hr]; rfl, by rw [run_bind_ok ht, if_neg hr]; rfl,
      hc', ho', hroom⟩

theorem edit_allocInsert {flags : Word} (hop : (Op.allocInsert flags e va perm).Ok s)
    (hset : (Edit.allocInsert flags e va perm).Settled φ s cur) :
    ∃ ev s' t', (Op.allocInsert flags e va perm).exec.run s = .ok ev s' ∧
      ((Edit.allocInsert flags e va perm).exec φ).run s = .ok ev t' ∧ Cached (fun _ => True) s' t' ∧ OnCpu cur dl s' ∧
      ev.Room s := by
  obtain ⟨d, hd, -⟩ := hi.toEnvTable.dir hop.1
  simp only [Op.exec, Edit.exec]
  cases l with
  | nil =>
    have hnone := pageAlloc_none hi.chain flags
    exact ⟨.failed, _, _, by rw [run_bind_ok hnone]; rfl, by rw [run_bind_ok hnone]; rfl, hc.cached, ho, trivial⟩
  | cons p l =>
    have hpl : p ∈ p :: l := List.mem_cons_self ..
    have hM := hi.freeM p hpl
    have ht := take_spec hi.toVm hi.counts flags
    have hd₁ : (s.take flags p).dir e = some d := by rw [ht.rest.dir]; exact hd
    have hrun := pageAlloc_take hi.chain.1 (hi.managed p hM) flags
    have ho₁ : OnCpu cur dl (s.take flags p) := by
      refine ho.congr ?_ ht.rest.envs
      unfold State.take
      split <;> rfl
    have hc₁ : Cached (fun _ => True) (s.take flags p) (s.take flags p) := by
      have hpop := hc.cached.pop p
      unfold State.take
      split
      · exact hpop.setMem p _ (walk_setMem_other (s := s.pop p) (hi.toTables.congr rfl rfl rfl rfl) hk ho.dir ho.cr3 hM
          (hi.free_not_struct hpl) _)
      · exact hpop
    have hc₂ := hc₁.fills_any (φ 9)
    have hg₁ : Genuine (s.take flags p) := Sane.of_pte hg ht.pte ht.rest.npages
    -- the page just taken is mapped nowhere, so no entry for it can be stale
    have hset₁ : InsertSettled φ (s.take flags p) cur e p va perm := by
      intro he w hw
      rw [ht.pte] at hw
      refine ⟨fun hwp => ?_, fun _ => hset he (by rw [hw]; simp)⟩
      exact absurd (cell_leaf_eq_some.2 ⟨w, hw, hwp⟩) (hi.freeCell p hpl _)
    obtain ⟨r, s', t', hs, hT, hc', ho'⟩ :=
      pageInsertT_cached φ ht.vm hg₁ hk ho₁ hd₁ hop.2.1 (hi.lt_pow hM) hc₂ hset₁
    rw [run_bind_ok hrun, run_bind_ok hrun]
    dsimp only
    rw [run_pgdir hd₁, run_bind_ok (run_fills _), hc₂.run_pgdir hd₁, run_bind_ok hs, run_bind_ok hT]
    -- when the entry cannot be made the page goes back to the list
    by_cases hr : r < 0
    · obtain ⟨s₂, t₂, hs₂, ht₂, hc₃⟩ := (hc'.fills_any (φ 10)).pageFree p
      rw [if_pos hr, if_pos hr, run_bind_ok hs₂, run_bind_ok (run_fills _), run_bind_ok ht₂]
      refine ⟨.failed, _, _, rfl, rfl, hc₃, ?_, trivial⟩
      unfold pageFree at hs₂
      rw [run_bind_ok (EStateM.run_get _)] at hs₂
      split at hs₂
      · cases hs₂
        exact ho'.congr rfl rfl
      · cases hs₂
        exact ho'
    · rw [if_neg hr, if_neg hr]
      refine ⟨.inserted e p va perm, _, _, rfl, rfl, hc', ho', Or.inl ?_⟩
      unfold State.ref
      rw [hi.freeRef p hpl]
      decide

end Edits

/-! ## Runs -/

/-- A sane state of a CPU that has the directory of its environment loaded and no stale entry in its TLB. -/
structure Tlbs (b : State) (M : List Nat) (s : State) : Prop where
  sane : Sane b M s
  onCpu : ∃ cur d, OnCpu cur d s
  tlb : s.TlbOk

/-- No cached translation is stale: each agrees with the page tables, and none of a user address points to a
free page. -/
structure NoStale (s : State) : Prop where
  agrees : ∀ x ∈ (s.cpus s.cpunum).tlb, ∀ va, pgnum va = x.1 → s.walk va = some x.2
  notFree : ∀ x ∈ (s.cpus s.cpunum).tlb, ∀ va, pgnum va = x.1 → va < utop → ∀ l, FreeList s l → pgnum x.2 ∉ l

/-- The runs of a CPU: the processor fills its TLB at any moment, the kernel edits page tables and switches to
an environment, and is entered again. No page gets more than 65535 references, and the processor does not fill
the page of an edit between its invalidation and the store. -/
inductive TlbRun (s₀ : State) : State → Prop where
  | start : TlbRun s₀ s₀
  | fill {s : State} (va : Word) : TlbRun s₀ s → TlbRun s₀ (s.fill va)
  | edit {s s' : State} {cur : Slot} {ed : Edit} {φ : Nat → List Word} {ev : Event} : TlbRun s₀ s → s.curenv = some cur →
      ed.op.Ok s → ed.Room s → ed.Settled φ s cur → (ed.exec φ).run s = .ok ev s' → TlbRun s₀ s'
  | switch {s s' : State} {e : Slot} {φ : Nat → List Word} : TlbRun s₀ s → (s.envs e).envStatus ≠ .free →
      (envRunT φ e).run s = .error .envPopTf s' → TlbRun s₀ s'
  | enter {s s' : State} : TlbRun s₀ s → lockKernel.run s = .ok () s' → TlbRun s₀ s'

theorem Tlbs.of_cached (hs : Sane b M s) (ho : OnCpu cur d s) (hc : Cached P s t) : Tlbs b M t := by
  have htlb := hc.tlbOk
  obtain ⟨tlb, rfl, -⟩ := hc
  refine ⟨hs.congr rfl rfl rfl rfl rfl rfl rfl, ⟨cur, d, ?_, ho.dir, ?_⟩, htlb⟩
  · unfold State.curenv
    rw [setTlb_cpu]
    exact ho.curenv
  · rw [setTlb_cpu]
    exact ho.cr3

theorem Tlbs.fill (h : Tlbs b M s) (va : Word) : Tlbs b M (s.fill va) := by
  obtain ⟨cur, d, ho⟩ := h.onCpu
  exact .of_cached h.sane ho (h.tlb.cached.fill trivial)

/-- An edit returns, and what it returns in has no stale entry. -/
theorem Tlbs.edit (h : Tlbs b M s) (hk : KernDir b M) (φ : Nat → List Word) (ed : Edit) (hcur : s.curenv = some cur)
    (hop : ed.op.Ok s) (hroom : ed.Room s) (hset : ed.Settled φ s cur) :
    ∃ ev s', (ed.exec φ).run s = .ok ev s' ∧ Tlbs b M s' := by
  obtain ⟨⟨l, le, hi⟩, hg⟩ := h.sane
  obtain ⟨cur', d, ho⟩ := h.onCpu
  cases hcur.symm.trans ho.curenv
  have hlock : ∃ ev s' t', ed.op.exec.run s = .ok ev s' ∧ (ed.exec φ).run s = .ok ev t' ∧ Cached (fun _ => True) s' t' ∧
      OnCpu cur d s' ∧ ev.Room s := by
    cases ed with
    | allocInsert flags e va perm => exact edit_allocInsert φ hi hg hk ho h.tlb hop hset
    | insert e pp va perm => exact edit_insert φ hi hg hk ho h.tlb hop hroom hset
    | remove e va => exact edit_remove φ hi hg hk ho h.tlb hop hset
  obtain ⟨ev, s', t', hs, ht, hc, ho', hr⟩ := hlock
  obtain ⟨ev', s'', hrun, hst⟩ := op_step countRel_eq hi hg _ hop
  cases hs.symm.trans hrun
  obtain ⟨l', le', hv, he, hcount⟩ := hst.inv
  exact ⟨ev, t', ht, .of_cached (sane_of hv he (hcount hr) (hst.genuine hg hi.managed)) ho' hc⟩

theorem Tlbs.switch (h : Tlbs b M s) (φ : Nat → List Word) (he : (s.envs e).envStatus ≠ .free)
    (hrun : (envRunT φ e).run s = .error .envPopTf s') : Tlbs b M s' := by
  obtain ⟨⟨l, le, hi⟩, -⟩ := id h.sane
  obtain ⟨d, hd, hpg⟩ := hi.toEnvTable.dir he
  rcases envRunT_cached φ hpg with ⟨-, t', ht, hc⟩ | ⟨t', ht⟩
  · cases hrun.symm.trans ht
    have hcpu : (s.popTf e d).cpus (s.popTf e d).cpunum =
        { s.cpus s.cpunum with cpuEnv := some e, cr3 := page2pa d, tlb := [] } := by
      rw [show (s.popTf e d).cpunum = s.cpunum from switchTo_cpunum s e, popTf_cpus, if_pos rfl]
    have ho : OnCpu e d (s.popTf e d) := by
      refine ⟨?_, ?_, ?_⟩
      · unfold State.curenv
        rw [hcpu]
      · rw [popTf_dir he]
        exact hd
      · rw [hcpu]
    exact .of_cached (h.sane.popTf he d) ho hc
  · cases hrun.symm.trans ht

theorem Tlbs.enter (h : Tlbs b M s) (hrun : lockKernel.run s = .ok () s') : Tlbs b M s' := by
  obtain ⟨cur, d, ho⟩ := h.onCpu
  unfold lockKernel at hrun
  rw [run_bind_ok (EStateM.run_get s)] at hrun
  split at hrun
  · cases hrun
  · cases hrun
    exact ⟨h.sane.congr rfl rfl rfl rfl rfl rfl rfl, ⟨cur, d, ho.congr rfl rfl⟩, h.tlb⟩

theorem TlbRun.tlbs {s₀ : State} (hk : KernDir b M) (h₀ : Tlbs b M s₀) (hr : TlbRun s₀ s) : Tlbs b M s := by
  induction hr with
  | start => exact h₀
  | fill va _ ih => exact ih.fill va
  | edit _ hcur hop hroom hset hrun ih =>
    obtain ⟨ev, s', hrun', h⟩ := ih.edit hk _ _ hcur hop hroom hset
    cases hrun.symm.trans hrun'
    exact h
  | switch _ he hrun ih => exact ih.switch _ he hrun
  | enter _ hrun ih => exact ih.enter hrun

/-- The walk of a user address finds the mapping of the current environment. -/
theorem OnCpu.walk_user (ho : OnCpu cur d s) (ht : Tables b M s) (hva : va < utop) {w : Word} (hw : s.walk va = some w) :
    s.pte cur (pdx va) (ptx va) = some w := by
  unfold State.walk at hw
  rw [pgnum_cr3 ht ho.dir ho.cr3] at hw
  dsimp only at hw
  split at hw
  · rename_i hp
    cases hw
    have htab : s.tab cur (pdx va) = some (pgnum (s.mem d (pdx va))) := by
      rw [tab_of_dir ho.dir hva, dec_eq_some]
      exact ⟨hp.1, rfl⟩
    exact pte_eq_some.2 ⟨_, htab, rfl, hp.2⟩
  · cases hw

/-- No stale translation survives, in any run in which the processor keeps out of the windows between an
invalidation and its store. -/
theorem tlb_noStale {s₀ : State} (hk : KernDir b M) (h₀ : Tlbs b M s₀) (hr : TlbRun s₀ s) : NoStale s := by
  have h := hr.tlbs hk h₀
  obtain ⟨⟨l, le, hi⟩, -⟩ := h.sane
  obtain ⟨cur, d, ho⟩ := h.onCpu
  refine ⟨fun x hx => (h.tlb x hx).2, fun x hx va hva hu l' hl hmem => ?_⟩
  cases hi.toFreePages.unique hl
  have hpte := ho.walk_user hi.toTables hu ((h.tlb x hx).2 va hva)
  exact hi.freeCell _ hmem _ (cell_leaf_eq_some.2 ⟨_, hpte, rfl⟩)

/-! ## A page removed while the processor looks it up -/

/-- The processor looks up the page of the exception stack of the first environment at fill point `k`. -/
def fillsAt (k : Nat) : Nat → List Word := fun n => if n = k then [uxstacktop - pgsize] else []

/-- The first environment loses the page of its exception stack, with a fill at point `k`. -/
def removedAt (k : Nat) : State :=
  finalState (((Edit.remove 0 (uxstacktop - pgsize)).exec (fillsAt k)).run xstackMap.inTrap)

theorem xstackMap_tlbs : Tlbs bootState (pagesDown 128) xstackMap.inTrap := by
  have h : Loaded bootState (pagesDown 128) 0 128 xstackMap.inTrap :=
    loaded_inTrap (reach_inv bootState_booted xstackMap_reach) (by decide +kernel) (by decide +kernel)
  refine ⟨h.1, ⟨0, 128, rfl, h.2.1, h.2.2⟩, ?_⟩
  rintro x hx
  have hnil : (xstackMap.inTrap.cpus xstackMap.inTrap.cpunum).tlb = [] := rfl
  rw [hnil] at hx
  cases hx

theorem removedAt_ok : (Edit.remove 0 (uxstacktop - pgsize)).op.Ok xstackMap.inTrap := ⟨by decide +kernel, by decide⟩

/-- A fill before the invalidation does no harm. -/
theorem tlb_noStale_removedAt : NoStale (removedAt 1) := by
  have hrun : ((Edit.remove 0 (uxstacktop - pgsize)).exec (fillsAt 1)).run xstackMap.inTrap =
      .ok (.removed 0 (uxstacktop - pgsize)) (removedAt 1) := rfl
  have hset : (Edit.remove 0 (uxstacktop - pgsize)).Settled (fillsAt 1) xstackMap.inTrap 0 := by
    intro _ _ a ha
    cases ha
  exact tlb_noStale bootState_kernDir xstackMap_tlbs (.edit .start rfl removedAt_ok trivial hset hrun)

/-- A fill after it stays: the entry of the page removed is cached, the page tables have no entry, and the page
is free. -/
theorem remove_stale : Tlbs bootState (pagesDown 128) xstackMap.inTrap ∧
    (Edit.remove 0 (uxstacktop - pgsize)).op.Ok xstackMap.inTrap ∧
    ((Edit.remove 0 (uxstacktop - pgsize)).exec (fillsAt 2)).run xstackMap.inTrap =
      .ok (.removed 0 (uxstacktop - pgsize)) (removedAt 2) ∧
    (∃ w, ((removedAt 2).cpus (removedAt 2).cpunum).tlb = [(pgnum (uxstacktop - pgsize), w)] ∧
      (removedAt 2).pageFreeList = some (pgnum w)) ∧
    (removedAt 2).walk (uxstacktop - pgsize) = none ∧ ¬ NoStale (removedAt 2) := by
  have hrun : ((Edit.remove 0 (uxstacktop - pgsize)).exec (fillsAt 2)).run xstackMap.inTrap =
      .ok (.removed 0 (uxstacktop - pgsize)) (removedAt 2) := rfl
  have htlb : ((removedAt 2).cpus (removedAt 2).cpunum).tlb =
      [(pgnum (uxstacktop - pgsize), entry 127 (pteU ||| pteW))] := by decide +kernel
  have hwalk : (removedAt 2).walk (uxstacktop - pgsize) = none := by decide +kernel
  refine ⟨xstackMap_tlbs, removedAt_ok, hrun, ⟨_, htlb, by decide +kernel⟩, hwalk, fun h => ?_⟩
  have hagrees := h.agrees _ (by rw [htlb]; exact List.mem_cons_self ..) (uxstacktop - pgsize) rfl
  rw [hwalk] at hagrees
  cases hagrees

end Jos
