/-
The TLB while page tables are edited. The processor may fill it at any moment with a translation that the
loaded directory has, so the functions that edit page tables are run here with fills between their statements.
`page_remove` and `page_insert` invalidate the entry before they store: what the processor fills in between
stays.
-/
import Jos.Run.Conserve
import Jos.Run.Sane
import Jos.Sys.Grants

namespace Jos

open Lib Kern

variable {b s t s' t' : State} {M l : List Nat} {le : List Slot} {cur e : Slot} {d n pp : Nat} {va perm : Word} {i j : Idx}

/-! ## Fills -/

/-- The translation of `va` by the loaded directory. -/
def State.walk (s : State) (va : Word) : Option Word :=
  let pde := s.mem (pgnum (s.cpus s.cpunum).cr3) (pdx va)
  let pte := s.mem (pgnum pde) (ptx va)
  if present pde ∧ present pte then some pte else none

def State.setTlb (s : State) (tlb : List (Nat × Word)) : State := s.setCpu { s.cpus s.cpunum with tlb := tlb }

/-- The processor caches the translation of `va`, if there is one. -/
def State.fill (s : State) (va : Word) : State :=
  match s.walk va with
  | none => s
  | some w => s.setTlb ((pgnum va, w) :: (s.cpus s.cpunum).tlb)

/-- The processor fills the TLB for some addresses. -/
def fills (vas : List Word) : Kern Unit := modify fun s => vas.foldl State.fill s

/-! ## The page functions, with fills `φ` between their statements -/

def pgdirWalkT (φ : Nat → List Word) (pgdir : Nat) (va : Word) (create : Bool) : Kern (Option (Nat × Idx)) := do
  let pde ← load (pgdir, pdx va)
  if present pde then
    let pgtab ← kaddr (pteAddr pde)
    return some (pgtab, ptx va)
  else if create = false then
    return none
  else
    match ← pageAlloc allocZero with
    | none => return none
    | some temp =>
      fills (φ 0)
      modify fun s => s.setRef temp 1#16
      fills (φ 1)
      let pgtab ← page2kva temp
      store (pgdir, pdx va) (page2pa temp ||| pteP ||| pteU ||| pteW)
      return some (pgtab, ptx va)

def pageRemoveT (φ : Nat → List Word) (pgdir : Nat) (va : Word) : Kern Unit := do
  match ← pageLookup pgdir va with
  | (some temp, some pte) =>
    fills (φ 0)
    pageDecref temp
    fills (φ 1)
    tlbInvalidate pgdir va
    fills (φ 2)
    store pte 0#32
  | _ => return ()

def pageInsertT (φ : Nat → List Word) (pgdir pp : Nat) (va perm : Word) : Kern Int := do
  match ← pgdirWalkT φ pgdir va true with
  | none => return -eNoMem
  | some pte =>
    fills (φ 2)
    let old ← load pte
    if present old then
      if pteAddr old = page2pa pp then
        modify fun s => s.setRef pp ((s.pages pp).ppRef - 1#16)
        fills (φ 3)
        tlbInvalidate pgdir va
      else
        pageRemoveT (fun k => φ (k + 4)) pgdir va
    fills (φ 7)
    modify fun s => s.setRef pp ((s.pages pp).ppRef + 1#16)
    fills (φ 8)
    store pte (page2pa pp ||| perm ||| pteP)
    return 0

def envRunT (φ : Nat → List Word) (e : Slot) : Kern Unit := do
  match (← get).curenv with
  | none => pure ()
  | some c =>
    if (← env c).envStatus = .running then
      modifyEnv c fun v => { v with envStatus := .runnable }
  fills (φ 0)
  modify fun s => s.setCurenv (some e)
  fills (φ 1)
  modifyEnv e fun v => { v with envStatus := .running, envRuns := v.envRuns + 1#32 }
  fills (φ 2)
  lcr3 (← paddr (← env e).envPgdir)
  fills (φ 3)
  unlockKernel
  envPopTf

/-! ## What the TLB holds -/

/-- The entries `tlb` are of pages with `P` and agree with the loaded directory. -/
def Agrees (P : Nat → Prop) (s : State) (tlb : List (Nat × Word)) : Prop :=
  ∀ x ∈ tlb, P x.1 ∧ ∀ va, pgnum va = x.1 → s.walk va = some x.2

/-- State `t` is state `s` with a TLB of such entries. -/
def Cached (P : Nat → Prop) (s t : State) : Prop := ∃ tlb, t = s.setTlb tlb ∧ Agrees P s tlb

/-- Every entry of the TLB agrees with the page tables. -/
def State.TlbOk (s : State) : Prop := Agrees (fun _ => True) s (s.cpus s.cpunum).tlb

variable {P : Nat → Prop}

theorem setCpu_cpu (s : State) (c : CpuInfo) : (s.setCpu c).cpus (s.setCpu c).cpunum = c := Function.update_self ..

theorem setCpu_setCpu (s : State) (c c' : CpuInfo) : (s.setCpu c).setCpu c' = s.setCpu c' := by
  unfold State.setCpu
  simp only [Function.update_idem]

theorem setTlb_cpu (s : State) (tlb : List (Nat × Word)) :
    (s.setTlb tlb).cpus (s.setTlb tlb).cpunum = { s.cpus s.cpunum with tlb := tlb } := Function.update_self ..

@[simp] theorem setTlb_setTlb (s : State) (tlb tlb' : List (Nat × Word)) : (s.setTlb tlb).setTlb tlb' = s.setTlb tlb' := by
  unfold State.setTlb
  rw [setCpu_cpu, setCpu_setCpu]

theorem setTlb_self (s : State) : s.setTlb (s.cpus s.cpunum).tlb = s := by
  show ({ s with cpus := _ } : State) = s
  rw [Function.update_eq_self]

theorem walk_congr (hm : s'.mem = s.mem) (hc : (s'.cpus s'.cpunum).cr3 = (s.cpus s.cpunum).cr3) : s'.walk = s.walk := by
  funext va
  unfold State.walk
  rw [hm, hc]

@[simp] theorem walk_setTlb (s : State) (tlb : List (Nat × Word)) : (s.setTlb tlb).walk = s.walk :=
  walk_congr rfl (by rw [setTlb_cpu])

/-- The walk looks at the page of an address only. -/
theorem walk_page {a : Word} (h : pgnum a = pgnum va) : s.walk a = s.walk va := by
  obtain ⟨hi, hj⟩ := (idx_eq_iff a va).2 h
  unfold State.walk
  rw [hi, hj]

theorem State.TlbOk.cached (h : s.TlbOk) : Cached (fun _ => True) s s := ⟨_, (setTlb_self s).symm, h⟩

theorem Cached.tlbOk (h : Cached P s t) : t.TlbOk := by
  obtain ⟨tlb, rfl, h⟩ := h
  intro x hx
  rw [setTlb_cpu] at hx
  rw [walk_setTlb]
  exact ⟨trivial, (h x hx).2⟩

theorem Cached.weaken (h : Cached P s t) : Cached (fun _ => True) s t := by
  obtain ⟨tlb, rfl, h⟩ := h
  exact ⟨tlb, rfl, fun x hx => ⟨trivial, (h x hx).2⟩⟩

theorem Cached.fill (h : Cached P s t) (hva : P (pgnum va)) : Cached P s (t.fill va) := by
  obtain ⟨tlb, rfl, h⟩ := h
  unfold State.fill
  rw [walk_setTlb, setTlb_cpu]
  cases hw : s.walk va with
  | none => exact ⟨tlb, rfl, h⟩
  | some w =>
    refine ⟨(pgnum va, w) :: tlb, setTlb_setTlb .., fun x hx => ?_⟩
    rcases List.mem_cons.1 hx with rfl | hx
    · exact ⟨hva, fun a ha => (walk_page ha).trans hw⟩
    · exact h x hx

theorem Cached.fills : ∀ (vas : List Word) {t : State}, Cached P s t → (∀ a ∈ vas, P (pgnum a)) →
    Cached P s (vas.foldl State.fill t)
  | [], _, h, _ => h
  | va :: vas, t, h, hP => by
    rw [List.foldl_cons]
    exact Cached.fills vas (h.fill (hP va (List.mem_cons_self ..))) fun a ha => hP a (List.mem_cons_of_mem _ ha)

/-- What the processor fills between statements that leave no entry stale does no harm. -/
theorem Cached.fills_any (h : Cached (fun _ => True) s t) (vas : List Word) : Cached (fun _ => True) s (vas.foldl State.fill t) :=
  h.fills vas fun _ _ => trivial

/-- A statement that keeps the TLB and the translations of the pages cached. -/
theorem Cached.map (h : Cached P s t) (f : State → State) (hf : ∀ s tlb, f (s.setTlb tlb) = (f s).setTlb tlb)
    (hw : ∀ va w, P (pgnum va) → s.walk va = some w → (f s).walk va = some w) : Cached P (f s) (f t) := by
  obtain ⟨tlb, rfl, h⟩ := h
  refine ⟨tlb, hf s tlb, fun x hx => ⟨(h x hx).1, fun va hva => ?_⟩⟩
  exact hw va x.2 (hva ▸ (h x hx).1) ((h x hx).2 va hva)

theorem Cached.setRef (h : Cached P s t) (p : Nat) (r : BitVec 16 → BitVec 16) :
    Cached P (s.setRef p (r (s.pages p).ppRef)) (t.setRef p (r (t.pages p).ppRef)) :=
  h.map (fun s => s.setRef p (r (s.pages p).ppRef)) (fun _ _ => rfl) fun _ _ _ hw => hw

theorem Cached.decref (h : Cached P s t) (p : Nat) : Cached P (s.decref p) (t.decref p) := by
  have hm : ∀ s : State, (s.decref p).mem = s.mem ∧ (s.decref p).cpus = s.cpus ∧ (s.decref p).cpunum = s.cpunum := by
    intro s
    unfold State.decref
    split <;> exact ⟨rfl, rfl, rfl⟩
  refine h.map (fun s => s.decref p) (fun s tlb => ?_) fun va w _ hw => ?_
  · unfold State.decref
    show (if (s.pages p).ppRef - 1#16 = 0#16 then _ else _) = _
    split <;> rfl
  · rw [walk_congr (hm s).1 (by rw [(hm s).2.1, (hm s).2.2])]
    exact hw

theorem Cached.pop (h : Cached P s t) (p : Nat) : Cached P (s.pop p) (t.pop p) :=
  h.map (fun s => s.pop p) (fun _ _ => rfl) fun _ _ _ hw => hw

theorem Cached.push (h : Cached P s t) (p : Nat) : Cached P (s.push p) (t.push p) :=
  h.map (fun s => s.push p) (fun _ _ => rfl) fun _ _ _ hw => hw

theorem Cached.setMem (h : Cached P s t) (f : Nat) (p : Idx → Word) (hw : (s.setMem f p).walk = s.walk) :
    Cached P (s.setMem f p) (t.setMem f p) :=
  h.map (fun s => s.setMem f p) (fun _ _ => rfl) fun va w _ h => by rw [hw]; exact h

theorem Cached.setWord (h : Cached P s t) (f : Nat) (i : Idx) (w : Word)
    (hw : ∀ va x, P (pgnum va) → s.walk va = some x → (s.setWord f i w).walk va = some x) :
    Cached P (s.setWord f i w) (t.setWord f i w) :=
  h.map (fun s => s.setWord f i w) (fun _ _ => rfl) hw

theorem Cached.mem (h : Cached P s t) : t.mem = s.mem := by
  obtain ⟨tlb, rfl, -⟩ := h
  rfl

/-! ## Stores and the walk -/

section Walk

variable (ht : Tables b M s) (hk : KernDir b M) (hd : s.dir cur = some d) (hcr3 : (s.cpus s.cpunum).cr3 = page2pa d)

include ht hk hd in
/-- An entry of the loaded directory points at a page table of the environment, at the directory itself, or at a
page table of the kernel. -/
theorem pde_target {i : Idx} (hp : present (s.mem d i) = true) :
    s.tab cur i = some (pgnum (s.mem d i)) ∨ pgnum (s.mem d i) = d ∨ pgnum (s.mem d i) ∉ M := by
  by_cases hu : userIdx i
  · exact Or.inl (node_eq_some.2 ⟨d, hd, hu, dec_eq_some.2 ⟨hp, rfl⟩⟩)
  by_cases hv : i = pdx uvpt
  · right; left
    rw [hv, ht.self cur d hd, pgnum_or, pgnum_or, pgnum_page2pa (ht.lt_pow (ht.structM d (Or.inl ⟨cur, hd⟩)))]
    simp [pgnum, pteP, pteU]
  · right; right
    rw [ht.kern cur d i hd hu hv] at hp ⊢
    obtain ⟨k, hk', hlt, hM, -⟩ := hk.pde i hu hv hp
    have hle := b.npages_le
    rw [hk']
    unfold tablePde
    rw [pgnum_or, pgnum_or, pgnum_or, pgnum_page2pa (by omega)]
    simpa [pgnum, pteP, pteU, pteW] using hM

include ht hd hcr3 in
theorem pgnum_cr3 : pgnum (s.cpus s.cpunum).cr3 = d := by
  rw [hcr3]
  exact pgnum_page2pa (ht.lt_pow (ht.structM d (Or.inl ⟨cur, hd⟩)))

include ht hk hd hcr3 in
/-- The walk does not look at a managed page that is no directory and no page table. -/
theorem walk_setMem_other {f : Nat} (hM : f ∈ M) (hf : ¬ s.Struct f) (p : Idx → Word) : (s.setMem f p).walk = s.walk := by
  have hc := pgnum_cr3 ht hd hcr3
  have hmem : ∀ g, g ≠ f → (s.setMem f p).mem g = s.mem g := fun g hg => Function.update_of_ne hg ..
  have hdf : d ≠ f := by
    rintro rfl
    exact hf (Or.inl ⟨cur, hd⟩)
  funext va
  unfold State.walk
  rw [show ((s.setMem f p).cpus (s.setMem f p).cpunum).cr3 = (s.cpus s.cpunum).cr3 from rfl, hc]
  dsimp only
  rw [hmem d hdf]
  by_cases hp : present (s.mem d (pdx va)) = true
  · have hne : pgnum (s.mem d (pdx va)) ≠ f := by
      rcases pde_target ht hk hd hp with h | h | h
      · rintro rfl
        exact hf (Or.inr ⟨cur, _, h⟩)
      · rw [h]
        exact hdf
      · rintro rfl
        exact h hM
    rw [hmem _ hne]
  · simp [hp]

include ht hk hd hcr3 in
/-- A store to a page table entry changes the translation of its page only, and only in the directory that the
page table belongs to. -/
theorem walk_setWord_leaf (hn : s.tab e i = some n) (w : Word) (hne : e = cur → ¬ (pdx va = i ∧ ptx va = j)) :
    (s.setWord n j w).walk va = s.walk va := by
  have hc := pgnum_cr3 ht hd hcr3
  have hnM := ht.structM n (Or.inr ⟨e, i, hn⟩)
  have hdn := tab_ne_dir ht hn hd
  have hmem : ∀ g x, ¬ (g = n ∧ x = j) → (s.setWord n j w).mem g x = s.mem g x := by
    intro g x hgx
    show Function.update s.mem n (Function.update (s.mem n) j w) g x = _
    by_cases hg : g = n
    · subst hg
      rw [Function.update_self, Function.update_of_ne fun hx => hgx ⟨rfl, hx⟩]
    · rw [Function.update_of_ne hg]
  unfold State.walk
  rw [show ((s.setWord n j w).cpus (s.setWord n j w).cpunum).cr3 = (s.cpus s.cpunum).cr3 from rfl, hc]
  dsimp only
  rw [hmem d _ fun h => hdn h.1]
  by_cases hp : present (s.mem d (pdx va)) = true
  · have hleaf : ¬ (pgnum (s.mem d (pdx va)) = n ∧ ptx va = j) := by
      rintro ⟨hg, hj⟩
      rcases pde_target ht hk hd hp with h | h | h
      · rw [hg] at h
        obtain ⟨he, hi⟩ := ht.sep.nodes e i cur (pdx va) n hn h
        exact hne he.symm ⟨hi, hj⟩
      · exact hdn (h.symm.trans hg)
      · exact h (hg ▸ hnM)
    rw [hmem _ _ hleaf]
  · simp [hp]

end Walk

/-- A store to an entry that was not present takes no translation away. -/
theorem walk_setWord_absent {f : Nat} {w x : Word} (hz : present (s.mem f j) = false) (h : s.walk va = some x) :
    (s.setWord f j w).walk va = some x := by
  have hmem : ∀ g k, present (s.mem g k) = true → (s.setWord f j w).mem g k = s.mem g k := by
    intro g k hp
    have hgk : ¬ (g = f ∧ k = j) := by
      rintro ⟨rfl, rfl⟩
      rw [hz] at hp
      cases hp
    show Function.update s.mem f (Function.update (s.mem f) j w) g k = _
    by_cases hg : g = f
    · subst hg
      rw [Function.update_self, Function.update_of_ne fun hx => hgk ⟨rfl, hx⟩]
    · rw [Function.update_of_ne hg]
  unfold State.walk at h ⊢
  rw [show ((s.setWord f j w).cpus (s.setWord f j w).cpunum).cr3 = (s.cpus s.cpunum).cr3 from rfl]
  dsimp only at h ⊢
  split at h
  · rename_i hp
    rw [hmem _ _ hp.1, hmem _ _ hp.2, if_pos hp]
    exact h
  · cases h

/-! ## The functions with fills follow the functions without -/

@[simp] theorem run_fills (vas : List Word) : (fills vas).run s = .ok () (vas.foldl State.fill s) := rfl

theorem foldl_fill (vas : List Word) : ∀ s : State, ∃ tlb, vas.foldl State.fill s = s.setTlb tlb := by
  induction vas with
  | nil => exact fun s => ⟨_, (setTlb_self s).symm⟩
  | cons va vas ih =>
    intro s
    rw [List.foldl_cons]
    obtain ⟨tlb, h⟩ := ih (s.fill va)
    unfold State.fill at h ⊢
    cases hw : s.walk va with
    | none => rw [hw] at h; exact ⟨tlb, h⟩
    | some w => rw [hw] at h; exact ⟨tlb, h.trans (setTlb_setTlb ..)⟩

/-- The CPU runs `cur` with its page directory `d` loaded. -/
structure OnCpu (cur : Slot) (d : Nat) (s : State) : Prop where
  curenv : s.curenv = some cur
  dir : s.dir cur = some d
  cr3 : (s.cpus s.cpunum).cr3 = page2pa d

theorem OnCpu.congr (h : OnCpu cur d s) (hc : s'.cpus s'.cpunum = s.cpus s.cpunum) (he : s'.envs = s.envs) : OnCpu cur d s' where
  curenv := by unfold State.curenv; rw [hc]; exact h.curenv
  dir := by rw [show s'.dir = s.dir from by funext e; unfold State.dir; rw [he]]; exact h.dir
  cr3 := by rw [hc]; exact h.cr3

theorem tlbInval_cpu (s : State) (pgdir : Nat) (va : Word) :
    ((s.tlbInval pgdir va).cpus (s.tlbInval pgdir va).cpunum).cr3 = (s.cpus s.cpunum).cr3 ∧
    (s.tlbInval pgdir va).curenv = s.curenv := by
  refine ⟨?_, (rest_tlbInval s pgdir va).curenv⟩
  unfold State.tlbInval
  dsimp only
  split
  · rw [Function.update_self]
  · rfl

theorem OnCpu.tlbInval (h : OnCpu cur d s) (pgdir : Nat) (va : Word) : OnCpu cur d (s.tlbInval pgdir va) where
  curenv := (tlbInval_cpu s pgdir va).2.trans h.curenv
  dir := by rw [(rest_tlbInval s pgdir va).dir]; exact h.dir
  cr3 := (tlbInval_cpu s pgdir va).1.trans h.cr3

/-- After `tlb_invalidate` no entry of the page is left, when the directory edited is the one loaded. -/
theorem Cached.tlbInval (h : Cached P s t) {dl : Nat} (ho : OnCpu cur dl s) (he : e = cur → d = dl) (va : Word) :
    Cached (fun v => e = cur → v ≠ pgnum va) (s.tlbInval d va) (t.tlbInval d va) := by
  obtain ⟨tlb, rfl, h⟩ := h
  have hpg := (dir_eq_some.1 ho.dir).2
  have hwalk : (s.tlbInval d va).walk = s.walk := walk_congr rfl (tlbInval_cpu s d va).1
  have hcur : (s.setTlb tlb).curenv = some cur := by
    unfold State.curenv
    rw [setTlb_cpu]
    exact ho.curenv
  by_cases hcond : (s.envs cur).envPgdir = some d
  · refine ⟨tlb.filter fun x => x.1 != pgnum va, ?_, fun x hx => ?_⟩
    · unfold State.tlbInval
      rw [hcur, ho.curenv, setTlb_cpu]
      show ({ s with cpus := _ } : State) = { s with cpus := _ }
      congr 1
      have hcond' : ((s.setTlb tlb).envs cur).envPgdir = some d := hcond
      simp only [Option.all_some, hcond, hcond', decide_true, if_true, Function.update_self, Function.update_idem]
      show Function.update (Function.update s.cpus s.cpunum _) s.cpunum _ = _
      rw [Function.update_idem]
    · obtain ⟨hmem, hne⟩ := List.mem_filter.1 hx
      refine ⟨fun _ => by simpa using hne, ?_⟩
      rw [hwalk]
      exact (h x hmem).2
  · refine ⟨tlb, ?_, fun x hx => ⟨fun hec => ?_, ?_⟩⟩
    · unfold State.tlbInval
      rw [hcur, ho.curenv]
      show ({ s with cpus := _ } : State) = { s with cpus := _ }
      congr 1
      have hcond' : ¬ ((s.setTlb tlb).envs cur).envPgdir = some d := hcond
      simp only [Option.all_some, hcond, hcond', decide_false, Bool.false_eq_true, if_false]
      rfl
    · exact absurd (by rw [hpg, he hec]) hcond
    · rw [hwalk]
      exact (h x hx).2

/-- What `page_remove` does to a mapped page, with the fills. -/
def State.unmapT (s : State) (φ : Nat → List Word) (d : Nat) (va : Word) (n : Nat) (j : Idx) (f : Nat) : State :=
  ((φ 2).foldl State.fill
    (((φ 1).foldl State.fill (((φ 0).foldl State.fill s).decref f)).tlbInval d va)).setWord n j 0#32

theorem pageRemoveT_absent (φ : Nat → List Word) (h : Tables b M s) (hd : s.dir e = some d) (hva : va < utop)
    (hp : s.pte e (pdx va) (ptx va) = none) : (pageRemoveT φ d va).run s = .ok () s := by
  obtain ⟨q, hq⟩ := lookup_absent h hd hva hp
  unfold pageRemoveT
  rw [run_bind_ok hq]; rfl

theorem pageRemoveT_present (φ : Nat → List Word) (h : Tables b M s) (hd : s.dir e = some d) (hn : s.tab e (pdx va) = some n)
    {w : Word} (hw : s.pte e (pdx va) (ptx va) = some w) (hlt : pgnum w < s.npages) :
    (pageRemoveT φ d va).run s = .ok () (s.unmapT φ d va n (ptx va) (pgnum w)) := by
  have hl := lookup_present h hd hn hw
  rw [if_pos hlt] at hl
  unfold pageRemoveT
  rw [run_bind_ok hl]
  simp [State.unmapT]

/-- `page_remove` leaves no stale entry, when the processor does not fill the page between its invalidation and
the store. -/
theorem pageRemoveT_cached (φ : Nat → List Word) (h : Tables b M s) (hk : KernDir b M) {dl : Nat} (ho : OnCpu cur dl s)
    (hd : s.dir e = some d) (hn : s.tab e (pdx va) = some n) {w : Word} (hw : s.pte e (pdx va) (ptx va) = some w)
    (hlt : pgnum w < s.npages) (hc : Cached (fun _ => True) s t) (hφ : e = cur → ∀ a ∈ φ 2, pgnum a ≠ pgnum va) :
    ∃ t', (pageRemoveT φ d va).run t = .ok () t' ∧ Cached (fun _ => True) (s.unmap d va n (ptx va) (pgnum w)) t' ∧
      OnCpu cur dl (s.unmap d va n (ptx va) (pgnum w)) := by
  have hrun : (pageRemoveT φ d va).run t = .ok () (t.unmapT φ d va n (ptx va) (pgnum w)) := by
    obtain ⟨tlb, rfl, -⟩ := hc
    exact pageRemoveT_present (s := s.setTlb tlb) φ (h.congr rfl rfl rfl rfl) hd hn hw hlt
  refine ⟨_, hrun, ?_⟩
  have hdl : e = cur → d = dl := by
    rintro rfl
    exact Option.some.inj (hd.symm.trans ho.dir)
  have hcpus : ∀ f, (s.decref f).cpus = s.cpus ∧ (s.decref f).cpunum = s.cpunum := by
    intro f
    unfold State.decref
    split <;> exact ⟨rfl, rfl⟩
  have hr := rest_decref s (pgnum w)
  have ho₁ : OnCpu cur dl (s.decref (pgnum w)) := ho.congr (by rw [(hcpus _).1, (hcpus _).2]) hr.envs
  have ho₂ := ho₁.tlbInval d va
  have hmem : (s.decref (pgnum w)).mem = s.mem := by
    unfold State.decref
    split <;> rfl
  have hr₂ := hr.trans (rest_tlbInval (s.decref (pgnum w)) d va)
  have ht₂ : Tables b M ((s.decref (pgnum w)).tlbInval d va) := h.congr hmem hr₂.dir hr₂.kernPgdir hr₂.npages
  have hn₂ : ((s.decref (pgnum w)).tlbInval d va).tab e (pdx va) = some n := by
    have htab : ((s.decref (pgnum w)).tlbInval d va).tab = s.tab := tab_congr hmem hr₂.dir
    rw [htab]
    exact hn
  -- the entry is dropped, and nothing brings it back before the store
  have hgone := (((hc.fills_any (φ 0)).decref (pgnum w)).fills_any (φ 1)).tlbInval ho₁ hdl va
  refine ⟨((hgone.fills (φ 2) fun a ha he => hφ he a ha).setWord n (ptx va) 0#32 fun va' x hP hx => ?_).weaken,
    ho₂.congr rfl rfl⟩
  rw [walk_setWord_leaf ht₂ hk ho₂.dir ho₂.cr3 hn₂ 0#32 fun he hij => hP he ((idx_eq_iff va' va).1 hij)]
  exact hx

/-- What hanging up page table `p` does, with the fills. -/
def State.hangT (s : State) (φ : Nat → List Word) (d : Nat) (i : Idx) (p : Nat) : State :=
  ((φ 1).foldl State.fill (((φ 0).foldl State.fill ((s.pop p).setMem p fun _ => 0#32)).setRef p 1#16)).setWord d i
    (page2pa p ||| pteP ||| pteU ||| pteW)

theorem pgdirWalkT_present (φ : Nat → List Word) (hp : present (s.mem d (pdx va)) = true)
    (hn : pgnum (s.mem d (pdx va)) < s.npages) :
    (pgdirWalkT φ d va true).run s = .ok (some (pgnum (s.mem d (pdx va)), ptx va)) s := by
  simp [pgdirWalkT, hp, run_kaddr, pgnum_pteAddr, hn]

theorem pgdirWalkT_noMem (φ : Nat → List Word) (hp : present (s.mem d (pdx va)) = false) (hl : s.pageFreeList = none) :
    (pgdirWalkT φ d va true).run s = .ok none s := by
  simp [pgdirWalkT, hp, pageAlloc_none hl]

theorem pgdirWalkT_create (φ : Nat → List Word) {p : Nat} (hp : present (s.mem d (pdx va)) = false)
    (hl : s.pageFreeList = some p) (hn : p < s.npages) :
    (pgdirWalkT φ d va true).run s = .ok (some (p, ptx va)) (s.hangT φ d (pdx va) p) := by
  obtain ⟨tlb, h₀⟩ := foldl_fill (φ 0) ((s.pop p).setMem p fun _ => 0#32)
  obtain ⟨tlb', h₁⟩ := foldl_fill (φ 1) (((φ 0).foldl State.fill ((s.pop p).setMem p fun _ => 0#32)).setRef p 1#16)
  have hlt : p < ((φ 1).foldl State.fill (((φ 0).foldl State.fill ((s.pop p).setMem p fun _ => 0#32)).setRef p 1#16)).npages := by
    rw [h₁, h₀]
    exact hn
  have hkva := run_page2kva hlt
  simp [pgdirWalkT, hp, pageAlloc_zero hl hn, hkva, State.hangT]

theorem Cached.hangT {p : Nat} (h : Cached (fun _ => True) s t) (φ : Nat → List Word) (ht : Tables b M s) (hk : KernDir b M)
    {dl : Nat} (ho : OnCpu cur dl s) (hM : p ∈ M) (hf : ¬ s.Struct p) (hz : present (s.mem d i) = false) (hne : d ≠ p) :
    Cached (fun _ => True) (s.hang d i p) (t.hangT φ d i p) := by
  have hpop : (s.pop p).Struct = s.Struct := struct_congr (tab_congr rfl rfl) rfl
  have hwalk : ((s.pop p).setMem p fun _ => 0#32).walk = (s.pop p).walk :=
    walk_setMem_other (s := s.pop p) (ht.congr rfl rfl rfl rfl) hk ho.dir ho.cr3 hM (by rw [hpop]; exact hf) _
  have h₁ := (((h.pop p).setMem p (fun _ => 0#32) hwalk).fills_any (φ 0)).setRef p fun _ => 1#16
  refine (h₁.fills_any (φ 1)).setWord d i _ fun va x _ hx => walk_setWord_absent ?_ hx
  show present (Function.update s.mem p _ d i) = false
  rw [Function.update_of_ne hne]
  exact hz

/-- The walk leaves no stale entry. -/
theorem pgdirWalkT_cached (φ : Nat → List Word) (hv : Vm b M s l) (hk : KernDir b M) {dl : Nat} (ho : OnCpu cur dl s)
    (hd : s.dir e = some d) (hc : Cached (fun _ => True) s t) :
    ∃ r s' t', (pgdirWalk d va true).run s = .ok r s' ∧ (pgdirWalkT φ d va true).run t = .ok r t' ∧
      Cached (fun _ => True) s' t' ∧ OnCpu cur dl s' := by
  obtain ⟨tlb, rfl, -⟩ := id hc
  cases hp : present (s.mem d (pdx va)) with
  | true =>
    have hlt := (hv.toTables.pdesOk hk hd) (pdx va) hp
    exact ⟨_, _, _, pgdirWalk_present hp hlt true, pgdirWalkT_present (s := s.setTlb tlb) φ hp hlt, hc, ho⟩
  | false =>
    cases l with
    | nil => exact ⟨_, _, _, pgdirWalk_noMem hp hv.chain, pgdirWalkT_noMem (s := s.setTlb tlb) φ hp hv.chain, hc, ho⟩
    | cons p l =>
      have hpl : p ∈ p :: l := List.mem_cons_self ..
      have hM := hv.freeM p hpl
      have hst := hv.free_not_struct hpl
      have hlt := hv.managed p hM
      have hne : d ≠ p := dir_ne_of_not_struct hst hd
      exact ⟨_, _, _, pgdirWalk_create hp hv.chain.1 hlt, pgdirWalkT_create (s := s.setTlb tlb) φ hp hv.chain.1 hlt,
        hc.hangT φ hv.toTables hk ho hM hst hp hne, ho.congr rfl rfl⟩

/-- Between the invalidation and the store of `page_insert` the processor does not fill the page of `va`: this
matters when the directory is loaded and the page is mapped already, unless the entry stays the same. -/
def InsertSettled (φ : Nat → List Word) (s : State) (cur e : Slot) (pp : Nat) (va perm : Word) : Prop :=
  e = cur → ∀ w, s.pte e (pdx va) (ptx va) = some w →
    (pgnum w = pp → w = entry pp perm ∨ ∀ a ∈ φ 7 ++ φ 8, pgnum a ≠ pgnum va) ∧
    (pgnum w ≠ pp → ∀ a ∈ φ 6, pgnum a ≠ pgnum va)

section InsertT

variable {s₁ t₁ t₂ : State} {r : Option (Nat × Idx)}

theorem insertT_noMem (φ : Nat → List Word) (hw : (pgdirWalkT φ d va true).run t = .ok none t₁) :
    (pageInsertT φ d pp va perm).run t = .ok (-eNoMem) t₁ := by
  unfold pageInsertT
  rw [run_bind_ok hw]; rfl

/-- The last statements of `page_insert`, with the fills. -/
def State.linkT (s : State) (φ : Nat → List Word) (pp n : Nat) (j : Idx) (perm : Word) : State :=
  let s₁ := (φ 7).foldl State.fill s
  ((φ 8).foldl State.fill (s₁.setRef pp ((s₁.pages pp).ppRef + 1#16))).setWord n j (entry pp perm)

/-- The statements that take the page off its entry when it is inserted there again, with the fills. -/
def State.releaseT (s : State) (φ : Nat → List Word) (d : Nat) (va : Word) (pp : Nat) : State :=
  ((φ 3).foldl State.fill (s.setRef pp ((s.pages pp).ppRef - 1#16))).tlbInval d va

theorem insertT_absent (φ : Nat → List Word) (hw : (pgdirWalkT φ d va true).run t = .ok (some (n, j)) t₁)
    (ht : (φ 2).foldl State.fill t₁ = t₂) (hz : present (t₂.mem n j) = false) :
    (pageInsertT φ d pp va perm).run t = .ok 0 (t₂.linkT φ pp n j perm) := by
  unfold pageInsertT
  rw [run_bind_ok hw]
  simp [ht, hz, State.linkT, entry]

theorem insertT_same (φ : Nat → List Word) (hw : (pgdirWalkT φ d va true).run t = .ok (some (n, j)) t₁)
    (ht : (φ 2).foldl State.fill t₁ = t₂) (hp : present (t₂.mem n j) = true) (hpp : pteAddr (t₂.mem n j) = page2pa pp) :
    (pageInsertT φ d pp va perm).run t = .ok 0 ((t₂.releaseT φ d va pp).linkT φ pp n j perm) := by
  unfold pageInsertT
  rw [run_bind_ok hw]
  simp [ht, hp, hpp, State.linkT, State.releaseT, entry]

theorem insertT_other (φ : Nat → List Word) {t₃ : State} (hw : (pgdirWalkT φ d va true).run t = .ok (some (n, j)) t₁)
    (ht : (φ 2).foldl State.fill t₁ = t₂) (hp : present (t₂.mem n j) = true) (hpp : pteAddr (t₂.mem n j) ≠ page2pa pp)
    (hr : (pageRemoveT (fun k => φ (k + 4)) d va).run t₂ = .ok () t₃) :
    (pageInsertT φ d pp va perm).run t = .ok 0 (t₃.linkT φ pp n j perm) := by
  unfold pageInsertT
  rw [run_bind_ok hw]
  simp [ht, hp, hpp, hr, State.linkT, entry]

theorem Cached.linkT (h : Cached P s t) (φ : Nat → List Word) (pp n : Nat) (j : Idx) (perm : Word)
    (hφ : ∀ a ∈ φ 7 ++ φ 8, P (pgnum a))
    (hw : ∀ va x, P (pgnum va) → (s.setRef pp ((s.pages pp).ppRef + 1#16)).walk va = some x →
      ((s.setRef pp ((s.pages pp).ppRef + 1#16)).setWord n j (entry pp perm)).walk va = some x) :
    Cached P (s.link pp n j perm) (t.linkT φ pp n j perm) := by
  have h₁ := h.fills (φ 7) fun a ha => hφ a (List.mem_append_left _ ha)
  have h₂ := (h₁.setRef pp (· + 1#16)).fills (φ 8) fun a ha => hφ a (List.mem_append_right _ ha)
  exact h₂.setWord n j (entry pp perm) hw

/-- Into an entry that is not present. -/
theorem Cached.linkT_absent (h : Cached (fun _ => True) s t) (φ : Nat → List Word) (pp : Nat) (perm : Word)
    (hz : present (s.mem n j) = false) : Cached (fun _ => True) (s.link pp n j perm) (t.linkT φ pp n j perm) :=
  h.linkT φ pp n j perm (fun _ _ => trivial) fun _ _ _ hx =>
    walk_setWord_absent (s := s.setRef pp ((s.pages pp).ppRef + 1#16)) hz hx

end InsertT

/-- The page is inserted again at its own entry: the entry stays the same, or the page is not filled after its invalidation. -/
theorem Cached.relinkT (hc : Cached (fun _ => True) s t) (φ : Nat → List Word) (ht : Tables b M s) (hk : KernDir b M) {dl : Nat}
    (ho : OnCpu cur dl s) (hd : s.dir e = some d) (hn : s.tab e (pdx va) = some n) (perm : Word)
    (hφ : e = cur → s.mem n (ptx va) = entry pp perm ∨ ∀ a ∈ φ 7 ++ φ 8, pgnum a ≠ pgnum va) :
    Cached (fun _ => True) (s.relink d va pp n (ptx va) perm) ((t.releaseT φ d va pp).linkT φ pp n (ptx va) perm) := by
  have hdl : e = cur → d = dl := by
    rintro rfl
    exact Option.some.inj (hd.symm.trans ho.dir)
  let s₁ := s.setRef pp ((s.pages pp).ppRef - 1#16)
  have ho₁ : OnCpu cur dl s₁ := ho.congr rfl rfl
  have hrel := (hc.setRef pp (· - 1#16)).fills_any (φ 3) |>.tlbInval ho₁ hdl va
  let s₂ := s₁.tlbInval d va
  let s₃ := s₂.setRef pp ((s₂.pages pp).ppRef + 1#16)
  by_cases hset : e = cur ∧ s.mem n (ptx va) = entry pp perm
  · -- the store changes nothing, so that no translation changes
    refine hrel.weaken.linkT φ pp n (ptx va) perm (fun _ _ => trivial) fun va' x _ hx => ?_
    have hsw : s₃.setWord n (ptx va) (entry pp perm) = s₃ := by
      unfold State.setWord State.setMem
      rw [← hset.2]
      show ({ s₃ with mem := Function.update s₃.mem n (Function.update (s₃.mem n) (ptx va) (s₃.mem n (ptx va))) } : State) = s₃
      rw [Function.update_eq_self, Function.update_eq_self]
    show (s₃.setWord n (ptx va) (entry pp perm)).walk va' = some x
    rw [hsw]
    exact hx
  · have hfill : ∀ a ∈ φ 7 ++ φ 8, e = cur → pgnum a ≠ pgnum va := by
      intro a ha he
      rcases hφ he with heq | hno
      · exact absurd ⟨he, heq⟩ hset
      · exact hno a ha
    have ht₃ : Tables b M s₃ := ht.congr rfl (by funext e'; rfl) rfl rfl
    have ho₃ : OnCpu cur dl s₃ := (ho₁.tlbInval d va).congr rfl rfl
    have hn₃ : s₃.tab e (pdx va) = some n := by
      rw [show s₃.tab = s.tab from tab_congr rfl rfl]
      exact hn
    refine (hrel.linkT φ pp n (ptx va) perm hfill fun va' x hP hx => ?_).weaken
    have hstep : (s₃.setWord n (ptx va) (entry pp perm)).walk va' = s₃.walk va' :=
      walk_setWord_leaf ht₃ hk ho₃.dir ho₃.cr3 hn₃ (entry pp perm) fun he hij => hP he ((idx_eq_iff va' va).1 hij)
    exact hstep.trans hx

theorem unmap_absent (s : State) (d : Nat) (va : Word) (n pp : Nat) :
    present ((s.unmap d va n (ptx va) pp).mem n (ptx va)) = false := by
  rw [unmap_mem]
  show present (Function.update s.mem n (Function.update (s.mem n) (ptx va) 0#32) n (ptx va)) = false
  rw [Function.update_self, Function.update_self]
  rfl

/-- `page_insert` leaves no stale entry, when the processor does not fill the page between its invalidation and
the store. -/
theorem pageInsertT_cached (φ : Nat → List Word) (hv : Vm b M s l) (hg : Genuine s) (hk : KernDir b M) {dl : Nat}
    (ho : OnCpu cur dl s) (hd : s.dir e = some d) (hva : va < utop) (hpp : pp < 2 ^ 20) (hc : Cached (fun _ => True) s t)
    (hφ : InsertSettled φ s cur e pp va perm) :
    ∃ r s' t', (pageInsert d pp va perm).run s = .ok r s' ∧ (pageInsertT φ d pp va perm).run t = .ok r t' ∧
      Cached (fun _ => True) s' t' ∧ OnCpu cur dl s' := by
  obtain ⟨r, s₁, t₁, hs, ht, hc₁, ho₁⟩ := pgdirWalkT_cached φ hv hk ho hd hc
  rcases walk_create hv hd hva with ⟨hw, -, -⟩ | ⟨n, s₁', l₁, hw, hv₁, htab, -⟩
  · cases hs.symm.trans hw
    exact ⟨_, _, _, insert_noMem hs, insertT_noMem φ ht, hc₁, ho₁⟩
  cases hs.symm.trans hw
  have hc₂ := hc₁.fills_any (φ 2)
  have hd₁ : s₁.dir e = some d := by rw [htab.rest.dir]; exact hd
  have hmem : ((φ 2).foldl State.fill t₁).mem n (ptx va) = s₁.mem n (ptx va) := by rw [hc₂.mem]
  cases hp : present (s₁.mem n (ptx va)) with
  | false =>
    exact ⟨_, _, _, insert_absent hs hp, insertT_absent φ ht rfl (by rw [hmem]; exact hp), hc₂.linkT_absent φ pp perm hp,
      ho₁.congr rfl rfl⟩
  | true =>
    have hpte : s₁.pte e (pdx va) (ptx va) = some (s₁.mem n (ptx va)) := pte_eq_some.2 ⟨n, htab.tab, rfl, hp⟩
    have hold : s.pte e (pdx va) (ptx va) = some (s₁.mem n (ptx va)) := by rw [← htab.pte]; exact hpte
    by_cases hsame : pteAddr (s₁.mem n (ptx va)) = page2pa pp
    · have hpg : pgnum (s₁.mem n (ptx va)) = pp := (pteAddr_eq_page2pa hpp).1 hsame
      have ho₂ : OnCpu cur dl (s₁.setRef pp ((s₁.pages pp).ppRef - 1#16)) := ho₁.congr rfl rfl
      exact ⟨_, _, _, insert_same hs hp hsame, insertT_same φ ht rfl (by rw [hmem]; exact hp) (by rw [hmem]; exact hsame),
        hc₂.relinkT φ hv₁.toTables hk ho₁ hd₁ htab.tab perm fun he => (hφ he _ hold).1 hpg,
        (ho₂.tlbInval d va).congr rfl rfl⟩
    · have hpg : pgnum (s₁.mem n (ptx va)) ≠ pp := fun h => hsame ((pteAddr_eq_page2pa hpp).2 h)
      have hlt : pgnum (s₁.mem n (ptx va)) < s₁.npages := by
        rw [htab.rest.npages]
        by_contra hge
        exact hg e ⟨_, _, _, hold, Nat.le_of_not_lt hge⟩
      have hrem := remove_present hv₁.toTables hd₁ htab.tab hpte
      rw [if_pos hlt] at hrem
      obtain ⟨t₃, hremT, hc₃, ho₃⟩ := pageRemoveT_cached (fun k => φ (k + 4)) hv₁.toTables hk ho₁ hd₁ htab.tab hpte hlt hc₂
        fun he => (hφ he _ hold).2 hpg
      exact ⟨_, _, _, insert_other hs hp hsame hrem,
        insertT_other φ ht rfl (by rw [hmem]; exact hp) (by rw [hmem]; exact hsame) hremT,
        hc₃.linkT_absent φ pp perm (unmap_absent s₁ d va n _), ho₃.congr rfl rfl⟩

/-! ## Switching the address space -/

theorem cached_nil (h : (s.cpus s.cpunum).tlb = []) : Cached P s s :=
  ⟨[], by conv_lhs => rw [← setTlb_self s, h], by rintro _ ⟨⟩⟩

/-- `env_run` begins with what `yieldCur` does. -/
theorem envRunT_yield (φ : Nat → List Word) (s : State) (e : Slot) : (envRunT φ e).run s = (do
    fills (φ 0)
    modify fun s => s.setCurenv (some e)
    fills (φ 1)
    modifyEnv e fun v => { v with envStatus := .running, envRuns := v.envRuns + 1#32 }
    fills (φ 2)
    lcr3 (← paddr (← env e).envPgdir)
    fills (φ 3)
    unlockKernel
    envPopTf : Kern Unit).run s.yieldCur := by
  unfold envRunT State.yieldCur
  rw [run_bind_ok (EStateM.run_get s)]
  cases hc : s.curenv with
  | none => rfl
  | some c =>
    dsimp only
    rw [run_bind_ok (run_env c)]
    by_cases hr : (s.envs c).envStatus = .running
    · rw [if_pos hr, if_pos hr]; rfl
    · rw [if_neg hr, if_neg hr]

/-- It loads the directory of `e` with an empty TLB; what was cached before does not matter. -/
theorem envRunT_loads (φ : Nat → List Word) (hd : (s.envs e).envPgdir = some d) : ∃ tlb,
    (envRunT φ e).run s = (do unlockKernel; envPopTf : Kern Unit).run ((s.loadDir e d).setTlb tlb) ∧
      Cached (fun _ => True) (s.loadDir e d) ((s.loadDir e d).setTlb tlb) := by
  obtain ⟨tlb₀, h₀⟩ := foldl_fill (φ 0) s.yieldCur
  have hcur : (s.yieldCur.setTlb tlb₀).setCurenv (some e) = (s.yieldCur.setCurenv (some e)).setTlb tlb₀ := by
    unfold State.setCurenv State.setTlb
    rw [setCpu_cpu, setCpu_cpu, setCpu_setCpu, setCpu_setCpu]
  obtain ⟨tlb₁, h₁⟩ := foldl_fill (φ 1) ((s.yieldCur.setCurenv (some e)).setTlb tlb₀)
  rw [setTlb_setTlb] at h₁
  have hmod : (modifyEnv e fun v => { v with envStatus := .running, envRuns := v.envRuns + 1#32 }).run
      ((s.yieldCur.setCurenv (some e)).setTlb tlb₁) = .ok () ((s.switchTo e).setTlb tlb₁) := rfl
  obtain ⟨tlb₂, h₂⟩ := foldl_fill (φ 2) ((s.switchTo e).setTlb tlb₁)
  rw [setTlb_setTlb] at h₂
  have hdir : (((s.switchTo e).setTlb tlb₂).envs e).envPgdir = some d := by
    show ((s.switchTo e).envs e).envPgdir = _
    rw [switchTo_envs_self, ← hd]
    exact ((yieldCur_switched s).like e).envPgdir
  have hpa : (paddr (some d)).run ((s.switchTo e).setTlb tlb₂) = .ok (page2pa d) ((s.switchTo e).setTlb tlb₂) := rfl
  have hcr : (lcr3 (page2pa d)).run ((s.switchTo e).setTlb tlb₂) = .ok () (s.loadDir e d) := by
    unfold State.loadDir lcr3
    rw [EStateM.run_modify, setTlb_cpu, ← switchTo_cpunum s e]
    unfold State.setTlb
    rw [setCpu_setCpu]
  have hnil : Cached (fun _ => True) (s.loadDir e d) (s.loadDir e d) := by
    refine cached_nil ?_
    rw [show (s.loadDir e d).cpunum = s.cpunum from switchTo_cpunum s e, loadDir_cpus, Function.update_self]
  have hc := hnil.fills_any (φ 3)
  obtain ⟨tlb₃, h₃⟩ := foldl_fill (φ 3) (s.loadDir e d)
  rw [h₃] at hc
  refine ⟨tlb₃, ?_, hc⟩
  rw [envRunT_yield, run_bind_ok (run_fills _), h₀, run_bind_ok (EStateM.run_modify _ _), hcur, run_bind_ok (run_fills _), h₁,
    run_bind_ok hmod, run_bind_ok (run_fills _), h₂, run_bind_ok (run_env e), hdir, run_bind_ok hpa, run_bind_ok hcr,
    run_bind_ok (run_fills _), h₃]

/-- `env_run` loads the directory of `e` with an empty TLB, which the processor may then fill. -/
theorem envRunT_cached (φ : Nat → List Word) (hd : (s.envs e).envPgdir = some d) :
    (s.kernelLock = some s.cpunum ∧ ∃ t', (envRunT φ e).run s = .error .envPopTf t' ∧ Cached (fun _ => True) (s.popTf e d) t') ∨
    ∃ t', (envRunT φ e).run s = .error .panic t' := by
  obtain ⟨tlb, hrun, hc⟩ := envRunT_loads φ hd
  rw [hrun]
  have hnum : (s.loadDir e d).cpunum = s.cpunum := switchTo_cpunum s e
  have hlk : (s.loadDir e d).kernelLock = s.kernelLock := switchTo_kernelLock s e
  by_cases hlock : s.kernelLock = some s.cpunum
  · refine Or.inl ⟨hlock, ?_⟩
    let s₄ : State := { s.loadDir e d with kernelLock := none }
    have hun : unlockKernel.run ((s.loadDir e d).setTlb tlb) = .ok () (s₄.setTlb tlb) := by
      unfold unlockKernel
      rw [run_bind_ok (EStateM.run_get _), if_neg (by
        show ¬ (s.loadDir e d).kernelLock ≠ some (s.loadDir e d).cpunum
        rw [hnum, hlk]; simpa using hlock)]
      rfl
    have hcur₄ : (s₄.setTlb tlb).curenv = some e := by
      unfold State.curenv
      rw [setTlb_cpu]
      show ((s.loadDir e d).cpus (s.loadDir e d).cpunum).cpuEnv = _
      rw [loadDir_cpus, hnum, Function.update_self]
    have hpop : envPopTf.run (s₄.setTlb tlb) = .error .envPopTf ((s.popTf e d).setTlb tlb) := by
      unfold envPopTf
      rw [run_bind_ok (EStateM.run_get _), hcur₄, run_bind_ok (run_deref_some e), run_bind_ok (run_modifyEnv ..)]
      show EStateM.Result.error _ _ = _
      unfold State.popTf
      rw [← hnum]
      rfl
    rw [run_bind_ok hun, hpop]
    exact ⟨_, rfl, hc.map (fun s' : State =>
      { s'.setEnv e { s'.envs e with envCpunum := s.cpunum } with kernelLock := none }) (fun _ _ => rfl) fun _ _ _ hw => hw⟩
  · refine Or.inr ⟨(s.loadDir e d).setTlb tlb, run_bind_error ?_⟩
    unfold unlockKernel
    rw [run_bind_ok (EStateM.run_get _), if_pos (by
      show (s.loadDir e d).kernelLock ≠ some (s.loadDir e d).cpunum
      rw [hnum, hlk]; exact hlock)]
    rfl

end Jos
