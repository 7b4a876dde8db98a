/-
The start of all runs. What the kernel's theorems suppose about the machine at the start is made by the kernel itself:
`mem_init`, less its self-tests, and `env_init` build it out of a machine whose memory is clear.
-/
import Jos.Boot.FreeOrder
import Jos.Run.EnvIds
import Jos.Run.KernHalf
import Jos.Run.KernMap

namespace Jos

open Lib Kern

/-! ## The code -/

/-- What the linker decides: the symbol `end`, and the physical addresses of the kernel stacks. -/
structure KernImage where
  kernEnd : Word
  bootstack : Word
  percpuKstacks : Cpu → Word
  bootstack_page : bootstack.toNat % 4096 = 0
  percpuKstacks_page : ∀ i, (percpuKstacks i).toNat % 4096 = 0

/-- `kern_pgdir`, `pages` and `envs` as `boot_alloc` returns them. -/
def bootPgdir (kernEnd : Word) : Word × Word := bootAlloc kernEnd pgsize 0#32

def bootPages (kernEnd : Word) (npages : Nat) : Word × Word :=
  bootAlloc kernEnd (BitVec.ofNat 32 (npages * sizeofPageInfo)) (bootPgdir kernEnd).2

def bootEnvs (kernEnd : Word) (npages : Nat) : Word × Word :=
  bootAlloc kernEnd (BitVec.ofNat 32 (nenv * sizeofEnv)) (bootPages kernEnd npages).2

theorem roundup_page (a : Word) : (roundup a pgsize).toNat % 4096 = 0 := by
  have h := roundup_pageUp a
  have hm := pageUp_mod a.toNat
  omega

theorem startFree_page (kernEnd : Word) {nextfree : Word} (h : nextfree.toNat % 4096 = 0) :
    (startFree kernEnd nextfree).toNat % 4096 = 0 := by
  unfold startFree
  split
  · exact roundup_page kernEnd
  · exact h

theorem bootAlloc_page {kernEnd n nextfree : Word} (h : nextfree.toNat % 4096 = 0) :
    (bootAlloc kernEnd n nextfree).1.toNat % 4096 = 0 ∧ (bootAlloc kernEnd n nextfree).2.toNat % 4096 = 0 := by
  have hs := startFree_page kernEnd h
  unfold bootAlloc
  split
  · exact ⟨hs, roundup_page _⟩
  · exact ⟨hs, hs⟩

theorem page_sub_kernbase {a : Word} (h : a.toNat % 4096 = 0) : (a - kernbase).toNat % 4096 = 0 := by
  have hk : kernbase.toNat = 0xf0000000 := by decide
  rw [BitVec.toNat_sub, hk]
  omega

/-- The physical addresses of what `mem_init` maps. -/
def KernImage.arrays (K : KernImage) (npages : Nat) : BootArrays where
  pages := (bootPages K.kernEnd npages).1 - kernbase
  envs := (bootEnvs K.kernEnd npages).1 - kernbase
  bootstack := K.bootstack
  percpuKstacks := K.percpuKstacks
  pages_page := page_sub_kernbase (bootAlloc_page (bootAlloc_page rfl).2).1
  envs_page := page_sub_kernbase (bootAlloc_page (bootAlloc_page (bootAlloc_page rfl).2).2).1
  bootstack_page := K.bootstack_page
  percpuKstacks_page := K.percpuKstacks_page

/-- `PADDR(kva)`. -/
def paddrKva (kva : Word) : Kern Word :=
  match paddrOf kva with
  | some pa => pure pa
  | none => panic

/-- `page_init` and `check_page_free_list(1)`, which leaves the list in another order. -/
def initPages (kernEnd : Word) (lim : Nat) (pp1 pp2 : Option Nat) : Kern Unit := do
  let s ← get
  match pageInit kernEnd s.npages ⟨s.pages, s.pageFreeList⟩ with
  | none => panic
  | some a =>
    match checkPageFreeList lim true pp1 pp2 a with
    | some (false, a) => modify fun s => { s with pages := a.pages, pageFreeList := a.pageFreeList }
    | _ => panic

/-- `mem_init` from the first `boot_alloc` on; the tests `check_page_alloc`, `check_page`, `check_kern_pgdir` and
`check_page_installed_pgdir` are left out. -/
def memInit (K : KernImage) (lim : Nat) (pp1 pp2 : Option Nat) : Kern Unit := do
  let npages := (← get).npages
  let d := pgnum (← paddrKva (bootPgdir K.kernEnd).1)
  modify fun s => { s with kernPgdir := d }
  zeroPage d
  store (d, pdx uvpt) (page2pa d ||| pteU ||| pteP)
  initPages K.kernEnd lim pp1 pp2
  let _ ← paddrKva (bootPages K.kernEnd npages).1
  let _ ← paddrKva (bootEnvs K.kernEnd npages).1
  memInitMaps d npages (K.arrays npages)

/-! ## What `boot_map_region` can do -/

variable {d : Nat} {s s' : State} {l : List Nat} {S : Finset Idx} {I : State → Prop} {va pa perm size : Word}

/-- A property that a new page table in one of the slots `S` keeps, and a new present entry in a page table. -/
structure MapRule (S : Finset Idx) (d : Nat) (I : State → Prop) : Prop where
  hang : ∀ {s : State} {l : List Nat} {p : Nat} {i : Idx}, MapDir d s (p :: l) → i ∈ S → MapIdx i → s.ktab d i = none → I s →
    I (s.hang d i p)
  link : ∀ {s : State} {l : List Nat} {n : Nat} {i : Idx}, MapDir d s l → s.ktab d i = some n → ∀ (j : Idx) {w : Word},
    present w = true → I s → I (s.setWord n j w)

theorem MapDir.walk_keeps (h : MapDir d s l) (hI : MapRule S d I) (hen : Stocked S d s l) (hi : MapIdx (pdx va)) (hS : pdx va ∈ S)
    (hs : I s) {n : Nat} {j : Idx} (hrun : (pgdirWalk d va true).run s = .ok (some (n, j)) s') : I s' := by
  have hdec := ktab_eq_dec (s := s) (d := d) hi
  unfold dec at hdec
  cases hp : present (s.mem d (pdx va)) with
  | true =>
    rw [if_pos hp] at hdec
    cases hrun.symm.trans (pgdirWalk_present hp (h.tabLt _ _ hdec) true)
    exact hs
  | false =>
    rw [hp, if_neg Bool.false_ne_true] at hdec
    have hmem : pdx va ∈ S.filter fun i => s.ktab d i = none := Finset.mem_filter.2 ⟨hS, hdec⟩
    cases l with
    | nil =>
      have hpos := Finset.card_pos.2 ⟨_, hmem⟩
      exact absurd hen (Nat.not_le.2 hpos)
    | cons p l =>
      have hhead : s.pageFreeList = some p := h.chain.elim fun _ hc => hc.1
      cases hrun.symm.trans (pgdirWalk_create hp hhead (h.managed p (List.mem_cons_self ..)))
      exact hI.hang h hS hi hdec hs

/-- The loop, by the turns that are left. -/
theorem MapDir.loop_keeps (hI : MapRule S d I) (hsize : size.toNat < 2 ^ 31) (hSM : ∀ i ∈ S, MapIdx i) :
    ∀ (n t P fuel : Nat) (pa : Word) {s s' : State} {l : List Nat}, MapDir d s l → Stocked S d s l →
      (∀ a, P ≤ pgnum a → pgnum a < P + n → pdx a ∈ S) → t + n = (size.toNat + 4095) / 4096 → n < fuel → P + n ≤ 2 ^ 20 → I s →
      (bootMapLoop d size perm fuel (BitVec.ofNat 32 (4096 * t)) (BitVec.ofNat 32 (4096 * P)) pa).run s = .ok () s' → I s'
  | _, _, _, 0, _, _, _, _, _, _, _, _, hf, _, _, _ => absurd hf (Nat.not_lt_zero _)
  | 0, t, P, fuel + 1, pa, s, s', l, _, _, _, ht, _, _, hs, hrun => by
    unfold bootMapLoop at hrun
    rw [if_neg] at hrun
    · cases hrun
      exact hs
    · rw [BitVec.lt_def, BitVec.toNat_ofNat]
      omega
  | n + 1, t, P, fuel + 1, pa, s, s', l, h, hen, hS, ht, hf, hP, hs, hrun => by
    have hPn : pgnum (BitVec.ofNat 32 (4096 * P)) = P := pgnum_ofNat_page (by omega)
    have hva : pdx (BitVec.ofNat 32 (4096 * P)) ∈ S := hS _ (by omega) (by omega)
    obtain ⟨s₁, l₁, m, hwalk, h₁, hen₁, -, hm, -⟩ := h.walk hen (hSM _ hva) hva
    obtain ⟨s₂, s₃, l₂, m', hwalk', hstore, h₂, hen₂, -, -⟩ := h.turn hen (hSM _ hva) hva (present_flags pa perm)
    cases hwalk.symm.trans hwalk'
    have hs₁ : I s₁ := h.walk_keeps hI hen (hSM _ hva) hva hs hwalk
    have hs₃ : I s₃ := by
      cases hstore
      exact hI.link h₁ hm _ (present_flags pa perm) hs₁
    unfold bootMapLoop at hrun
    rw [if_pos, run_bind_ok hwalk] at hrun
    · change (store (m, _) _ >>= fun _ => _).run s₁ = _ at hrun
      rw [run_bind_ok hstore, ofNat_page_succ, ofNat_page_succ] at hrun
      exact MapDir.loop_keeps hI hsize hSM n (t + 1) (P + 1) fuel (pa + pgsize) h₂ hen₂
        (fun a ha ha' => hS a (by omega) (by omega))
        (by omega) (by omega) (by omega) hs₃ hrun
    · rw [BitVec.lt_def, BitVec.toNat_ofNat]
      omega

theorem MapDir.region_keeps (h : MapDir d s l) (hI : MapRule S d I) (hen : Stocked S d s l) (hm : Mappable va size pa perm)
    (hSM : ∀ i ∈ S, MapIdx i) (hS : ∀ a, Within va size a → pdx a ∈ S) (hs : I s)
    (hrun : (bootMapRegion d va size pa perm).run s = .ok () s') : I s' := by
  have hva : BitVec.ofNat 32 (4096 * pgnum va) = va := by
    apply BitVec.eq_of_toNat_eq
    have := hm.vaPage
    have := va.isLt
    rw [BitVec.toNat_ofNat, pgnum_eq]
    omega
  have hend : pgnum va + (size.toNat + 4095) / 4096 ≤ 2 ^ 20 := by
    have := hm.vaPage
    have := hm.fits
    rw [pgnum_eq]
    omega
  have hturns : (size.toNat + 4095) / 4096 < 2 ^ 20 + 1 := by
    have := hm.lt
    omega
  unfold bootMapRegion at hrun
  rw [← hva] at hrun
  exact MapDir.loop_keeps hI hm.lt hSM ((size.toNat + 4095) / 4096) 0 (pgnum va) (2 ^ 20 + 1) pa h hen
    (fun a ha ha' => hS a ((within_iff hm.vaPage).2 ⟨ha, ha'⟩)) (Nat.zero_add _) hturns hend hs hrun

/-- What a new page table and a new entry keep, calls of `boot_map_region` keep. -/
theorem MapDir.regions_keeps (hI : MapRule S d I) (hSM : ∀ i ∈ S, MapIdx i) : ∀ (rs : List BootMap) {s s' : State} {l : List Nat},
    MapDir d s l → Stocked S d s l → (∀ r ∈ rs, Mappable r.va r.size r.pa r.perm ∧ ∀ a, Within r.va r.size a → pdx a ∈ S) → I s →
    (rs.forM fun r => bootMapRegion d r.va r.size r.pa r.perm).run s = .ok () s' → I s'
  | [], _, _, _, _, _, _, hs, hrun => by
    cases hrun
    exact hs
  | r :: rs, s, s', l, h, hen, hrs, hs, hrun => by
    obtain ⟨hm, hS⟩ := hrs r (List.mem_cons_self ..)
    obtain ⟨s₁, l₁, hrun₁, h₁, hen₁, -, -⟩ := h.region hen hm hSM hS
    change (bootMapRegion d r.va r.size r.pa r.perm >>= fun _ => rs.forM _).run s = _ at hrun
    rw [run_bind_ok hrun₁] at hrun
    exact MapDir.regions_keeps hI hSM rs h₁ hen₁ (fun q hq => hrs q (List.mem_cons_of_mem _ hq))
      (h.region_keeps hI hen hm hSM hS hs hrun₁) hrun

/-! ## What `mem_init` keeps while it maps -/

/-- The pages of the free list are unused, `pgdir_walk` made the entries of the directory, and a page table has entries that are
present or nothing. -/
structure Mapping (d : Nat) (L₀ : List Nat) (s₀ s : State) : Prop where
  free : ∃ L, FreeList s L ∧ L.Nodup ∧ L ⊆ L₀ ∧ ∀ f ∈ L, (s.pages f).ppRef = 0#16
  pdes : ∀ i, MapIdx i → present (s.mem d i) = true → ∃ n, n < s.npages ∧ s.mem d i = tablePde n
  entries : ∀ i n j, s.ktab d i = some n → present (s.mem n j) = true ∨ s.mem n j = 0#32
  slots : ∀ i n, s.ktab d i = some n → i ∈ bootSlots
  dirLt : d < s.npages
  outside : ∀ f, s.npages ≤ f → s.mem f = fun _ => 0#32
  npages : s.npages = s₀.npages
  kernPgdir : s.kernPgdir = s₀.kernPgdir
  envs : s.envs = s₀.envs

variable {s₀ : State} {L₀ : List Nat} {p n : Nat} {i : Idx}

theorem hang_mem_dir (hpd : p ≠ d) (i' : Idx) : (s.hang d i p).mem d i' = if i' = i then tablePde p else s.mem d i' := by
  show Function.update (Function.update s.mem p _) d _ d i' = _
  rw [Function.update_self, Function.update_apply]
  split
  · rfl
  · show Function.update s.mem p _ d i' = _
    rw [Function.update_of_ne hpd.symm]

theorem hang_mem_page (hpd : p ≠ d) : (s.hang d i p).mem p = fun _ => 0#32 := by
  show Function.update (Function.update s.mem p _) d _ p = _
  rw [Function.update_of_ne hpd, Function.update_self]

theorem hang_mem_other {f : Nat} (hp : f ≠ p) (hd : f ≠ d) : (s.hang d i p).mem f = s.mem f := by
  show Function.update (Function.update s.mem p _) d _ f = _
  rw [Function.update_of_ne hd, Function.update_of_ne hp]

theorem Mapping.hang (hs : Mapping d L₀ s₀ s) (h : MapDir d s (p :: l)) (hS : i ∈ bootSlots) (hi : MapIdx i)
    (hn : s.ktab d i = none) :
    Mapping d L₀ s₀ (s.hang d i p) where
  free := by
    -- the table takes the head of the list, the rest stays as it was
    obtain ⟨L, hL, hnd, hsub, href⟩ := hs.free
    have hhead : s.pageFreeList = some p := h.chain.elim fun _ hc => hc.1
    unfold FreeList at hL
    rw [hhead, Chain.some_iff] at hL
    obtain ⟨L, rfl, hL⟩ := hL
    have hp := List.nodup_cons.1 hnd
    refine ⟨L, Chain.congr (fun q _ => setRef_ppLink _ p q 1#16) hL, hp.2, fun f hf => hsub (List.mem_cons_of_mem _ hf),
      fun f hf => ?_⟩
    have hfp : f ≠ p := ne_of_mem_of_not_mem hf hp.1
    refine (setRef_ppRef _ p f 1#16).trans ?_
    rw [if_neg hfp]
    exact href f (List.mem_cons_of_mem _ hf)
  pdes i' hi' hp := by
    have hpd : p ≠ d := ne_of_mem_of_not_mem (List.mem_cons_self ..) h.freeDir
    rw [hang_mem_dir hpd] at hp ⊢
    split
    · exact ⟨p, h.managed p (List.mem_cons_self ..), rfl⟩
    · rename_i hc
      rw [if_neg hc] at hp
      exact hs.pdes i' hi' hp
  entries i' m j hm := by
    have hpd : p ≠ d := ne_of_mem_of_not_mem (List.mem_cons_self ..) h.freeDir
    rw [(h.hang hi hn).2.1] at hm
    by_cases hc : i' = i
    · rw [if_pos hc] at hm
      cases hm
      exact Or.inr (by rw [hang_mem_page hpd])
    · rw [if_neg hc] at hm
      have hmp : m ≠ p := fun hmp => h.freeTab i' m hm (hmp ▸ List.mem_cons_self ..)
      have hmd : m ≠ d := by
        rintro rfl
        exact h.tabDir i' hm
      rw [hang_mem_other hmp hmd]
      exact hs.entries i' m j hm
  slots i' m hm := by
    rw [(h.hang hi hn).2.1] at hm
    split at hm
    · rename_i hc
      rw [hc]
      exact hS
    · exact hs.slots i' m hm
  dirLt := hs.dirLt
  outside f hf := by
    have hp := h.managed p (List.mem_cons_self ..)
    have hd := hs.dirLt
    have hf' : s.npages ≤ f := hf
    rw [hang_mem_other (by omega) (by omega)]
    exact hs.outside f hf
  npages := hs.npages
  kernPgdir := hs.kernPgdir
  envs := hs.envs

theorem Mapping.link (hs : Mapping d L₀ s₀ s) (h : MapDir d s l) (hn : s.ktab d i = some n) (j : Idx) {w : Word}
    (hw : present w = true) : Mapping d L₀ s₀ (s.setWord n j w) where
  free := hs.free
  pdes i' hi' hp := by
    have hnd : d ≠ n := by
      rintro rfl
      exact h.tabDir i hn
    rw [show (s.setWord n j w).mem d = s.mem d from Function.update_of_ne hnd _ _] at hp ⊢
    exact hs.pdes i' hi' hp
  entries i' m j' hm := by
    rw [(h.link hn j hw).2.1] at hm
    by_cases hmn : m = n
    · subst hmn
      rw [show (s.setWord m j w).mem m = Function.update (s.mem m) j w from Function.update_self .., Function.update_apply]
      split
      · exact Or.inl hw
      · exact hs.entries i' m j' hm
    · rw [show (s.setWord n j w).mem m = s.mem m from Function.update_of_ne hmn _ _]
      exact hs.entries i' m j' hm
  slots i' m hm := by
    rw [(h.link hn j hw).2.1] at hm
    exact hs.slots i' m hm
  dirLt := hs.dirLt
  outside f hf := by
    have hlt := h.tabLt i n hn
    have hf' : s.npages ≤ f := hf
    have hne : f ≠ n := by omega
    rw [show (s.setWord n j w).mem f = s.mem f from Function.update_of_ne hne _ _]
    exact hs.outside f hf
  npages := hs.npages
  kernPgdir := hs.kernPgdir
  envs := hs.envs

theorem mapping_rule (d : Nat) (L₀ : List Nat) (s₀ : State) : MapRule bootSlots d (Mapping d L₀ s₀) where
  hang h hS hi hn hs := hs.hang h hS hi hn
  link h hn j _ hw hs := hs.link h hn j hw

/-- All pages of the list are still to be handed out. -/
theorem MapDir.freeList (h : MapDir d s' l) (hs : Mapping d L₀ s₀ s') (hg : Grown d s s' L₀ l) : FreeList s' l := by
  obtain ⟨rest, hc⟩ := h.chain
  obtain ⟨L, hL, hnd, hsub, href⟩ := hs.free
  cases Chain.unique hL hc
  have hrest : rest = [] := by
    refine List.eq_nil_iff_forall_not_mem.2 fun f hf => ?_
    have hmem : f ∈ l ++ rest := List.mem_append_right _ hf
    have hfl : f ∉ l := fun hfl => (List.nodup_append.1 hnd).2.2 f hfl f hf rfl
    -- a page that was handed out has become a page table
    have hone := hg.ref f
    rw [if_pos ⟨hsub hmem, hfl⟩, href f hmem] at hone
    cases hone
  rw [hrest, List.append_nil] at hc
  exact hc

/-! ## What the user can do above `UTOP` -/

section Layout

variable {A : BootArrays} {npages : Nat}

theorem and_of_and {w f g : Word} (h : w &&& f = f) (hg : f &&& g = g) : w &&& g = g := by
  rw [← hg, ← BitVec.and_assoc, h]

/-- An entry that is not the user's part's is for the kernel only, or is not writable. -/
theorem Mapping.guarded (hs : Mapping d L₀ s₀ s) (hl : KernLayout npages A d s) (hi : ¬ userIdx i) (hv : i ≠ pdx uvpt)
    (hn : s.ktab d i = some n) (j : Idx) :
    s.mem n j &&& (pteU ||| pteW) ≠ pteU ||| pteW ∧ (pdx ulim ≤ i → s.mem n j &&& pteU = 0#32) := by
  rcases hs.entries i n j hn with hp | h0
  · have hat : s.entryAt d (pgaddr i j 0) = some (s.mem n j) := by
      have hm : MapIdx (pdx (pgaddr i j 0)) := by rw [pdx_pgaddr]; exact hv
      rw [entryAt_eq hm, pdx_pgaddr, ptx_pgaddr]
      refine Lib.leaf_eq_some.2 ⟨n, hn, rfl, ?_⟩
      rw [dec, if_pos hp]
      rfl
    have hge : utop ≤ pgaddr i j 0 := by
      refine BitVec.not_lt.1 fun hlt => hi ?_
      rw [← pdx_pgaddr i j]
      exact (userIdx_pdx _).2 hlt
    have hulim : ulim.toNat = 958 * 4194304 := by decide
    have hpu : (pdx ulim).val = 958 := by decide
    by_cases hk : ulim ≤ pgaddr i j 0
    · have hU := hl.kernelOnly _ _ hk hat
      exact ⟨fun hc => absurd (hU.symm.trans (and_of_and hc (by decide))) (by decide), fun _ => hU⟩
    · have hW := hl.readOnly _ _ hge (BitVec.not_le.1 hk) (by rw [pdx_pgaddr]; exact hv) hat
      refine ⟨fun hc => absurd (hW.symm.trans (and_of_and hc (by decide))) (by decide), fun hle => absurd ?_ hk⟩
      rw [BitVec.le_def, pgaddr_toNat, hulim]
      have := Fin.le_def.1 hle
      omega
  · rw [h0]
    exact ⟨by decide, fun _ => by decide⟩

end Layout

/-! ## The memory of the kernel -/

/-- The kernel lies above 1 MB, its directory in memory, and what `boot_alloc` hands out ends below page 700. -/
structure KernImage.Fits (K : KernImage) (npages : Nat) : Prop where
  above : 0xf0100000 ≤ K.kernEnd.toNat
  below : pageUp K.kernEnd.toNat + 4096 + pageUp (npages * sizeofPageInfo) + 126976 ≤ 0xf0000000 + 700 * 4096
  inside : pageUp K.kernEnd.toNat + 4096 ≤ 0xf0000000 + npages * 4096

theorem pageUp_add (a : Nat) {c : Nat} (hc : c % 4096 = 0) : pageUp (c + a) = c + pageUp a := by
  unfold pageUp
  omega

section Arrays

variable {K : KernImage} {npages : Nat}

theorem bootTop_eq (kernEnd : Word) : bootTop kernEnd npages = startFree kernEnd (bootEnvs kernEnd npages).2 := by
  unfold bootTop bootEnvs bootPages bootPgdir
  dsimp only
  rw [bootAlloc_zero]

/-- The addresses that `boot_alloc` returns. -/
theorem KernImage.Fits.addresses (h : K.Fits npages) (hn : 0 < npages) :
    (bootPgdir K.kernEnd).1.toNat = pageUp K.kernEnd.toNat ∧
      (bootPages K.kernEnd npages).1.toNat = pageUp K.kernEnd.toNat + 4096 ∧
      (bootEnvs K.kernEnd npages).1.toNat = pageUp K.kernEnd.toNat + 4096 + pageUp (npages * sizeofPageInfo) ∧
      (bootTop K.kernEnd npages).toNat = pageUp K.kernEnd.toNat + 4096 + pageUp (npages * sizeofPageInfo) + 126976 := by
  have hbelow := h.below
  have hmod := pageUp_mod K.kernEnd.toNat
  have hmod' := pageUp_mod (npages * sizeofPageInfo)
  have hle := le_pageUp (npages * sizeofPageInfo)
  have hpg : pgsize.toNat = 4096 := by decide
  have hen : (BitVec.ofNat 32 (nenv * sizeofEnv)).toNat = 126976 := by decide
  have hnp : (BitVec.ofNat 32 (npages * sizeofPageInfo)).toNat = npages * sizeofPageInfo := by
    rw [BitVec.toNat_ofNat, Nat.mod_eq_of_lt (by omega)]
  have hpos : 0#32 < BitVec.ofNat 32 (npages * sizeofPageInfo) := by
    rw [BitVec.lt_def, hnp]
    exact Nat.mul_pos hn (by unfold sizeofPageInfo; decide)
  obtain ⟨h₁, a₁⟩ := (at_first K.kernEnd).pos (n := pgsize) (by omega) (by decide) (by omega)
  rw [hpg, pageUp_add 4096 hmod, show pageUp 4096 = 4096 from rfl] at a₁
  obtain ⟨h₂, a₂⟩ := a₁.pos (by omega) hpos (by omega)
  rw [hnp, pageUp_add _ (by omega)] at a₂
  obtain ⟨h₃, a₃⟩ := a₂.pos (n := BitVec.ofNat 32 (nenv * sizeofEnv)) (by omega) (by decide) (by omega)
  rw [hen, pageUp_add 126976 (by omega), show pageUp 126976 = 126976 from rfl] at a₃
  refine ⟨h₁, h₂, h₃, ?_⟩
  rcases a₃ with ⟨-, htop⟩ | ⟨heq, -⟩
  · rw [bootTop_eq]
    exact htop
  · omega

theorem paddrOf_above {a : Word} (h : 0xf0000000 ≤ a.toNat) : paddrOf a = some (a - kernbase) := by
  have hk : kernbase.toNat = 0xf0000000 := by decide
  unfold paddrOf
  rw [if_neg]
  rw [BitVec.lt_def, hk]
  omega

theorem run_paddrKva {a : Word} (h : 0xf0000000 ≤ a.toNat) : (paddrKva a).run s = .ok (a - kernbase) s := by
  unfold paddrKva
  rw [paddrOf_above h]
  rfl

theorem KernImage.Fits.npages_gt (h : K.Fits npages) : 256 < npages := by
  have habove := h.above
  have hinside := h.inside
  have hle := le_pageUp K.kernEnd.toNat
  omega

/-- `kern_pgdir` is a page of memory between 1 MB and page 700. -/
theorem KernImage.Fits.pgdir (h : K.Fits npages) : 256 ≤ pgnum ((bootPgdir K.kernEnd).1 - kernbase) ∧
    pgnum ((bootPgdir K.kernEnd).1 - kernbase) < 700 ∧ pgnum ((bootPgdir K.kernEnd).1 - kernbase) < npages := by
  have hk : kernbase.toNat = 0xf0000000 := by decide
  have habove := h.above
  have hbelow := h.below
  have hinside := h.inside
  have hle := le_pageUp K.kernEnd.toNat
  rw [pgnum_eq, BitVec.toNat_sub, hk, (h.addresses (Nat.zero_lt_of_lt h.npages_gt)).1]
  omega

end Arrays

/-! ## The free list and the table of environments -/

theorem length_freedPages (npages : Nat) : (freedPages npages).length = 158 + (npages - 700) := by
  have hlow : ((List.range' 1 (lowPages - 1)).filter (· ≠ mpentry)).length = 158 := by decide +kernel
  unfold freedPages
  rw [List.length_append, hlow, List.length_range']

/-- Each step gives a page it frees the count 0. -/
theorem foldl_free_ppRef {f : Nat} : ∀ (is : List Nat) (a : PageArray), f ∈ is →
    ((is.foldl PageArray.free a).pages f).ppRef = 0#16 := by
  intro is
  induction is using List.reverseRecOn with
  | nil => exact fun a hf => absurd hf List.not_mem_nil
  | append_singleton is i ih =>
    intro a hf
    rw [List.foldl_append]
    show (Function.update (is.foldl PageArray.free a).pages i _ f).ppRef = _
    by_cases hfi : f = i
    · rw [hfi, Function.update_self]
    · rw [Function.update_of_ne hfi]
      exact ih a ((List.mem_append.1 hf).resolve_right (by simpa using hfi))

/-- The first free list. -/
theorem initPages_run (kernEnd : Word) (s : State) {lim : Nat} (hfree : s.pageFreeList = none)
    (htop : 0xf0000000 ≤ (bootTop kernEnd s.npages).toNat) (hlim : 158 + (s.npages - 700) < lim) (pp1 pp2 : Option Nat) :
    ∃ (a : PageArray) (L : List Nat),
      (initPages kernEnd lim pp1 pp2).run s = .ok () { s with pages := a.pages, pageFreeList := a.pageFreeList } ∧
      Chain (fun p => (a.pages p).ppLink) a.pageFreeList L ∧ L.Perm (freedPages s.npages) ∧
      ∀ f ∈ L, (a.pages f).ppRef = 0#16 := by
  have hinit := pageInit_some (a := ⟨s.pages, s.pageFreeList⟩) (paddrOf_above htop)
  have hchain := chain_free_empty (nodup_freedPages s.npages) s.pages
  rw [← hfree] at hchain
  have hlen : (freedPages s.npages).reverse.length < lim := by
    rw [List.length_reverse, length_freedPages]
    exact hlim
  have hne : (freedPages s.npages).reverse ≠ [] := by
    intro hnil
    have := congrArg List.length hnil
    rw [List.length_reverse, length_freedPages, List.length_nil] at this
    omega
  obtain ⟨a, hrun, hc, href, -⟩ := checkPageFreeList_run pp1 pp2 hchain hlen hne
  refine ⟨a, _, ?_, hc, (lowFirst_perm _).trans (List.reverse_perm _), fun f hf => ?_⟩
  · unfold initPages
    rw [run_bind_ok (EStateM.run_get s), hinit]
    dsimp only
    rw [hrun]
    rfl
  · rw [href]
    exact foldl_free_ppRef _ _ (List.mem_reverse.1 ((lowFirst_perm _).mem_iff.1 hf))

/-! ## The start -/

section Start

variable {K : KernImage} {lim : Nat}

/-- Memory as `mem_init` leaves it: page tables in `kern_pgdir`, and the pages `M` for everything else. -/
structure MemUp (K : KernImage) (s s' : State) (L M : List Nat) : Prop where
  mapDir : MapDir s'.kernPgdir s' M
  mapping : Mapping s'.kernPgdir L { s with kernPgdir := s'.kernPgdir } s'
  free : FreeList s' M
  used : ∃ used, used.length ≤ 67 ∧ (used ++ M).Perm (freedPages s.npages)
  entries : ∀ a, MapIdx (pdx a) → s'.entryAt s'.kernPgdir a = mappedBy a (bootMaps s.npages (K.arrays s.npages)) none

/-- The pages that left the list are the page tables of the slots that are mapped. -/
theorem Grown.used_le {L : List Nat} (hg : Grown d s s' L l) (hs : Mapping d L₀ s₀ s') (hnd : L.Nodup) :
    ∃ used, used.length ≤ 67 ∧ L = used ++ l := by
  obtain ⟨used, rfl⟩ := hg.used
  have hu := List.nodup_append.1 hnd
  refine ⟨used, ?_, rfl⟩
  have hsub : used.toFinset ⊆ bootSlots.image fun i => (s'.ktab d i).getD 0 := by
    intro f hf
    have hfu := List.mem_toFinset.1 hf
    obtain ⟨i, -, hi⟩ := hg.tables f (List.mem_append_left _ hfu) fun hl => hu.2.2 f hfu f hl rfl
    refine Finset.mem_image.2 ⟨i, hs.slots i f hi, ?_⟩
    rw [hi]
    rfl
  calc used.length = used.toFinset.card := (List.toFinset_card_of_nodup hu.1).symm
    _ ≤ (bootSlots.image fun i => (s'.ktab d i).getD 0).card := Finset.card_le_card hsub
    _ ≤ bootSlots.card := Finset.card_image_le
    _ = 67 := bootSlots_card

theorem mapIdx_bootSlots {i : Idx} (h : i ∈ bootSlots) : MapIdx i := by
  intro hc
  have hu : (pdx uvpt).val = 957 := by decide
  rw [mem_bootSlots, hc, hu] at h
  omega

/-- Before the calls of `boot_map_region` nothing is mapped. -/
theorem InitialDir.mapping {L : List Nat} (h : InitialDir d s L) (hL : FreeList s L) (href : ∀ f ∈ L, (s.pages f).ppRef = 0#16)
    (hd : d < s.npages) (hout : ∀ f, s.npages ≤ f → s.mem f = fun _ => 0#32) : Mapping d L s s where
  free := ⟨L, hL, h.nodup, List.Subset.refl L, href⟩
  pdes i hi hp := by
    rw [h.pgdir, initialPgdir, if_neg hi, present_zero] at hp
    cases hp
  entries i n j hn := by
    rw [h.ktab] at hn
    cases hn
  slots i n hn := by
    rw [h.ktab] at hn
    cases hn
  dirLt := hd
  outside := hout
  npages := rfl
  kernPgdir := rfl
  envs := rfl

theorem pages_fit (s : State) : s.npages * sizeofPageInfo ≤ ptsize.toNat := by
  have hp : ptsize.toNat = 4194304 := by decide
  have hle := s.npages_le
  unfold sizeofPageInfo
  omega

theorem memInit_run (hK : K.Fits s.npages) (hfree : s.pageFreeList = none) (hout : ∀ f, s.npages ≤ f → s.mem f = fun _ => 0#32)
    (hlim : s.npages < lim) (pp1 pp2 : Option Nat) : ∃ s' L M, (memInit K lim pp1 pp2).run s = .ok () s' ∧ MemUp K s s' L M := by
  have hlow : lowPages = 160 := by decide
  have hnp := hK.npages_gt
  have hpos : 0 < s.npages := by omega
  have hle := s.npages_le
  have habove := hK.above
  have hbelow := hK.below
  have hup := le_pageUp K.kernEnd.toNat
  have hmp : mpentry = 7 := by decide
  obtain ⟨hpg, hpa, hen, htop⟩ := hK.addresses hpos
  obtain ⟨hd256, hd700, hdn⟩ := hK.pgdir
  generalize hdef : pgnum ((bootPgdir K.kernEnd).1 - kernbase) = d at hd256 hd700 hdn
  -- the directory is cleared and maps itself
  let s₁ : State := ({ s with kernPgdir := d }.setMem d fun _ => 0#32).setWord d (pdx uvpt) (page2pa d ||| pteU ||| pteP)
  obtain ⟨a, L, hinit, hchain, hperm, href⟩ := initPages_run K.kernEnd s₁ hfree
    (by rw [show s₁.npages = s.npages from rfl, htop]; omega) (show 158 + (s.npages - 700) < lim by omega) pp1 pp2
  let s₂ : State := { s₁ with pages := a.pages, pageFreeList := a.pageFreeList }
  have hlisted : ∀ f ∈ L, Listed s.npages f := fun f hf => mem_freedPages.1 (hperm.mem_iff.1 hf)
  have hdir : InitialDir d s₂ L :=
    { pgdir := by
        show (s₁.mem d) = _
        unfold s₁ State.setWord State.setMem
        dsimp only
        rw [Function.update_self, Function.update_self]
        funext i
        unfold initialPgdir
        rw [Function.update_apply]
      chain := ⟨[], by rw [List.append_nil]; exact hchain⟩
      nodup := hperm.nodup_iff.2 (nodup_freedPages _)
      managed := fun f hf => by
        show f < s.npages
        rcases hlisted f hf with h | h <;> omega
      freeDir := fun hd => by
        rcases hlisted d hd with h | h <;> omega }
  have hlen : 67 ≤ L.length := by
    rw [hperm.length_eq, length_freedPages]
    omega
  have hout₂ : ∀ f, s₂.npages ≤ f → s₂.mem f = fun _ => 0#32 := by
    intro f hf
    have hf' : s.npages ≤ f := hf
    have hne : f ≠ d := by omega
    show Function.update (Function.update s.mem d _) d _ f = _
    rw [Function.update_of_ne hne, Function.update_of_ne hne]
    exact hout f hf
  have hsize : s.npages * sizeofPageInfo ≤ ptsize.toNat := pages_fit s
  have hen₂ : Stocked bootSlots d s₂ L := hdir.stocked (bootSlots_card.trans_le hlen)
  have hsound : ∀ r ∈ bootMaps s.npages (K.arrays s.npages),
      Mappable r.va r.size r.pa r.perm ∧ ∀ a, Within r.va r.size a → pdx a ∈ bootSlots :=
    fun r hr => ⟨(sound_bootMaps hsize hr).mappable, (sound_bootMaps hsize hr).slots⟩
  obtain ⟨s', M, hrun, hmap, hg, hat⟩ :=
    MapDir.regions (fun i hi => mapIdx_bootSlots hi) (bootMaps s.npages (K.arrays s.npages)) hdir.mapDir hen₂ hsound
  have hmapping : Mapping d L s₂ s' := MapDir.regions_keeps (mapping_rule d L s₂) (fun i hi => mapIdx_bootSlots hi)
    (bootMaps s.npages (K.arrays s.npages)) hdir.mapDir hen₂ hsound (hdir.mapping hchain href hdn hout₂) hrun
  have hkern : s'.kernPgdir = d := hmapping.kernPgdir
  obtain ⟨used, hused, hL⟩ := hg.used_le hmapping hdir.nodup
  refine ⟨s', L, M, ?_, ?_⟩
  · unfold memInit
    rw [run_bind_ok (EStateM.run_get s), run_bind_ok (run_paddrKva (by omega)), hdef,
      run_bind_ok (EStateM.run_modify _ _), run_bind_ok (run_zeroPage d), run_bind_ok (run_store _ _)]
    show (initPages K.kernEnd lim pp1 pp2 >>= fun _ => _).run s₁ = _
    rw [run_bind_ok hinit, run_bind_ok (run_paddrKva (by omega)), run_bind_ok (run_paddrKva (by omega)), memInitMaps_eq]
    exact hrun
  · refine ⟨by rw [hkern]; exact hmap, ?_, hmap.freeList hmapping hg, ⟨used, hused, hL ▸ hperm⟩, ?_⟩
    · rw [hkern]
      exact ⟨hmapping.free, hmapping.pdes, hmapping.entries, hmapping.slots, hmapping.dirLt, hmapping.outside,
        hmapping.npages, hmapping.kernPgdir, hmapping.envs⟩
    · rw [hkern]
      intro a ha
      rw [hat a ha, hdir.entryAt ha]

/-- The entry of the directory for a page table, and that page table. -/
theorem MemUp.table {L M : List Nat} (h : MemUp K s s' L M) (hi : MapIdx i) (hp : present (s'.mem s'.kernPgdir i) = true) :
    ∃ n, s'.mem s'.kernPgdir i = tablePde n ∧ n < s'.npages ∧ s'.ktab s'.kernPgdir i = some n := by
  obtain ⟨n, hlt, hn⟩ := h.mapping.pdes i hi hp
  have hle := s'.npages_le
  refine ⟨n, hn, hlt, ?_⟩
  rw [ktab_eq_dec hi, hn]
  exact dec_pde (by omega)

theorem MemUp.kernReadOnly {L M : List Nat} (h : MemUp K s s' L M) {b : State} (hE : EnvsOnly s' b) : KernReadOnly b M where
  pde i hu hv hp := by
    rw [hE.mem, hE.kernPgdir] at hp
    obtain ⟨n, hn, hlt, hk⟩ := h.table hv hp
    rw [hE.mem, hE.kernPgdir, hE.npages]
    exact ⟨n, hn, hlt, h.mapDir.freeTab i n hk,
      fun hul j => (h.mapping.guarded (kernLayout_of_mappedBy (pages_fit s) h.entries) hu hv hk j).2 hul⟩
  readOnly i n hu hv hn j := by
    rw [hE.mem, hE.kernPgdir] at hn
    rw [hE.mem]
    have hle := s'.npages_le
    by_cases hlt : n < s'.npages
    · have hk : s'.ktab s'.kernPgdir i = some n := by
        rw [ktab_eq_dec hv, hn]
        exact dec_pde (by omega)
      exact (h.mapping.guarded (kernLayout_of_mappedBy (pages_fit s) h.entries) hu hv hk j).1
    · rw [h.mapping.outside n (Nat.not_lt.1 hlt)]
      show (0#32 : Word) &&& (pteU ||| pteW) ≠ pteU ||| pteW
      decide

theorem MemUp.kernLayout {L M : List Nat} (h : MemUp K s s' L M) {b : State} (hE : EnvsOnly s' b) :
    KernLayout s.npages (K.arrays s.npages) b.kernPgdir b := by
  have hat : b.entryAt = s'.entryAt := by
    funext d a
    unfold State.entryAt
    rw [hE.mem]
  rw [hE.kernPgdir]
  refine kernLayout_of_mappedBy (pages_fit s) fun a ha => ?_
  rw [hat]
  exact h.entries a ha

theorem MemUp.booted {L M : List Nat} (h : MemUp K s s' L M) {b : State} (hE : EnvsOnly s' b)
    (hchain : Chain (fun e => (b.envs e).envLink) b.envFreeList (slotOrder nenv)) (hfree : ∀ e, (b.envs e).envStatus = .free) :
    Booted b M where
  chain := by
    unfold FreeList
    rw [hE.pages, hE.pageFreeList]
    exact h.free
  nodup := h.mapDir.nodup
  freeM f hf := hf
  freeRef f hf := by
    obtain ⟨L', hL', -, -, href⟩ := h.mapping.free
    cases Chain.unique hL' h.free
    rw [hE.pages]
    exact href f hf
  managed f hf := by
    rw [hE.npages]
    exact h.mapDir.managed f hf
  kernM := by
    rw [hE.kernPgdir]
    exact h.mapDir.freeDir
  envChain := hchain
  envFree := hfree

/-- `mem_init` and `env_init`, on a machine whose arrays are clear, leave the start of all runs: at most 67 of the pages that
`page_init` listed are page tables, the others are free, and the kernel has its part of the address space. -/
theorem memInit_booted (K : KernImage) (s : State) (hK : K.Fits s.npages) (hfree : s.pageFreeList = none)
    (hout : ∀ f, s.npages ≤ f → s.mem f = fun _ => 0#32) (hdir : ∀ e, (s.envs e).envPgdir = none) (hlim : s.npages < lim)
    (pp1 pp2 : Option Nat) :
    ∃ b M, (memInit K lim pp1 pp2 >>= fun _ => envInit).run s = .ok () b ∧ Booted b M ∧ KernReadOnly b M ∧
      KernLayout s.npages (K.arrays s.npages) b.kernPgdir b ∧
      ∃ used, used.length ≤ 67 ∧ (used ++ M).Perm (freedPages s.npages) := by
  obtain ⟨s', L, M, hrun, h⟩ := memInit_run hK hfree hout hlim pp1 pp2
  obtain ⟨b, hinit, horder, hall, -⟩ := envInit_order (s := s') fun e => by
    rw [h.mapping.envs]
    exact hdir e
  have hE : EnvsOnly s' b := by
    have hk := (envsOnly_envInit s').state
    rwa [hinit] at hk
  exact ⟨b, M, by rw [run_bind_ok hrun, hinit], h.booted hE horder fun e => (hall e).1, h.kernReadOnly hE,
    h.kernLayout hE, h.used⟩

end Start

/-- A kernel that ends at page 275, and the machine of 512 pages when it starts. -/
def smallKernel : KernImage where
  kernEnd := 0xf0112f80#32
  bootstack := 0x108000#32
  percpuKstacks i := BitVec.ofNat 32 (0x100000 + 0x8000 * i.val)
  bootstack_page := by decide
  percpuKstacks_page := by decide

def clearStart : State :=
  { bootState with pages := fun _ => {}, pageFreeList := none, mem := fun _ _ => 0#32, envs := fun _ => {}, envFreeList := none }

theorem memInit_booted_smallKernel : ∃ b M, (memInit smallKernel 513 none none >>= fun _ => envInit).run clearStart = .ok () b ∧
    Booted b M ∧ KernReadOnly b M ∧ KernLayout 512 (smallKernel.arrays 512) b.kernPgdir b ∧
    ∃ used, used.length ≤ 67 ∧ (used ++ M).Perm (freedPages 512) :=
  memInit_booted smallKernel clearStart ⟨by decide, by decide, by decide⟩ rfl (fun _ _ => rfl) (fun _ => rfl)
    (show 512 < 513 by decide) none none

end Jos
