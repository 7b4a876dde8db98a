/-
The kernel's part of the address space: the calls of `boot_map_region` in `mem_init` and `mem_init_mp` leave in
`kern_pgdir` the layout that memlayout.h draws. The number of pages in the calls is the machine's; the frames that
become page tables are those the kernel reaches at `KERNBASE`.
-/
import Jos.Run.Wrap
import Jos.Vm.MapDir

namespace Jos

open Lib Kern

variable {s s' : State} {d : Nat} {l l' : List Nat} {S : Finset Idx} {va pa perm size : Word}

/-! ## Several calls -/

/-- The arguments of a call of `boot_map_region`. -/
structure BootMap where
  va : Word
  size : Word
  pa : Word
  perm : Word

def BootMap.entry (r : BootMap) (a : Word) : Word := r.pa + rounddown (a - r.va) pgsize ||| r.perm ||| pteP

/-- The translation of `a` after some calls, `old` before them: the last call that maps it counts. -/
def mappedBy (a : Word) (rs : List BootMap) (old : Option Word) : Option Word :=
  rs.foldl (fun w r => if Within r.va r.size a then some (r.entry a) else w) old

theorem MapDir.regions (hSM : ∀ i ∈ S, MapIdx i) : ∀ (rs : List BootMap) {s : State} {l : List Nat}, MapDir d s l →
    Stocked S d s l → (∀ r ∈ rs, Mappable r.va r.size r.pa r.perm ∧ ∀ a, Within r.va r.size a → pdx a ∈ S) →
    ∃ s' l', (rs.forM fun r => bootMapRegion d r.va r.size r.pa r.perm).run s = .ok () s' ∧ MapDir d s' l' ∧
      Grown d s s' l l' ∧ ∀ a, MapIdx (pdx a) → s'.entryAt d a = mappedBy a rs (s.entryAt d a)
  | [], s, l, h, _, _ => ⟨s, l, rfl, h, .refl d s l, fun _ _ => rfl⟩
  | r :: rs, s, l, h, hen, hrs => by
    obtain ⟨hm, hS⟩ := hrs r (List.mem_cons_self ..)
    obtain ⟨s₁, l₁, hrun₁, h₁, hen₁, hg₁, hat₁⟩ := h.region hen hm hSM hS
    obtain ⟨s', l', hrun, h', hg', hat'⟩ :=
      MapDir.regions hSM rs h₁ hen₁ fun q hq => hrs q (List.mem_cons_of_mem _ hq)
    refine ⟨s', l', ?_, h', hg₁.trans hg', fun a ha => ?_⟩
    · show (bootMapRegion d r.va r.size r.pa r.perm >>= fun _ => rs.forM _).run s = _
      rw [run_bind_ok hrun₁]
      exact hrun
    · rw [hat' a ha, hat₁ a ha]
      rfl

section Mapped

variable {a : Word} {rs rs' : List BootMap} {old : Option Word} {r : BootMap}

theorem mappedBy_append : mappedBy a (rs ++ rs') old = mappedBy a rs' (mappedBy a rs old) := List.foldl_append

theorem mappedBy_cons :
    mappedBy a (r :: rs) old = mappedBy a rs (if Within r.va r.size a then some (r.entry a) else old) := rfl

theorem mappedBy_none (h : ∀ r ∈ rs, ¬ Within r.va r.size a) : mappedBy a rs old = old := by
  induction rs generalizing old with
  | nil => rfl
  | cons r rs ih =>
    rw [mappedBy_cons, if_neg (h r (List.mem_cons_self ..))]
    exact ih fun q hq => h q (List.mem_cons_of_mem _ hq)

/-- A page that only one call maps. -/
theorem mappedBy_some (hr : r ∈ rs) (hw : Within r.va r.size a) (h : ∀ q ∈ rs, Within q.va q.size a → q = r) :
    mappedBy a rs old = some (r.entry a) := by
  induction rs generalizing old with
  | nil => cases hr
  | cons q rs ih =>
    rw [mappedBy_cons]
    by_cases hrr : r ∈ rs
    · exact ih hrr fun q hq => h q (List.mem_cons_of_mem _ hq)
    · obtain rfl := (List.mem_cons.1 hr).resolve_right hrr
      rw [if_pos hw]
      refine mappedBy_none fun q hq hqw => hrr ?_
      rw [← h q (List.mem_cons_of_mem _ hq) hqw]
      exact hq

theorem of_mappedBy {w : Word} (h : mappedBy a rs old = some w) :
    old = some w ∨ ∃ r ∈ rs, Within r.va r.size a ∧ w = r.entry a := by
  induction rs generalizing old with
  | nil => exact Or.inl h
  | cons q rs ih =>
    rw [mappedBy_cons] at h
    rcases ih h with h' | ⟨r, hr, hw⟩
    · by_cases hq : Within q.va q.size a
      · rw [if_pos hq] at h'
        cases h'
        exact Or.inr ⟨q, List.mem_cons_self .., hq, rfl⟩
      · rw [if_neg hq] at h'
        exact Or.inl h'
    · exact Or.inr ⟨r, List.mem_cons_of_mem _ hr, hw⟩

end Mapped

/-! ## The calls of `mem_init` and `mem_init_mp` -/

/-- `kstacktop_i`. -/
def kstacktopOf (i : Cpu) : Word := kstacktop - BitVec.ofNat 32 i.val * (kstksize + kstkgap)

def stackMap (A : BootArrays) (i : Cpu) : BootMap :=
  ⟨kstacktop - BitVec.ofNat 32 i.val * (kstksize + kstkgap) - kstksize, kstksize, A.percpuKstacks i, pteW⟩

def pagesMap (npages : Nat) (A : BootArrays) : BootMap :=
  ⟨upages, BitVec.ofNat 32 (npages * sizeofPageInfo), A.pages, pteU⟩

def envsMap (A : BootArrays) : BootMap := ⟨uenvs, roundup (BitVec.ofNat 32 (nenv * sizeofEnv)) pgsize, A.envs, pteU⟩

def bootstackMap (A : BootArrays) : BootMap := ⟨kstacktop - kstksize, kstksize, A.bootstack, pteW⟩

def kernbaseMap : BootMap := ⟨kernbase, 0xfffffff#32, 0#32, pteW⟩

def arrayMaps (npages : Nat) (A : BootArrays) : List BootMap := [pagesMap npages A, envsMap A, bootstackMap A, kernbaseMap]

def bootMaps (npages : Nat) (A : BootArrays) : List BootMap := arrayMaps npages A ++ (List.finRange 8).map (stackMap A)

variable {npages : Nat} {A : BootArrays}

theorem forM_boot (f : BootMap → Kern Unit) (a b c e : BootMap) (g : Cpu → BootMap) :
    (do f a; f b; f c; f e; (List.finRange 8).forM fun i => f (g i)) =
      ([a, b, c, e] ++ (List.finRange 8).map g).forM f := by
  have hmp : ((List.finRange 8).map g).forM f = (List.finRange 8).forM fun i => f (g i) := List.forM_map
  show _ = (do f a; f b; f c; f e; ((List.finRange 8).map g).forM f)
  rw [hmp]

theorem memInitMaps_eq (d npages : Nat) (A : BootArrays) :
    memInitMaps d npages A = (bootMaps npages A).forM fun r => bootMapRegion d r.va r.size r.pa r.perm :=
  forM_boot (fun r => bootMapRegion d r.va r.size r.pa r.perm) (pagesMap npages A) (envsMap A) (bootstackMap A) kernbaseMap
    (stackMap A)

/-- The slots of the calls. -/
def bootSlots : Finset Idx :=
  Finset.univ.filter fun i => i.val = 955 ∨ i.val = 956 ∨ 959 ≤ i.val

theorem bootSlots_card : bootSlots.card = 67 := by decide +kernel

theorem stackVa_toNat (i : Cpu) : (kstacktopOf i - kstksize).toNat = 0xf0000000 - i.val * 65536 - 32768 := by
  revert i
  decide

section Ranges

variable {a : Word}

theorem mapIdx_iff : MapIdx (pdx a) ↔ a.toNat / 4194304 ≠ 957 := by
  have hu : (pdx uvpt).val = 957 := by decide
  unfold MapIdx
  rw [Ne, Fin.ext_iff, pdx_val, hu]

theorem mem_bootSlots {i : Idx} : i ∈ bootSlots ↔ i.val = 955 ∨ i.val = 956 ∨ 959 ≤ i.val := by
  unfold bootSlots
  rw [Finset.mem_filter]
  exact ⟨And.right, fun h => ⟨Finset.mem_univ _, h⟩⟩

theorem within_pages (h : npages * sizeofPageInfo ≤ ptsize.toNat) :
    Within upages (BitVec.ofNat 32 (npages * sizeofPageInfo)) a ↔
      0xef000000 ≤ a.toNat ∧ a.toNat < 0xef000000 + (npages * 8 + 4095) / 4096 * 4096 := by
  have hp : ptsize.toNat = 4194304 := by decide
  have hu : upages.toNat = 0xef000000 := by decide
  unfold sizeofPageInfo at *
  unfold Within
  rw [BitVec.toNat_ofNat, hu, Nat.mod_eq_of_lt (by omega)]

theorem within_envs : Within uenvs (roundup (BitVec.ofNat 32 (nenv * sizeofEnv)) pgsize) a ↔
    0xeec00000 ≤ a.toNat ∧ a.toNat < 0xeec1f000 := by
  have hu : uenvs.toNat = 0xeec00000 := by decide
  have hs : (roundup (BitVec.ofNat 32 (nenv * sizeofEnv)) pgsize).toNat = 126976 := by decide
  unfold Within
  rw [hu, hs]

theorem within_bootstack : Within (kstacktop - kstksize) kstksize a ↔ 0xefff8000 ≤ a.toNat ∧ a.toNat < 0xf0000000 := by
  have hu : (kstacktop - kstksize).toNat = 0xefff8000 := by decide
  have hs : kstksize.toNat = 32768 := by decide
  unfold Within
  rw [hu, hs]

theorem within_kernbase : Within kernbase 0xfffffff#32 a ↔ 0xf0000000 ≤ a.toNat := by
  have hu : kernbase.toNat = 0xf0000000 := by decide
  have hs : (0xfffffff#32).toNat = 268435455 := by decide
  have := a.isLt
  unfold Within
  rw [hu, hs]
  omega

theorem within_stack (i : Cpu) : Within (kstacktopOf i - kstksize) kstksize a ↔
    0xf0000000 - i.val * 65536 - 32768 ≤ a.toNat ∧ a.toNat < 0xf0000000 - i.val * 65536 := by
  have hs : kstksize.toNat = 32768 := by decide
  have := i.isLt
  unfold Within
  rw [stackVa_toNat, hs]
  omega

theorem within_gap (i : Cpu) : Within (kstacktopOf i - (kstksize + kstkgap)) kstkgap a ↔
    0xf0000000 - i.val * 65536 - 65536 ≤ a.toNat ∧ a.toNat < 0xf0000000 - i.val * 65536 - 32768 := by
  have hs : kstkgap.toNat = 32768 := by decide
  have hv : (kstacktopOf i - (kstksize + kstkgap)).toNat = 0xf0000000 - i.val * 65536 - 65536 := by
    revert i
    decide
  have := i.isLt
  unfold Within
  rw [hv, hs]
  omega

/-- What a call of `mem_init` or `mem_init_mp` is about. -/
structure BootMap.Sound (r : BootMap) : Prop where
  mappable : Mappable r.va r.size r.pa r.perm
  slots : ∀ a, Within r.va r.size a → pdx a ∈ bootSlots
  user : r.perm = pteU ∧ (∀ a, Within r.va r.size a → a.toNat < 0xef400000) ∨
    r.perm = pteW ∧ ∀ a, Within r.va r.size a → 0xefc00000 ≤ a.toNat

theorem mem_arrayMaps {r : BootMap} (h : r ∈ arrayMaps npages A) :
    r = pagesMap npages A ∨ r = envsMap A ∨ r = bootstackMap A ∨ r = kernbaseMap := by
  simpa [arrayMaps] using h

/-- The arrays and the memory at `KERNBASE` lie apart. -/
theorem within_array (hn : npages * sizeofPageInfo ≤ ptsize.toNat) {r : BootMap} (hr : r ∈ arrayMaps npages A)
    (h : Within r.va r.size a) :
    r = pagesMap npages A ∧ 0xef000000 ≤ a.toNat ∧ a.toNat < 0xef400000 ∨
      r = envsMap A ∧ 0xeec00000 ≤ a.toNat ∧ a.toNat < 0xeec1f000 ∨
      r = bootstackMap A ∧ 0xefff8000 ≤ a.toNat ∧ a.toNat < 0xf0000000 ∨ r = kernbaseMap ∧ 0xf0000000 ≤ a.toNat := by
  rcases mem_arrayMaps hr with rfl | rfl | rfl | rfl
  · have hw := (within_pages hn).1 h
    have hn' : npages * 8 ≤ 4194304 := hn
    exact Or.inl ⟨rfl, hw.1, by omega⟩
  · exact Or.inr (Or.inl ⟨rfl, within_envs.1 h⟩)
  · exact Or.inr (Or.inr (Or.inl ⟨rfl, within_bootstack.1 h⟩))
  · exact Or.inr (Or.inr (Or.inr ⟨rfl, within_kernbase.1 h⟩))

theorem arrayMaps_apart (hn : npages * sizeofPageInfo ≤ ptsize.toNat) {q r : BootMap} (hq : q ∈ arrayMaps npages A)
    (hr : r ∈ arrayMaps npages A) (hqw : Within q.va q.size a) (hrw : Within r.va r.size a) : q = r := by
  rcases within_array hn hq hqw with ⟨rfl, _⟩ | ⟨rfl, _⟩ | ⟨rfl, _⟩ | ⟨rfl, _⟩ <;>
    rcases within_array hn hr hrw with ⟨rfl, _⟩ | ⟨rfl, _⟩ | ⟨rfl, _⟩ | ⟨rfl, _⟩ <;> first | rfl | omega

theorem sound_stackMap (A : BootArrays) (i : Cpu) : (stackMap A i).Sound where
  mappable := by
    have hs : kstksize.toNat = 32768 := by decide
    have hv := stackVa_toNat i
    have := i.isLt
    refine ⟨?_, A.percpuKstacks_page i, show LowPerm pteW by decide, ?_, ?_⟩
    · show (kstacktopOf i - kstksize).toNat % 4096 = 0
      omega
    · show kstksize.toNat < _
      omega
    · show (kstacktopOf i - kstksize).toNat + kstksize.toNat ≤ _
      omega
  slots a ha := by
    have := i.isLt
    have := (within_stack i).1 ha
    rw [mem_bootSlots, pdx_val]
    omega
  user := Or.inr ⟨rfl, fun a ha => by
    have := i.isLt
    have := (within_stack i).1 ha
    omega⟩

theorem mappable_arrayMaps (hn : npages * sizeofPageInfo ≤ ptsize.toNat) {r : BootMap} (h : r ∈ arrayMaps npages A) :
    Mappable r.va r.size r.pa r.perm := by
  rcases mem_arrayMaps h with rfl | rfl | rfl | rfl
  · have hp : ptsize.toNat = 4194304 := by decide
    have hu : upages.toNat = 0xef000000 := by decide
    have hs : (BitVec.ofNat 32 (npages * sizeofPageInfo)).toNat = npages * sizeofPageInfo := by
      rw [BitVec.toNat_ofNat, Nat.mod_eq_of_lt (by omega)]
    have hm : Mappable upages (BitVec.ofNat 32 (npages * sizeofPageInfo)) A.pages pteU :=
      ⟨by decide, A.pages_page, by decide, by omega, by omega⟩
    exact hm
  · have hm : Mappable uenvs (roundup (BitVec.ofNat 32 (nenv * sizeofEnv)) pgsize) A.envs pteU :=
      ⟨by decide, A.envs_page, by decide, by decide, by decide⟩
    exact hm
  · have hm : Mappable (kstacktop - kstksize) kstksize A.bootstack pteW :=
      ⟨by decide, A.bootstack_page, by decide, by decide, by decide⟩
    exact hm
  · have hm : Mappable kernbase 0xfffffff#32 0#32 pteW := ⟨by decide, by decide, by decide, by decide, by decide⟩
    exact hm

theorem sound_arrayMaps (hn : npages * sizeofPageInfo ≤ ptsize.toNat) {r : BootMap} (h : r ∈ arrayMaps npages A) :
    r.Sound where
  mappable := mappable_arrayMaps hn h
  slots a ha := by
    rw [mem_bootSlots, pdx_val]
    rcases within_array hn h ha with ⟨-, _⟩ | ⟨-, _⟩ | ⟨-, _⟩ | ⟨-, _⟩ <;> omega
  user := by
    rcases mem_arrayMaps h with rfl | rfl | rfl | rfl
    · refine Or.inl ⟨rfl, fun a ha => ?_⟩
      have hn' : npages * 8 ≤ 4194304 := hn
      have := (within_pages hn).1 ha
      omega
    · refine Or.inl ⟨rfl, fun a ha => ?_⟩
      have := within_envs.1 ha
      omega
    · refine Or.inr ⟨rfl, fun a ha => ?_⟩
      have := within_bootstack.1 ha
      omega
    · refine Or.inr ⟨rfl, fun a ha => ?_⟩
      have := within_kernbase.1 ha
      omega

theorem sound_bootMaps (hn : npages * sizeofPageInfo ≤ ptsize.toNat) {r : BootMap} (h : r ∈ bootMaps npages A) :
    r.Sound := by
  rcases List.mem_append.1 h with h | h
  · exact sound_arrayMaps hn h
  · obtain ⟨i, -, rfl⟩ := List.mem_map.1 h
    exact sound_stackMap A i

/-! ## The layout -/

/-- The kernel's part of memory as memlayout.h draws it. -/
structure KernLayout (npages : Nat) (A : BootArrays) (d : Nat) (s : State) : Prop where
  pages : ∀ a, Within upages (BitVec.ofNat 32 (npages * sizeofPageInfo)) a →
    s.MapsTo d a (A.pages + rounddown (a - upages) pgsize) (pteU ||| pteP)
  envs : ∀ a, Within uenvs (BitVec.ofNat 32 (nenv * sizeofEnv)) a →
    s.MapsTo d a (A.envs + rounddown (a - uenvs) pgsize) (pteU ||| pteP)
  kstacks : ∀ i a, Within (kstacktopOf i - kstksize) kstksize a →
    s.MapsTo d a (A.percpuKstacks i + rounddown (a - (kstacktopOf i - kstksize)) pgsize) (pteW ||| pteP)
  gaps : ∀ i a, Within (kstacktopOf i - (kstksize + kstkgap)) kstkgap a → s.entryAt d a = none
  remapped : ∀ a, kernbase ≤ a → s.MapsTo d a (rounddown (a - kernbase) pgsize) (pteW ||| pteP)
  kernelOnly : ∀ a w, ulim ≤ a → s.entryAt d a = some w → w &&& pteU = 0#32
  readOnly : ∀ a w, utop ≤ a → a < ulim → MapIdx (pdx a) → s.entryAt d a = some w → w &&& pteW = 0#32

theorem BootMap.Sound.mapsTo {r : BootMap} (h : r.Sound) (hat : s.entryAt d a = some (r.entry a)) :
    s.MapsTo d a (r.pa + rounddown (a - r.va) pgsize) (r.perm ||| pteP) :=
  mapsTo_entry (aligned_offset h.mappable.paPage) h.mappable.low hat

/-- A flag of an entry is a flag of the call. -/
theorem BootMap.Sound.flag {r : BootMap} (h : r.Sound) {f : Word} (hf : 0xFFF#32 &&& f = f) :
    r.entry a &&& f = (r.perm ||| pteP) &&& f := by
  have hfl := flags_entry (aligned_offset (o := a - r.va) h.mappable.paPage) (low_present h.mappable.low)
  rw [← BitVec.or_assoc] at hfl
  calc r.entry a &&& f = r.entry a &&& (0xFFF#32 &&& f) := by rw [hf]
    _ = (r.entry a &&& 0xFFF#32) &&& f := by rw [BitVec.and_assoc]
    _ = (r.perm ||| pteP) &&& f := congrArg (· &&& f) hfl

/-- Below the kernel stacks and above them the calls of `mem_init_mp` map nothing. -/
theorem not_within_stackMaps (h : ∀ i : Cpu, ¬ Within (kstacktopOf i - kstksize) kstksize a) :
    ∀ r ∈ (List.finRange 8).map (stackMap A), ¬ Within r.va r.size a := by
  intro r hr
  obtain ⟨i, -, rfl⟩ := List.mem_map.1 hr
  exact h i

theorem mappedBy_array (hn : npages * sizeofPageInfo ≤ ptsize.toNat) {r : BootMap} (hr : r ∈ arrayMaps npages A)
    (hw : Within r.va r.size a) (hst : ∀ i : Cpu, ¬ Within (kstacktopOf i - kstksize) kstksize a) :
    mappedBy a (bootMaps npages A) none = some (r.entry a) := by
  unfold bootMaps
  rw [mappedBy_append, mappedBy_none (not_within_stackMaps hst),
    mappedBy_some hr hw fun q hq hqw => arrayMaps_apart hn hq hr hqw hw]

theorem mappedBy_stack {i : Cpu} (hw : Within (kstacktopOf i - kstksize) kstksize a) :
    mappedBy a (bootMaps npages A) none = some ((stackMap A i).entry a) := by
  unfold bootMaps
  rw [mappedBy_append]
  refine mappedBy_some (List.mem_map_of_mem (List.mem_finRange i)) hw fun q hq hqw => ?_
  obtain ⟨j, -, rfl⟩ := List.mem_map.1 hq
  have hi := (within_stack i).1 hw
  have hj := (within_stack j).1 hqw
  have hij : j = i := Fin.ext (by omega)
  rw [hij]

/-- No call maps a page of a gap. -/
theorem mappedBy_gap (hn : npages * sizeofPageInfo ≤ ptsize.toNat) {i : Cpu}
    (hw : Within (kstacktopOf i - (kstksize + kstkgap)) kstkgap a) : mappedBy a (bootMaps npages A) none = none := by
  have hr := (within_gap i).1 hw
  have := i.isLt
  refine mappedBy_none fun r hrm hrw => ?_
  rcases List.mem_append.1 hrm with hrm | hrm
  · rcases within_array hn hrm hrw with ⟨-, _⟩ | ⟨-, _⟩ | ⟨-, _⟩ | ⟨-, _⟩ <;> omega
  · obtain ⟨j, -, rfl⟩ := List.mem_map.1 hrm
    have := (within_stack j).1 hrw
    omega

theorem kernLayout_of_mappedBy (hn : npages * sizeofPageInfo ≤ ptsize.toNat)
    (hat : ∀ a, MapIdx (pdx a) → s.entryAt d a = mappedBy a (bootMaps npages A) none) : KernLayout npages A d s := by
  have hn' : npages * 8 ≤ 4194304 := hn
  have hulim : ulim.toNat = 0xef800000 := by decide
  have hkern : kernbase.toNat = 0xf0000000 := by decide
  -- below the stacks no later call maps over the arrays
  have array : ∀ {a : Word} {r : BootMap}, r ∈ arrayMaps npages A → MapIdx (pdx a) → Within r.va r.size a →
      (∀ i : Cpu, ¬ Within (kstacktopOf i - kstksize) kstksize a) →
      s.MapsTo d a (r.pa + rounddown (a - r.va) pgsize) (r.perm ||| pteP) := by
    intro a r hr ha hw hst
    exact (sound_arrayMaps hn hr).mapsTo ((hat a ha).trans (mappedBy_array hn hr hw hst))
  refine ⟨fun a ha => ?_, fun a ha => ?_, fun i a ha => ?_, fun i a ha => ?_, fun a ha => ?_, fun a w ha hw => ?_,
    fun a w ha ha' hm hw => ?_⟩
  · have hr := (within_pages hn).1 ha
    have hmem : pagesMap npages A ∈ arrayMaps npages A := by simp [arrayMaps]
    refine array hmem (mapIdx_iff.2 (by omega)) ha fun i hi => ?_
    have := (within_stack i).1 hi
    have := i.isLt
    omega
  · have hsz : roundup (BitVec.ofNat 32 (nenv * sizeofEnv)) pgsize = BitVec.ofNat 32 (nenv * sizeofEnv) := by decide
    rw [← hsz] at ha
    have hr := within_envs.1 ha
    have hmem : envsMap A ∈ arrayMaps npages A := by simp [arrayMaps]
    refine array hmem (mapIdx_iff.2 (by omega)) ha fun i hi => ?_
    have := (within_stack i).1 hi
    have := i.isLt
    omega
  · have hr := (within_stack i).1 ha
    have := i.isLt
    exact (sound_stackMap A i).mapsTo ((hat a (mapIdx_iff.2 (by omega))).trans (mappedBy_stack ha))
  · have hr := (within_gap i).1 ha
    have := i.isLt
    rw [hat a (mapIdx_iff.2 (by omega))]
    exact mappedBy_gap hn ha
  · have hle := BitVec.le_def.1 ha
    rw [hkern] at hle
    have hmem : kernbaseMap ∈ arrayMaps npages A := by simp [arrayMaps]
    have hmap := array hmem (mapIdx_iff.2 (by have := a.isLt; omega)) (within_kernbase.2 hle) fun i hi => ?_
    · have hz : kernbaseMap.pa + rounddown (a - kernbaseMap.va) pgsize = rounddown (a - kernbase) pgsize := BitVec.zero_add _
      rwa [hz] at hmap
    · have := (within_stack i).1 hi
      omega
  · have hle := BitVec.le_def.1 ha
    rw [hulim] at hle
    rw [hat a (mapIdx_iff.2 (by omega))] at hw
    obtain ⟨r, hr, hrw, rfl⟩ := (of_mappedBy hw).resolve_left nofun
    have hs := sound_bootMaps hn hr
    rcases hs.user with ⟨-, hlt⟩ | ⟨hp, -⟩
    · have := hlt a hrw
      omega
    · rw [hs.flag (by decide), hp]
      decide
  · have hlt := BitVec.lt_def.1 ha'
    rw [hulim] at hlt
    rw [hat a hm] at hw
    obtain ⟨r, hr, hrw, rfl⟩ := (of_mappedBy hw).resolve_left nofun
    have hs := sound_bootMaps hn hr
    rcases hs.user with ⟨hp, -⟩ | ⟨-, hge⟩
    · rw [hs.flag (by decide), hp]
      decide
    · have := hge a hrw
      omega

end Ranges

/-! ## The initial directory -/

/-- `kern_pgdir` with its own mapping only, and the pages `l` that are handed out first. -/
structure InitialDir (d : Nat) (s : State) (l : List Nat) : Prop where
  pgdir : s.mem d = initialPgdir d
  chain : FreeFirst s l
  nodup : l.Nodup
  managed : ∀ f ∈ l, f < s.npages
  freeDir : d ∉ l

theorem InitialDir.ktab (h : InitialDir d s l) (i : Idx) : s.ktab d i = none := by
  unfold State.ktab Lib.node
  rw [Option.bind_some]
  by_cases hi : MapIdx i
  · rw [if_pos hi, h.pgdir]
    unfold initialPgdir
    rw [if_neg hi]
    exact dec_zero
  · rw [if_neg hi]

theorem InitialDir.mapDir (h : InitialDir d s l) : MapDir d s l where
  chain := h.chain
  nodup := h.nodup
  managed := h.managed
  freeDir := h.freeDir
  freeTab i n hn := absurd hn (by rw [h.ktab]; simp)
  tabLt i n hn := absurd hn (by rw [h.ktab]; simp)
  tabDir i := by rw [h.ktab]; simp
  tabOne i _ n hn := absurd hn (by rw [h.ktab]; simp)

theorem InitialDir.entryAt (h : InitialDir d s l) {a : Word} (ha : MapIdx (pdx a)) : s.entryAt d a = none := by
  rw [entryAt_eq ha]
  exact Lib.leaf_of_no_node (h.ktab _) _

theorem InitialDir.stocked (h : InitialDir d s l) (hl : S.card ≤ l.length) : Stocked S d s l := by
  unfold Stocked
  rw [Finset.filter_true_of_mem fun i _ => h.ktab i]
  exact hl

/-! ## What the calls make of a directory -/

/-- The slots of `[va, va + size)`. -/
def regionSlots (va size : Word) : Finset Idx :=
  Finset.univ.filter fun i => size ≠ 0#32 ∧ va.toNat / 4194304 ≤ i.val ∧
    i.val * 4194304 < va.toNat + (size.toNat + 4095) / 4096 * 4096

theorem pdx_mem_regionSlots {a : Word} (h : Within va size a) : pdx a ∈ regionSlots va size := by
  obtain ⟨h₁, h₂⟩ := h
  refine Finset.mem_filter.2 ⟨Finset.mem_univ _, fun h0 => ?_, ?_, ?_⟩
  · rw [h0] at h₂
    have hz : (0#32 : Word).toNat = 0 := rfl
    omega
  · rw [pdx_val]
    omega
  · rw [pdx_val]
    omega

/-- Outside the slot of the directory's own mapping, a call of `boot_map_region` maps its range, changes no other
translation, and changes no reference count but those of the new page tables; and the calls of `mem_init` leave the
layout of memlayout.h. -/
theorem kern_map_layout :
    (∀ (d : Nat) (s : State) (l : List Nat) (va size pa perm : Word), MapDir d s l → Mappable va size pa perm →
      (∀ i ∈ regionSlots va size, MapIdx i) → Stocked (regionSlots va size) d s l →
      ∃ s', (bootMapRegion d va size pa perm).run s = .ok () s' ∧
        (∀ a, Within va size a → s'.MapsTo d a (pa + rounddown (a - va) pgsize) (perm ||| pteP)) ∧
        (∀ a, MapIdx (pdx a) → ¬ Within va size a → s'.entryAt d a = s.entryAt d a) ∧
        ∀ f, (s'.pages f).ppRef ≠ (s.pages f).ppRef → ∃ i, s.ktab d i = none ∧ s'.ktab d i = some f) ∧
    ∀ (npages : Nat) (A : BootArrays) (d : Nat) (s : State) (l : List Nat), npages * sizeofPageInfo ≤ ptsize.toNat →
      InitialDir d s l → 67 ≤ l.length →
      ∃ s', (memInitMaps d npages A).run s = .ok () s' ∧ KernLayout npages A d s' := by
  constructor
  · intro d s l va size pa perm h hm hSM hen
    obtain ⟨s', l', hrun, -, -, hg, hat⟩ := h.region hen hm hSM fun a ha => pdx_mem_regionSlots ha
    refine ⟨s', hrun, fun a ha => ?_, fun a hi ha => ?_, fun f hf => ?_⟩
    · have hi := hSM _ (pdx_mem_regionSlots ha)
      exact mapsTo_entry (aligned_offset hm.paPage) hm.low (by rw [hat a hi, if_pos ha])
    · rw [hat a hi, if_neg ha]
    · by_cases hc : f ∈ l ∧ f ∉ l'
      · exact hg.tables f hc.1 hc.2
      · rw [hg.ref, if_neg hc] at hf
        exact absurd rfl hf
  · intro npages A d s l hn h hl
    have hSM : ∀ i ∈ bootSlots, MapIdx i := by
      intro i hi hc
      have hu : (pdx uvpt).val = 957 := by decide
      rw [mem_bootSlots, hc, hu] at hi
      omega
    have hen : Stocked bootSlots d s l := h.stocked (bootSlots_card.trans_le hl)
    obtain ⟨s', l', hrun, -, -, hat⟩ := MapDir.regions hSM (bootMaps npages A) h.mapDir hen fun r hr =>
      ⟨(sound_bootMaps hn hr).mappable, (sound_bootMaps hn hr).slots⟩
    refine ⟨s', by rw [memInitMaps_eq]; exact hrun, kernLayout_of_mappedBy hn fun a ha => ?_⟩
    rw [hat a ha, h.entryAt ha]

/-- A machine before the calls: 512 pages, of which 128 are free, and `kern_pgdir` is page 256. -/
def kernStart : State :=
  { bootState with mem := fun f i => if f = 256 then initialPgdir 256 i else 0#32 }

def kernArrays : BootArrays where
  pages := 0x158000#32
  envs := 0x159000#32
  bootstack := 0x110000#32
  percpuKstacks i := BitVec.ofNat 32 (0x200000 + 0x8000 * i.val)
  pages_page := by decide
  envs_page := by decide
  bootstack_page := by decide
  percpuKstacks_page := by decide

theorem kernStart_initial : InitialDir 256 kernStart (pagesDown 128) where
  pgdir := by
    funext i
    show (if (256 : Nat) = 256 then initialPgdir 256 i else 0#32) = _
    rw [if_pos rfl]
  chain := ⟨[], by rw [List.append_nil]; exact chain_pagesDown (le_refl 128)⟩
  nodup := nodup_pagesDown 128
  managed f hf := by
    rw [mem_pagesDown] at hf
    show f < 512
    omega
  freeDir h := by
    rw [mem_pagesDown] at h
    exact absurd h.2 (by decide)

theorem upages_mappable : Mappable upages 4096#32 0#32 pteU := ⟨by decide, by decide, by decide, by decide, by decide⟩

theorem upages_slots {i : Idx} (h : i ∈ regionSlots upages 4096#32) : i = pdx upages := by
  have hu : upages.toNat = 956 * 4194304 := by decide
  have hs : (4096#32 : Word).toNat = 4096 := rfl
  have hp : (pdx upages).val = 956 := by decide
  obtain ⟨-, -, h₁, h₂⟩ := Finset.mem_filter.1 h
  rw [hu, hs] at h₂
  rw [hu] at h₁
  apply Fin.ext
  omega

theorem upages_stocked : Stocked (regionSlots upages 4096#32) 256 kernStart (pagesDown 128) := by
  refine kernStart_initial.stocked ?_
  have hle : (regionSlots upages 4096#32).card ≤ 1 := Finset.card_le_one.2 fun i hi j hj =>
    (upages_slots hi).trans (upages_slots hj).symm
  rw [length_pagesDown]
  omega

theorem mapIdx_upages : MapIdx (pdx upages) := by decide

theorem kern_map_layout_kernStart :
    (∃ s', (bootMapRegion 256 upages 4096#32 0#32 pteU).run kernStart = .ok () s' ∧
      (∀ a, Within upages 4096#32 a → s'.MapsTo 256 a (0#32 + rounddown (a - upages) pgsize) (pteU ||| pteP)) ∧
      (∀ a, MapIdx (pdx a) → ¬ Within upages 4096#32 a → s'.entryAt 256 a = kernStart.entryAt 256 a) ∧
      ∀ f, (s'.pages f).ppRef ≠ (kernStart.pages f).ppRef → ∃ i, kernStart.ktab 256 i = none ∧ s'.ktab 256 i = some f) ∧
    ∃ s', (memInitMaps 256 512 kernArrays).run kernStart = .ok () s' ∧ KernLayout 512 kernArrays 256 s' :=
  ⟨kern_map_layout.1 256 kernStart (pagesDown 128) upages 4096#32 0#32 pteU kernStart_initial.mapDir upages_mappable
      (fun i hi => by rw [upages_slots hi]; exact mapIdx_upages) upages_stocked,
    kern_map_layout.2 512 kernArrays 256 kernStart (pagesDown 128) (by decide) kernStart_initial
      (by rw [length_pagesDown]; decide)⟩

/-- The translation through the slot of the directory's own mapping: its entries are the page tables. -/
theorem entryAt_own {a : Word} (hd : d < 2 ^ 20) (hown : s.mem d (pdx uvpt) = page2pa d ||| pteU ||| pteP)
    (ha : pdx a = pdx uvpt) : s.entryAt d a = if present (s.mem d (ptx a)) then some (s.mem d (ptx a)) else none := by
  have hdec : dec (page2pa d ||| pteU ||| pteP) = some d := dec_entry_low hd (by decide)
  obtain ⟨hp, hn⟩ := dec_eq_some.1 hdec
  simp only [State.entryAt, ha, hown, hn, hp, true_and]

/-- A call for one page whose page table is there. -/
theorem run_map_page (hp : present (s.mem d (pdx va)) = true) (hn : pgnum (s.mem d (pdx va)) < s.npages) :
    (bootMapRegion d va 4096#32 pa perm).run s =
      .ok () (s.setWord (pgnum (s.mem d (pdx va))) (ptx va) (pa ||| perm ||| pteP)) := by
  unfold bootMapRegion
  show (bootMapLoop d 4096#32 perm (1048575 + 1 + 1) 0#32 va pa).run s = _
  unfold bootMapLoop
  rw [if_pos (by decide), run_bind_ok (pgdirWalk_present hp hn true)]
  show (store _ _ >>= fun _ => _).run s = _
  rw [run_bind_ok (run_store _ _)]
  unfold bootMapLoop
  rw [if_neg (by decide)]
  rfl

/-- A directory in which two slots have the same page table. -/
def sharedTable : State :=
  { bootState with mem := fun f i => if f = 256 ∧ (i = pdx kernbase ∨ i = pdx (kernbase + ptsize)) then tablePde 200 else 0#32 }

/-- A new page table is a new translation in the slot of the directory's own mapping, and a page table in two slots is
written in both. -/
theorem map_changes_others :
    (¬ ∀ (d : Nat) (s s' : State) (l : List Nat) (va size pa perm : Word), MapDir d s l → Mappable va size pa perm →
      (∀ i ∈ regionSlots va size, MapIdx i) → Stocked (regionSlots va size) d s l →
      (bootMapRegion d va size pa perm).run s = .ok () s' → ∀ a, ¬ Within va size a → s'.entryAt d a = s.entryAt d a) ∧
    ¬ ∀ (d : Nat) (s s' : State) (va size pa perm : Word), Mappable va size pa perm → (∀ i ∈ regionSlots va size, MapIdx i) →
      (∀ i ∈ regionSlots va size, present (s.mem d i) = true) → (bootMapRegion d va size pa perm).run s = .ok () s' →
      ∀ a, MapIdx (pdx a) → ¬ Within va size a → s'.entryAt d a = s.entryAt d a := by
  refine ⟨fun hall => ?_, fun hall => ?_⟩
  · have hSM : ∀ i ∈ regionSlots upages 4096#32, MapIdx i := fun i hi => by
      rw [upages_slots hi]
      exact mapIdx_upages
    obtain ⟨s', l', hrun, -, -, hg, hat⟩ := kernStart_initial.mapDir.region upages_stocked upages_mappable hSM
      fun a ha => pdx_mem_regionSlots ha
    have hpa : pdx (pgaddr (pdx uvpt) (pdx upages) 0) = pdx uvpt := pdx_pgaddr _ _
    have hta : ptx (pgaddr (pdx uvpt) (pdx upages) 0) = pdx upages := ptx_pgaddr _ _
    have h := hall 256 kernStart s' (pagesDown 128) upages 4096#32 0#32 pteU kernStart_initial.mapDir upages_mappable hSM
      upages_stocked hrun (pgaddr (pdx uvpt) (pdx upages) 0) (by decide)
    -- the page table of `UPAGES` is there after the call only
    have hown : kernStart.mem 256 (pdx uvpt) = page2pa 256 ||| pteU ||| pteP := by decide
    have hnew := hat upages mapIdx_upages
    rw [if_pos (by decide), entryAt_eq mapIdx_upages] at hnew
    obtain ⟨n, hn, -⟩ := Lib.leaf_eq_some.1 hnew
    have htab : s'.ktab 256 (pdx upages) = some n := hn
    rw [ktab_eq_dec mapIdx_upages] at htab
    have hpres := (dec_eq_some.1 htab).1
    rw [entryAt_own (by decide) (hg.self.trans hown) hpa, entryAt_own (by decide) hown hpa, hta, if_pos hpres] at h
    have hnone : present (kernStart.mem 256 (pdx upages)) = false := by decide
    rw [hnone] at h
    cases h
  · have hslots : ∀ i ∈ regionSlots kernbase 4096#32, i = pdx kernbase := by
      intro i hi
      have hu : kernbase.toNat = 960 * 4194304 := by decide
      have hs : (4096#32 : Word).toNat = 4096 := rfl
      have hp : (pdx kernbase).val = 960 := by decide
      obtain ⟨-, -, h₁, h₂⟩ := Finset.mem_filter.1 hi
      rw [hu, hs] at h₂
      rw [hu] at h₁
      apply Fin.ext
      omega
    have hrun : (bootMapRegion 256 kernbase 4096#32 0#32 pteW).run sharedTable = _ := run_map_page (by decide) (by decide)
    have h := hall 256 sharedTable _ kernbase 4096#32 0#32 pteW ⟨by decide, by decide, by decide, by decide, by decide⟩
      (fun i hi => by rw [hslots i hi]; decide) (fun i hi => by rw [hslots i hi]; decide) hrun (kernbase + ptsize) (by decide)
      (by decide)
    revert h
    decide

end Jos
