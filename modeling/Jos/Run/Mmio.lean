/-
`mmio_map_region` of kern/pmap.c: device memory is mapped from `MMIOBASE` on, but what is returned is the address after
the mapping, and the end of the region is not looked at.
-/
import Jos.Boot.Alloc
import Jos.Run.KernMap

namespace Jos

open Lib Kern

/-! ## The code -/

/-- `mmio_map_region`: the address it returns and the new value of its static variable `base`. -/
def mmioMapRegion (kernPgdir : Nat) (pa size base : Word) : Kern (Word × Word) := do
  bootMapRegion kernPgdir base size pa (ptePCD ||| ptePWT ||| pteW ||| pteP)
  let base := roundup (base + size) pgsize
  return (base, base)

/-- A call and the address that it returned. -/
structure Window where
  pa : Word
  size : Word
  v : Word

/-- Calls one after the other. -/
def mmioCalls (kernPgdir : Nat) : List (Word × Word) → Word → Kern (List Window)
  | [], _ => return []
  | (pa, size) :: calls, base => do
    let (v, base) ← mmioMapRegion kernPgdir pa size base
    let ws ← mmioCalls kernPgdir calls base
    return ⟨pa, size, v⟩ :: ws

/-! ## What is asked for -/

/-- The calls got windows of their own on their devices, and none would have passed `MMIOLIM`. -/
structure Windows (d : Nat) (s : State) (ws : List Window) : Prop where
  aligned : ∀ w ∈ ws, w.v.toNat % 4096 = 0
  inside : ∀ w ∈ ws, mmiobase.toNat ≤ w.v.toNat ∧ w.v.toNat + pageUp w.size.toNat ≤ mmiolim.toNat
  maps : ∀ w ∈ ws, ∀ a, Within w.v w.size a →
    s.MapsTo d a (w.pa + rounddown (a - w.v) pgsize) (pteW ||| ptePCD ||| ptePWT ||| pteP)
  apart : ws.Pairwise fun w x => ∀ a, Within w.v w.size a → ¬ Within x.v x.size a
  limit : mmiobase.toNat + (ws.map fun w => pageUp w.size.toNat).sum ≤ mmiolim.toNat

variable {s s' : State} {d : Nat} {l : List Nat} {pa size base : Word}

/-- The slot of the window has a page table or gets one, if the call returns. -/
theorem stocked_of_run (h : MapDir d s l) (hl : FreeList s l) (hsize : 0#32 < size) {perm : Word} (hbase : MapIdx (pdx base))
    (hrun : (bootMapRegion d base size pa perm).run s = .ok () s') : Stocked {pdx base} d s l := by
  unfold Stocked
  by_cases htab : s.ktab d (pdx base) = none
  · cases l with
    | nil =>
      -- no page is free, and the null pointer faults
      have hnone : s.pageFreeList = none := hl
      rw [ktab_eq_dec hbase] at htab
      have hp : present (s.mem d (pdx base)) = false := by
        unfold dec at htab
        by_contra hc
        rw [Bool.not_eq_false] at hc
        rw [if_pos hc] at htab
        cases htab
      unfold bootMapRegion bootMapLoop at hrun
      rw [if_pos hsize, run_bind_ok (pgdirWalk_noMem hp hnone)] at hrun
      cases hrun
    | cons p l =>
      have hle := Finset.card_filter_le {pdx base} fun i => s.ktab d i = none
      rw [Finset.card_singleton] at hle
      rw [List.length_cons]
      omega
  · rw [Finset.filter_singleton, if_neg htab, Finset.card_empty]
    exact Nat.zero_le _

theorem mmiobase_toNat : mmiobase.toNat = 0xef800000 := by decide

theorem mmiolim_toNat : mmiolim.toNat = 0xefc00000 := by decide

theorem mapIdx_window {a : Word} (h : mmiobase.toNat ≤ a.toNat) (h' : a.toNat < mmiolim.toNat) :
    pdx a = pdx mmiobase ∧ MapIdx (pdx a) := by
  have hm : (pdx mmiobase).val = 958 := by decide
  have hu : (pdx uvpt).val = 957 := by decide
  rw [mmiobase_toNat] at h
  rw [mmiolim_toNat] at h'
  have ha : (pdx a).val = 958 := by
    rw [pdx_val]
    omega
  refine ⟨Fin.ext (ha.trans hm.symm), fun hc => ?_⟩
  rw [hc, hu] at ha
  omega

/-- A window that lies inside the region begins right after what its call mapped. -/
theorem window_base {v : Word} (hal : base.toNat % 4096 = 0) (hb : base.toNat ≤ mmiolim.toNat)
    (hv : v = roundup (base + size) pgsize) (hin : v.toNat + pageUp size.toNat ≤ mmiolim.toNat)
    (hlo : mmiobase.toNat ≤ v.toNat) : v.toNat = base.toNat + pageUp size.toNat := by
  have hr := roundup_pageUp (base + size)
  rw [← hv, BitVec.toNat_add] at hr
  rw [mmiolim_toNat] at hb hin
  rw [mmiobase_toNat] at hlo
  unfold pageUp at *
  omega

/-- A call whose window lies inside the region maps the pages before it and no other one. -/
theorem mmioMapRegion_region (pa size : Word) (h : MapDir d s l) (hen : Stocked {pdx mmiobase} d s l)
    (hal : base.toNat % 4096 = 0)
    (hlo : mmiobase.toNat ≤ base.toNat) (hhi : base.toNat + pageUp size.toNat ≤ mmiolim.toNat) (hpa : pa.toNat % 4096 = 0) :
    ∃ s₁ l₁, (mmioMapRegion d pa size base).run s = .ok (roundup (base + size) pgsize, roundup (base + size) pgsize) s₁ ∧
      MapDir d s₁ l₁ ∧ Stocked {pdx mmiobase} d s₁ l₁ ∧
      ∀ a, base.toNat + pageUp size.toNat ≤ a.toNat → a.toNat < mmiolim.toNat → s₁.entryAt d a = s.entryAt d a := by
  have hup := le_pageUp size.toNat
  have hlim := mmiolim_toNat
  have hbase := mmiobase_toNat
  have hm : Mappable base size pa (ptePCD ||| ptePWT ||| pteW ||| pteP) := by
    refine ⟨hal, hpa, by decide, ?_, ?_⟩ <;> omega
  have hslot : ∀ a, Within base size a → pdx a ∈ ({pdx mmiobase} : Finset Idx) := by
    intro a ha
    have ha' : base.toNat ≤ a.toNat ∧ a.toNat < base.toNat + pageUp size.toNat := ha
    exact Finset.mem_singleton.2 (mapIdx_window (by omega) (by omega)).1
  have hSM : ∀ i ∈ ({pdx mmiobase} : Finset Idx), MapIdx i := by
    intro i hi
    rw [Finset.mem_singleton.1 hi]
    exact (mapIdx_window le_rfl (by omega)).2
  obtain ⟨s₁, l₁, hrun, h₁, hen₁, -, hat⟩ := h.region hen hm hSM hslot
  refine ⟨s₁, l₁, ?_, h₁, hen₁, fun a ha ha' => ?_⟩
  · unfold mmioMapRegion
    rw [run_bind_ok hrun]
    rfl
  · rw [hat a (mapIdx_window (by omega) ha').2, if_neg]
    rintro ⟨-, hc⟩
    have hc' : a.toNat < base.toNat + pageUp size.toNat := hc
    omega

/-- After calls whose windows lie inside the region, the last window is not mapped. -/
theorem last_window_unmapped : ∀ (calls : List (Word × Word)) {base : Word} {s : State} {l : List Nat} {ws : List Window},
    MapDir d s l → Stocked {pdx mmiobase} d s l → calls ≠ [] → base.toNat % 4096 = 0 → mmiobase.toNat ≤ base.toNat →
    base.toNat ≤ mmiolim.toNat → (∀ a, base.toNat ≤ a.toNat → a.toNat < mmiolim.toNat → s.entryAt d a = none) →
    (∀ c ∈ calls, c.1.toNat % 4096 = 0 ∧ 0#32 < c.2) → (mmioCalls d calls base).run s = .ok ws s' →
    (∀ w ∈ ws, mmiobase.toNat ≤ w.v.toNat ∧ w.v.toNat + pageUp w.size.toNat ≤ mmiolim.toNat) →
    ∃ w ∈ ws, ∃ a, Within w.v w.size a ∧ s'.entryAt d a = none
  | [], _, _, _, _, _, _, hne, _, _, _, _, _, _, _ => absurd rfl hne
  | (pa, size) :: calls, base, s, l, ws, h, hen, _, hal, hlo, hhi, hnone, hcalls, hrun, hin => by
    obtain ⟨hpa, hsize⟩ := hcalls (pa, size) (List.mem_cons_self ..)
    have hpos : 0 < size.toNat := BitVec.lt_def.1 hsize
    have hup := le_pageUp size.toNat
    unfold mmioCalls at hrun
    obtain ⟨⟨v, base'⟩, s₁, hfirst, hrun⟩ := run_bind_eq_ok.1 hrun
    obtain ⟨ws', s₂, hrest, hlast⟩ := run_bind_eq_ok.1 hrun
    cases hlast
    have hv : v = roundup (base + size) pgsize ∧ base' = v := by
      obtain ⟨-, s₃, -, hret⟩ := run_bind_eq_ok.1 hfirst
      have hret' : (pure (roundup (base + size) pgsize, roundup (base + size) pgsize) : Kern (Word × Word)).run s₃ =
        .ok (v, base') s₁ := hret
      rw [EStateM.run_pure, EStateM.Result.ok.injEq, Prod.mk.injEq] at hret'
      exact ⟨hret'.1.1.symm, hret'.1.2.symm.trans hret'.1.1⟩
    obtain ⟨hv, rfl⟩ := hv
    obtain ⟨hw₁, hw₂⟩ := hin _ (List.mem_cons_self ..)
    have hvb := window_base hal hhi hv hw₂ hw₁
    have hw₂' : base'.toNat + pageUp size.toNat ≤ mmiolim.toNat := hw₂
    obtain ⟨s₃, l₃, hrun₃, h₃, hen₃, hat⟩ := mmioMapRegion_region pa size h hen hal hlo (by omega) hpa
    rw [hfirst, EStateM.Result.ok.injEq] at hrun₃
    obtain ⟨-, rfl⟩ := hrun₃
    have hnone₃ : ∀ a, base'.toNat ≤ a.toNat → a.toNat < mmiolim.toNat → s₁.entryAt d a = none := by
      intro a ha ha'
      rw [hat a (by omega) ha']
      exact hnone a (by omega) ha'
    by_cases hcs : calls = []
    · -- the window begins where the mapping ends
      subst hcs
      cases hrest
      refine ⟨_, List.mem_cons_self .., base', ⟨le_rfl, ?_⟩, hnone₃ base' le_rfl (by omega)⟩
      show base'.toNat < base'.toNat + pageUp size.toNat
      omega
    · have hal' : base'.toNat % 4096 = 0 := by
        have := pageUp_mod size.toNat
        omega
      obtain ⟨w, hw, a, ha, hat'⟩ := last_window_unmapped calls h₃ hen₃ hcs hal' hw₁ (by omega) hnone₃
        (fun c hc => hcalls c (List.mem_cons_of_mem _ hc)) hrest fun w hw => hin w (List.mem_cons_of_mem _ hw)
      exact ⟨w, List.mem_cons_of_mem _ hw, a, ha, hat'⟩

/-- Calls that return get windows of their own only if there is no call. -/
theorem mmio_windows_iff (d : Nat) (s s' : State) (l : List Nat) (calls : List (Word × Word)) (ws : List Window)
    (h : MapDir d s l) (hl : FreeList s l)
    (hnone : ∀ a, mmiobase.toNat ≤ a.toNat → a.toNat < mmiolim.toNat → s.entryAt d a = none)
    (hcalls : ∀ c ∈ calls, c.1.toNat % 4096 = 0 ∧ 0#32 < c.2) (hrun : (mmioCalls d calls mmiobase).run s = .ok ws s') :
    Windows d s' ws ↔ calls = [] := by
  constructor
  · intro hw
    by_contra hne
    have hlt : mmiobase.toNat < mmiolim.toNat := by rw [mmiobase_toNat, mmiolim_toNat]; omega
    have hen : Stocked {pdx mmiobase} d s l := by
      cases calls with
      | nil => exact absurd rfl hne
      | cons c calls =>
        obtain ⟨_, _, hfirst, -⟩ := run_bind_eq_ok.1 hrun
        obtain ⟨_, _, hmap, -⟩ := run_bind_eq_ok.1 hfirst
        exact stocked_of_run h hl (hcalls c (List.mem_cons_self ..)).2 (mapIdx_window le_rfl hlt).2 hmap
    obtain ⟨w, hww, a, ha, hat⟩ := last_window_unmapped calls h hen hne (by decide) le_rfl (Nat.le_of_lt hlt) hnone hcalls hrun
      hw.inside
    obtain ⟨x, hx, -⟩ := hw.maps w hww a ha
    rw [hat] at hx
    cases hx
  · rintro rfl
    cases hrun
    refine ⟨nofun, nofun, nofun, List.Pairwise.nil, ?_⟩
    rw [mmiobase_toNat, mmiolim_toNat]
    decide

/-- The registers of the local APIC, mapped on the machine before the calls of `mem_init`. -/
theorem lapicMap_region : ∃ s₁ l₁, (mmioMapRegion 256 0xfee00000#32 4096#32 mmiobase).run kernStart =
      .ok (mmiobase + 4096#32, mmiobase + 4096#32) s₁ ∧ MapDir 256 s₁ l₁ ∧
      s₁.entryAt 256 (mmiobase + 4096#32) = none := by
  have hs : (4096#32 : Word).toNat = 4096 := rfl
  have hu : pageUp (4096#32 : Word).toNat = 4096 := by decide
  have hbase := mmiobase_toNat
  have hlim := mmiolim_toNat
  have hv : roundup (mmiobase + 4096#32) pgsize = mmiobase + 4096#32 := by decide
  have hv' : (mmiobase + 4096#32).toNat = 0xef801000 := by decide
  have hen : Stocked {pdx mmiobase} 256 kernStart (pagesDown 128) := kernStart_initial.stocked (by
    rw [Finset.card_singleton, length_pagesDown]
    omega)
  obtain ⟨s₁, l₁, hrun, h₁, -, hat⟩ := mmioMapRegion_region 0xfee00000#32 4096#32 kernStart_initial.mapDir hen (by decide)
    le_rfl (by omega) (by decide)
  rw [hv] at hrun
  refine ⟨s₁, l₁, hrun, h₁, ?_⟩
  rw [hat _ (by omega) (by omega)]
  exact kernStart_initial.entryAt (mapIdx_window (by omega) (by omega)).2

theorem lapicMap_run : ∃ s₁, (mmioCalls 256 [(0xfee00000#32, 4096#32)] mmiobase).run kernStart =
      .ok [⟨0xfee00000#32, 4096#32, mmiobase + 4096#32⟩] s₁ ∧ s₁.entryAt 256 (mmiobase + 4096#32) = none := by
  obtain ⟨s₁, l₁, hrun, -, hat⟩ := lapicMap_region
  refine ⟨s₁, ?_, hat⟩
  unfold mmioCalls
  rw [run_bind_ok hrun]
  rfl

theorem mmio_windows_iff_lapic : ∃ ws s', (mmioCalls 256 [(0xfee00000#32, 4096#32)] mmiobase).run kernStart = .ok ws s' ∧
    (Windows 256 s' ws ↔ [((0xfee00000#32 : Word), (4096#32 : Word))] = []) := by
  obtain ⟨s₁, hrun, -⟩ := lapicMap_run
  have hl : FreeList kernStart (pagesDown 128) := chain_pagesDown (le_refl 128)
  exact ⟨_, s₁, hrun, mmio_windows_iff 256 kernStart s₁ (pagesDown 128) _ _ kernStart_initial.mapDir hl
    (fun a ha ha' => kernStart_initial.entryAt (mapIdx_window ha ha').2)
    (fun c hc => by rw [List.mem_singleton.1 hc]; decide) hrun⟩

/-- The address that is returned for the local APIC is the one after its registers, and is not mapped. -/
theorem mmio_returns_end : ∃ ws s', (mmioCalls 256 [(0xfee00000#32, 4096#32)] mmiobase).run kernStart = .ok ws s' ∧
    ¬ Windows 256 s' ws := by
  obtain ⟨s₁, hrun, hat⟩ := lapicMap_run
  refine ⟨_, s₁, hrun, fun h => ?_⟩
  obtain ⟨x, hx, -⟩ := h.maps _ (List.mem_cons_self ..) (mmiobase + 4096#32) ⟨le_rfl, by decide⟩
  rw [hat] at hx
  cases hx

end Jos
