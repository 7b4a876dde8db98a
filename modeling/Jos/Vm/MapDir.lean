/-
A page directory on its own, less the slot of its own mapping at `UVPT`: its page tables, the translations it gives,
and what `boot_map_region` does to them.
-/
import Jos.Kern.BootMap
import Jos.Vm.Map

namespace Jos

open Lib Kern

/-! ## A directory on its own -/

/-- The slots of a directory other than that of its own mapping. -/
def MapIdx (i : Idx) : Prop := i ≠ pdx uvpt

instance : DecidablePred MapIdx := fun i => inferInstanceAs (Decidable (i ≠ pdx uvpt))

/-- The page table at slot `i` of `d`. -/
def State.ktab (s : State) (d : Nat) (i : Idx) : Option Nat :=
  Lib.node dec MapIdx (fun _ : Unit => some d) s.mem () i

/-- The entry `j` of the page table at slot `i` of `d`, if it is present. -/
def State.kpte (s : State) (d : Nat) (i j : Idx) : Option Word :=
  Lib.leaf dec MapIdx (fun _ : Unit => some d) s.mem () i j

/-- The translation of `va` by the directory `d`. -/
def State.entryAt (s : State) (d : Nat) (va : Word) : Option Word :=
  let pde := s.mem d (pdx va)
  let pte := s.mem (pgnum pde) (ptx va)
  if present pde ∧ present pte then some pte else none

/-- The free list starts with the pages `l`. -/
def FreeFirst (s : State) (l : List Nat) : Prop := ∃ rest, FreeList s (l ++ rest)

/-- The directory `d` and the pages `l` that are handed out first: a page table is in one slot, and none of them is
in `l`. -/
structure MapDir (d : Nat) (s : State) (l : List Nat) : Prop where
  chain : FreeFirst s l
  nodup : l.Nodup
  managed : ∀ f ∈ l, f < s.npages
  freeDir : d ∉ l
  freeTab : ∀ i n, s.ktab d i = some n → n ∉ l
  tabLt : ∀ i n, s.ktab d i = some n → n < s.npages
  tabDir : ∀ i, s.ktab d i ≠ some d
  tabOne : ∀ i i' n, s.ktab d i = some n → s.ktab d i' = some n → i' = i

variable {s s' : State} {d p n : Nat} {l l' : List Nat} {i : Idx} {w : Word}

theorem entryAt_eq {va : Word} (h : MapIdx (pdx va)) : s.entryAt d va = s.kpte d (pdx va) (ptx va) := by
  have hnode : Lib.node dec MapIdx (fun _ : Unit => some d) s.mem () (pdx va) = dec (s.mem d (pdx va)) :=
    Lib.node_of_root rfl h
  unfold State.entryAt State.kpte Lib.leaf
  rw [hnode]
  unfold dec
  by_cases hp : present (s.mem d (pdx va)) = true
  · rw [if_pos hp, Option.bind_some]
    by_cases hq : present (s.mem (pgnum (s.mem d (pdx va))) (ptx va)) = true
    · rw [if_pos ⟨hp, hq⟩, if_pos hq, Option.isSome_some, if_pos rfl]
    · rw [if_neg fun hc => hq hc.2, if_neg hq]
      rfl
  · rw [if_neg hp, if_neg fun hc => hp hc.1]
    rfl

theorem MapDir.separate (h : MapDir d s l) : Separate dec MapIdx (fun _ : Unit => some d) s.mem where
  roots _ _ _ _ _ := rfl
  nodes _ i _ i' f hf hf' := ⟨rfl, h.tabOne i i' f hf hf'⟩
  apart _ _ i f hf hf' := by
    cases hf
    exact h.tabDir i hf'

theorem MapDir.not_structural (h : MapDir d s l) {f : Nat} (hf : f ∈ l) :
    ¬ Structural dec MapIdx (fun _ : Unit => some d) s.mem f := by
  rintro (⟨_, he⟩ | ⟨_, i, hi⟩)
  · cases he
    exact h.freeDir hf
  · exact h.freeTab i f hi hf

/-- A word of a page table is written. -/
theorem MapDir.link (h : MapDir d s l) (hn : s.ktab d i = some n) (j : Idx) (hw : present w = true) :
    MapDir d (s.setWord n j w) l ∧ (∀ i', (s.setWord n j w).ktab d i' = s.ktab d i') ∧
      ∀ i' j', (s.setWord n j w).kpte d i' j' = if i' = i ∧ j' = j then some w else s.kpte d i' j' := by
  have htab : ∀ i', (s.setWord n j w).ktab d i' = s.ktab d i' := fun i' => Lib.node_write_leaf h.separate hn _ () i'
  refine ⟨⟨h.chain, h.nodup, h.managed, h.freeDir, ?_, ?_, ?_, ?_⟩, htab, fun i' j' => ?_⟩
  · intro i' m hm
    rw [htab] at hm
    exact h.freeTab i' m hm
  · intro i' m hm
    rw [htab] at hm
    exact h.tabLt i' m hm
  · intro i'
    rw [htab]
    exact h.tabDir i'
  · intro i₁ i₂ m h₁ h₂
    rw [htab] at h₁ h₂
    exact h.tabOne i₁ i₂ m h₁ h₂
  · have hleaf := Lib.leaf_write_leaf h.separate hn w () i' j' (j := j)
    unfold dec at hleaf
    rw [if_pos hw, if_pos (show (some (pgnum w)).isSome = true from rfl)] at hleaf
    refine hleaf.trans ?_
    by_cases hc : i' = i ∧ j' = j
    · rw [if_pos ⟨rfl, hc.1, hc.2⟩, if_pos hc]
    · rw [if_neg fun h' => hc h'.2, if_neg hc]
      rfl

/-- `pgdir_walk` hangs up a new page table. -/
theorem MapDir.hang (h : MapDir d s (p :: l)) (hi : MapIdx i) (hn : s.ktab d i = none) :
    MapDir d (s.hang d i p) l ∧ (∀ i', (s.hang d i p).ktab d i' = if i' = i then some p else s.ktab d i') ∧
      ∀ i' j', (s.hang d i p).kpte d i' j' = s.kpte d i' j' := by
  have hpl := List.mem_cons_self (a := p) (l := l)
  have hns := h.not_structural hpl
  have hlt : p < 2 ^ 20 := by
    have := h.managed p hpl
    have := s.npages_le
    omega
  have hpd : p ≠ d := ne_of_mem_of_not_mem hpl h.freeDir
  -- clearing the page changes no view, since nothing is in it; what is left is the store of the directory entry
  have hz : ∀ i', Lib.node dec MapIdx (fun _ : Unit => some d) (Function.update s.mem p fun _ => 0#32) () i' = s.ktab d i' :=
    fun i' => Lib.node_write_other hns () i'
  have hsep : Separate dec MapIdx (fun _ : Unit => some d) (Function.update s.mem p fun _ => 0#32) :=
    h.separate.congr fun _ i' => hz i'
  have htab : ∀ i', (s.hang d i p).ktab d i' = if i' = i then some p else s.ktab d i' := by
    intro i'
    have hnode := Lib.node_write_node (e := ()) hsep rfl hi (page2pa p ||| pteP ||| pteU ||| pteW) () i'
    rw [dec_pde hlt, hz] at hnode
    refine hnode.trans ?_
    by_cases hc : i' = i
    · rw [if_pos ⟨rfl, hc⟩, if_pos hc]
    · rw [if_neg fun h' => hc h'.2, if_neg hc]
  refine ⟨⟨?_, h.nodup.of_cons, fun f hf => h.managed f (List.mem_cons_of_mem _ hf),
    fun hd => h.freeDir (List.mem_cons_of_mem _ hd), ?_, ?_, ?_, ?_⟩, htab, fun i' j' => ?_⟩
  · obtain ⟨rest, hc⟩ := h.chain
    refine ⟨rest, Chain.congr (fun q _ => ?_) hc.2⟩
    exact setRef_ppLink _ p q 1#16
  · intro i' m hm
    rw [htab] at hm
    by_cases hc : i' = i
    · rw [if_pos hc] at hm
      cases hm
      exact (List.nodup_cons.1 h.nodup).1
    · rw [if_neg hc] at hm
      exact fun hl => h.freeTab i' m hm (List.mem_cons_of_mem _ hl)
  · intro i' m hm
    rw [htab] at hm
    by_cases hc : i' = i
    · rw [if_pos hc] at hm
      cases hm
      exact h.managed p hpl
    · rw [if_neg hc] at hm
      exact h.tabLt i' m hm
  · intro i' hm
    rw [htab] at hm
    by_cases hc : i' = i
    · rw [if_pos hc] at hm
      exact hpd (Option.some.inj hm)
    · rw [if_neg hc] at hm
      exact h.tabDir i' hm
  · intro i₁ i₂ m h₁ h₂
    rw [htab] at h₁ h₂
    by_cases hc₁ : i₁ = i
    · by_cases hc₂ : i₂ = i
      · exact hc₂.trans hc₁.symm
      · rw [if_pos hc₁] at h₁
        cases h₁
        rw [if_neg hc₂] at h₂
        exact absurd hpl (h.freeTab i₂ p h₂)
    · rw [if_neg hc₁] at h₁
      by_cases hc₂ : i₂ = i
      · rw [if_pos hc₂] at h₂
        cases h₂
        exact absurd hpl (h.freeTab i₁ p h₁)
      · rw [if_neg hc₂] at h₂
        exact h.tabOne i₁ i₂ m h₁ h₂
  · have hold : ∀ j, Lib.leaf dec MapIdx (fun _ : Unit => some d) (Function.update s.mem p fun _ => 0#32) () i j = none :=
      Lib.leaf_of_no_node ((hz i).trans hn)
    refine (Lib.leaf_write_node (e := ()) hsep rfl hi hold (fun q hq => ?_) () i' j').trans (Lib.leaf_write_other hns () i' j')
    rw [dec_pde hlt] at hq
    cases hq
    refine ⟨hpd, fun j => ?_⟩
    rw [Function.update_self]
    exact dec_zero

/-! ## A run of `boot_map_region` -/

/-- There is a free page for each of the slots `S` without a page table. -/
def Stocked (S : Finset Idx) (d : Nat) (s : State) (l : List Nat) : Prop :=
  (S.filter fun i => s.ktab d i = none).card ≤ l.length

/-- Page tables were hung up in `d`: the pages that left the free list, each with one reference. -/
structure Grown (d : Nat) (s s' : State) (l l' : List Nat) : Prop where
  used : ∃ new, l = new ++ l'
  kept : ∀ i n, s.ktab d i = some n → s'.ktab d i = some n
  tables : ∀ f ∈ l, f ∉ l' → ∃ i, s.ktab d i = none ∧ s'.ktab d i = some f
  ref : ∀ f, (s'.pages f).ppRef = if f ∈ l ∧ f ∉ l' then 1#16 else (s.pages f).ppRef
  self : s'.mem d (pdx uvpt) = s.mem d (pdx uvpt)

theorem Grown.refl (d : Nat) (s : State) (l : List Nat) : Grown d s s l l where
  used := ⟨[], rfl⟩
  kept _ _ h := h
  tables _ h h' := absurd h h'
  ref f := by rw [if_neg fun hc => hc.2 hc.1]
  self := rfl

theorem Grown.sub {s s' : State} {l l' : List Nat} (h : Grown d s s' l l') : l' ⊆ l := by
  obtain ⟨new, hnew⟩ := h.used
  intro f hf
  rw [hnew]
  exact List.mem_append_right _ hf

theorem Grown.trans {s₁ s₂ s₃ : State} {l₁ l₂ l₃ : List Nat} (h : Grown d s₁ s₂ l₁ l₂) (h' : Grown d s₂ s₃ l₂ l₃) :
    Grown d s₁ s₃ l₁ l₃ where
  used := by
    obtain ⟨new, hn⟩ := h.used
    obtain ⟨new', hn'⟩ := h'.used
    exact ⟨new ++ new', by rw [hn, hn', List.append_assoc]⟩
  kept i n hn := h'.kept i n (h.kept i n hn)
  tables f hf hf' := by
    by_cases hm : f ∈ l₂
    · obtain ⟨i, hnone, hsome⟩ := h'.tables f hm hf'
      refine ⟨i, ?_, hsome⟩
      cases ht : s₁.ktab d i with
      | none => rfl
      | some n =>
        rw [h.kept i n ht] at hnone
        cases hnone
    · obtain ⟨i, hnone, hsome⟩ := h.tables f hf hm
      exact ⟨i, hnone, h'.kept i f hsome⟩
  ref f := by
    rw [h'.ref, h.ref]
    have h₁ : f ∈ l₂ → f ∈ l₁ := fun hf => h.sub hf
    have h₂ : f ∈ l₃ → f ∈ l₂ := fun hf => h'.sub hf
    by_cases hm : f ∈ l₂
    · by_cases hm' : f ∈ l₃
      · rw [if_neg fun hc => hc.2 hm', if_neg fun hc => hc.2 hm, if_neg fun hc => hc.2 hm']
      · rw [if_pos ⟨hm, hm'⟩, if_pos ⟨h₁ hm, hm'⟩]
    · rw [if_neg fun hc => hm hc.1]
      by_cases hf : f ∈ l₁
      · rw [if_pos ⟨hf, hm⟩, if_pos ⟨hf, fun hc => hm (h₂ hc)⟩]
      · rw [if_neg fun hc => hf hc.1, if_neg fun hc => hf hc.1]
  self := h'.self.trans h.self

variable {S : Finset Idx} {va pa perm size : Word}

theorem ktab_eq_dec (hi : MapIdx i) : s.ktab d i = dec (s.mem d i) := Lib.node_of_root rfl hi

/-- The walk finds the page table or hangs up a new one. -/
theorem MapDir.walk (h : MapDir d s l) (hen : Stocked S d s l) (hi : MapIdx (pdx va)) (hS : pdx va ∈ S) :
    ∃ s' l' n, (pgdirWalk d va true).run s = .ok (some (n, ptx va)) s' ∧ MapDir d s' l' ∧ Stocked S d s' l' ∧
      Grown d s s' l l' ∧ s'.ktab d (pdx va) = some n ∧ ∀ i j, s'.kpte d i j = s.kpte d i j := by
  have hdec := ktab_eq_dec (s := s) (d := d) hi
  unfold dec at hdec
  cases hp : present (s.mem d (pdx va)) with
  | true =>
    rw [if_pos hp] at hdec
    exact ⟨s, l, _, pgdirWalk_present hp (h.tabLt _ _ hdec) true, h, hen, .refl d s l, hdec, fun _ _ => rfl⟩
  | false =>
    rw [hp, if_neg Bool.false_ne_true] at hdec
    have hmem : pdx va ∈ S.filter fun i => s.ktab d i = none := Finset.mem_filter.2 ⟨hS, hdec⟩
    cases l with
    | nil =>
      have := Finset.card_pos.2 ⟨_, hmem⟩
      unfold Stocked at hen
      rw [List.length_nil] at hen
      omega
    | cons p l =>
      have hpl := List.mem_cons_self (a := p) (l := l)
      obtain ⟨hk, htab, hpte⟩ := h.hang hi hdec
      have hnl := (List.nodup_cons.1 h.nodup).1
      have hhead : s.pageFreeList = some p := h.chain.elim fun _ hc => hc.1
      refine ⟨_, l, p, pgdirWalk_create hp hhead (h.managed p hpl), hk, ?_, ⟨⟨[p], rfl⟩, fun i n hn => ?_,
        fun f hf hf' => ?_, fun f => ?_, ?_⟩, by rw [htab, if_pos rfl], hpte⟩
      · have hsub : (S.filter fun i => (s.hang d (pdx va) p).ktab d i = none) =
            (S.filter fun i => s.ktab d i = none).erase (pdx va) := by
          ext i
          rw [Finset.mem_erase, Finset.mem_filter, Finset.mem_filter, htab]
          by_cases hc : i = pdx va
          · rw [if_pos hc]
            simp [hc]
          · rw [if_neg hc]
            simp [hc]
        unfold Stocked at hen ⊢
        rw [hsub, Finset.card_erase_of_mem hmem]
        rw [List.length_cons] at hen
        omega
      · rw [htab, if_neg, hn]
        rintro rfl
        rw [hdec] at hn
        cases hn
      · obtain rfl := (List.mem_cons.1 hf).resolve_right hf'
        exact ⟨pdx va, hdec, by rw [htab, if_pos rfl]⟩
      · refine (setRef_ppRef _ p f 1#16).trans ?_
        by_cases hc : f = p
        · rw [if_pos hc, hc, if_pos ⟨hpl, hnl⟩]
        · rw [if_neg hc, if_neg fun h' => hc ((List.mem_cons.1 h'.1).resolve_right h'.2)]
          rfl
      · have hpd : d ≠ p := (ne_of_mem_of_not_mem hpl h.freeDir).symm
        show Function.update (Function.update s.mem p _) d _ d (pdx uvpt) = _
        rw [Function.update_self, Function.update_of_ne hi.symm]
        show Function.update s.mem p _ d _ = _
        rw [Function.update_of_ne hpd]

theorem Stocked.congr (h : Stocked S d s l) (ht : ∀ i, s'.ktab d i = s.ktab d i) : Stocked S d s' l := by
  unfold Stocked at h ⊢
  rw [Finset.filter_congr fun i _ => by rw [ht i]]
  exact h

/-- A turn of `boot_map_region` changes the translation of one page. -/
theorem MapDir.turn (h : MapDir d s l) (hen : Stocked S d s l) (hi : MapIdx (pdx va)) (hS : pdx va ∈ S)
    (hw : present w = true) :
    ∃ s₁ s' l' n, (pgdirWalk d va true).run s = .ok (some (n, ptx va)) s₁ ∧
      (store (n, ptx va) w).run s₁ = .ok () s' ∧ MapDir d s' l' ∧ Stocked S d s' l' ∧ Grown d s s' l l' ∧
      ∀ a, MapIdx (pdx a) → s'.entryAt d a = if pgnum a = pgnum va then some w else s.entryAt d a := by
  obtain ⟨s₁, l', n, hrun, h₁, hen₁, hg, hn, hpte⟩ := h.walk hen hi hS
  obtain ⟨h₂, htab, hpte₂⟩ := h₁.link hn (ptx va) hw
  refine ⟨s₁, _, l', n, hrun, run_store _ _, h₂, hen₁.congr htab, hg.trans ⟨⟨[], rfl⟩, fun i m hm => ?_,
    fun f hf hf' => absurd hf hf', fun f => ?_, ?_⟩, fun a ha => ?_⟩
  · rw [htab]
    exact hm
  · rw [if_neg fun hc => hc.2 hc.1]
    rfl
  · have hnd : d ≠ n := by
      rintro rfl
      exact h₁.tabDir _ hn
    show Function.update s₁.mem n _ d _ = _
    rw [Function.update_of_ne hnd]
  · rw [entryAt_eq ha, entryAt_eq ha, hpte₂, hpte]
    by_cases hc : pgnum a = pgnum va
    · rw [if_pos hc, if_pos ((idx_eq_iff a va).2 hc)]
    · rw [if_neg hc, if_neg fun h' => hc ((idx_eq_iff a va).1 h')]

theorem ofNat_page_succ (k : Nat) : BitVec.ofNat 32 (4096 * k) + pgsize = BitVec.ofNat 32 (4096 * (k + 1)) := by
  rw [Nat.mul_add, BitVec.ofNat_add]
  rfl

theorem pgnum_ofNat_page {k : Nat} (h : k < 2 ^ 20) : pgnum (BitVec.ofNat 32 (4096 * k)) = k := by
  rw [pgnum_eq, BitVec.toNat_ofNat]
  omega

theorem present_flags (pa perm : Word) : present (pa ||| perm ||| pteP) = true := by
  rw [present_eq, BitVec.getLsbD_or, pteP_eq, BitVec.getLsbD_twoPow]
  simp

/-- The loop, by the turns that are left: the pages `P`, .., `P + n - 1` are mapped from `pa` on. -/
theorem MapDir.loop (hsize : size.toNat < 2 ^ 31) (hSM : ∀ i ∈ S, MapIdx i) :
    ∀ (n t P fuel : Nat) (pa : Word) {s : State} {l : List Nat}, MapDir d s l → Stocked S d s l →
      (∀ a, P ≤ pgnum a → pgnum a < P + n → pdx a ∈ S) → t + n = (size.toNat + 4095) / 4096 → n < fuel → P + n ≤ 2 ^ 20 →
      ∃ s' l', (bootMapLoop d size perm fuel (BitVec.ofNat 32 (4096 * t)) (BitVec.ofNat 32 (4096 * P)) pa).run s = .ok () s' ∧
        MapDir d s' l' ∧ Stocked S d s' l' ∧ Grown d s s' l l' ∧
        ∀ a, MapIdx (pdx a) → s'.entryAt d a =
          if P ≤ pgnum a ∧ pgnum a < P + n then some (pa + BitVec.ofNat 32 (4096 * (pgnum a - P)) ||| perm ||| pteP)
          else s.entryAt d a
  | _, _, _, 0, _, _, _, _, _, _, _, hf, _ => absurd hf (Nat.not_lt_zero _)
  | 0, t, P, fuel + 1, pa, s, l, h, hen, _, ht, _, _ => by
    refine ⟨s, l, ?_, h, hen, .refl d s l, fun a _ => ?_⟩
    · unfold bootMapLoop
      rw [if_neg]
      · rfl
      · rw [BitVec.lt_def, BitVec.toNat_ofNat]
        omega
    · rw [if_neg (by omega)]
  | n + 1, t, P, fuel + 1, pa, s, l, h, hen, hS, ht, hf, hP => by
    have hPn : pgnum (BitVec.ofNat 32 (4096 * P)) = P := pgnum_ofNat_page (by omega)
    have hva : pdx (BitVec.ofNat 32 (4096 * P)) ∈ S := hS _ (by omega) (by omega)
    obtain ⟨s₁, s₂, l₁, m, hwalk, hstore, h₁, hen₁, hg₁, hat₁⟩ :=
      h.turn hen (hSM _ hva) hva (present_flags pa perm)
    obtain ⟨s', l', hrun, h', hen', hg', hat'⟩ := MapDir.loop hsize hSM n (t + 1) (P + 1) fuel (pa + pgsize)
      h₁ hen₁ (fun a ha ha' => hS a (by omega) (by omega)) (by omega) (by omega) (by omega)
    refine ⟨s', l', ?_, h', hen', hg₁.trans hg', fun a ha => ?_⟩
    · unfold bootMapLoop
      rw [if_pos, run_bind_ok hwalk]
      · show (store (m, _) _ >>= fun _ => _).run s₁ = _
        rw [run_bind_ok hstore, ofNat_page_succ, ofNat_page_succ]
        exact hrun
      · rw [BitVec.lt_def, BitVec.toNat_ofNat]
        omega
    · rw [hat' a ha, hat₁ a ha, hPn]
      by_cases h0 : pgnum a = P
      · rw [if_neg (by omega), if_pos h0, if_pos (by omega), h0, Nat.sub_self]
        simp
      · by_cases h1 : P + 1 ≤ pgnum a ∧ pgnum a < P + 1 + n
        · have hk : pgnum a - P = pgnum a - (P + 1) + 1 := by omega
          rw [if_pos h1, if_pos (by omega), hk, ← ofNat_page_succ, BitVec.add_assoc, BitVec.add_comm pgsize]
        · rw [if_neg h1, if_neg h0, if_neg (by omega)]

/-! ## `boot_map_region` -/

/-- The pages of `[va, va + size)`, the last one whole. -/
def Within (va size a : Word) : Prop :=
  va.toNat ≤ a.toNat ∧ a.toNat < va.toNat + (size.toNat + 4095) / 4096 * 4096

instance (va size a : Word) : Decidable (Within va size a) :=
  inferInstanceAs (Decidable (_ ∧ _))

/-- `a` translates to the page at `pa`, with the flags `flags`. -/
def State.MapsTo (s : State) (d : Nat) (a pa flags : Word) : Prop :=
  ∃ w, s.entryAt d a = some w ∧ pteAddr w = pa ∧ w &&& 0xFFF#32 = flags

/-- The arguments with which `boot_map_region` may be called: whole pages, and a range that ends with memory at the
latest. -/
structure Mappable (va size pa perm : Word) : Prop where
  vaPage : va.toNat % 4096 = 0
  paPage : pa.toNat % 4096 = 0
  low : LowPerm perm
  lt : size.toNat < 2 ^ 31
  fits : va.toNat + size.toNat ≤ 2 ^ 32

theorem within_iff {a : Word} (h : va.toNat % 4096 = 0) :
    Within va size a ↔ pgnum va ≤ pgnum a ∧ pgnum a < pgnum va + (size.toNat + 4095) / 4096 := by
  unfold Within
  rw [pgnum_eq, pgnum_eq]
  omega

theorem page_offset {a : Word} (h : va.toNat % 4096 = 0) (hle : pgnum va ≤ pgnum a) :
    BitVec.ofNat 32 (4096 * (pgnum a - pgnum va)) = rounddown (a - va) pgsize := by
  rw [pgnum_eq, pgnum_eq] at *
  have hp : pgsize.toNat = 4096 := rfl
  have hle' : va.toNat ≤ a.toNat := by omega
  have hlt := a.isLt
  unfold rounddown
  apply BitVec.eq_of_toNat_eq
  have hsub : (a - va).toNat = a.toNat - va.toNat := by
    rw [BitVec.toNat_sub]
    omega
  rw [BitVec.toNat_ofNat, BitVec.toNat_sub, BitVec.toNat_umod, hsub, hp]
  omega

theorem MapDir.region (h : MapDir d s l) (hen : Stocked S d s l) (hm : Mappable va size pa perm)
    (hSM : ∀ i ∈ S, MapIdx i) (hS : ∀ a, Within va size a → pdx a ∈ S) :
    ∃ s' l', (bootMapRegion d va size pa perm).run s = .ok () s' ∧ MapDir d s' l' ∧ Stocked S d s' l' ∧
      Grown d s s' l l' ∧ ∀ a, MapIdx (pdx a) → s'.entryAt d a =
        if Within va size a then some (pa + rounddown (a - va) pgsize ||| perm ||| pteP) else s.entryAt d a := by
  have hva : BitVec.ofNat 32 (4096 * pgnum va) = va := by
    apply BitVec.eq_of_toNat_eq
    have := hm.vaPage
    have := va.isLt
    rw [BitVec.toNat_ofNat, pgnum_eq]
    omega
  have hend : pgnum va + (size.toNat + 4095) / 4096 ≤ 2 ^ 20 := by
    have := hm.vaPage
    have := hm.fits
    rw [pgnum_eq]
    omega
  have hturns : (size.toNat + 4095) / 4096 < 2 ^ 20 + 1 := by
    have := hm.lt
    omega
  obtain ⟨s', l', hrun, h', hen', hg, hat⟩ := MapDir.loop hm.lt hSM ((size.toNat + 4095) / 4096) 0 (pgnum va)
    (2 ^ 20 + 1) pa h hen (fun a ha ha' => hS a ((within_iff hm.vaPage).2 ⟨ha, ha'⟩)) (Nat.zero_add _) hturns hend
  rw [hva] at hrun
  refine ⟨s', l', hrun, h', hen', hg, fun a ha => ?_⟩
  rw [hat a ha]
  by_cases hc : Within va size a
  · have hc' := (within_iff hm.vaPage).1 hc
    rw [if_pos hc, if_pos hc', page_offset hm.vaPage hc'.1]
  · rw [if_neg hc, if_neg fun hc' => hc ((within_iff hm.vaPage).2 hc')]

theorem pteAddr_entry {x y : Word} (hx : x.toNat % 4096 = 0) (hy : LowPerm y) : pteAddr (x ||| y) = x := by
  apply BitVec.eq_of_toNat_eq
  rw [pteAddr_toNat, pgnum_or, pgnum_low hy, Nat.or_zero, pgnum_eq]
  omega

theorem flags_entry {x y : Word} (hx : x.toNat % 4096 = 0) (hy : LowPerm y) : (x ||| y) &&& 0xFFF#32 = y := by
  have hm : (0xFFF#32).toNat = 2 ^ 12 - 1 := by decide
  have hlt : y.toNat < 4096 := hy
  apply BitVec.eq_of_toNat_eq
  rw [BitVec.toNat_and, hm, Nat.and_two_pow_sub_one_eq_mod, BitVec.toNat_or, Nat.or_mod_two_pow,
    show (2 : Nat) ^ 12 = 4096 from rfl, hx, Nat.zero_or, Nat.mod_eq_of_lt hlt]

theorem low_present {perm : Word} (h : LowPerm perm) : LowPerm (perm ||| pteP) := by
  have hlt : perm.toNat < 2 ^ 12 := h
  show (perm ||| pteP).toNat < 2 ^ 12
  rw [BitVec.toNat_or]
  exact Nat.or_lt_two_pow hlt (by decide)

theorem aligned_offset {x o : Word} (hx : x.toNat % 4096 = 0) : (x + rounddown o pgsize).toNat % 4096 = 0 := by
  have hp : pgsize.toNat = 4096 := rfl
  unfold rounddown
  rw [BitVec.toNat_add, BitVec.toNat_sub, BitVec.toNat_umod, hp]
  have := o.isLt
  omega

/-- What `boot_map_region` writes is the entry of the page with its flags. -/
theorem mapsTo_entry {a x perm : Word} (hx : x.toNat % 4096 = 0) (hp : LowPerm perm)
    (h : s.entryAt d a = some (x ||| perm ||| pteP)) : s.MapsTo d a x (perm ||| pteP) := by
  rw [BitVec.or_assoc] at h
  exact ⟨_, h, pteAddr_entry hx (low_present hp), flags_entry hx (low_present hp)⟩

end Jos
