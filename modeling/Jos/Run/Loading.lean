/-
Filling the address space of a new environment, as `load_icode` does for one segment: `region_alloc` maps new
pages of zeros over the rounded range, and the bytes of the segment are stored through CR3.
-/
import Jos.Kern.Icode
import Jos.Run.Fills
import Jos.User.Overflow

namespace Jos

open Lib Kern

variable {b s s' : State} {M l l' : List Nat} {e : Slot} {d : Nat} {va a : Word} {α β : Type}

/-! ## CR3 stays -/

def SameCr3 (s s' : State) : Prop := (s'.cpus s'.cpunum).cr3 = (s.cpus s.cpunum).cr3

theorem SameCr3.refl (s : State) : SameCr3 s s := rfl

theorem SameCr3.trans {s₁ s₂ s₃ : State} (h : SameCr3 s₁ s₂) (h' : SameCr3 s₂ s₃) : SameCr3 s₁ s₃ := Eq.trans h' h

/-- The program keeps CR3. -/
abbrev KeepsCr3 (x : Kern α) : Prop := Keeps SameCr3 (fun _ => True) x

theorem keepsCr3_bind {x : Kern α} {f : α → Kern β} (hx : KeepsCr3 x) (hf : ∀ a, KeepsCr3 (f a)) : KeepsCr3 (x >>= f) :=
  hx.bind (fun _ _ _ => SameCr3.trans) hf

theorem keepsCr3_pure (a : α) : KeepsCr3 (pure a : Kern α) := .pure SameCr3.refl a

theorem keepsCr3_panic : KeepsCr3 (panic : Kern α) := .throw SameCr3.refl trivial

theorem keepsCr3_modify {f : State → State} (hf : ∀ s, SameCr3 s (f s)) :
    KeepsCr3 (modify f : Kern Unit) := .modify hf

theorem keepsCr3_load (p : Nat × Idx) : KeepsCr3 (load p) := fun _ => .of_ok rfl rfl

theorem keepsCr3_kaddr (pa : Word) : KeepsCr3 (kaddr pa) :=
  .get fun s => (Keeps.ite (fun _ => keepsCr3_panic) fun _ => keepsCr3_pure _) s

theorem keepsCr3_pageAlloc (flags : Word) : KeepsCr3 (pageAlloc flags) := by
  refine .get fun s => ?_
  cases hl : s.pageFreeList with
  | none => exact .of_ok rfl rfl
  | some p =>
    refine KeepsAt.bind (fun _ _ _ => SameCr3.trans) (.of_ok rfl rfl) fun _ s' _ => ?_
    refine (?_ : KeepsCr3 _) s'
    exact .ite (fun _ => keepsCr3_bind (keepsCr3_kaddr _) fun q => keepsCr3_bind (keepsCr3_modify fun _ => rfl) fun _ =>
      keepsCr3_pure _) fun _ => keepsCr3_pure _

theorem keepsCr3_pgdirWalk (pgdir : Nat) (va : Word) (create : Bool) : KeepsCr3 (pgdirWalk pgdir va create) := by
  refine keepsCr3_bind (keepsCr3_load _) fun pde => .ite (fun _ => keepsCr3_bind (keepsCr3_kaddr _) fun _ => keepsCr3_pure _)
    fun _ => .ite (fun _ => keepsCr3_pure _) fun _ => keepsCr3_bind (keepsCr3_pageAlloc _) fun r => ?_
  cases r with
  | none => exact keepsCr3_pure _
  | some p => exact keepsCr3_bind (keepsCr3_modify fun _ => rfl) fun _ => keepsCr3_bind (keepsCr3_kaddr _) fun _ =>
      keepsCr3_bind (keepsCr3_modify fun _ => rfl) fun _ => keepsCr3_pure _

theorem keepsCr3_tlbInvalidate (pgdir : Nat) (va : Word) : KeepsCr3 (tlbInvalidate pgdir va) := fun s =>
  .of_ok (run_tlbInvalidate pgdir va) (tlbInval_cpu s pgdir va).1

theorem keepsCr3_pageDecref (p : Nat) : KeepsCr3 (pageDecref p) := fun s => by
  refine .of_ok (run_pageDecref p) ?_
  unfold State.decref
  split <;> rfl

theorem keepsCr3_pageRemove (pgdir : Nat) (va : Word) : KeepsCr3 (pageRemove pgdir va) := by
  have hlookup : KeepsCr3 (pageLookup pgdir va) := by
    refine keepsCr3_bind (keepsCr3_pgdirWalk _ _ _) fun r => ?_
    cases r with
    | none => exact keepsCr3_pure _
    | some p => exact keepsCr3_bind (keepsCr3_load _) fun _ => .ite (fun _ => keepsCr3_bind (keepsCr3_kaddr _) fun _ =>
        keepsCr3_pure _) fun _ => keepsCr3_pure _
  refine keepsCr3_bind hlookup fun r => ?_
  rcases r with ⟨_ | p, _ | q⟩
  · exact keepsCr3_pure _
  · exact keepsCr3_pure _
  · exact keepsCr3_pure _
  · exact keepsCr3_bind (keepsCr3_pageDecref _) fun _ => keepsCr3_bind (keepsCr3_tlbInvalidate _ _) fun _ =>
      keepsCr3_modify fun _ => rfl

theorem keepsCr3_pageInsert (pgdir pp : Nat) (va perm : Word) : KeepsCr3 (pageInsert pgdir pp va perm) := by
  refine keepsCr3_bind (keepsCr3_pgdirWalk _ _ _) fun r => ?_
  cases r with
  | none => exact keepsCr3_pure _
  | some pte =>
    have hlast : KeepsCr3 (do
        modify fun s => s.setRef pp ((s.pages pp).ppRef + 1#16)
        store pte (page2pa pp ||| perm ||| pteP)
        return 0 : Kern Int) :=
      keepsCr3_bind (keepsCr3_modify fun _ => rfl) fun _ => keepsCr3_bind (keepsCr3_modify fun _ => rfl) fun _ => keepsCr3_pure _
    refine keepsCr3_bind (keepsCr3_load _) fun old => .ite (fun _ => .ite (fun _ => ?_) fun _ => ?_) fun _ => hlast
    · exact keepsCr3_bind (keepsCr3_modify fun _ => rfl) fun _ => keepsCr3_bind (keepsCr3_tlbInvalidate _ _) fun _ => hlast
    · exact keepsCr3_bind (keepsCr3_pageRemove _ _) fun _ => hlast

/-! ## The memory of an environment -/

/-- The byte at `a` of the address space of `e`. -/
def State.userByte (s : State) (e : Slot) (a : Word) : Option (BitVec 8) :=
  (s.pte e (pdx a) (ptx a)).map fun w => getByte (s.mem (pgnum w) (Fin.ofNat 1024 (a.toNat / 4 % 1024))) (a.toNat % 4)

/-- The address space of `e` is being filled with pages of its own: each has one mapping, which lets the user
write. The pages `l` are free. -/
structure Loading (b : State) (M : List Nat) (e : Slot) (d : Nat) (l : List Nat) (s : State) : Prop where
  sane : Sane b M s
  dir : s.dir e = some d
  free : FreeList s l
  once : ∀ i j i' j' w w', s.pte e i j = some w → s.pte e i' j' = some w' → pgnum w = pgnum w' → i' = i ∧ j' = j
  entry : ∀ i j w, s.pte e i j = some w → ∃ p, w = entry p (pteW ||| pteU)

theorem Loading.inv (h : Loading b M e d l s) : (∃ le, Inv (· = ·) b M s l le) ∧ Genuine s := by
  obtain ⟨⟨l', le, hi⟩, hg⟩ := h.sane
  cases hi.toFreePages.unique h.free
  exact ⟨⟨le, hi⟩, hg⟩

theorem entry_writable (p : Nat) : entry p (pteW ||| pteU) &&& pteW ≠ 0#32 := by
  have hw : entry p (pteW ||| pteU) &&& pteW = pteW := by
    unfold entry
    rw [BitVec.or_assoc]
    exact or_and_of_and (by decide)
  rw [hw]
  decide

theorem entry_user (p : Nat) : entry p (pteW ||| pteU) &&& (pteP ||| pteU ||| pteW) = pteP ||| pteU ||| pteW := by
  unfold entry
  rw [BitVec.or_assoc]
  exact or_and_of_and (by decide)

theorem Loading.translate (h : Loading b M e d l s) (hc : (s.cpus s.cpunum).cr3 = page2pa d) (ha : a < utop) {w : Word}
    (hw : s.pte e (pdx a) (ptx a) = some w) :
    s.translate a = some (pgnum w, Fin.ofNat 1024 (a.toNat / 4 % 1024)) := by
  obtain ⟨p, rfl⟩ := h.entry _ _ _ hw
  exact (loaded_translate_iff ⟨h.sane, h.dir, hc⟩ ha).2 ⟨_, hw, entry_writable p, rfl⟩

/-- What a loop that fills the address space leaves as it was, apart from the bytes `f`. -/
structure Wrote (b : State) (M : List Nat) (e : Slot) (d : Nat) (l : List Nat) (s s' : State)
    (f : Word → Option (BitVec 8)) : Prop where
  loading : Loading b M e d l s'
  pte : s'.pte = s.pte
  tab : s'.tab = s.tab
  rest : Rest s s'
  cr3 : SameCr3 s s'
  bytes : ∀ a, s'.userByte e a = f a

/-- A store to a mapped address changes one byte. -/
theorem Loading.storeByte (h : Loading b M e d l s) (hc : (s.cpus s.cpunum).cr3 = page2pa d) (ha : a < utop)
    (hm : s.userByte e a ≠ none) (x : BitVec 8) :
    ∃ s', (storeByte a x).run s = .ok () s' ∧ Wrote b M e d l s s' fun c => if c = a then some x else s.userByte e c := by
  obtain ⟨w, hw⟩ : ∃ w, s.pte e (pdx a) (ptx a) = some w := by
    unfold State.userByte at hm
    cases hp : s.pte e (pdx a) (ptx a) with
    | none => rw [hp] at hm; exact absurd rfl hm
    | some w => exact ⟨w, rfl⟩
  have ht := h.translate hc ha hw
  have hst := stored_setWord ⟨h.sane, h.dir, hc⟩ ha ht
    (setByte (s.mem (pgnum w) (Fin.ofNat 1024 (a.toNat / 4 % 1024))) (a.toNat % 4) x)
  obtain ⟨⟨le, hi⟩, hg⟩ := h.inv
  have hns : ¬ s.Struct (pgnum w) := ((hi.leafM _ _ _ _ hw).resolve_right fun hge => hg e ⟨_, _, w, hw, hge⟩).2
  have htab : (s.setWord (pgnum w) (Fin.ofNat 1024 (a.toNat / 4 % 1024))
      (setByte (s.mem (pgnum w) (Fin.ofNat 1024 (a.toNat / 4 % 1024))) (a.toNat % 4) x)).tab = s.tab := tab_setMem_other hns _
  refine ⟨_, run_storeByte ht x, ⟨hst.loaded.1, hst.loaded.2.1, h.free, by rw [hst.pte]; exact h.once,
    by rw [hst.pte]; exact h.entry⟩, hst.pte,
    htab, hst.rest, rfl, fun c => ?_⟩
  unfold State.userByte
  rw [hst.pte]
  show Option.map (fun v => getByte (Function.update s.mem (pgnum w) (Function.update (s.mem (pgnum w)) _ _) (pgnum v) _) _) _ = _
  cases hc : s.pte e (pdx c) (ptx c) with
  | none =>
    rw [if_neg]
    · rfl
    · rintro rfl
      rw [hw] at hc
      cases hc
  | some v =>
    rw [Option.map_some, Option.map_some]
    -- the page of `a` changes in one word, and in that word in one byte
    by_cases hpg : pgnum c = pgnum a
    · obtain ⟨hi', hj⟩ := (idx_eq_iff c a).2 hpg
      rw [hi', hj, hw] at hc
      cases hc
      rw [pgnum_eq, pgnum_eq] at hpg
      rw [Function.update_self]
      by_cases hidx : c.toNat / 4 % 1024 = a.toNat / 4 % 1024
      · rw [hidx, Function.update_self, getByte_setByte (by omega)]
        by_cases hca : c = a
        · rw [if_pos (by rw [hca]), if_pos hca]
        · have hne : ¬ c.toNat % 4 = a.toNat % 4 := fun hk => hca (BitVec.eq_of_toNat_eq (by omega))
          rw [if_neg hne, if_neg hca]
      · have hca : c ≠ a := fun hca => hidx (by rw [hca])
        have hfin : (Fin.ofNat 1024 (c.toNat / 4 % 1024) : Idx) ≠ Fin.ofNat 1024 (a.toNat / 4 % 1024) := by
          intro hf
          have := congrArg Fin.val hf
          simp at this
          omega
        rw [Function.update_of_ne hfin, if_neg hca]
    · -- another page is another frame
      have hne : pgnum v ≠ pgnum w := by
        intro hvw
        obtain ⟨hi', hj⟩ := h.once _ _ _ _ v w hc hw hvw
        exact hpg ((idx_eq_iff c a).1 ⟨hi'.symm, hj.symm⟩)
      have hca : c ≠ a := fun hca => hpg (by rw [hca])
      rw [Function.update_of_ne hne, if_neg hca]

/-- A run of stores from `va` on, all of them to mapped addresses. -/
theorem Loading.storeBytes (h : Loading b M e d l s) (hc : (s.cpus s.cpunum).cr3 = page2pa d) (va : Word)
    (src : Nat → BitVec 8) : ∀ n : Nat, n ≤ 2 ^ 32 →
    (∀ k < n, va + BitVec.ofNat 32 k < utop ∧ s.userByte e (va + BitVec.ofNat 32 k) ≠ none) →
    ∃ s', (storeBytes va n src).run s = .ok () s' ∧
      Wrote b M e d l s s' fun c => if (c - va).toNat < n then some (src (c - va).toNat) else s.userByte e c
  | 0, _, _ => ⟨s, rfl, h, rfl, rfl, .refl s, rfl, fun c => by rw [if_neg (by omega)]⟩
  | n + 1, hn, hm => by
    obtain ⟨s₁, hrun₁, h₁⟩ := h.storeBytes hc va src n (by omega) fun k hk => hm k (by omega)
    obtain ⟨hlt, hmap⟩ := hm n (by omega)
    have hmap₁ : s₁.userByte e (va + BitVec.ofNat 32 n) ≠ none := by
      rw [h₁.bytes]
      split
      · simp
      · exact hmap
    obtain ⟨s₂, hrun₂, h₂⟩ := h₁.loading.storeByte (Eq.trans h₁.cr3 hc) hlt hmap₁ (src n)
    refine ⟨s₂, ?_, h₂.loading, h₂.pte.trans h₁.pte, h₂.tab.trans h₁.tab, h₁.rest.trans h₂.rest, h₁.cr3.trans h₂.cr3, fun c => ?_⟩
    · unfold Jos.storeBytes at hrun₁ ⊢
      rw [List.forM_eq_forM] at hrun₁ ⊢
      rw [List.range_succ, List.forM_append, run_bind_ok hrun₁, List.forM_cons, run_bind_ok hrun₂]
      rfl
    · rw [h₂.bytes, h₁.bytes]
      have hoff : c = va + BitVec.ofNat 32 n ↔ (c - va).toNat = n := by
        rw [← BitVec.toNat_inj, BitVec.toNat_add, BitVec.toNat_sub, BitVec.toNat_ofNat]
        have := c.isLt
        have := va.isLt
        omega
      by_cases hc : (c - va).toNat = n
      · rw [if_pos (hoff.2 hc), if_pos (by omega), hc]
      · rw [if_neg fun h => hc (hoff.1 h)]
        refine if_congr ⟨fun _ => by omega, fun _ => by omega⟩ rfl rfl

/-! ## New pages -/

/-- How many pages `page_alloc` is asked for to map the addresses in turn: one for each, and one for a page table
that is not there yet. -/
def framesFor : (Idx → Bool) → List Word → Nat
  | _, [] => 0
  | has, a :: as => (if has (pdx a) then 1 else 2) + framesFor (Function.update has (pdx a) true) as

/-- The user indices of `e` that have a page table. -/
def State.tabled (s : State) (e : Slot) : Idx → Bool := fun i => (s.tab e i).isSome

/-- New pages were mapped: there are still enough pages for the addresses `rest`. -/
structure Mapped (b : State) (M : List Nat) (e : Slot) (d : Nat) (s s' : State) (rest : List Word)
    (f : Word → Option (BitVec 8)) : Prop where
  loading : ∃ l', Loading b M e d l' s' ∧ framesFor (s'.tabled e) rest ≤ l'.length
  rest : Rest s s'
  cr3 : SameCr3 s s'
  bytes : ∀ a, s'.userByte e a = f a

theorem getByte_zero (k : Nat) : getByte 0#32 k = 0#8 := by
  unfold getByte
  simp

/-- A page leaves the free list only to be mapped, or to become the page table. -/
theorem Remap.left_free {i j : Idx} {p f : Nat} {w : Word} (h : Remap s s' l l' e i j (some w)) (hv : Vm b M s l)
    (hc : Counts (· = ·) M l' none s') (hw : dec w = some p) (hp : p ∉ l) (hf : f ∈ l) (hf' : f ∉ l') :
    s.tab e i = none ∧ s'.tab e i = some f := by
  obtain ⟨h1, h2⟩ := hc f ⟨hv.freeM f hf, hf', by simp⟩
  have hne : refs s'.cell f ≠ 0 := by
    unfold State.ref at h1 h2
    omega
  obtain ⟨c, hcell⟩ : ∃ c, s'.cell c = some f := by
    by_contra hno
    exact hne (refs_eq_zero.2 fun c hcf => hno ⟨c, hcf⟩)
  have hfree := hv.freeCell f hf
  cases c with
  | root e' =>
    rw [cell_root, h.rest.dir] at hcell
    exact absurd hcell (hfree (.root e'))
  | node e' i' =>
    rw [cell_node] at hcell
    by_cases hold : s.tab e' i' ≠ none ∨ ¬ (e' = e ∧ i' = i)
    · rw [h.tab e' i' hold] at hcell
      exact absurd hcell (hfree (.node e' i'))
    · rw [not_or, not_not, not_not] at hold
      obtain ⟨hnone, rfl, rfl⟩ := hold
      exact ⟨hnone, hcell⟩
  | leaf e' i' j' =>
    rw [cell_leaf, h.pte] at hcell
    split at hcell
    · rw [Option.bind_some, hw] at hcell
      cases hcell
      exact absurd hf hp
    · exact absurd hcell (hfree (.leaf e' i' j'))

theorem lowPerm_wu : LowPerm (pteW ||| pteU) := by decide

/-- `page_insert` has mapped page `p`, which `page_alloc` took off the free list and cleared, at the page of `a`. -/
structure Turn (b : State) (M : List Nat) (e : Slot) (a : Word) (p : Nat) (l l' : List Nat) (s s' : State) : Prop where
  taken : Taken b M (· = ·) s (s.take 1#32 p) l p
  remap : Remap (s.take 1#32 p) s' l l' e (pdx a) (ptx a) (some (Jos.entry p (pteW ||| pteU)))
  vm : Vm b M s' l'
  counts : Counts (· = ·) M l' none s'

theorem Turn.pte_new {p : Nat} (ht : Turn b M e a p l l' s s') :
    s'.pte e (pdx a) (ptx a) = some (Jos.entry p (pteW ||| pteU)) := by
  rw [ht.remap.pte, if_pos ⟨rfl, rfl, rfl⟩]

theorem Turn.pte_other {p : Nat} (ht : Turn b M e a p l l' s s') {i j : Idx} (hij : ¬ (i = pdx a ∧ j = ptx a)) :
    s'.pte e i j = s.pte e i j := by
  rw [ht.remap.pte, if_neg fun hc => hij hc.2, ht.taken.pte]

/-- The page tables that there are: the one of the page, and those there were. -/
theorem Turn.tabled {p : Nat} (ht : Turn b M e a p l l' s s') : s'.tabled e = Function.update (s.tabled e) (pdx a) true := by
  funext i
  unfold State.tabled
  by_cases hia : i = pdx a
  · obtain ⟨n, hn, -⟩ := pte_eq_some.1 ht.pte_new
    rw [hia, Function.update_self, hn]
    rfl
  · rw [Function.update_of_ne hia, ht.remap.tab e i (Or.inr fun hc => hia hc.2), ht.taken.tab]

/-- The page at the head of the free list is mapped nowhere. -/
theorem Loading.head {p : Nat} (h : Loading b M e d (p :: l) s) : p ∈ M ∧ p ∉ l ∧ pgnum (Jos.entry p (pteW ||| pteU)) = p ∧
    ∀ i j w, s.pte e i j = some w → pgnum w ≠ p := by
  obtain ⟨⟨le, hi⟩, -⟩ := h.inv
  have hpl : p ∈ p :: l := List.mem_cons_self ..
  have hM := hi.freeM p hpl
  exact ⟨hM, (List.nodup_cons.1 hi.nodup).1, pgnum_entry_low (hi.lt_pow hM) lowPerm_wu,
    fun i j w hw hp => hi.freeCell p hpl _ (cell_leaf_eq_some.2 ⟨w, hw, hp⟩)⟩

section Turn

variable {p : Nat} (h : Loading b M e d (p :: l) s) (ht : Turn b M e a p l l' s s')
include h ht

theorem Turn.loading : Loading b M e d l' s' := by
  obtain ⟨hM, -, hpg, hfresh⟩ := h.head
  obtain ⟨⟨le, hi⟩, hg⟩ := h.inv
  have hr := ht.taken.rest.trans ht.remap.rest
  have hpte : s'.pte = (Event.inserted e p a (pteW ||| pteU)).apply s.pte := by
    funext e' i j
    rw [ht.remap.pte, ht.taken.pte]
    rfl
  have hsane : Sane b M s' := by
    refine sane_of ht.vm ((hi.toEnvTable.rest ht.taken.rest).rest ht.remap.rest) ht.counts ?_
    refine hg.apply hi.managed hr.npages hpte fun e' pp va' perm' hev => ?_
    cases hev
    exact ⟨hM, lowPerm_wu⟩
  refine ⟨hsane, by rw [hr.dir]; exact h.dir, ht.vm.chain, fun i j i' j' w w' hw hw' heq => ?_, fun i j w hw => ?_⟩
  · -- the new page has no mapping but the new one
    by_cases h1 : i = pdx a ∧ j = ptx a
    · by_cases h2 : i' = pdx a ∧ j' = ptx a
      · exact ⟨h2.1.trans h1.1.symm, h2.2.trans h1.2.symm⟩
      · rw [h1.1, h1.2, ht.pte_new] at hw
        cases hw
        rw [ht.pte_other h2] at hw'
        rw [hpg] at heq
        exact absurd heq.symm (hfresh _ _ _ hw')
    · rw [ht.pte_other h1] at hw
      by_cases h2 : i' = pdx a ∧ j' = ptx a
      · rw [h2.1, h2.2, ht.pte_new] at hw'
        cases hw'
        rw [hpg] at heq
        exact absurd heq (hfresh _ _ _ hw)
      · rw [ht.pte_other h2] at hw'
        exact h.once _ _ _ _ _ _ hw hw' heq
  · by_cases h1 : i = pdx a ∧ j = ptx a
    · rw [h1.1, h1.2, ht.pte_new] at hw
      cases hw
      exact ⟨p, rfl⟩
    · rw [ht.pte_other h1] at hw
      exact h.entry _ _ _ hw

/-- The pages that left the free list are the new page and perhaps its table. -/
theorem Turn.enough {rest : List Word} (hen : framesFor (s.tabled e) (a :: rest) ≤ (p :: l).length) :
    framesFor (s'.tabled e) rest ≤ l'.length := by
  obtain ⟨hM, hnl, -, -⟩ := h.head
  obtain ⟨⟨le, hi⟩, -⟩ := h.inv
  have hdec := dec_entry_low (hi.lt_pow hM) lowPerm_wu
  have hnd := (List.nodup_cons.1 hi.nodup).2
  unfold framesFor at hen
  rw [List.length_cons] at hen
  rw [ht.tabled]
  cases htb : s.tabled e (pdx a) with
  | true =>
    rw [htb, if_pos rfl] at hen
    have hsub : l ⊆ l' := by
      intro f hf
      by_contra hf'
      obtain ⟨hnone, -⟩ := ht.remap.left_free ht.taken.vm ht.counts hdec hnl hf hf'
      rw [ht.taken.tab] at hnone
      unfold State.tabled at htb
      rw [hnone] at htb
      cases htb
    have := (List.subperm_of_subset hnd hsub).length_le
    omega
  | false =>
    rw [htb, if_neg (by simp)] at hen
    obtain ⟨n, hn, -⟩ := pte_eq_some.1 ht.pte_new
    have hsub : l ⊆ n :: l' := by
      intro f hf
      by_cases hf' : f ∈ l'
      · exact List.mem_cons_of_mem _ hf'
      · obtain ⟨-, hsome⟩ := ht.remap.left_free ht.taken.vm ht.counts hdec hnl hf hf'
        rw [hn] at hsome
        cases hsome
        exact List.mem_cons_self ..
    have := (List.subperm_of_subset hnd hsub).length_le
    rw [List.length_cons] at this
    omega

theorem Turn.bytes (c : Word) : s'.userByte e c = if pgnum c = pgnum a then some 0#8 else s.userByte e c := by
  obtain ⟨-, hnl, hpg, hfresh⟩ := h.head
  obtain ⟨⟨le, hi⟩, hg⟩ := h.inv
  have hst : ∀ f, ¬ s.Struct f → ¬ (s.take 1#32 p).Struct f := by
    intro f hf
    rw [struct_congr ht.taken.tab ht.taken.rest.dir]
    exact hf
  unfold State.userByte
  by_cases hca : pgnum c = pgnum a
  · obtain ⟨hi', hj⟩ := (idx_eq_iff c a).2 hca
    rw [if_pos hca, hi', hj, ht.pte_new, Option.map_some, hpg,
      ht.remap.mem p hnl (hst p (hi.free_not_struct (List.mem_cons_self ..)))]
    unfold State.take
    rw [if_pos (by decide)]
    show some (getByte (Function.update s.mem p (fun _ => 0#32) p _) _) = _
    rw [Function.update_self, getByte_zero]
  · rw [if_neg hca, ht.pte_other fun hc => hca ((idx_eq_iff c a).1 hc)]
    cases hw : s.pte e (pdx c) (ptx c) with
    | none => rfl
    | some w =>
      -- a page mapped before was neither free nor a table
      obtain ⟨-, hnsw⟩ := (hi.leafM _ _ _ _ hw).resolve_right fun hge => hg e ⟨_, _, w, hw, hge⟩
      have hwl : pgnum w ∉ l := fun hl =>
        hi.freeCell _ (List.mem_cons_of_mem _ hl) _ (cell_leaf_eq_some.2 ⟨w, hw, rfl⟩)
      rw [Option.map_some, Option.map_some, ht.remap.mem _ hwl (hst _ hnsw), ht.taken.mem _ (hfresh _ _ _ hw)]

end Turn

/-- A turn of `region_alloc` maps a new page of zeros at the page of `a`. -/
theorem Loading.page (h : Loading b M e d l s) (ha : a < utop) {rest : List Word}
    (hen : framesFor (s.tabled e) (a :: rest) ≤ l.length) :
    ∃ s', (regionAllocPage e a).run s = .ok () s' ∧
      Mapped b M e d s s' rest fun c => if pgnum c = pgnum a then some 0#8 else s.userByte e c := by
  obtain ⟨⟨le, hi⟩, hg⟩ := h.inv
  cases l with
  | nil =>
    unfold framesFor at hen
    split at hen <;> simp at hen
  | cons p l =>
    have hpl : p ∈ p :: l := List.mem_cons_self ..
    have hM := hi.freeM p hpl
    have hnl := (List.nodup_cons.1 hi.nodup).1
    have ht := take_spec hi.toVm hi.counts 1#32
    have hd₁ : (s.take 1#32 p).dir e = some d := by rw [ht.rest.dir]; exact h.dir
    have hns : ¬ (s.take 1#32 p).Struct p := by
      rw [struct_congr ht.tab ht.rest.dir]; exact hi.free_not_struct hpl
    have hin := insert_spec countRel_eq ht.vm ht.counts hd₁ ha hM hnl hns (Or.inl lowPerm_wu) ht.linkable
    have hcr3 := (keepsCr3_pageInsert d p a (pteW ||| pteU) (s.take 1#32 p)).state
    have hstart : (regionAllocPage e a).run s = (do
        let _ ← pageInsert d p a (pteW ||| pteU)
        return () : Kern Unit).run (s.take 1#32 p) := by
      unfold regionAllocPage
      rw [run_bind_ok (pageAlloc_take hi.chain.1 (hi.managed p hM) 1#32)]
      exact run_pgdir hd₁ fun pgdir => do
        let _ ← pageInsert pgdir p a (pteW ||| pteU)
        return ()
    generalize hrun : (pageInsert d p a (pteW ||| pteU)).run (s.take 1#32 p) = r at hin hcr3
    cases hin with
    | noMem htab hnil =>
      -- there was a second free page for the table
      subst hnil
      unfold framesFor State.tabled at hen
      rw [ht.tab] at htab
      rw [htab] at hen
      simp only [Option.isSome_none, Bool.false_eq_true, if_false, List.length_singleton] at hen
      omega
    | panic s' old ho hn =>
      rw [ht.pte] at ho
      rw [ht.rest.npages] at hn
      exact absurd ⟨_, _, old, ho, hn⟩ (hg e)
    | done s₁ l₁ hv hc hrm =>
      have hroom : Room (s.take 1#32 p) p (.leaf e (pdx a) (ptx a)) := by
        obtain hk | ⟨-, h0, -⟩ := ht.linkable
        · cases hk
        · exact Or.inl (by omega)
      have hturn : Turn b M e a p l l₁ s s₁ := ⟨ht, hrm, hv, hc hroom⟩
      have hsame : SameCr3 s (s.take 1#32 p) := by
        unfold State.take
        split <;> rfl
      refine ⟨s₁, ?_, ⟨l₁, hturn.loading h, hturn.enough h hen⟩, ht.rest.trans hrm.rest, hsame.trans hcr3, hturn.bytes h⟩
      rw [hstart, run_bind_ok hrun]
      rfl

/-- `region_alloc` maps new pages of zeros over its range. -/
theorem Loading.pages : ∀ (as : List Word) {l : List Nat} {s : State} {rest : List Word}, Loading b M e d l s →
    (∀ a ∈ as, a < utop) → framesFor (s.tabled e) (as ++ rest) ≤ l.length →
    ∃ s', (as.forM (regionAllocPage e)).run s = .ok () s' ∧
      Mapped b M e d s s' rest fun c => if ∃ a ∈ as, pgnum c = pgnum a then some 0#8 else s.userByte e c
  | [], l, s, rest, h, _, hen => ⟨s, rfl, ⟨l, h, hen⟩, .refl s, rfl, fun c => by simp⟩
  | a :: as, l, s, rest, h, hlt, hen => by
    obtain ⟨s₁, hrun₁, ⟨l₁, h₁, hen₁⟩, hr₁, hc₁, hb₁⟩ := h.page (hlt a (List.mem_cons_self ..))
      (show framesFor (s.tabled e) (a :: (as ++ rest)) ≤ l.length from hen)
    obtain ⟨s₂, hrun₂, h₂, hr₂, hc₂, hb₂⟩ := Loading.pages as h₁ (fun a ha => hlt a (List.mem_cons_of_mem _ ha)) hen₁
    refine ⟨s₂, ?_, h₂, hr₁.trans hr₂, hc₁.trans hc₂, fun c => ?_⟩
    · rw [List.forM_eq_forM] at hrun₂ ⊢
      rw [List.forM_cons, run_bind_ok hrun₁, hrun₂]
    · rw [hb₂, hb₁]
      by_cases hex : ∃ x ∈ as, pgnum c = pgnum x
      · obtain ⟨x, hx, hcx⟩ := hex
        rw [if_pos ⟨x, hx, hcx⟩, if_pos ⟨x, List.mem_cons_of_mem _ hx, hcx⟩]
      · rw [if_neg hex]
        refine if_congr ⟨fun hca => ⟨a, List.mem_cons_self .., hca⟩, ?_⟩ rfl rfl
        rintro ⟨x, hx, hcx⟩
        rcases List.mem_cons.1 hx with rfl | hx
        · exact hcx
        · exact absurd ⟨x, hx, hcx⟩ hex

/-! ## One segment -/

/-- The page of `a` is in the rounded range of `len` bytes at `va`. -/
def Covers (va len : Word) (a : Word) : Prop :=
  va.toNat / 4096 ≤ pgnum a ∧ pgnum a < (va.toNat + len.toNat + 4095) / 4096

instance (va len a : Word) : Decidable (Covers va len a) := inferInstanceAs (Decidable (_ ∧ _))

theorem rounddown_toNat (va : Word) : (rounddown va pgsize).toNat = va.toNat / 4096 * 4096 := by
  have hp : pgsize.toNat = 4096 := rfl
  have hmod : (va % pgsize).toNat = va.toNat % 4096 := by rw [BitVec.toNat_umod, hp]
  unfold rounddown
  rw [BitVec.toNat_sub, hmod]
  have := va.isLt
  omega

theorem roundup_toNat {va len : Word} (h : va.toNat + len.toNat ≤ ustacktop.toNat) :
    (roundup (va + len) pgsize).toNat = (va.toNat + len.toNat + 4095) / 4096 * 4096 := by
  have hu : ustacktop.toNat = 0xeebfe000 := by decide
  unfold roundup
  rw [rounddown_toNat, BitVec.toNat_sub, BitVec.toNat_add, BitVec.toNat_add, show pgsize.toNat = 4096 from rfl,
    show (1#32).toNat = 1 from rfl]
  omega

section Region

variable {len : Word} (h : va.toNat + len.toNat ≤ ustacktop.toNat)
include h

theorem mem_regionPages {x : Word} : x ∈ regionPages va len ↔
    ∃ k, k < (va.toNat + len.toNat + 4095) / 4096 - va.toNat / 4096 ∧ x.toNat = (va.toNat / 4096 + k) * 4096 := by
  have hu : ustacktop.toNat = 0xeebfe000 := by decide
  unfold regionPages
  simp only [List.mem_map, List.mem_range]
  rw [roundup_toNat h, rounddown_toNat]
  have hx : ∀ k, k < (va.toNat + len.toNat + 4095) / 4096 - va.toNat / 4096 →
      (rounddown va pgsize + BitVec.ofNat 32 (4096 * k)).toNat = (va.toNat / 4096 + k) * 4096 := by
    intro k hk
    rw [BitVec.toNat_add, rounddown_toNat, BitVec.toNat_ofNat]
    omega
  constructor
  · rintro ⟨k, hk, rfl⟩
    have hk' : k < (va.toNat + len.toNat + 4095) / 4096 - va.toNat / 4096 := by omega
    exact ⟨k, hk', hx k hk'⟩
  · rintro ⟨k, hk, hxk⟩
    exact ⟨k, by omega, BitVec.eq_of_toNat_eq ((hx k hk).trans hxk.symm)⟩

theorem covers_iff {c : Word} : (∃ x ∈ regionPages va len, pgnum c = pgnum x) ↔ Covers va len c := by
  unfold Covers
  constructor
  · rintro ⟨x, hx, hc⟩
    obtain ⟨k, hk, hxk⟩ := (mem_regionPages h).1 hx
    rw [hc, pgnum_eq, hxk]
    omega
  · rintro ⟨h1, h2⟩
    have hu : ustacktop.toNat = 0xeebfe000 := by decide
    refine ⟨BitVec.ofNat 32 (pgnum c * 4096), (mem_regionPages h).2 ⟨pgnum c - va.toNat / 4096, by omega, ?_⟩, ?_⟩
    · rw [BitVec.toNat_ofNat]
      omega
    · rw [pgnum_eq (BitVec.ofNat 32 _), BitVec.toNat_ofNat]
      omega

theorem regionPages_lt {x : Word} (hx : x ∈ regionPages va len) : x < utop := by
  have hu : ustacktop.toNat = 0xeebfe000 := by decide
  have hut : utop.toNat = 0xeec00000 := utop_toNat
  obtain ⟨k, hk, hxk⟩ := (mem_regionPages h).1 hx
  rw [BitVec.lt_def]
  omega

theorem covers_offset {k : Nat} (hk : k < len.toNat) :
    Covers va len (va + BitVec.ofNat 32 k) ∧ va + BitVec.ofNat 32 k < utop := by
  have hu : ustacktop.toNat = 0xeebfe000 := by decide
  have hut : utop.toNat = 0xeec00000 := utop_toNat
  have hv : (va + BitVec.ofNat 32 k).toNat = va.toNat + k := by
    rw [BitVec.toNat_add, BitVec.toNat_ofNat]
    omega
  unfold Covers
  rw [pgnum_eq, BitVec.lt_def, hv]
  omega

end Region

/-- What a segment of the image writes over memory `m`. -/
def segView (binary : Bytes) (ph : Proghdr) (m : Word → Option (BitVec 8)) (c : Word) : Option (BitVec 8) :=
  if (c - ph.pVa).toNat < ph.pFilesz.toNat then some (binary (ph.pOffset + BitVec.ofNat 32 (c - ph.pVa).toNat))
  else if Covers ph.pVa ph.pMemsz c then some 0#8 else m c

/-- The segment ends below the stack page, and its part of the file is no longer than it is. -/
structure Proghdr.Fits (ph : Proghdr) : Prop where
  below : ph.pVa.toNat + ph.pMemsz.toNat ≤ (ustacktop - pgsize).toNat
  filesz : ph.pFilesz.toNat ≤ ph.pMemsz.toNat

theorem Proghdr.Fits.le {ph : Proghdr} (h : ph.Fits) : ph.pVa.toNat + ph.pMemsz.toNat ≤ ustacktop.toNat := by
  have hu : ustacktop.toNat = 0xeebfe000 := by decide
  have hp : (ustacktop - pgsize).toNat = 0xeebfd000 := by decide
  have := h.below
  omega

theorem Loading.segment (h : Loading b M e d l s) (hc : (s.cpus s.cpunum).cr3 = page2pa d) (binary : Bytes) {ph : Proghdr}
    (hl : ph.pType = elfProgLoad) (hf : ph.Fits) {rest : List Word}
    (hen : framesFor (s.tabled e) (regionPages ph.pVa ph.pMemsz ++ rest) ≤ l.length) :
    ∃ s', (loadSegment e binary ph).run s = .ok () s' ∧ Mapped b M e d s s' rest (segView binary ph (s.userByte e)) := by
  obtain ⟨s₁, hrun₁, ⟨l₁, h₁, hen₁⟩, hr₁, hc₁, hb₁⟩ := h.pages _ (fun a ha => regionPages_lt hf.le ha) hen
  have hmap : ∀ k < ph.pMemsz.toNat, ph.pVa + BitVec.ofNat 32 k < utop ∧ s₁.userByte e (ph.pVa + BitVec.ofNat 32 k) ≠ none := by
    intro k hk
    obtain ⟨hcov, hlt⟩ := covers_offset hf.le hk
    refine ⟨hlt, ?_⟩
    rw [hb₁, if_pos ((covers_iff hf.le).2 hcov)]
    simp
  obtain ⟨s₂, hrun₂, h₂⟩ := h₁.storeBytes (Eq.trans hc₁ hc) ph.pVa (fun _ => 0#8) ph.pMemsz.toNat
    (Nat.le_of_lt ph.pMemsz.isLt) hmap
  have hmap₂ : ∀ k < ph.pFilesz.toNat, ph.pVa + BitVec.ofNat 32 k < utop ∧ s₂.userByte e (ph.pVa + BitVec.ofNat 32 k) ≠ none := by
    intro k hk
    obtain ⟨hlt, hne⟩ := hmap k (by have := hf.filesz; omega)
    refine ⟨hlt, ?_⟩
    rw [h₂.bytes]
    split
    · simp
    · exact hne
  obtain ⟨s₃, hrun₃, h₃⟩ := h₂.loading.storeBytes (Eq.trans h₂.cr3 (Eq.trans hc₁ hc)) ph.pVa
    (fun k => binary (ph.pOffset + BitVec.ofNat 32 k)) ph.pFilesz.toNat (Nat.le_of_lt ph.pFilesz.isLt) hmap₂
  refine ⟨s₃, ?_, ⟨l₁, h₃.loading, ?_⟩, hr₁.trans (h₂.rest.trans h₃.rest), hc₁.trans (h₂.cr3.trans h₃.cr3), fun c => ?_⟩
  · unfold loadSegment regionAlloc memset memmove
    rw [if_pos hl, run_bind_ok hrun₁, run_bind_ok hrun₂, hrun₃]
  · unfold State.tabled at hen₁ ⊢
    rw [h₃.tab, h₂.tab]
    exact hen₁
  · rw [h₃.bytes, h₂.bytes, hb₁]
    unfold segView
    by_cases h1 : (c - ph.pVa).toNat < ph.pFilesz.toNat
    · rw [if_pos h1, if_pos h1]
    rw [if_neg h1, if_neg h1]
    by_cases h2 : (c - ph.pVa).toNat < ph.pMemsz.toNat
    · have hcov := (covers_offset hf.le h2).1
      have heq : ph.pVa + BitVec.ofNat 32 (c - ph.pVa).toNat = c := by
        rw [BitVec.ofNat_toNat, BitVec.setWidth_eq, BitVec.add_comm, BitVec.sub_add_cancel]
      rw [heq] at hcov
      rw [if_pos h2, if_pos hcov]
    · rw [if_neg h2]
      exact if_congr (covers_iff hf.le) rfl rfl

end Jos
