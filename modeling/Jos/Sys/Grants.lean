/-
`user_mem_check` against the two levels of the page tables that the processor walks. The check
looks at the last level only, and agrees with the processor except for writes through the entry at
`UVPT`, where the directory is its own page table but is not writable.
-/
import Jos.Sys.MemCheck
import Jos.Sys.Perm
import Jos.Run.FlatMap

namespace Jos

open Lib Kern

variable {b s s' : State} {M : List Nat} {h : List Event} {e : Slot} {d : Nat} {va len perm : Word}

/-- The processor grants a user access `perm` to integer address `a`: the directory entry and the table entry
are present and have the permission. -/
def Grants (s : State) (d : Nat) (perm : Word) (a : Nat) : Prop :=
  let pde := s.mem d (pdx (BitVec.ofNat 32 a))
  let pte := s.mem (pgnum pde) (ptx (BitVec.ofNat 32 a))
  (present pde = true ∧ pde &&& perm = perm) ∧ present pte = true ∧ pte &&& perm = perm

/-- The directory that `mem_init` builds: `pgdir_walk` made its entries outside `UVPT`, with page tables that the
page allocator does not manage, and no page at or above `ULIM` is the user's. -/
structure KernDir (b : State) (M : List Nat) : Prop where
  pde : ∀ i, ¬ userIdx i → i ≠ pdx uvpt → present (b.mem b.kernPgdir i) = true →
    ∃ n, b.mem b.kernPgdir i = tablePde n ∧ n < b.npages ∧ n ∉ M ∧ (pdx ulim ≤ i → ∀ j, b.mem n j &&& pteU = 0#32)

theorem or_and_of_and {x f p : Word} (h : f &&& p = p) : (x ||| f) &&& p = p := by
  ext i hi
  have hb := congrArg (fun y : Word => y.getLsbD i) h
  simp only [BitVec.getElem_and, BitVec.getElem_or, BitVec.getLsbD_eq_getElem hi] at hb ⊢
  cases hp : p[i] <;> simp_all

theorem tablePde_and {n : Nat} (hp : perm = pteU ∨ perm = pteU ||| pteW) : tablePde n &&& perm = perm := by
  unfold tablePde
  rw [BitVec.or_assoc, BitVec.or_assoc]
  refine or_and_of_and ?_
  rcases hp with rfl | rfl <;> decide

theorem pgnum_tablePde {n : Nat} (hn : n < b.npages) : pgnum (tablePde n) = n := by
  have hle := b.npages_le
  unfold tablePde
  rw [pgnum_or, pgnum_or, pgnum_or, pgnum_page2pa (by omega)]
  simp [pgnum, pteP, pteU, pteW]

/-- The entries of a directory point into memory. -/
theorem Tables.pdesOk (ht : Tables b M s) (hk : KernDir b M) (hd : s.dir e = some d) : PdesOk s d := by
  intro i hp
  by_cases hu : userIdx i
  · have htab : s.tab e i = some (pgnum (s.mem d i)) := node_eq_some.2 ⟨d, hd, hu, dec_eq_some.2 ⟨hp, rfl⟩⟩
    exact ht.managed _ (ht.structM _ (Or.inr ⟨e, i, htab⟩))
  by_cases hv : i = pdx uvpt
  · have hM := ht.structM d (Or.inl ⟨e, hd⟩)
    rw [hv, ht.self e d hd, pgnum_or, pgnum_or, pgnum_page2pa (ht.lt_pow hM)]
    simpa [pgnum, pteP, pteU] using ht.managed d hM
  · rw [ht.kern e d i hd hu hv] at hp ⊢
    obtain ⟨n, hn, hlt, -⟩ := hk.pde i hu hv hp
    rw [hn, pgnum_tablePde hlt, ht.npages]
    exact hlt

/-- Every directory entry but the one at `UVPT` has the permissions that a check may ask for. -/
theorem Tables.pde_and (ht : Tables b M s) (hk : KernDir b M) (hd : s.dir e = some d) {i : Idx} (hp : present (s.mem d i) = true)
    (hv : i ≠ pdx uvpt) (hperm : perm = pteU ∨ perm = pteU ||| pteW) : s.mem d i &&& perm = perm := by
  by_cases hu : userIdx i
  · have htab : s.tab e i = some (pgnum (s.mem d i)) := node_eq_some.2 ⟨d, hd, hu, dec_eq_some.2 ⟨hp, rfl⟩⟩
    rw [ht.pde e d i _ hd htab]
    exact tablePde_and hperm
  · rw [ht.kern e d i hd hu hv] at hp ⊢
    obtain ⟨n, hn, -⟩ := hk.pde i hu hv hp
    rw [hn]
    exact tablePde_and hperm

/-- The entry at `UVPT` grants reads only. -/
theorem Tables.self_and (ht : Tables b M s) (hd : s.dir e = some d) :
    s.mem d (pdx uvpt) &&& pteU = pteU ∧ s.mem d (pdx uvpt) &&& (pteU ||| pteW) ≠ pteU ||| pteW := by
  rw [ht.self e d hd]
  constructor
  · rw [BitVec.or_assoc]
    exact or_and_of_and (by decide)
  · intro h
    have hb := congrArg (fun x : Word => x.getLsbD 1) h
    have hz := getLsbD_page2pa d (show 1 < 12 by decide)
    rw [BitVec.getLsbD_eq_getElem (by decide)] at hz
    simp [hz, pteP, pteU, pteW] at hb

/-- No page at the end of the address space is the user's. -/
theorem Tables.top_not_granted (ht : Tables b M s) (hk : KernDir b M) (hd : s.dir e = some d)
    (hperm : perm = pteU ∨ perm = pteU ||| pteW) : ¬ Grants s d perm (2 ^ 32 - 1) := by
  rintro ⟨⟨hp, -⟩, -, hpte⟩
  have htop : pdx (BitVec.ofNat 32 (2 ^ 32 - 1)) = 1023 := by decide
  rw [htop] at hp hpte
  have hu : ¬ userIdx 1023 := by decide
  have hv : (1023 : Idx) ≠ pdx uvpt := by decide
  rw [ht.kern e d _ hd hu hv] at hp hpte
  obtain ⟨n, hn, hlt, hM, hlow⟩ := hk.pde _ hu hv hp
  have hpg : pgnum (b.mem b.kernPgdir 1023) = n := by rw [hn, pgnum_tablePde hlt]
  rw [hpg, ht.outside n hM] at hpte
  have hzero := hlow (by decide) (ptx (BitVec.ofNat 32 (2 ^ 32 - 1)))
  have hU : perm &&& pteU = pteU := by rcases hperm with rfl | rfl <;> decide
  have hcontra : pteU = 0#32 := by
    rw [← hU, ← hpte, BitVec.and_assoc, hU, hzero]
  exact absurd hcontra (by decide)

/-- What `user_mem_check` accepts the processor grants, if and only if the range ends below the end of the
address space and is not to be written through the entry at `UVPT`. -/
theorem userMemCheck_grants_iff (hb : Booted b M) (hk : KernDir b M) (hr : Reach b h s) (hd : s.dir e = some d)
    (hfit : va.toNat + len.toNat ≤ 2 ^ 32) (hperm : perm = pteU ∨ perm = pteU ||| pteW)
    (hrun : (userMemCheck e va len perm).run s = .ok 0 s') :
    (∀ a, va.toNat ≤ a → a < va.toNat + len.toNat → Grants s d perm a) ↔
      va.toNat + len.toNat < 2 ^ 32 ∧
        (perm = pteU ∨ ∀ a, va.toNat ≤ a → a < va.toNat + len.toNat → pdx (BitVec.ofNat 32 a) ≠ pdx uvpt) := by
  obtain ⟨⟨l, le, hi⟩, -⟩ := reach_inv hb hr
  have ht := hi.toTables
  have hdir := (dir_eq_some.1 hd).2
  by_cases htop : va.toNat + len.toNat < 2 ^ 32
  swap
  · -- the sum wraps around, and the last byte is the kernel's
    have hva := va.isLt
    refine iff_of_false (fun hall => ?_) fun hr => htop hr.1
    exact ht.top_not_granted hk hd hperm (hall _ (by omega) (by omega))
  obtain ⟨r, s'', hrun', hex⟩ := loop_spec perm (ht.pdesOk hk hd) (va + len) _ va rfl
  rw [← run_userMemCheck hdir, hrun] at hrun'
  cases hrun'
  have hadd : (va + len).toNat = va.toNat + len.toNat := by
    rw [BitVec.toNat_add, Nat.mod_eq_of_lt htop]
  have hacc := hex.zero.1 rfl
  rw [hadd] at hacc
  have hpte : ∀ w : Word, w &&& (perm ||| pteU ||| pteP) = perm ||| pteU ||| pteP → w &&& perm = perm := by
    intro w hw
    have hsub : (perm ||| pteU ||| pteP) &&& perm = perm := by rcases hperm with rfl | rfl <;> decide
    calc w &&& perm = w &&& ((perm ||| pteU ||| pteP) &&& perm) := by rw [hsub]
      _ = perm := by rw [← BitVec.and_assoc, hw, hsub]
  constructor
  · intro hall
    refine ⟨htop, ?_⟩
    rcases hperm with rfl | rfl
    · exact Or.inl rfl
    · refine Or.inr fun a h1 h2 huv => ?_
      have hg := (hall a h1 h2).1.2
      rw [huv] at hg
      exact (ht.self_and hd).2 hg
  · rintro ⟨-, hcond⟩ a h1 h2
    obtain ⟨-, hpde, w, rfl, hpresent, hw⟩ := hacc a h1 h2
    refine ⟨⟨hpde, ?_⟩, hpresent, hpte _ hw⟩
    by_cases huv : pdx (BitVec.ofNat 32 a) = pdx uvpt
    · rcases hcond with rfl | hno
      · rw [huv]
        exact (ht.self_and hd).1
      · exact absurd huv (hno a h1 h2)
    · exact ht.pde_and hk hd hpde huv hperm

/-! ## The first environment -/

theorem entry_and_pteU (pp : Nat) : entry pp pteW &&& pteU = 0#32 := by
  rw [pteU_eq, and_flag_eq_zero _ (by decide)]
  have hz := getLsbD_page2pa pp (show 2 < 12 by decide)
  rw [BitVec.getLsbD_eq_getElem (by decide)] at hz
  unfold entry
  simp [hz, pteP, pteW]

/-- The tables that map all memory at `KERNBASE`. -/
theorem bootMem_high {k : Nat} (hk : k < 64) (j : Idx) : bootMem (260 + k) j &&& pteU = 0#32 := by
  unfold bootMem
  rw [if_neg (by omega), if_neg (by omega), if_neg (by omega), if_neg (by omega), if_pos (by omega)]
  exact entry_and_pteU _

theorem bootState_kernDir : KernDir bootState (pagesDown 128) where
  pde i hu hv hp := by
    have hM : ∀ n, 128 < n → n ∉ pagesDown 128 := fun n hn h => by
      rw [mem_pagesDown] at h
      omega
    have hmem : bootState.mem bootState.kernPgdir i = bootMem 256 i := rfl
    have hboot : bootState.mem = bootMem := rfl
    have hzero : present (0#32) = false := rfl
    rw [hmem] at hp ⊢
    unfold bootMem at hp ⊢
    rw [if_pos rfl, if_neg hv] at hp ⊢
    have hslots : (pdx uenvs).val < (pdx ulim).val ∧ (pdx upages).val < (pdx ulim).val ∧ (pdx kernbase).val = 960 := by decide
    split
    · rename_i hi
      refine ⟨257, rfl, by decide, hM _ (by decide), fun hle => ?_⟩
      rw [hi, Fin.le_def] at hle
      omega
    split
    · rename_i hi
      refine ⟨258, rfl, by decide, hM _ (by decide), fun hle => ?_⟩
      rw [hi, Fin.le_def] at hle
      omega
    split
    · refine ⟨259, rfl, by decide, hM _ (by decide), fun _ j => ?_⟩
      show bootMem 259 j &&& pteU = 0#32
      unfold bootMem
      rw [if_neg (by decide), if_neg (by decide), if_neg (by decide), if_pos rfl]
      split
      · exact entry_and_pteU _
      · rfl
    rename_i h1 h2 h3
    rw [if_neg h1, if_neg h2, if_neg h3] at hp
    by_cases hi : pdx kernbase ≤ i
    · have hlt := i.isLt
      rw [if_pos hi]
      refine ⟨_, rfl, by show _ < 512; omega, hM _ (by omega), fun _ j => ?_⟩
      rw [hboot]
      exact bootMem_high (by omega) j
    · rw [if_neg hi, hzero] at hp
      cases hp

theorem firstMap_pdesOk : PdesOk firstMap 128 := by
  obtain ⟨⟨l, le, hi⟩, -⟩ := reach_inv bootState_booted firstMap_reach
  exact hi.toTables.pdesOk bootState_kernDir (e := 0) rfl

/-- A check of one byte that is accessible succeeds. -/
theorem run_userMemCheck_byte {s : State} (hd : (s.envs e).envPgdir = some d) (hp : PdesOk s d) (hva : va.toNat + 1 < 2 ^ 32)
    (ha : Accessible s d perm va.toNat) : ∃ s', (userMemCheck e va 1#32 perm).run s = .ok 0 s' := by
  obtain ⟨r, s', hrun, hex⟩ := loop_spec perm hp (va + 1#32) _ va rfl
  rw [← run_userMemCheck hd] at hrun
  have hr : r = 0 := hex.zero.2 fun a h1 h2 => by
    have hadd : (va + 1#32).toNat = va.toNat + 1 := by bv_omega
    have haa : a = va.toNat := by omega
    rw [haa]
    exact ha
  rw [hr] at hrun
  exact ⟨s', hrun⟩

theorem userMemCheck_grants_iff_firstMap : Grants firstMap 128 (pteU ||| pteW) utext.toNat := by
  have hacc : Accessible firstMap 128 (pteU ||| pteW) utext.toNat := by
    refine ⟨by decide, by decide +kernel, _, rfl, by decide +kernel, by decide +kernel⟩
  obtain ⟨s', hrun⟩ := run_userMemCheck_byte (e := 0) rfl firstMap_pdesOk (by decide) hacc
  refine (userMemCheck_grants_iff bootState_booted bootState_kernDir firstMap_reach rfl (by decide) (Or.inr rfl) hrun).2
    ⟨by decide, Or.inr fun a h1 h2 => ?_⟩ _ (le_refl _) (by decide)
  have ha : a = utext.toNat := by
    have h1 : 0x800000 ≤ a := h1
    have h2 : a < 0x800000 + 1 := h2
    show a = 0x800000
    omega
  rw [ha]
  decide

/-- The page table of `UTEXT`, as it appears at `UVPT`, passes the check for a write. -/
theorem userMemCheck_grants_uvpt : (∃ s', (userMemCheck 0 (uvpt + 0x2000#32) 1#32 (pteU ||| pteW)).run firstMap = .ok 0 s') ∧
    ¬ Grants firstMap 128 (pteU ||| pteW) (uvpt + 0x2000#32).toNat := by
  constructor
  · refine run_userMemCheck_byte (e := 0) rfl firstMap_pdesOk (by decide) ?_
    exact ⟨by decide, by decide +kernel, _, rfl, by decide +kernel, by decide +kernel⟩
  · rintro ⟨⟨-, h⟩, -⟩
    exact absurd h (by decide +kernel)

end Jos
