/-
The kernel half of the address spaces over runs of system calls. Its page tables are shared, so one mapping at or above
`UTOP` is in all of them. `sys_page_map` and the others test their addresses; a send maps the page at the address that
the receiver has left in `env_ipc_dstva`, which `sys_ipc_recv` takes as it is.
-/
import Jos.Run.Coherent
import Jos.Sys.Grants
import Jos.Sys.Authority
import Jos.Vm.MapDir

namespace Jos

open Lib Kern

variable {b s s' s₀ : State} {M : List Nat} {e : Slot} {d : Nat} {va : Word}

/-! ## Runs of system calls -/

/-- The states that system calls reach from `s₀`: the environments in use make them in any order, none panics, and `P` holds
of each in the state in which it is made. -/
inductive Requests (P : State → Slot → Call → Prop) (s₀ : State) : State → Prop where
  | refl : Requests P s₀ s₀
  | call {s : State} {e : Slot} {c : Call} (h : Requests P s₀ s) (cpu : Cpu) (he : (s.envs e).envStatus ≠ .free)
      (hp : P (s.enter cpu e) e c) (hrun : ∀ s', c.exec.run (s.enter cpu e) ≠ .error .panic s') :
      Requests P s₀ (finalState (c.exec.run (s.enter cpu e)))

/-- The result is a panic. -/
def panics {α : Type} : EStateM.Result Stop State α → Bool
  | .error .panic _ => true
  | _ => false

theorem not_panic {α : Type} {r : EStateM.Result Stop State α} (h : panics r = false) (s : State) : r ≠ .error .panic s := by
  rintro rfl
  cases h

/-- A page that the call maps goes to a user address, and its counter has room for one more reference. -/
def Roomy (s : State) (cur : Slot) (c : Call) : Prop := c.UserDst s cur ∧ c.Room s cur

theorem request_inv {l : List Nat} {le : List Slot} (hi : Inv (· ≤ ·) b M s l le) (cpu : Cpu) {c : Call}
    (he : (s.envs e).envStatus ≠ .free) (hp : Roomy (s.enter cpu e) e c)
    (hrun : ∀ s', c.exec.run (s.enter cpu e) ≠ .error .panic s') :
    (∃ ev, Called b M (· ≤ ·) (s.enter cpu e) l e c (finalState (c.exec.run (s.enter cpu e))) ev) ∧
      ∃ l le, Inv (· ≤ ·) b M (finalState (c.exec.run (s.enter cpu e))) l le := by
  obtain ⟨ev, hc⟩ := call_called countRel_le (InCall.enter hi he cpu) c (Or.inl rfl) hp.1 hrun
  obtain ⟨l', le', hv, ht, hcount⟩ := hc.inv
  exact ⟨⟨ev, hc⟩, l', le', { toVm := hv, toEnvTable := ht, counts := hcount hp.2 }⟩

theorem Boots.inv (hb : Booted b M) (h : Boots b s) : ∃ l le, Inv (· ≤ ·) b M s l le := by
  obtain ⟨⟨l, le, hi⟩, -⟩ := h.sane hb
  exact ⟨l, le, { hi with counts := hi.counts.relax }⟩

/-- The invariant in every state of a run whose calls are roomy. -/
theorem requests_inv {P : State → Slot → Call → Prop} (hP : ∀ s e c, P s e c → Roomy s e c)
    (h₀ : ∃ l le, Inv (· ≤ ·) b M s₀ l le) (h : Requests P s₀ s) : ∃ l le, Inv (· ≤ ·) b M s l le := by
  induction h with
  | refl => exact h₀
  | call _ cpu he hp hrun ih =>
    obtain ⟨l, le, hi⟩ := ih
    exact (request_inv hi cpu he (hP _ _ _ hp) hrun).2

/-! ## The kernel half -/

/-- The directory that `mem_init` builds maps nothing for the user to write. -/
structure KernReadOnly (b : State) (M : List Nat) : Prop extends KernDir b M where
  readOnly : ∀ i n, ¬ userIdx i → i ≠ pdx uvpt → b.mem b.kernPgdir i = tablePde n →
    ∀ j, b.mem n j &&& (pteU ||| pteW) ≠ pteU ||| pteW

/-- Directory `d` in state `s` translates the addresses from `UTOP` on, those of `UVPT` apart, as the kernel's directory
did in state `b`; the user can write none from `UTOP` on, and access none from `ULIM` on. -/
structure KernelHalf (b s : State) (d : Nat) : Prop where
  same : ∀ va, utop ≤ va → pdx va ≠ pdx uvpt →
    s.mem d (pdx va) = b.mem b.kernPgdir (pdx va) ∧ s.entryAt d va = b.entryAt b.kernPgdir va
  noWrite : ∀ va, utop ≤ va → ¬ Grants s d (pteU ||| pteW) va.toNat
  noAccess : ∀ va, ulim ≤ va → ¬ Grants s d pteU va.toNat

/-- The page tables of the kernel are not managed, so they are as they were. -/
theorem Tables.entryAt_kern (ht : Tables b M s) (hk : KernDir b M) (hd : s.dir e = some d) (hu : ¬ userIdx (pdx va))
    (hv : pdx va ≠ pdx uvpt) : s.entryAt d va = b.entryAt b.kernPgdir va := by
  unfold State.entryAt
  rw [ht.kern e d _ hd hu hv]
  dsimp only
  cases hp : present (b.mem b.kernPgdir (pdx va)) with
  | false => simp
  | true =>
    obtain ⟨n, hn, hlt, hM, -⟩ := hk.pde _ hu hv hp
    rw [hn, pgnum_tablePde hlt, ht.outside n hM]

theorem Tables.kernelHalf (ht : Tables b M s) (hk : KernReadOnly b M) (hd : s.dir e = some d) : KernelHalf b s d := by
  have hnot : ∀ {va : Word}, utop ≤ va → ¬ userIdx (pdx va) := fun h hu => BitVec.not_lt.2 h ((userIdx_pdx _).1 hu)
  have hgrant : ∀ {va perm : Word}, Grants s d perm va.toNat → utop ≤ va → pdx va ≠ pdx uvpt →
      ∃ n, b.mem b.kernPgdir (pdx va) = tablePde n ∧ b.mem n (ptx va) &&& perm = perm ∧
        (pdx ulim ≤ pdx va → ∀ j, b.mem n j &&& pteU = 0#32) := by
    rintro va perm ⟨⟨hp, -⟩, -, hpte⟩ hva hv
    rw [BitVec.ofNat_toNat, BitVec.setWidth_eq] at hp hpte
    rw [ht.kern e d _ hd (hnot hva) hv] at hp hpte
    obtain ⟨n, hn, hlt, hM, hlow⟩ := hk.pde _ (hnot hva) hv hp
    rw [hn, pgnum_tablePde hlt, ht.outside n hM] at hpte
    exact ⟨n, hn, hpte, hlow⟩
  refine ⟨fun va hva hv => ⟨ht.kern e d _ hd (hnot hva) hv, ht.entryAt_kern hk.toKernDir hd (hnot hva) hv⟩,
    fun va hva hg => ?_, fun va hva hg => ?_⟩
  · by_cases hv : pdx va = pdx uvpt
    · have hself := hg.1.2
      rw [BitVec.ofNat_toNat, BitVec.setWidth_eq, hv] at hself
      exact (ht.self_and hd).2 hself
    · obtain ⟨n, hn, hpte, -⟩ := hgrant hg hva hv
      exact hk.readOnly _ n (hnot hva) hv hn _ hpte
  · have hle : pdx ulim ≤ pdx va := by
      rw [Fin.le_def, pdx_val, pdx_val]
      exact Nat.div_le_div_right (BitVec.le_def.1 hva)
    have hlt : pdx uvpt < pdx ulim := by decide
    have hv : pdx va ≠ pdx uvpt := fun h => absurd hlt (not_lt.2 (h ▸ hle))
    have hu : utop ≤ va := BitVec.le_trans (by decide) hva
    obtain ⟨n, -, hpte, hlow⟩ := hgrant hg hu hv
    rw [hlow hle] at hpte
    exact absurd hpte (by decide)

/-- Over every run of system calls that map pages at user addresses only, and into counters with room, the kernel half of
every environment stays as it was. -/
theorem kernel_half_kept (hb : Booted b M) (hk : KernReadOnly b M) (h₀ : Boots b s₀) (h : Requests Roomy s₀ s)
    (he : (s.envs e).envStatus ≠ .free) : ∃ d, s.dir e = some d ∧ KernelHalf b s d := by
  obtain ⟨l, le, hi⟩ := requests_inv (fun _ _ _ hp => hp) (h₀.inv hb) h
  obtain ⟨d, hd, -⟩ := hi.toEnvTable.dir he
  exact ⟨d, hd, hi.toTables.kernelHalf hk hd⟩

/-! ## A page above `UTOP` -/

theorem entry_readOnly (pp : Nat) {p : Word} (hp : p = pteU ∨ p = pteW) : entry pp p &&& (pteU ||| pteW) ≠ pteU ||| pteW := by
  intro h
  have h₁ := congrArg (fun x : Word => x.getLsbD 1) h
  have h₂ := congrArg (fun x : Word => x.getLsbD 2) h
  have hz₁ := getLsbD_page2pa pp (show 1 < 12 by decide)
  have hz₂ := getLsbD_page2pa pp (show 2 < 12 by decide)
  rw [BitVec.getLsbD_eq_getElem (by decide)] at hz₁ hz₂
  rcases hp with rfl | rfl
  · simp [entry, hz₁, pteP, pteU, pteW] at h₁
  · simp [entry, hz₂, pteP, pteU, pteW] at h₂

theorem bootState_kernReadOnly : KernReadOnly bootState (pagesDown 128) where
  toKernDir := bootState_kernDir
  readOnly i n hu hv hn j := by
    have hne : n ≠ 256 := by
      rintro rfl
      have hall : ∀ i, i ≠ pdx uvpt → bootMem 256 i ≠ tablePde 256 := by decide +kernel
      exact hall i hv hn
    have hzero : (0#32 : Word) &&& (pteU ||| pteW) ≠ pteU ||| pteW := by decide
    show bootMem n j &&& _ ≠ _
    unfold bootMem
    rw [if_neg hne]
    split_ifs
    · exact entry_readOnly _ (Or.inl rfl)
    · exact hzero
    · exact entry_readOnly _ (Or.inl rfl)
    · exact hzero
    · exact entry_readOnly _ (Or.inr rfl)
    · exact hzero
    · exact entry_readOnly _ (Or.inr rfl)
    · exact hzero

/-- Two environments; the first has a page at `UTEXT`. -/
def twoMap : State := firstMap.spawn 1 125 0#32

theorem twoMap_boots : Boots bootState twoMap := by
  have hrun : (Op.envAlloc 0#32).exec.run firstMap = .ok (.created 1) twoMap := by
    simp only [Op.exec]
    rw [run_bind_ok (envAlloc_ok rfl rfl (by decide) 0#32)]
    rfl
  exact (Reach.next bootState_booted firstMap_reach (.envAlloc 0#32) trivial hrun trivial).boots

theorem kernel_half_kept_twoMap :
    ∃ d, (finalState ((Call.pageAlloc 0#32 utext 7#32).exec.run (twoMap.enter 0 0))).dir 0 = some d ∧
      KernelHalf bootState (finalState ((Call.pageAlloc 0#32 utext 7#32).exec.run (twoMap.enter 0 0))) d :=
  kernel_half_kept bootState_booted bootState_kernReadOnly twoMap_boots
    (.call .refl 0 (by decide) ⟨nofun, nofun⟩ (not_panic (by decide +kernel)))
    (by decide +kernel)

/-- The second environment waits for a page above `UTOP`. -/
def recvHigh : State := finalState ((Call.ipcRecv (upages + pgsize)).exec.run (twoMap.enter 0 1))

/-- The first has sent it its page. -/
def sentHigh : State := finalState ((Call.ipcTrySend 4097#32 0#32 utext 7#32).exec.run (recvHigh.enter 0 0))

/-- The page is in the kernel half of both environments, for them to write. -/
theorem kernel_half_changed : ∃ s₀ s, Boots bootState s₀ ∧ Requests (fun _ _ _ => True) s₀ s ∧ s.dir 0 = some 128 ∧
    utop ≤ upages + pgsize ∧ pdx (upages + pgsize) ≠ pdx uvpt ∧
    s.entryAt 128 (upages + pgsize) ≠ bootState.entryAt bootState.kernPgdir (upages + pgsize) ∧
    Grants s 128 (pteU ||| pteW) (upages + pgsize).toNat := by
  have hrecv : Requests (fun _ _ _ => True) twoMap recvHigh :=
    .call .refl 0 (by decide) trivial (not_panic (by decide +kernel))
  have hsent : Requests (fun _ _ _ => True) twoMap sentHigh :=
    .call hrecv 0 (by decide +kernel) trivial (not_panic (by decide +kernel))
  refine ⟨twoMap, sentHigh, twoMap_boots, hsent, by decide +kernel, by decide, by decide, by decide +kernel, ?_⟩
  unfold Grants
  decide +kernel

end Jos
