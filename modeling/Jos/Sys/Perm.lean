/-
The entries that system calls install for permissions supplied by users. `page_insert` ORs the
permission into the entry, so its integrity rests on the tests of the calls. Two of them are signed
comparisons, which a permission with the sign bit set passes.
-/
import Jos.Sys.Failure

namespace Jos

open Lib Kern

variable {s s' : State} {d p : Nat} {va perm w : Word}

/-! ## Entries -/

theorem getLsbD_lowMask {i : Nat} (hi : i < 32) : (~~~0xFFF#32).getLsbD i = decide (12 ≤ i) := by
  interval_cases i <;> rfl

theorem getLsbD_page2pa (p : Nat) {i : Nat} (hi : i < 12) : (page2pa p).getLsbD i = false := by
  unfold page2pa; rw [BitVec.getLsbD_shiftLeft]; simp [hi]

theorem pteAddr_or (a b : Word) : pteAddr (a ||| b) = pteAddr a ||| pteAddr b := by
  unfold pteAddr; rw [BitVec.and_or_distrib_right]

theorem pteAddr_page2pa (p : Nat) : pteAddr (page2pa p) = page2pa p := by
  unfold pteAddr
  apply BitVec.eq_of_getLsbD_eq
  intro i hi
  rw [BitVec.getLsbD_and, getLsbD_lowMask hi]
  by_cases h : i < 12
  · rw [getLsbD_page2pa p h, Bool.false_and]
  · simp [Nat.not_lt.1 h]

/-- The permissions that pass an unsigned mask test. -/
theorem perm_masked {i : Nat} (h : perm &&& ~~~pteUser = 0#32) (hi : perm.getLsbD i = true) : pteUser.getLsbD i = true := by
  by_contra hc
  have hb := congrArg (fun x : Word => x.getLsbD i) h
  have hlt : i < 32 := BitVec.lt_of_getLsbD hi
  simp only [BitVec.getLsbD_and, BitVec.getLsbD_not, hi, hlt, BitVec.getLsbD_zero, decide_true, Bool.true_and,
    Bool.not_eq_false'] at hb
  exact hc hb

theorem pteAddr_masked (h : perm &&& ~~~pteUser = 0#32) : pteAddr perm = 0#32 := by
  unfold pteAddr
  apply BitVec.eq_of_getLsbD_eq
  intro i hi
  rw [BitVec.getLsbD_and, getLsbD_lowMask hi]
  cases hp : perm.getLsbD i
  · simp
  · have hu := perm_masked h hp
    interval_cases i <;> first | rfl | (exfalso; revert hu; decide)

/-- A signed mask test also lets through what has the sign bit set. -/
theorem perm_signed (h : ¬ 0 < (perm &&& ~~~pteUser).toInt) (hs : perm.msb = false) : perm &&& ~~~pteUser = 0#32 := by
  have hm : (perm &&& ~~~pteUser).msb = false := by rw [BitVec.msb_and, hs, Bool.false_and]
  rw [BitVec.toInt_eq_msb_cond, hm] at h
  apply BitVec.eq_of_toNat_eq
  simp at h ⊢
  omega

/-- An entry for page `p` that points at it and has flags users may have. -/
structure GoodPte (p : Nat) (w : Word) : Prop where
  addr : pteAddr w = page2pa p
  user : w &&& pteU ≠ 0#32
  present : w &&& pteP ≠ 0#32
  flags : (w &&& 0xFFF#32) &&& ~~~pteSyscall = 0#32

theorem good_entry (hset : ¬ permUnset perm) (h : perm &&& ~~~pteUser = 0#32) (p : Nat) : GoodPte p (entry p perm) := by
  unfold permUnset at hset
  rw [not_or] at hset
  obtain ⟨hu, hp⟩ := hset
  refine ⟨?_, ?_, ?_, ?_⟩
  · unfold entry
    rw [pteAddr_or, pteAddr_or, pteAddr_page2pa, pteAddr_masked h]
    simp [pteAddr, pteP]
  · intro hc
    rw [pteU_eq, and_flag_eq_zero _ (by decide)] at hu hc
    rw [Bool.not_eq_false] at hu
    unfold entry at hc
    rw [BitVec.getLsbD_or, BitVec.getLsbD_or, hu, Bool.or_true, Bool.true_or] at hc
    cases hc
  · have := present_entry p perm
    unfold Jos.present at this
    simpa using this
  · unfold entry
    apply BitVec.eq_of_getLsbD_eq
    intro i hi
    by_cases h12 : i < 12
    · have hpa := getLsbD_page2pa p h12
      have hm : perm.getLsbD i = true → pteUser.getLsbD i = true := perm_masked h
      simp only [BitVec.getLsbD_and, BitVec.getLsbD_or, hpa, Bool.false_or]
      cases hb : perm.getLsbD i
      · interval_cases i <;> rfl
      · have := hm hb
        interval_cases i <;> first | rfl | (exfalso; revert this; decide)
    · have : (0xFFF#32).getLsbD i = false := by interval_cases i <;> rfl
      simp [this]

theorem bad_entry (hs : perm.msb = true) (hp : (page2pa p).msb = false) : ¬ GoodPte p (entry p perm) := by
  rintro ⟨h, -, -, -⟩
  have hb := congrArg BitVec.msb h
  rw [hp] at hb
  unfold entry pteAddr at hb
  rw [BitVec.msb_and, BitVec.msb_or, BitVec.msb_or, hs] at hb
  simp at hb
  exact absurd hb (by decide)

/-! ## What the calls install -/

/-- `page_insert(d, p, va, perm)`, run in `s`, put entry `w` where the walk for `va` leads. -/
structure Inserts (d p : Nat) (va perm : Word) (s s' : State) (w : Word) : Prop where
  run : (pageInsert d p va perm).run s = .ok 0 s'
  walk : ∃ pte s₁, (pgdirWalk d va true).run s = .ok (some pte) s₁ ∧ s'.mem pte.1 pte.2 = w

theorem Inserts.of_run (h : (pageInsert d p va perm).run s = .ok 0 s') : Inserts d p va perm s s' (entry p perm) := by
  refine ⟨h, ?_⟩
  unfold pageInsert at h
  obtain ⟨o, s₁, hw, h⟩ := run_bind_eq_ok.1 h
  cases o with
  | none => cases h
  | some pte =>
    refine ⟨pte, s₁, hw, ?_⟩
    have hend : ∀ s₂, (do
        modify fun s => s.setRef p ((s.pages p).ppRef + 1#16)
        store pte (page2pa p ||| perm ||| pteP)
        return 0 : Kern Int).run s₂ = .ok 0 s' → s'.mem pte.1 pte.2 = entry p perm := by
      intro s₂ h₂
      rw [run_bind_ok (EStateM.run_modify _ _), run_bind_ok (run_store _ _)] at h₂
      cases h₂
      show Function.update s₂.mem pte.1 _ pte.1 pte.2 = _
      rw [Function.update_self, Function.update_self]; rfl
    obtain ⟨old, s₂, -, h⟩ := run_bind_eq_ok.1 h
    dsimp only at h
    split at h
    · split at h
      · obtain ⟨_, s₃, -, h⟩ := run_bind_eq_ok.1 h
        obtain ⟨_, s₄, -, h⟩ := run_bind_eq_ok.1 h
        exact hend _ h
      · obtain ⟨_, s₃, -, h⟩ := run_bind_eq_ok.1 h
        exact hend _ h
    · exact hend _ h

theorem Inserts.entry (h : Inserts d p va perm s s' w) : w = Jos.entry p perm := by
  obtain ⟨pte, s₁, hw, rfl⟩ := h.walk
  obtain ⟨pte', s₁', hw', h'⟩ := (Inserts.of_run h.run).walk
  cases hw.symm.trans hw'
  exact h'

/-- A call that returned 0 after it installed entry `w` for page `p`: the page is the one `page_alloc`
returned, or the one `page_lookup` found at the source. -/
inductive Installed : Call → State → State → Nat → Word → Prop where
  | pageAlloc {envid va perm : Word} {s t u s' : State} {d p : Nat} {w : Word}
      (run : (sysPageAlloc envid va perm).run s = .ok 0 s') (alloc : (pageAlloc 0#32).run s = .ok (some p) t)
      (insert : Inserts d p va perm t u w) (zero : (do zeroPage (← page2kva p) : Kern Unit).run u = .ok () s') :
      Installed (.pageAlloc envid va perm) s s' p w
  | pageMap {srcenvid srcva dstenvid dstva perm : Word} {s s' : State} {srcd d p : Nat} {q : Option (Nat × Idx)} {w : Word}
      (run : (sysPageMap srcenvid srcva dstenvid dstva perm).run s = .ok 0 s')
      (lookup : (pageLookup srcd srcva).run s = .ok (some p, q) s) (insert : Inserts d p dstva perm s s' w) :
      Installed (.pageMap srcenvid srcva dstenvid dstva perm) s s' p w
  | ipcTrySend {envid value srcva perm dstva : Word} {s s₁ s' : State} {srcd d p : Nat} {q : Option (Nat × Idx)} {w : Word}
      (run : (sysIpcTrySend envid value srcva perm).run s = .ok 0 s') (hva : srcva < utop)
      (lookup : (pageLookup srcd srcva).run s = .ok (some p, q) s) (insert : Inserts d p dstva perm s s₁ w)
      (mem : s'.mem = s₁.mem) : Installed (.ipcTrySend envid value srcva perm) s s' p w

/-- The tests a permission has passed when the call returns 0. -/
theorem pageAlloc_perm {envid : Word} (h : (sysPageAlloc envid va perm).run s = .ok 0 s') :
    ¬ permUnset perm ∧ ¬ 0 < (perm &&& ~~~pteUser).toInt := by
  unfold sysPageAlloc at h
  split at h
  · cases h
  split at h
  · cases h
  split at h
  · cases h
  exact ⟨‹_›, ‹_›⟩

theorem pageMap_perm {srcenvid srcva dstenvid dstva : Word}
    (h : (sysPageMap srcenvid srcva dstenvid dstva perm).run s = .ok 0 s') :
    ¬ permUnset perm ∧ ¬ 0 < (perm &&& ~~~pteUser).toInt := by
  unfold sysPageMap at h
  split at h
  · cases h
  split at h
  · cases h
  split at h
  · cases h
  exact ⟨‹_›, ‹_›⟩

theorem ipcTrySend_perm {envid value srcva : Word} (h : (sysIpcTrySend envid value srcva perm).run s = .ok 0 s')
    (hva : srcva < utop) : ¬ permUnset perm ∧ perm &&& ~~~pteUser = 0#32 := by
  unfold sysIpcTrySend at h
  obtain ⟨⟨r, o⟩, s₁, -, h⟩ := run_bind_eq_ok.1 h
  dsimp only at h
  split at h
  · cases h
  obtain ⟨dst, s₂, -, h⟩ := run_bind_eq_ok.1 h
  obtain ⟨v, s₃, -, h⟩ := run_bind_eq_ok.1 h
  split at h
  · cases h
  split at h
  · cases h
  split at h
  · cases h
  split at h
  · cases h
  rename_i h1 h2 h3
  refine ⟨h2, ?_⟩
  apply BitVec.eq_of_toNat_eq
  exact Nat.le_zero.1 (Nat.not_lt.1 h3)

theorem msb_page2pa {q : Nat} (h : (page2kva q).run s = .ok p s') : (page2pa q).msb = false := by
  unfold page2kva at h
  rw [run_kaddr] at h
  split at h
  · rename_i hlt
    rw [BitVec.msb_eq_toNat]
    rw [pgnum_eq] at hlt
    have := s.npages_le
    simp
    omega
  · cases h

/-- `page_lookup` returns pages inside memory. -/
theorem lookup_lt {q : Option (Nat × Idx)} (h : (pageLookup d va).run s = .ok (some p, q) s') : p < s.npages := by
  unfold pageLookup at h
  obtain ⟨o, s₁, hw, h⟩ := run_bind_eq_ok.1 h
  cases reads_walk d va _ _ _ hw
  cases o with
  | none => cases h
  | some pte =>
    rw [run_bind_ok (run_load pte)] at h
    split at h
    · obtain ⟨pp, s₂, hp, h⟩ := run_bind_eq_ok.1 h
      cases h
      rw [pa2page_eq, run_kaddr] at hp
      split at hp
      · cases hp; assumption
      · cases hp
    · cases h

theorem msb_of_lt (s : State) (h : p < s.npages) : (page2pa p).msb = false := by
  have := s.npages_le
  rw [BitVec.msb_eq_toNat, page2pa_toNat (by omega)]
  simp
  omega

/-- What is left after the tests of `sys_page_alloc` when it returns 0: the page is inserted and cleared. -/
theorem pageAlloc_installed {envid : Word} (h : (sysPageAlloc envid va perm).run s = .ok 0 s') :
    ∃ p w, Installed (.pageAlloc envid va perm) s s' p w := by
  have hrun := h
  unfold sysPageAlloc at h
  split at h
  · cases h
  split at h
  · cases h
  split at h
  · cases h
  obtain ⟨⟨r, e⟩, s₁, h₁, h⟩ := run_bind_eq_ok.1 h
  cases reads_envid2env _ _ _ _ _ h₁
  dsimp only at h
  split at h
  · cases h
  obtain ⟨o, s₂, h₂, h⟩ := run_bind_eq_ok.1 h
  cases o with
  | none => cases h
  | some p =>
    obtain ⟨c, s₃, h₃, h⟩ := run_bind_eq_ok.1 h
    cases reads_deref _ _ _ _ h₃
    obtain ⟨v, s₄, h₄, h⟩ := run_bind_eq_ok.1 h
    cases reads_env _ _ _ _ h₄
    obtain ⟨d, s₅, h₅, h⟩ := run_bind_eq_ok.1 h
    cases reads_derefPage _ _ _ _ h₅
    obtain ⟨r', s₆, h₆, h⟩ := run_bind_eq_ok.1 h
    split at h
    · obtain ⟨_, s₇, -, h⟩ := run_bind_eq_ok.1 h
      cases h
    · rename_i hr
      cases insert_succeeds _ _ _ h₆ hr
      obtain ⟨q, s₇, h₇, h⟩ := run_bind_eq_ok.1 h
      obtain ⟨_, s₈, h₈, h⟩ := run_bind_eq_ok.1 h
      cases h
      exact ⟨p, _, .pageAlloc hrun h₂ (.of_run h₆) (run_bind_eq_ok.2 ⟨q, s₇, h₇, h₈⟩)⟩

theorem pageMap_installed {srcenvid srcva dstenvid dstva : Word}
    (h : (sysPageMap srcenvid srcva dstenvid dstva perm).run s = .ok 0 s') :
    ∃ p w, Installed (.pageMap srcenvid srcva dstenvid dstva perm) s s' p w := by
  have hrun := h
  unfold sysPageMap at h
  split at h
  · cases h
  split at h
  · cases h
  split at h
  · cases h
  obtain ⟨⟨r₁, src⟩, s₁, h₁, h⟩ := run_bind_eq_ok.1 h
  cases reads_envid2env _ _ _ _ _ h₁
  dsimp only at h
  split at h
  · cases h
  obtain ⟨⟨r₂, dst⟩, s₂, h₂, h⟩ := run_bind_eq_ok.1 h
  cases reads_envid2env _ _ _ _ _ h₂
  dsimp only at h
  split at h
  · cases h
  obtain ⟨c, s₃, h₃, h⟩ := run_bind_eq_ok.1 h
  cases reads_deref _ _ _ _ h₃
  obtain ⟨v, s₄, h₄, h⟩ := run_bind_eq_ok.1 h
  cases reads_env _ _ _ _ h₄
  obtain ⟨srcd, s₅, h₅, h⟩ := run_bind_eq_ok.1 h
  cases reads_derefPage _ _ _ _ h₅
  obtain ⟨⟨p, pte⟩, s₆, h₆, h⟩ := run_bind_eq_ok.1 h
  cases reads_lookup _ _ _ _ _ h₆
  split at h
  · rename_i p pte heq
    cases heq
    rw [run_bind_ok (run_load pte)] at h
    split at h
    · cases h
    obtain ⟨c', s₇, h₇, h⟩ := run_bind_eq_ok.1 h
    cases reads_deref _ _ _ _ h₇
    obtain ⟨v', s₈, h₈, h⟩ := run_bind_eq_ok.1 h
    cases reads_env _ _ _ _ h₈
    obtain ⟨d, s₉, h₉, h⟩ := run_bind_eq_ok.1 h
    cases reads_derefPage _ _ _ _ h₉
    obtain ⟨r', s₁₀, h₁₀, h⟩ := run_bind_eq_ok.1 h
    split at h
    · cases h
    · rename_i hr
      cases insert_succeeds _ _ _ h₁₀ hr
      cases h
      exact ⟨p, _, .pageMap hrun h₆ (.of_run h₁₀)⟩
  · cases h

/-- `ipcDeliver` changes no memory. -/
theorem ipcDeliver_mem {dst : Slot} {value : Word} {r : Int} (h : (ipcDeliver dst value).run s = .ok r s') :
    s'.mem = s.mem := by
  unfold ipcDeliver at h
  rw [run_bind_ok (EStateM.run_get _)] at h
  obtain ⟨c, s₁, h₁, h⟩ := run_bind_eq_ok.1 h
  cases reads_deref _ _ _ _ h₁
  rw [run_bind_ok (run_env c), run_bind_ok (run_modifyEnv ..)] at h
  cases h; rfl

/-- A send that offers a page and returns 0 installed it, unless the target wants none. -/
theorem ipcTrySend_installed {envid value srcva : Word} (h : (sysIpcTrySend envid value srcva perm).run s = .ok 0 s')
    (hva : srcva < utop) :
    (∃ r dst, (envid2env envid false).run s = .ok (r, some dst) s ∧ ¬ r < 0 ∧ (s.envs dst).envIpcDstva = 0#32) ∨
    ∃ p w, Installed (.ipcTrySend envid value srcva perm) s s' p w := by
  have hrun := h
  unfold sysIpcTrySend at h
  obtain ⟨⟨r, o⟩, s₁, h₁, h⟩ := run_bind_eq_ok.1 h
  cases reads_envid2env _ _ _ _ _ h₁
  dsimp only at h
  split at h
  · cases h
  rename_i hr
  obtain ⟨dst, s₂, h₂, h⟩ := run_bind_eq_ok.1 h
  cases o with
  | none => cases h₂
  | some e =>
    cases h₂
    rw [run_bind_ok (run_env dst)] at h
    split at h
    · cases h
    split at h
    · cases h
    split at h
    · cases h
    split at h
    · cases h
    rw [run_bind_ok (EStateM.run_get _)] at h
    obtain ⟨c, s₃, h₃, h⟩ := run_bind_eq_ok.1 h
    cases reads_deref _ _ _ _ h₃
    rw [run_bind_ok (run_env c)] at h
    obtain ⟨srcd, s₄, h₄, h⟩ := run_bind_eq_ok.1 h
    cases reads_derefPage _ _ _ _ h₄
    obtain ⟨⟨p, pte⟩, s₅, h₅, h⟩ := run_bind_eq_ok.1 h
    cases reads_lookup _ _ _ _ _ h₅
    split at h
    · rename_i p pte heq
      cases heq
      rw [run_bind_ok (run_load pte)] at h
      split at h
      · cases h
      split at h
      · obtain ⟨d, s₆, h₆, h⟩ := run_bind_eq_ok.1 h
        cases reads_derefPage _ _ _ _ h₆
        obtain ⟨r', s₇, h₇, h⟩ := run_bind_eq_ok.1 h
        split at h
        · cases h
        · rename_i hr'
          cases insert_succeeds _ _ _ h₇ hr'
          rw [run_bind_ok (run_modifyEnv ..)] at h
          have hm := ipcDeliver_mem h
          exact Or.inr ⟨p, _, .ipcTrySend hrun hva h₅ (.of_run h₇) hm⟩
      · rename_i hz
        exact Or.inl ⟨r, dst, h₁, hr, by simpa using hz⟩
    · cases h

/-- The sign bit of the permission is clear, where the call tests it with a signed comparison. -/
def Call.SignClear : Call → Prop
  | .pageAlloc _ _ perm => perm.msb = false
  | .pageMap _ _ _ _ perm => perm.msb = false
  | _ => True

/-- The calls that offer a page. -/
def Call.Offers : Call → Prop
  | .pageAlloc _ _ _ | .pageMap _ _ _ _ _ => True
  | .ipcTrySend _ _ srcva _ => srcva < utop
  | _ => False

/-- The page is sent to an environment that wants none. -/
def Call.Unwanted (c : Call) (s : State) : Prop :=
  match c with
  | .ipcTrySend envid _ _ _ =>
    ∃ r dst, (envid2env envid false).run s = .ok (r, some dst) s ∧ ¬ r < 0 ∧ (s.envs dst).envIpcDstva = 0#32
  | _ => False

theorem Installed.good_iff {c : Call} (h : Installed c s s' p w) : GoodPte p w ↔ c.SignClear := by
  have signed : ∀ perm : Word, ¬ permUnset perm → ¬ 0 < (perm &&& ~~~pteUser).toInt → (page2pa p).msb = false →
      (GoodPte p (entry p perm) ↔ perm.msb = false) := by
    intro perm hset htest hp
    constructor
    · intro hg
      by_contra hc
      exact bad_entry (by simpa using hc) hp hg
    · exact fun hs => good_entry hset (perm_signed htest hs) p
  cases h with
  | pageAlloc run alloc insert zero =>
    obtain ⟨hset, htest⟩ := pageAlloc_perm run
    obtain ⟨q, s₂, hq, -⟩ := run_bind_eq_ok.1 zero
    rw [insert.entry]
    exact signed _ hset htest (msb_page2pa hq)
  | pageMap run lookup insert =>
    obtain ⟨hset, htest⟩ := pageMap_perm run
    rw [insert.entry]
    exact signed _ hset htest (msb_of_lt s (lookup_lt lookup))
  | ipcTrySend run hva lookup insert mem =>
    obtain ⟨hset, htest⟩ := ipcTrySend_perm run hva
    rw [insert.entry]
    exact iff_of_true (good_entry hset htest p) trivial

/-- A call that offers a page and returns 0 has installed it where it is wanted, and the entry is good exactly when the
permission has no sign bit to get it past the test. -/
theorem installed_pte_good_iff {c : Call} (hrun : c.exec.run s = .ok 0 s') (ho : c.Offers) :
    (c.Unwanted s ∨ ∃ p w, Installed c s s' p w) ∧ ∀ p w, Installed c s s' p w → (GoodPte p w ↔ c.SignClear) := by
  refine ⟨?_, fun p w h => h.good_iff⟩
  cases c with
  | pageAlloc envid va perm => exact Or.inr (pageAlloc_installed hrun)
  | pageMap srcenvid srcva dstenvid dstva perm => exact Or.inr (pageMap_installed hrun)
  | ipcTrySend envid value srcva perm => exact ipcTrySend_installed hrun ho
  | _ => exact ho.elim

/-- The first environment of the machine in a system call. -/
def inCall : State := firstEnv.enter 0 0

/-- `inCall` after `page_insert` in a call of `sys_page_alloc` for `UTEXT`. -/
def inCallInserted (perm : Word) : State := finalState ((pageInsert 128 127 utext perm).run (inCall.pop 127))

def inCallAllocated (perm : Word) : State := (inCallInserted perm).setMem 127 fun _ => 0#32

theorem installed_pte_good_iff_inCall : GoodPte 127 (entry 127 (pteP ||| pteU ||| pteW)) := by
  have h : Installed (.pageAlloc 0#32 utext (pteP ||| pteU ||| pteW)) inCall
      (inCallAllocated (pteP ||| pteU ||| pteW)) 127 (entry 127 (pteP ||| pteU ||| pteW)) :=
    .pageAlloc (d := 128) (t := inCall.pop 127) (u := inCallInserted (pteP ||| pteU ||| pteW)) rfl rfl (.of_run rfl) rfl
  exact ((installed_pte_good_iff (c := .pageAlloc 0#32 utext (pteP ||| pteU ||| pteW)) rfl trivial).2 _ _ h).2 rfl

/-- The permission `0x80000007` passes the test of `sys_page_alloc`, and the entry points elsewhere. -/
theorem forged_pte : Installed (.pageAlloc 0#32 utext 0x80000007#32) inCall (inCallAllocated 0x80000007#32) 127
      (entry 127 0x80000007#32) ∧ pteAddr (entry 127 0x80000007#32) = 0x8007F000#32 ∧
      ¬ GoodPte 127 (entry 127 0x80000007#32) := by
  refine ⟨?_, by decide, fun hg => absurd hg.addr (by decide)⟩
  exact .pageAlloc (d := 128) (t := inCall.pop 127) (u := inCallInserted 0x80000007#32) rfl rfl (.of_run rfl) rfl

end Jos
