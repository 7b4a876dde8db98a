/-
The user frame that `page_fault_handler` pushes. Overflow of the exception stack is left to
`user_mem_assert`, which looks at the permissions of the addresses and not at the page they are on: a program
that has mapped the page below the exception stack overflows onto it.
-/
import Jos.User.Upcall
import Jos.Run.Sane
import Jos.Sys.Grants

namespace Jos

open Lib Kern

variable {b s s' : State} {M : List Nat} {cur : Slot} {d : Nat} {tf : Trapframe} {faultVa va a : Word}

/-! ## User memory through CR3 -/

/-- The byte of memory that a kernel access to `va` reaches. -/
def State.byteAt (s : State) : Bytes := fun va =>
  match s.translate va with
  | some p => getByte (s.mem p.1 p.2) (va.toNat % 4)
  | none => 0#8

/-- A user address is writable: its page table entry has `PTE_W`. -/
def Writable (s : State) (cur : Slot) (va : Word) : Prop :=
  va < utop ∧ ∃ w, s.pte cur (pdx va) (ptx va) = some w ∧ w &&& pteW ≠ 0#32

theorem Writable.translate (hw : Writable s cur va) (h : Loaded b M cur d s) : ∃ p, s.translate va = some p := by
  obtain ⟨hva, w, hw, hW⟩ := hw
  exact ⟨_, (loaded_translate_iff h hva).2 ⟨w, hw, hW, rfl⟩⟩

/-- Addresses of one page are translated alike. -/
theorem translate_page (h : Loaded b M cur d s) (hva : va < utop) (ha : a < utop) (hpg : pgnum a = pgnum va) {p : Nat × Idx}
    (hp : s.translate va = some p) : s.translate a = some (p.1, Fin.ofNat 1024 (a.toNat / 4 % 1024)) := by
  obtain ⟨w, hw, hW, rfl⟩ := (loaded_translate_iff h hva).1 hp
  obtain ⟨hi, hj⟩ := (idx_eq_iff a va).2 hpg
  exact (loaded_translate_iff h ha).2 ⟨w, by rw [hi, hj]; exact hw, hW, rfl⟩

/-! ## Stores -/

/-- A store keeps the translations of the user addresses. -/
structure Stored (b : State) (M : List Nat) (cur : Slot) (d : Nat) (s s' : State) : Prop where
  loaded : Loaded b M cur d s'
  pte : s'.pte = s.pte
  rest : Rest s s'

theorem Stored.refl (h : Loaded b M cur d s) : Stored b M cur d s s := ⟨h, rfl, .refl s⟩

theorem Stored.trans {s'' : State} (h : Stored b M cur d s s') (h' : Stored b M cur d s' s'') : Stored b M cur d s s'' :=
  ⟨h'.loaded, h'.pte.trans h.pte, h.rest.trans h'.rest⟩

theorem Stored.writable (h : Stored b M cur d s s') (hw : Writable s cur va) : Writable s' cur va := by
  unfold Writable
  rw [h.pte]
  exact hw

theorem Stored.translate (h : Stored b M cur d s s') (hs : Loaded b M cur d s) (ha : a < utop) :
    s'.translate a = s.translate a := by
  ext p
  rw [loaded_translate_iff h.loaded ha, loaded_translate_iff hs ha, h.pte]

theorem run_storeByte {p : Nat × Idx} (hp : s.translate va = some p) (x : BitVec 8) :
    (storeByte va x).run s = .ok () (s.setWord p.1 p.2 (setByte (s.mem p.1 p.2) (va.toNat % 4) x)) := by
  unfold storeByte
  rw [run_bind_ok (EStateM.run_get s), hp]
  rfl

theorem stored_setWord (h : Loaded b M cur d s) (hva : va < utop) {p : Nat × Idx} (hp : s.translate va = some p) (v : Word) :
    Stored b M cur d s (s.setWord p.1 p.2 v) := by
  obtain ⟨w, hw, -, rfl⟩ := (loaded_translate_iff h hva).1 hp
  obtain ⟨hs, hd, hpte⟩ := h.1.setWord hw (Fin.ofNat 1024 (va.toNat / 4 % 1024)) v
  exact ⟨⟨hs, by rw [hd]; exact h.2.1, h.2.2⟩, hpte, rest_setWord ..⟩

theorem getLsbD_getByte (w : Word) (j : Nat) {i : Nat} (hi : i < 8) : (getByte w j).getLsbD i = w.getLsbD (8 * j + i) := by
  unfold getByte
  simp [hi]

theorem getLsbD_byteMask (n : Nat) : (0xFF#32).getLsbD n = decide (n < 8) := by
  have hm : (0xFF#32) = (BitVec.allOnes 8).setWidth 32 := by decide
  rw [hm, BitVec.getLsbD_setWidth, BitVec.getLsbD_allOnes]
  by_cases h : n < 8
  · simp [h, show n < 32 by omega]
  · simp [h]

theorem getLsbD_setByte (w : Word) (k : Nat) (x : BitVec 8) {n : Nat} (hn : n < 32) :
    (setByte w k x).getLsbD n = if 8 * k ≤ n ∧ n < 8 * k + 8 then x.getLsbD (n - 8 * k) else w.getLsbD n := by
  unfold setByte
  simp only [BitVec.getLsbD_or, BitVec.getLsbD_and, BitVec.getLsbD_not, BitVec.getLsbD_shiftLeft, getLsbD_byteMask,
    BitVec.getLsbD_setWidth, hn, decide_true, Bool.true_and]
  by_cases h₁ : n < 8 * k
  · have h : ¬ (8 * k ≤ n ∧ n < 8 * k + 8) := by omega
    simp [h₁, h]
  by_cases h₂ : n < 8 * k + 8
  · have h : 8 * k ≤ n ∧ n < 8 * k + 8 := by omega
    simp [h₁, h, show n - 8 * k < 8 by omega, show n - 8 * k < 32 by omega]
  · have h : ¬ (8 * k ≤ n ∧ n < 8 * k + 8) := by omega
    have hx : x.getLsbD (n - 8 * k) = false := BitVec.getLsbD_of_ge _ _ (by omega)
    simp [h₁, h, hx, show ¬ n - 8 * k < 8 by omega]

theorem getByte_setByte {w : Word} {x : BitVec 8} {j k : Nat} (hj : j < 4) :
    getByte (setByte w k x) j = if j = k then x else getByte w j := by
  refine BitVec.eq_of_getLsbD_eq fun i hi => ?_
  rw [getLsbD_getByte _ _ hi, getLsbD_setByte w k x (by omega)]
  by_cases h : j = k
  · subst h
    rw [if_pos rfl, if_pos (by omega)]
    congr 1
    omega
  · rw [if_neg h, if_neg (by omega), getLsbD_getByte _ _ hi]

/-- What a store of a byte does to the bytes of its page. -/
theorem byteAt_setWord (h : Loaded b M cur d s) (hva : va < utop) (ha : a < utop) (hpg : pgnum a = pgnum va) {p : Nat × Idx}
    (hp : s.translate va = some p) (x : BitVec 8) :
    (s.setWord p.1 p.2 (setByte (s.mem p.1 p.2) (va.toNat % 4) x)).byteAt a = if a = va then x else s.byteAt a := by
  have hst := stored_setWord h hva hp (setByte (s.mem p.1 p.2) (va.toNat % 4) x)
  have hta := translate_page h hva ha hpg hp
  have hpi : p.2 = Fin.ofNat 1024 (va.toNat / 4 % 1024) := by
    obtain ⟨w, -, -, rfl⟩ := (loaded_translate_iff h hva).1 hp
    rfl
  unfold State.byteAt
  rw [hst.translate h ha, hta]
  dsimp only
  rw [pgnum_eq, pgnum_eq] at hpg
  -- the same word of the page, or another one
  by_cases hidx : Fin.ofNat 1024 (a.toNat / 4 % 1024) = p.2
  · have hval : a.toNat / 4 % 1024 = va.toNat / 4 % 1024 := by
      have := congrArg Fin.val (hidx.trans hpi)
      simpa using this
    rw [hidx]
    show getByte (Function.update s.mem p.1 (Function.update (s.mem p.1) p.2 _) p.1 p.2) _ = _
    rw [Function.update_self, Function.update_self, getByte_setByte (by omega)]
    refine if_congr ?_ rfl rfl
    rw [← BitVec.toNat_inj]
    omega
  · show getByte (Function.update s.mem p.1 (Function.update (s.mem p.1) p.2 _) p.1 _) _ = _
    rw [Function.update_self, Function.update_of_ne hidx, if_neg]
    rintro rfl
    exact hidx hpi.symm

/-! ## The frame -/

theorem OnXstack.lt_utop (h : OnXstack a) : a < utop := h.2

theorem OnXstack.pgnum (h : OnXstack a) (hv : OnXstack va) : pgnum a = pgnum va := by
  rw [onXstack_iff] at h hv
  rw [pgnum_eq, pgnum_eq]
  omega

/-- From `s` on, nothing but the page of the exception stack was written, and its bytes are those of `m`. -/
structure Pushing (b : State) (M : List Nat) (cur : Slot) (d : Nat) (s s' : State) (m : Bytes) : Prop where
  stored : Stored b M cur d s s'
  bytes : ∀ a, OnXstack a → s'.byteAt a = m a
  other : ∀ f i, (∀ a, OnXstack a → s.translate a ≠ some (f, i)) → s'.mem f i = s.mem f i

theorem Pushing.refl (h : Loaded b M cur d s) : Pushing b M cur d s s s.byteAt :=
  ⟨.refl h, fun _ _ => rfl, fun _ _ _ => rfl⟩

variable {m : Bytes}

theorem Pushing.byte (h : Pushing b M cur d s s' m) (hs : Loaded b M cur d s) (hva : OnXstack va) (hw : Writable s cur va)
    (x : BitVec 8) :
    ∃ s'', (storeByte va x).run s' = .ok () s'' ∧ Pushing b M cur d s s'' (Function.update m va x) := by
  obtain ⟨p, hp⟩ := (h.stored.writable hw).translate h.stored.loaded
  have hlt := hva.lt_utop
  refine ⟨_, run_storeByte hp x, h.stored.trans (stored_setWord h.stored.loaded hlt hp _), fun a ha => ?_, fun f i hfi => ?_⟩
  · rw [byteAt_setWord h.stored.loaded hlt ha.lt_utop (ha.pgnum hva) hp x, Function.update_apply, h.bytes a ha]
  · have hne : (f, i) ≠ p := by
      rintro rfl
      exact hfi va hva ((h.stored.translate hs hlt).symm.trans hp)
    rw [← h.other f i hfi]
    show Function.update s'.mem p.1 (Function.update (s'.mem p.1) p.2 _) f i = _
    by_cases hf : f = p.1
    · rw [hf, Function.update_self, Function.update_of_ne]
      rintro rfl
      exact hne (by rw [hf])
    · rw [Function.update_of_ne hf]

theorem write_bytes (m : Bytes) (a w : Word) :
    Function.update (Function.update (Function.update (Function.update m (a + 0#32) (getByte w 0)) (a + 1#32) (getByte w 1))
      (a + 2#32) (getByte w 2)) (a + 3#32) (getByte w 3) = m.write a w := by
  have hbyte : ∀ j, getByte w j = byteOf w j := fun j => rfl
  funext x
  unfold Bytes.write
  simp only [Function.update_apply, hbyte]
  split
  · subst_vars; rw [if_pos (by bv_omega)]; congr 1; bv_omega
  split
  · subst_vars; rw [if_pos (by bv_omega)]; congr 1; bv_omega
  split
  · subst_vars; rw [if_pos (by bv_omega)]; congr 1; bv_omega
  split
  · subst_vars; rw [if_pos (by bv_omega)]; congr 1; bv_omega
  · rw [if_neg (by bv_omega)]

theorem Pushing.word (h : Pushing b M cur d s s' m) (hs : Loaded b M cur d s)
    (hva : ∀ a, (a - va).toNat < 4 → OnXstack a ∧ Writable s cur a) (w : Word) :
    ∃ s'', (storeWord va w).run s' = .ok () s'' ∧ Pushing b M cur d s s'' (m.write va w) := by
  obtain ⟨s₁, r₁, h₁⟩ := h.byte hs (hva (va + 0#32) (by bv_omega)).1 (hva _ (by bv_omega)).2 (getByte w 0)
  obtain ⟨s₂, r₂, h₂⟩ := h₁.byte hs (hva (va + 1#32) (by bv_omega)).1 (hva _ (by bv_omega)).2 (getByte w 1)
  obtain ⟨s₃, r₃, h₃⟩ := h₂.byte hs (hva (va + 2#32) (by bv_omega)).1 (hva _ (by bv_omega)).2 (getByte w 2)
  obtain ⟨s₄, r₄, h₄⟩ := h₃.byte hs (hva (va + 3#32) (by bv_omega)).1 (hva _ (by bv_omega)).2 (getByte w 3)
  rw [write_bytes] at h₄
  exact ⟨s₄, (run_bind_ok r₁).trans <| (run_bind_ok r₂).trans <| (run_bind_ok r₃).trans (run_bind_ok r₄), h₄⟩

/-- The words from number `n` on. -/
theorem Pushing.words (hs : Loaded b M cur d s) (utf : Word) : ∀ (ws : List Word) (n : Nat) (s' : State) (m : Bytes),
    Pushing b M cur d s s' m →
    (∀ a, (a - (utf + BitVec.ofNat 32 (4 * n))).toNat < 4 * ws.length → OnXstack a ∧ Writable s cur a) →
    4 * ws.length < 2 ^ 32 →
    ∃ s'', ((ws.zipIdx n).forM fun wi => storeWord (utf + BitVec.ofNat 32 (4 * wi.2)) wi.1).run s' = .ok () s'' ∧
      Pushing b M cur d s s'' (m.writes (utf + BitVec.ofNat 32 (4 * n)) ws)
  | [], _, s', _, h, _, _ => ⟨s', rfl, h⟩
  | w :: ws, n, s', m, h, hall, hlen => by
    rw [List.length_cons] at hall hlen
    obtain ⟨s₁, hrun, h₁⟩ := h.word hs (fun a ha => hall a (Nat.lt_of_lt_of_le ha (by omega))) w
    have hnext : utf + BitVec.ofNat 32 (4 * (n + 1)) = utf + BitVec.ofNat 32 (4 * n) + 4#32 := by
      rw [BitVec.add_assoc, Nat.mul_succ, BitVec.ofNat_add]
    obtain ⟨s₂, hrun₂, h₂⟩ := Pushing.words hs utf ws (n + 1) s₁ _ h₁ (fun a ha => hall a (by rw [hnext] at ha; bv_omega))
      (by omega)
    rw [hnext] at h₂
    exact ⟨s₂, (run_bind_ok hrun).trans hrun₂, h₂⟩

/-! ## Destruction -/

/-- The environment is destroyed, and the CPU goes on with another one or stays in the monitor. -/
def DestroysEnv (cur : Slot) (r : EStateM.Result Stop State Unit) : Prop :=
  ∃ x s', r = .error x s' ∧ x ≠ .panic ∧ (s'.envs cur).envStatus = .free

/-- With the lock, `sched_yield` does not panic. -/
theorem schedYield_no_panic (h : Sane b M s) (hl : s.kernelLock = some s.cpunum) :
    ∃ x s', schedYield.run s = .error x s' ∧ x ≠ .panic ∧ Switched s s' := by
  obtain ⟨x, s', hrun, hsw⟩ := schedYield_switched s
  refine ⟨x, s', hrun, ?_, hsw⟩
  rcases schedYield_picks s with ⟨e, he, hpick⟩ | ⟨-, hmon⟩
  · have hlive : (s.envs e).envStatus ≠ .free := by
      have hr : (s.envs e).envStatus = .runnable := he.runnable
      rw [hr]; simp
    obtain ⟨⟨l, le, hi⟩, -⟩ := h
    obtain ⟨d, -, hd⟩ := hi.toEnvTable.dir hlive
    rw [hpick, envRun_pops hl hd] at hrun
    cases hrun
    simp
  · rw [hmon] at hrun
    cases hrun
    simp

theorem Freed.genuine {e : Slot} (h : Freed s s' e) (hg : Genuine s) : Genuine s' := by
  rintro e' ⟨i, j, w, hw, hge⟩
  by_cases he : e' = e
  · rw [he, h.pteOwn] at hw
    cases hw
  · rw [h.pteOther e' i j he] at hw
    rw [h.same.npages] at hge
    exact hg e' ⟨i, j, w, hw, hge⟩

theorem envDestroy_destroys (h : Sane b M s) (hd : s.dir cur = some d) (hcur : s.curenv = some cur)
    (hl : s.kernelLock = some s.cpunum) : DestroysEnv cur ((envDestroy cur).run s) := by
  obtain ⟨⟨l, le, hi⟩, hg⟩ := h
  rcases free_spec countRel_eq hi hd with ⟨s₁, l₁, hfree, hi₁, hfr⟩ | ⟨_, -, hf, -⟩
  · have hs₁ : Sane b M (s₁.setCurenv none) :=
      Sane.congr (s := s₁) ⟨⟨_, _, hi₁⟩, hfr.genuine hg⟩ rfl rfl rfl rfl rfl rfl rfl
    have hl₁ : s₁.kernelLock = some s₁.cpunum := by rw [hfr.same.kernelLock, hfr.same.cpunum, hl]
    obtain ⟨x, s₂, hy, hx, hsw⟩ := schedYield_no_panic hs₁ hl₁
    refine ⟨x, s₂, ?_, hx, (hsw.like cur).free.2 hfr.free⟩
    unfold envDestroy
    rw [run_bind_ok (EStateM.run_get s), if_neg (fun h => h.2 hcur), run_bind_ok hfree, run_bind_ok (EStateM.run_get s₁),
      if_pos (hfr.same.curenv.trans hcur)]
    exact hy
  · exact absurd hf (hg cur)

/-! ## The handler -/

/-- The stack pointer is on the exception stack, but the frame and the scratch word do not fit between it and the end of the
page. -/
def Overflows (esp : Word) : Prop := OnXstack esp ∧ esp < uxstacktop - pgsize + 56#32

instance (esp : Word) : Decidable (Overflows esp) := inferInstanceAs (Decidable (_ ∧ _))

/-- The user may write the addresses of the frame. -/
def UtfAccessible (s : State) (d : Nat) (utf : Word) : Prop :=
  ∀ a, utf.toNat ≤ a → a < utf.toNat + 52 → Accessible s d (pteU ||| pteW) a

/-- The environment goes on at its upcall in `s'`, with a complete frame on the page of its exception stack, a word
that the frame leaves free when the trap happened on that stack, and nothing else written. -/
structure Pushed (s : State) (cur : Slot) (tf : Trapframe) (faultVa : Word) (s' : State) : Prop where
  frame : ∀ a, InUtf (utfAddr tf.tfEsp) a → OnXstack a
  scratch : OnXstack tf.tfEsp → ∀ a, (a - (tf.tfEsp - 4#32)).toNat < 4 → OnXstack a ∧ ¬ InUtf (utfAddr tf.tfEsp) a
  esp : OnXstack (s'.envs cur).envTf.tfEsp ∧ (s'.envs cur).envTf.tfEsp = utfAddr tf.tfEsp
  eip : (s'.envs cur).envTf.tfEip = (s.envs cur).envPgfaultUpcall
  bytes : ∀ a, OnXstack a → s'.byteAt a = s.byteAt.writes (utfAddr tf.tfEsp) (faultFrame tf faultVa).words a
  other : ∀ f i, (∀ a, OnXstack a → s.translate a ≠ some (f, i)) → s'.mem f i = s.mem f i

/-- What is asked of `page_fault_handler`: the environment is destroyed, which an overflow always leads to, or
the frame is on the page of the exception stack. -/
def UpcallSafe (s : State) (cur : Slot) (tf : Trapframe) (faultVa : Word) : Prop :=
  let r := (pageFaultHandler tf faultVa).run s
  (DestroysEnv cur r ∨ ∃ s', r = .error .envPopTf s' ∧ Pushed s cur tf faultVa s') ∧ (Overflows tf.tfEsp → DestroysEnv cur r)

theorem overflows_iff {esp : Word} (hx : OnXstack esp) : Overflows esp ↔ ¬ ∀ a, InUtf (utfAddr esp) a → OnXstack a := by
  have hlo : (uxstacktop - pgsize + 56#32).toNat = 0xEEBFF038 := by decide
  unfold Overflows InUtf
  rw [utfAddr_nested hx, BitVec.lt_def, hlo]
  simp only [hx, true_and]
  rw [onXstack_iff] at hx
  constructor
  · intro h hall
    have := (onXstack_iff.1 (hall (esp - 56#32) (by bv_omega))).1
    bv_omega
  · intro h
    by_contra hge
    refine h fun a ha => ?_
    rw [onXstack_iff]
    bv_omega

/-- Without overflow the frame and the scratch word are on the page. -/
theorem utf_onXstack {esp : Word} (h : ¬ Overflows esp) : (∀ a, InUtf (utfAddr esp) a → OnXstack a) ∧
    (OnXstack esp → ∀ a, (a - (esp - 4#32)).toNat < 4 → OnXstack a ∧ ¬ InUtf (utfAddr esp) a) := by
  by_cases hx : OnXstack esp
  · have hall := not_not.1 fun hc => h ((overflows_iff hx).2 hc)
    refine ⟨hall, fun _ a ha => ?_⟩
    have hlo := (onXstack_iff.1 (hall (utfAddr esp) (by unfold InUtf; bv_omega))).1
    unfold InUtf
    rw [utfAddr_nested hx] at hlo ⊢
    rw [onXstack_iff] at hx ⊢
    constructor
    · bv_omega
    · bv_omega
  · refine ⟨fun a ha => ?_, fun h => absurd h hx⟩
    have hu : uxstacktop = 0xEEC00000#32 := by decide
    unfold InUtf at ha
    rw [utfAddr_first hx, hu] at ha
    rw [onXstack_iff]
    bv_omega

/-- An accessible user address is writable. -/
theorem Accessible.writable (h : Accessible s d (pteU ||| pteW) a.toNat) (hd : s.dir cur = some d) (hva : a < utop) :
    Writable s cur a := by
  obtain ⟨-, hpde, w, rfl, hp, hw⟩ := h
  rw [BitVec.ofNat_toNat, BitVec.setWidth_eq] at hpde hp hw
  refine ⟨hva, _, pte_eq_some.2 ⟨_, ?_, rfl, hp⟩, fun hz => ?_⟩
  · rw [tab_of_dir hd hva, dec_eq_some]
    exact ⟨hpde, rfl⟩
  · have hb := congrArg (fun x : Word => x.getLsbD 1) hw
    have hz := congrArg (fun x : Word => x.getLsbD 1) hz
    simp [pteU, pteW, pteP] at hb hz
    rw [hb] at hz
    cases hz

/-- The check of the addresses of the frame. -/
theorem run_utfCheck (hp : PdesOk s d) (hd : (s.envs cur).envPgdir = some d) (esp : Word) :
    ∃ r a, (userMemCheck cur (utfAddr esp) utfSize (pteU ||| pteW ||| pteU)).run s = .ok r { s with userMemCheckAddr := a } ∧
      (r = 0 ↔ UtfAccessible s d (utfAddr esp)) ∧ (r ≠ 0 → r < 0) := by
  obtain ⟨r, s', hrun, hex⟩ := loop_spec (pteU ||| pteW ||| pteU) hp (utfAddr esp + utfSize) _ (utfAddr esp) rfl
  rw [← run_userMemCheck hd] at hrun
  have hend : (utfAddr esp + utfSize).toNat = (utfAddr esp).toNat + 52 := by
    have hle := utfAddr_le esp
    have hu : utop.toNat = 0xeec00000 := utop_toNat
    rw [BitVec.toNat_add, show utfSize.toNat = 52 from rfl]
    omega
  have hzero := hex.zero
  rw [hend] at hzero
  have hneg : r ≠ 0 → r < 0 := fun hr => by
    rw [(hex.fault hr).1]
    decide
  rcases userMemCheck_reads (s := s) cur (utfAddr esp) utfSize (pteU ||| pteW ||| pteU) with ⟨r', a, hrun'⟩ | hrun'
  · cases hrun.symm.trans hrun'
    exact ⟨r, a, hrun, hzero, hneg⟩
  · cases hrun.symm.trans hrun'

theorem translate_congr (hm : s'.mem = s.mem) (hc : (s'.cpus s'.cpunum).cr3 = (s.cpus s.cpunum).cr3) : s'.translate =
    s.translate := by
  funext va
  unfold State.translate
  rw [hm, hc]

theorem popTf_translate (hl : (s.cpus s.cpunum).cr3 = page2pa d) (e : Slot) : (s.popTf e d).translate = s.translate := by
  refine translate_congr (popTf_mem s e d) ?_
  rw [popTf_cpus, popTf_cpunum, if_pos rfl, hl]

/-- `page_fault_handler` once the check has succeeded. -/
def pushUtf (cur : Slot) (upcall : Word) (tf : Trapframe) (faultVa : Word) : Kern Unit := do
  storeUtf (utfAddr tf.tfEsp) (faultFrame tf faultVa)
  modifyEnv cur fun v => { v with envTf := { v.envTf with tfEip := upcall, tfEsp := utfAddr tf.tfEsp } }
  envRun cur

theorem pushUtf_not_ok (upcall : Word) (s' : State) : (pushUtf cur upcall tf faultVa).run s ≠ .ok () s' := by
  intro hok
  obtain ⟨_, s₁, -, hok⟩ := run_bind_eq_ok.1 hok
  obtain ⟨_, s₂, -, hok⟩ := run_bind_eq_ok.1 hok
  exact envRun_not_ok _ _ _ hok

/-- The environment is not destroyed there. -/
theorem pushUtf_keeps (upcall : Word) :
    ¬ DestroysEnv cur ((pushUtf cur upcall tf faultVa).run s) := by
  rintro ⟨x, s', hr, hx, hfree⟩
  unfold pushUtf at hr
  rcases run_bind_eq_error.1 hr with hstore | ⟨_, s₁, hstore, hr⟩
  · obtain ⟨rfl, -⟩ := quiet_error (quiet_storeUtf _ _) hstore
    exact hx rfl
  · have hq := quiet_ok (quiet_storeUtf _ _) hstore
    rw [run_bind_ok (run_modifyEnv ..)] at hr
    let v : Env := { s₁.envs cur with envTf := { (s₁.envs cur).envTf with tfEip := upcall, tfEsp := utfAddr tf.tfEsp } }
    have hres := envRun_resumed (s₁.setEnv cur v) cur
    rw [hr] at hres
    cases hres with
    | popTf d hd hl =>
      rw [popTf_status, State.statusAfter, if_pos rfl] at hfree
      cases hfree
    | noLock => exact hx rfl
    | noDir => exact hx rfl

/-- A record whose environment goes on at `upcall` with the stack pointer `esp`. -/
def Env.sentTo (v : Env) (upcall esp : Word) : Env :=
  { v with envTf := { v.envTf with tfEip := upcall, tfEsp := esp } }

/-- A frame whose addresses are accessible, without overflow: the words are stored, then the environment is resumed. -/
theorem pushUtf_run (upcall faultVa : Word) (h : Loaded b M cur d s) (hl : s.kernelLock = some s.cpunum)
    (hno : ¬ Overflows tf.tfEsp) (hacc : UtfAccessible s d (utfAddr tf.tfEsp)) :
    ∃ s₁, Pushing b M cur d s s₁ (s.byteAt.writes (utfAddr tf.tfEsp) (faultFrame tf faultVa).words) ∧
      (pushUtf cur upcall tf faultVa).run s =
        .error .envPopTf ((s₁.setEnv cur ((s.envs cur).sentTo upcall (utfAddr tf.tfEsp))).popTf cur d) := by
  obtain ⟨hframe, -⟩ := utf_onXstack hno
  have hle := utfAddr_le tf.tfEsp
  have hu : utop.toNat = 0xeec00000 := utop_toNat
  obtain ⟨s₁, hstore, hpush⟩ := Pushing.words h (utfAddr tf.tfEsp) (faultFrame tf faultVa).words 0 s s.byteAt (.refl h)
    (fun a ha => by
      have hin : InUtf (utfAddr tf.tfEsp) a := by
        rw [Nat.mul_zero, BitVec.add_zero] at ha
        exact ha
      have hx := hframe a hin
      refine ⟨hx, (hacc a.toNat ?_ ?_).writable h.2.1 hx.lt_utop⟩ <;> unfold InUtf at hin <;> bv_omega)
    (by decide : 4 * 13 < 2 ^ 32)
  rw [Nat.mul_zero, BitVec.add_zero] at hpush
  have hr := hpush.stored.rest
  let v : Env := (s.envs cur).sentTo upcall (utfAddr tf.tfEsp)
  have hmod : (modifyEnv cur fun v => { v with envTf := { v.envTf with tfEip := upcall, tfEsp := utfAddr tf.tfEsp } }).run s₁ =
      .ok () (s₁.setEnv cur v) := by
    rw [run_modifyEnv, hr.envs]
    rfl
  have hd₂ : ((s₁.setEnv cur v).envs cur).envPgdir = some d := by
    show (Function.update s₁.envs cur v cur).envPgdir = _
    rw [Function.update_self]
    exact (dir_eq_some.1 h.2.1).2
  have hl₂ : (s₁.setEnv cur v).kernelLock = some (s₁.setEnv cur v).cpunum := by
    show s₁.kernelLock = some s₁.cpunum
    rw [hr.same.kernelLock, hr.same.cpunum, hl]
  exact ⟨s₁, hpush, (run_bind_ok hstore).trans <| (run_bind_ok hmod).trans (envRun_pops hl₂ hd₂)⟩

/-- The saved frame of the environment that was sent to its upcall. -/
theorem popTf_sentTo (s : State) (v : Env) (cur : Slot) (d : Nat) : (((s.setEnv cur v).popTf cur d).envs cur).envTf =
    v.envTf := by
  obtain ⟨runs, cpu, henv⟩ := popTf_envs (s.setEnv cur v) cur d cur
  rw [henv]
  show (Function.update s.envs cur v cur).envTf = _
  rw [Function.update_self]

theorem pushUtf_pushes (faultVa : Word) (h : Loaded b M cur d s) (hl : s.kernelLock = some s.cpunum)
    (hno : ¬ Overflows tf.tfEsp) (hacc : UtfAccessible s d (utfAddr tf.tfEsp)) :
    ∃ s', (pushUtf cur (s.envs cur).envPgfaultUpcall tf faultVa).run s = .error .envPopTf s' ∧ Pushed s cur tf faultVa s' := by
  obtain ⟨hframe, hscratch⟩ := utf_onXstack hno
  obtain ⟨s₁, hpush, hrun⟩ := pushUtf_run (s.envs cur).envPgfaultUpcall faultVa h hl hno hacc
  let v : Env := (s.envs cur).sentTo (s.envs cur).envPgfaultUpcall (utfAddr tf.tfEsp)
  have htf := popTf_sentTo s₁ v cur d
  have hcr3 : ((s₁.setEnv cur v).cpus (s₁.setEnv cur v).cpunum).cr3 = page2pa d := hpush.stored.loaded.2.2
  refine ⟨_, hrun, hframe, hscratch, ⟨?_, by rw [htf]; rfl⟩, by rw [htf]; rfl, fun a ha => ?_, fun f i hfi => ?_⟩
  · rw [htf]
    exact hframe _ (by unfold InUtf; rw [show v.envTf.tfEsp = utfAddr tf.tfEsp from rfl, BitVec.sub_self]; decide)
  · rw [← hpush.bytes a ha]
    unfold State.byteAt
    rw [popTf_translate hcr3, popTf_mem]
    rfl
  · rw [popTf_mem]
    exact hpush.other f i hfi

section Handler

variable (hk : KernDir b M) (h : Loaded b M cur d s) (hcur : s.curenv = some cur) (hup : (s.envs cur).envPgfaultUpcall ≠ 0#32)
  (hcs : tf.tfCs &&& 3#16 ≠ 0#16)

include hk h hcur hup hcs

/-- When the frame passes the check it is pushed. -/
theorem pageFault_accepts (faultVa : Word) (hacc : UtfAccessible s d (utfAddr tf.tfEsp)) : ∃ a,
    (pageFaultHandler tf faultVa).run s =
    (pushUtf cur (s.envs cur).envPgfaultUpcall tf faultVa).run { s with userMemCheckAddr := a } := by
  have hpd : PdesOk s d := by
    obtain ⟨⟨⟨l, le, hi⟩, -⟩, hd, -⟩ := h
    exact hi.toTables.pdesOk hk hd
  obtain ⟨r, a, hcheck, hzero, -⟩ := run_utfCheck hpd (dir_eq_some.1 h.2.1).2 tf.tfEsp
  refine ⟨a, ?_⟩
  have hassoc : (do
      storeUtf (utfAddr tf.tfEsp) (faultFrame tf faultVa)
      modifyEnv cur fun v => { v with envTf :=
        { v.envTf with tfEip := (s.envs cur).envPgfaultUpcall, tfEsp := utfAddr tf.tfEsp } }
      envRun cur
      envDestroy cur : Kern Unit) = (pushUtf cur (s.envs cur).envPgfaultUpcall tf faultVa >>= fun _ => envDestroy cur) := by
    unfold pushUtf
    simp only [bind_assoc]
  unfold pageFaultHandler userMemAssert
  rw [if_neg hcs, run_bind_ok (EStateM.run_get s), hcur, run_bind_ok (run_deref_some cur), run_bind_ok (run_env cur), if_pos hup,
    bind_assoc, run_bind_ok hcheck, hzero.2 hacc, if_neg (lt_irrefl _), run_bind_ok (EStateM.run_pure _ _), hassoc]
  cases hp : (pushUtf cur (s.envs cur).envPgfaultUpcall tf faultVa).run { s with userMemCheckAddr := a } with
  | ok _ s₂ => exact absurd hp (pushUtf_not_ok _ s₂)
  | error x s₂ => exact run_bind_error hp

/-- When it does not pass the check the environment is destroyed. -/
theorem pageFault_rejects (faultVa : Word) (hl : s.kernelLock = some s.cpunum) (hacc : ¬ UtfAccessible s d (utfAddr tf.tfEsp)) :
    DestroysEnv cur ((pageFaultHandler tf faultVa).run s) := by
  have hpd : PdesOk s d := by
    obtain ⟨⟨⟨l, le, hi⟩, -⟩, hd, -⟩ := h
    exact hi.toTables.pdesOk hk hd
  obtain ⟨r, a, hcheck, hzero, hneg⟩ := run_utfCheck hpd (dir_eq_some.1 h.2.1).2 tf.tfEsp
  let s₁ : State := { s with userMemCheckAddr := a }
  have h₁ : Sane b M s₁ := h.1.congr rfl rfl rfl rfl rfl rfl rfl
  have hd₁ : s₁.dir cur = some d := h.2.1
  obtain ⟨x, s₂, hx, hne, hfree⟩ := envDestroy_destroys h₁ hd₁ hcur hl
  refine ⟨x, s₂, ?_, hne, hfree⟩
  unfold pageFaultHandler userMemAssert
  rw [if_neg hcs, run_bind_ok (EStateM.run_get s), hcur, run_bind_ok (run_deref_some cur), run_bind_ok (run_env cur), if_pos hup,
    bind_assoc, run_bind_ok hcheck, if_pos (hneg fun h => hacc (hzero.1 h))]
  exact run_bind_error hx

/-- An overflow that passes the check does not lead to destruction. -/
theorem pageFault_overflow (hov : Overflows tf.tfEsp)
    (hacc : UtfAccessible s d (utfAddr tf.tfEsp)) : ¬ UpcallSafe s cur tf faultVa := by
  rintro ⟨-, hdes⟩
  obtain ⟨a, hr⟩ := pageFault_accepts hk h hcur hup hcs faultVa hacc
  have hd := hdes hov
  rw [hr] at hd
  exact pushUtf_keeps (s := { s with userMemCheckAddr := a }) _ hd

/-- `page_fault_handler` does what is asked of it, if and only if it is not the case that the exception stack
overflows onto addresses that the user may write. -/
theorem pageFault_safe_iff (hl : s.kernelLock = some s.cpunum) :
    UpcallSafe s cur tf faultVa ↔ ¬ (Overflows tf.tfEsp ∧ UtfAccessible s d (utfAddr tf.tfEsp)) := by
  constructor
  · intro hsafe hc
    exact pageFault_overflow hk h hcur hup hcs hc.1 hc.2 hsafe
  · intro hno
    by_cases hacc : UtfAccessible s d (utfAddr tf.tfEsp)
    · have hov : ¬ Overflows tf.tfEsp := fun ho => hno ⟨ho, hacc⟩
      obtain ⟨a, hr⟩ := pageFault_accepts hk h hcur hup hcs faultVa hacc
      have h₁ : Loaded b M cur d { s with userMemCheckAddr := a } := ⟨h.1.congr rfl rfl rfl rfl rfl rfl rfl, h.2⟩
      obtain ⟨s', hp, hpushed⟩ := pushUtf_pushes faultVa h₁ hl hov hacc
      refine ⟨Or.inr ⟨s', hr.trans hp, ?_⟩, fun ho => absurd ho hov⟩
      exact ⟨hpushed.frame, hpushed.scratch, hpushed.esp, hpushed.eip, hpushed.bytes, hpushed.other⟩
    · have hdes := pageFault_rejects hk h hcur hup hcs faultVa hl hacc
      exact ⟨Or.inl hdes, fun _ => hdes⟩

end Handler

/-! ## A program that maps the page below its exception stack -/

/-- The first environment has mapped the page of its exception stack. -/
def xstackMap : State := finalState ((Op.allocInsert 0#32 0 (uxstacktop - pgsize) (pteU ||| pteW)).exec.run firstEnv)

/-- It has mapped the page below, too. -/
def belowMap : State := finalState ((Op.allocInsert 0#32 0 (uxstacktop - pgsize - pgsize) (pteU ||| pteW)).exec.run xstackMap)

theorem xstackMap_run : (Op.allocInsert 0#32 0 (uxstacktop - pgsize) (pteU ||| pteW)).exec.run firstEnv =
    .ok (.inserted 0 127 (uxstacktop - pgsize) (pteU ||| pteW)) xstackMap := rfl

theorem belowMap_run : (Op.allocInsert 0#32 0 (uxstacktop - pgsize - pgsize) (pteU ||| pteW)).exec.run xstackMap =
    .ok (.inserted 0 125 (uxstacktop - pgsize - pgsize) (pteU ||| pteW)) belowMap := rfl

theorem xstackMap_reach : Reach bootState [.inserted 0 127 (uxstacktop - pgsize) (pteU ||| pteW), .created 0] xstackMap := by
  have hok : (Op.allocInsert 0#32 0 (uxstacktop - pgsize) (pteU ||| pteW)).Ok firstEnv := ⟨by decide, by decide, by decide⟩
  exact Reach.next bootState_booted firstEnv_reach _ hok xstackMap_run (Or.inl (by decide))

theorem belowMap_reach : Reach bootState [.inserted 0 125 (uxstacktop - pgsize - pgsize) (pteU ||| pteW),
    .inserted 0 127 (uxstacktop - pgsize) (pteU ||| pteW), .created 0] belowMap := by
  have hok : (Op.allocInsert 0#32 0 (uxstacktop - pgsize - pgsize) (pteU ||| pteW)).Ok xstackMap :=
    ⟨by decide +kernel, by decide, by decide⟩
  exact Reach.next bootState_booted xstackMap_reach _ hok belowMap_run (Or.inl (by decide +kernel))

/-- A CPU runs the first environment, which has set an upcall, and is in the kernel. -/
def State.inTrap (s : State) : State :=
  { (s.setEnv 0 { s.envs 0 with envStatus := .running, envPgfaultUpcall := utext }).setCpu
      { cpuStatus := .started, cpuEnv := some 0, cr3 := page2pa 128 } with kernelLock := some s.cpunum }

theorem loaded_inTrap (h : Sane b M s) (hlive : (s.envs 0).envStatus ≠ .free) (hd : (s.envs 0).envPgdir = some 128) :
    Loaded b M 0 128 s.inTrap := by
  let v : Env := { s.envs 0 with envStatus := .running, envPgfaultUpcall := utext }
  have hset : Sane b M (s.setEnv 0 v) := h.setEnv (v := v) hlive (by simp [v]) rfl rfl
  refine ⟨hset.congr rfl rfl rfl rfl rfl rfl rfl, dir_eq_some.2 ⟨?_, ?_⟩, ?_⟩
  · show (Function.update s.envs 0 v 0).envStatus ≠ .free
    rw [Function.update_self]
    simp [v]
  · show (Function.update s.envs 0 v 0).envPgdir = some 128
    rw [Function.update_self]
    exact hd
  · show (Function.update s.cpus s.cpunum _ s.cpunum).cr3 = _
    rw [Function.update_self]

/-- A trap frame with stack pointer `esp`. -/
def xstackTf (esp : Word) : Trapframe := { tfTrapno := tPgflt, tfCs := gdUt ||| 3#16, tfEsp := esp }

theorem belowMap_loaded : Loaded bootState (pagesDown 128) 0 128 belowMap.inTrap :=
  loaded_inTrap (reach_inv bootState_booted belowMap_reach) (by decide +kernel) (by decide +kernel)

/-- A frame in the middle of a page is accessible if its first byte is. -/
theorem utfAccessible_page {utf : Word} (h : Accessible s d (pteU ||| pteW) utf.toNat) (hu : utf.toNat + 52 ≤ utop.toNat)
    (hin : utf.toNat % 4096 ≤ 4044) : UtfAccessible s d utf := by
  intro a h1 h2
  have hul : ulim.toNat = 0xef800000 := by decide
  have hut : utop.toNat = 0xeec00000 := utop_toNat
  exact (accessible_page (by omega) (by omega) (by omega)).2 h

theorem pageFault_safe_iff_belowMap : UpcallSafe belowMap.inTrap 0 (xstackTf (uxstacktop - 52#32)) 0#32 :=
  (pageFault_safe_iff bootState_kernDir belowMap_loaded rfl (by decide +kernel) (by decide) rfl).2
    fun h => absurd h.1 (by decide)

/-- A second fault with the stack pointer at the bottom of the page writes its frame to the page below. -/
theorem pageFault_below : Overflows (uxstacktop - pgsize) ∧
    ¬ UpcallSafe belowMap.inTrap 0 (xstackTf (uxstacktop - pgsize)) 0#32 := by
  have hov : Overflows (uxstacktop - pgsize) := ⟨by decide, by decide⟩
  have hacc : Accessible belowMap.inTrap 128 (pteU ||| pteW) (utfAddr (uxstacktop - pgsize)).toNat :=
    ⟨by decide, by decide +kernel, _, rfl, by decide +kernel, by decide +kernel⟩
  exact ⟨hov, pageFault_overflow bootState_kernDir belowMap_loaded rfl (by decide +kernel) (by decide) hov
    (utfAccessible_page hacc (utfAddr_le _) (by decide))⟩

end Jos
