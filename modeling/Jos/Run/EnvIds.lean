/-
The identifiers of environments over all runs of `env_alloc` and `env_free` from `env_init`. The
`n`-th allocation of a slot gets the id `n * 4096 + slot`, so as long as no slot has been allocated
`2^19` times every id is new, and an id resolves exactly while its environment is in use.
-/
import Jos.Run.Boot
import Jos.Sys.Records

namespace Jos

open Lib Kern

variable {s s' : State} {e : Slot}

/-! ## The generation number -/

/-- The id of the `n`-th environment in slot `e`; a slot that was never used has the id 0. -/
def nthId (n : Nat) (e : Slot) : Word := if n = 0 then 0#32 else BitVec.ofNat 32 (n * 4096 + e.val)

theorem nthId_toNat {n : Nat} (hn : n < 2 ^ 19) (e : Slot) :
    (nthId n e).toNat = if n = 0 then 0 else n * 4096 + e.val := by
  unfold nthId
  have he : e.val < 1024 := e.isLt
  split
  · rfl
  · rw [BitVec.toNat_ofNat]
    omega

/-- `x & ~(NENV - 1)`. -/
theorem and_not_toNat (x : Word) : (x &&& ~~~1023#32).toNat = x.toNat / 1024 * 1024 := clearLow_toNat x 10

theorem envGeneration_toNat {n : Nat} (hn : n + 1 < 2 ^ 19) (e : Slot) :
    (envGeneration (nthId n e)).toNat = (n + 1) * 4096 := by
  have hid := nthId_toNat (show n < 2 ^ 19 by omega) e
  have he : e.val < 1024 := e.isLt
  have hone : (1#32 <<< 12).toNat = 4096 := by decide
  have hgen : ((nthId n e + (1#32 <<< 12)) &&& ~~~1023#32).toNat = (n + 1) * 4096 := by
    rw [and_not_toNat, BitVec.toNat_add, hone, hid]
    split <;> omega
  unfold envGeneration
  dsimp only
  rw [if_neg, hgen]
  rw [BitVec.toInt_eq_toNat_of_lt (by rw [hgen]; omega), hgen]
  omega

/-- The id `env_alloc` gives to the next environment in a slot. -/
theorem next_id {n : Nat} (hn : n + 1 < 2 ^ 19) (e : Slot) :
    envGeneration (nthId n e) ||| BitVec.ofNat 32 e.val = nthId (n + 1) e := by
  have he : e.val < 1024 := e.isLt
  apply BitVec.eq_of_toNat_eq
  have hmul : (n + 1) * 4096 = ((n + 1) * 4) <<< 10 := by rw [Nat.shiftLeft_eq]; omega
  have hlow : e.val < 2 ^ 10 := he
  rw [BitVec.toNat_or, envGeneration_toNat hn, BitVec.toNat_ofNat, Nat.mod_eq_of_lt (by omega), hmul,
    ← Nat.shiftLeft_add_eq_or_of_lt hlow, nthId_toNat hn, if_neg (by omega), ← hmul]

theorem envx_nthId {n : Nat} (hn : n < 2 ^ 19) (h0 : n ≠ 0) (e : Slot) : envx (nthId n e) = e := by
  have he : e.val < 1024 := e.isLt
  apply Fin.ext
  unfold envx
  have hmask : (1023#32).toNat = 2 ^ 10 - 1 := by decide
  rw [Fin.val_ofNat, BitVec.toNat_and, hmask, Nat.and_two_pow_sub_one_eq_mod, nthId_toNat hn, if_neg h0]
  show _ % 1024 = _
  omega

theorem nthId_inj {m n : Nat} {d e : Slot} (hm : m < 2 ^ 19) (hn : n < 2 ^ 19) (hm0 : m ≠ 0) (hn0 : n ≠ 0)
    (h : nthId m d = nthId n e) : m = n ∧ d = e := by
  have ht := congrArg BitVec.toNat h
  rw [nthId_toNat hm, nthId_toNat hn, if_neg hm0, if_neg hn0] at ht
  have hd : d.val < 1024 := d.isLt
  have he : e.val < 1024 := e.isLt
  exact ⟨by omega, Fin.ext (by omega)⟩

theorem nthId_pos {n : Nat} (hn : n < 2 ^ 19) (h0 : n ≠ 0) (e : Slot) : 0 < (nthId n e).toInt := by
  have ht := nthId_toNat hn e
  rw [if_neg h0] at ht
  have he : e.val < 1024 := e.isLt
  rw [BitVec.toInt_eq_toNat_of_lt (by rw [ht]; omega), ht]
  omega

/-! ## The table after `env_init` -/

/-- The loop of `env_init` has done the first `n` slots: they are free with id 0 and linked up, and
`env_free_list` is at the last of them. -/
structure InitUpTo (n : Nat) (s : State) : Prop where
  envs : ∀ i : Slot, i.val < n → (s.envs i).envStatus = .free ∧ (s.envs i).envId = 0#32
  link : ∀ i j : Slot, j.val = i.val + 1 → j.val < n → (s.envs i).envLink = some j
  last : ∃ i : Slot, s.envFreeList = some i ∧ i.val = n - 1
  pgdir : ∀ i, (s.envs i).envPgdir = none

theorem envInitSlot_upTo {i : Slot} (h : InitUpTo i.val s) : ∃ s', (envInitSlot i).run s = .ok () s' ∧
    InitUpTo (i.val + 1) s' := by
  obtain ⟨k, hk, hkv⟩ := h.last
  let s₁ : State := s.setEnv i { s.envs i with envStatus := .free, envId := 0#32 }
  let s₂ : State := s₁.setEnv k { s₁.envs k with envLink := some i }
  have hrun : (envInitSlot i).run s = .ok () { s₂ with envFreeList := some i } := by
    have hcur : s₁.envFreeList = some k := hk
    unfold envInitSlot
    rw [run_bind_ok (show (modifyEnv i fun v => { v with envStatus := .free, envId := 0#32 }).run s = .ok () s₁ from rfl),
      run_bind_ok (EStateM.run_get s₁), hcur, run_bind_ok (run_deref_some k)]
    rfl
  have h₁ : ∀ j, s₁.envs j = if j = i then { s.envs i with envStatus := .free, envId := 0#32 } else s.envs j :=
    fun j => Function.update_apply ..
  have h₂ : ∀ j, s₂.envs j = if j = k then { s₁.envs k with envLink := some i } else s₁.envs j :=
    fun j => Function.update_apply ..
  refine ⟨_, hrun, fun j hj => ?_, fun a j hj hjn => ?_, ⟨i, rfl, by simp⟩, fun j => ?_⟩
  · have hdone : (s₁.envs j).envStatus = .free ∧ (s₁.envs j).envId = 0#32 := by
      rw [h₁]
      split
      · exact ⟨rfl, rfl⟩
      · rename_i hne
        exact h.envs j (by have : j.val ≠ i.val := fun h => hne (Fin.ext h); omega)
    show (s₂.envs j).envStatus = _ ∧ (s₂.envs j).envId = _
    rw [h₂]
    split
    · rename_i he; rw [← he]; exact hdone
    · exact hdone
  · show (s₂.envs a).envLink = _
    rw [h₂]
    by_cases hji : j = i
    · have hak : a = k := Fin.ext (by rw [hji] at hj; omega)
      rw [if_pos hak, hji]
    · have hlt : j.val < i.val := by
        have : j.val ≠ i.val := fun h => hji (Fin.ext h)
        omega
      have hak : a ≠ k := by rintro rfl; omega
      have hai : a ≠ i := by rintro rfl; omega
      rw [if_neg hak, h₁, if_neg hai]
      exact h.link a j hj hlt
  · show (s₂.envs j).envPgdir = none
    rw [h₂, h₁, h₁]
    split
    · rename_i hjk
      split
      · exact h.pgdir i
      · exact h.pgdir k
    · split
      · exact h.pgdir i
      · exact h.pgdir j

theorem envInit_loop (n : Nat) : ∀ s, InitUpTo (nenv - n) s → n ≤ nenv →
    ∃ s', (forM ((List.finRange nenv).drop (nenv - n)) envInitSlot).run s = .ok () s' ∧ InitUpTo nenv s' := by
  induction n with
  | zero =>
    intro s h _
    exact ⟨s, by rw [List.drop_of_length_le (by simp)]; rfl, h⟩
  | succ n ih =>
    intro s h hn
    have hlt : nenv - (n + 1) < nenv := by omega
    obtain ⟨s₁, hrun, h₁⟩ := envInitSlot_upTo (i := ⟨nenv - (n + 1), hlt⟩) h
    have hval : nenv - (n + 1) + 1 = nenv - n := by omega
    rw [hval] at h₁
    obtain ⟨s', hloop, h'⟩ := ih s₁ h₁ (by omega)
    refine ⟨s', ?_, h'⟩
    rw [drop_finRange hlt hn, List.forM_cons, run_bind_ok hrun]
    exact hloop

/-- The free slots are linked up in a list without repetition; they are the ones without a page
directory. -/
structure FreeEnvs (s : State) : Prop where
  table : ∃ le, Chain (fun e => (s.envs e).envLink) s.envFreeList le ∧ le.Nodup ∧
    ∀ e, e ∈ le ↔ (s.envs e).envStatus = .free
  pgdir : ∀ e, (s.envs e).envStatus = .free ↔ (s.envs e).envPgdir = none

/-- After `env_init` the slots are free and linked up in order. -/
theorem envInit_order (hp : ∀ e, (s.envs e).envPgdir = none) : ∃ s', envInit.run s = .ok () s' ∧
    Chain (fun e => (s'.envs e).envLink) s'.envFreeList (slotOrder nenv) ∧
    (∀ e, (s'.envs e).envStatus = .free ∧ (s'.envs e).envId = 0#32) ∧ ∀ e, (s'.envs e).envPgdir = none := by
  let s₀ : State := { s with envFreeList := some 0 }
  have h₀ : InitUpTo (nenv - nenv) s₀ := by
    rw [Nat.sub_self]
    exact ⟨fun i hi => by simp at hi, fun i j _ hj => by simp at hj, ⟨0, rfl, rfl⟩, hp⟩
  obtain ⟨s₁, hrun, h₁⟩ := envInit_loop nenv s₀ h₀ le_rfl
  rw [Nat.sub_self, List.drop_zero] at hrun
  have hloop : ((List.finRange nenv).forM envInitSlot).run s₀ = .ok () s₁ := hrun
  obtain ⟨k, hk, hkv⟩ := h₁.last
  let s₂ : State := { s₁.setEnv k { s₁.envs k with envLink := none } with envFreeList := some 0 }
  have h₂ : ∀ j, s₂.envs j = if j = k then { s₁.envs k with envLink := none } else s₁.envs j :=
    fun j => Function.update_apply ..
  have hall : ∀ e, (s₂.envs e).envStatus = .free ∧ (s₂.envs e).envId = 0#32 := by
    intro e
    rw [h₂]
    split
    · exact h₁.envs k k.isLt
    · exact h₁.envs e e.isLt
  have hnext : ∀ i j : Slot, j.val = i.val + 1 → (s₂.envs i).envLink = some j := by
    intro i j hj
    have hne : i ≠ k := by
      rintro rfl
      have hj' : j.val < 1024 := j.isLt
      omega
    rw [h₂, if_neg hne]
    exact h₁.link i j hj j.isLt
  have hend : ∀ i : Slot, i.val + 1 = nenv → (s₂.envs i).envLink = none := by
    intro i hi
    rw [h₂, if_pos (Fin.ext (by omega))]
  refine ⟨s₂, ?_, chain_slotOrder 0 rfl hnext hend, hall, fun e => ?_⟩
  · unfold envInit
    rw [run_bind_ok (show (modify fun s : State => { s with envFreeList := some 0 } : Kern Unit).run s = .ok () s₀ from rfl),
      run_bind_ok hloop, run_bind_ok (EStateM.run_get s₁), hk, run_bind_ok (run_deref_some k)]
    rfl
  · rw [h₂]
    split
    · exact h₁.pgdir k
    · exact h₁.pgdir e

theorem envInit_spec (hp : ∀ e, (s.envs e).envPgdir = none) : ∃ s', envInit.run s = .ok () s' ∧ FreeEnvs s' ∧
    ∀ e, (s'.envs e).envStatus = .free ∧ (s'.envs e).envId = 0#32 := by
  obtain ⟨s', hrun, hc, hall, hpgdir⟩ := envInit_order hp
  exact ⟨s', hrun, ⟨⟨slotOrder nenv, hc, nodup_slotOrder nenv, fun e => iff_of_true (mem_slotOrder e) (hall e).1⟩,
    fun e => iff_of_true (hall e).1 (hpgdir e)⟩, hall⟩

/-! ## Runs -/

/-- An environment that was handed out: its slot, its id, and whether it has been freed since. -/
structure Handed where
  slot : Slot
  id : Word
  freed : Bool := false

/-- Freeing a slot frees the environment in it. -/
def Handed.free (e : Slot) (a : Handed) : Handed := if a.slot = e then { a with freed := true } else a

/-- A run of `env_alloc` and `env_free` calls after `env_init`, on an array that was cleared, with
the environments handed out so far, the last one first. -/
inductive IdRun : List Handed → State → Prop where
  | init {s₀ s : State} (hz : s₀.envs = fun _ => {}) (h : envInit.run s₀ = .ok () s) : IdRun [] s
  | alloc {h : List Handed} {s s' : State} {e : Slot} (parentId : Word) (hr : IdRun h s)
      (ha : (envAlloc parentId).run s = .ok (0, some e) s') : IdRun (⟨e, (s'.envs e).envId, false⟩ :: h) s'
  | allocFails {h : List Handed} {s s' : State} {r : Int} (parentId : Word) (hr : IdRun h s)
      (ha : (envAlloc parentId).run s = .ok (r, none) s') : IdRun h s'
  | free {h : List Handed} {s s' : State} (e : Slot) (hr : IdRun h s) (hf : (envFree e).run s = .ok () s') :
      IdRun (h.map (Handed.free e)) s'

/-- How often a slot was handed out. -/
def allocated (h : List Handed) (e : Slot) : Nat := h.countP fun a => a.slot = e

/-- The records agree with what was handed out: the id of a slot is that of its last environment, and
the slot is in use exactly while that one has not been freed. -/
structure IdsInv (h : List Handed) (s : State) : Prop extends FreeEnvs s where
  id : ∀ e, (s.envs e).envId = nthId (allocated h e) e
  nth : ∀ a ∈ h, ∃ n, a.id = nthId n a.slot ∧ n ≠ 0 ∧ n ≤ allocated h a.slot
  nodup : h.Pairwise fun a b => a.id ≠ b.id
  live : ∀ e, (s.envs e).envStatus ≠ .free ↔ ∃ a ∈ h, a.slot = e ∧ a.freed = false
  last : ∀ a ∈ h, a.freed = false → a.id = (s.envs a.slot).envId

theorem FreeEnvs.congr (h : FreeEnvs s) (he : s'.envs = s.envs) (hl : s'.envFreeList = s.envFreeList) : FreeEnvs s' := by
  refine ⟨?_, ?_⟩
  · rw [he, hl]; exact h.table
  · rw [he]; exact h.pgdir

theorem FreeEnvs.rest (h : FreeEnvs s) (hr : Rest s s') : FreeEnvs s' := h.congr hr.envs hr.envFreeList

theorem IdsInv.rest {h : List Handed} (hi : IdsInv h s) (hr : Rest s s') : IdsInv h s' :=
  ⟨hi.toFreeEnvs.rest hr, by rw [hr.envs]; exact hi.id, hi.nth, hi.nodup, by rw [hr.envs]; exact hi.live,
    by rw [hr.envs]; exact hi.last⟩

/-- Taking the first slot of the free list. -/
theorem FreeEnvs.take {v : Env} (h : FreeEnvs s) (hl : s.envFreeList = some e) (henvs : s'.envs = Function.update s.envs e v)
    (hfree : s'.envFreeList = (s.envs e).envLink) (hv : v.envStatus ≠ .free) (hd : v.envPgdir ≠ none) :
    FreeEnvs s' ∧ (s.envs e).envStatus = .free := by
  obtain ⟨le, hc, hn, hm⟩ := h.table
  rw [hl, Chain.some_iff] at hc
  obtain ⟨l, rfl, hc⟩ := hc
  rw [List.nodup_cons] at hn
  have henv : ∀ e', s'.envs e' = if e' = e then v else s.envs e' := fun e' => by rw [henvs, Function.update_apply]
  refine ⟨⟨⟨l, ?_, hn.2, fun e' => ?_⟩, fun e' => ?_⟩, (hm e).1 (List.mem_cons_self ..)⟩
  · rw [hfree]
    refine Chain.congr (fun x hx => ?_) hc
    rw [henv, if_neg (ne_of_mem_of_not_mem hx hn.1)]
  · rw [henv]
    split
    · rename_i he; rw [he]; exact iff_of_false hn.1 hv
    · rename_i he
      rw [← hm, List.mem_cons]
      exact ⟨Or.inr, fun h => h.resolve_left he⟩
  · rw [henv]
    split
    · exact iff_of_false hv hd
    · exact h.pgdir e'

/-- Giving a slot back. -/
theorem FreeEnvs.give (h : FreeEnvs s) (he : (s.envs e).envStatus ≠ .free)
    (henvs : s'.envs = Function.update s.envs e (freedEnv s.envFreeList (s.envs e))) (hfree : s'.envFreeList = some e) :
    FreeEnvs s' := by
  obtain ⟨le, hc, hn, hm⟩ := h.table
  have hle : e ∉ le := fun h => he ((hm e).1 h)
  have henv : ∀ e', s'.envs e' = if e' = e then freedEnv s.envFreeList (s.envs e) else s.envs e' := fun e' => by
    rw [henvs, Function.update_apply]
  refine ⟨⟨e :: le, ?_, List.nodup_cons.2 ⟨hle, hn⟩, fun e' => ?_⟩, fun e' => ?_⟩
  · rw [hfree]
    refine Chain.congr (fun x _ => ?_) (hc.push hle)
    rw [henv]
    by_cases hx : x = e
    · subst hx; rw [if_pos rfl, Function.update_self]; rfl
    · rw [if_neg hx, Function.update_of_ne hx]
  · rw [henv, List.mem_cons, hm]
    split
    · rename_i h; exact iff_of_true (Or.inl h) rfl
    · rename_i h; exact ⟨fun h' => h'.resolve_left h, Or.inr⟩
  · rw [henv]
    split
    · exact iff_of_true rfl rfl
    · exact h.pgdir e'

section Step

variable {h : List Handed} {parentId : Word}

theorem allocated_cons (a : Handed) (e : Slot) : allocated (a :: h) e = allocated h e + if a.slot = e then 1 else 0 := by
  unfold allocated
  rw [List.countP_cons]
  simp

theorem allocated_free (e e' : Slot) : allocated (h.map (Handed.free e)) e' = allocated h e' := by
  unfold allocated
  rw [List.countP_map]
  congr 1
  funext a
  show decide ((Handed.free e a).slot = e') = _
  unfold Handed.free
  split <;> rfl

theorem IdsInv.alloc (hi : IdsInv h s) {p : Nat} (hl : s.envFreeList = some e)
    (henvs : s'.envs = Function.update s.envs e (newEnv e parentId { s.envs e with envPgdir := some p }))
    (hfree : s'.envFreeList = (s.envs e).envLink)
    (hb : ∀ e', allocated (⟨e, (s'.envs e).envId, false⟩ :: h) e' < 2 ^ 19) :
    IdsInv (⟨e, (s'.envs e).envId, false⟩ :: h) s' := by
  obtain ⟨hf, hwas⟩ := hi.toFreeEnvs.take hl henvs hfree (by simp [newEnv]) (by simp [newEnv])
  let v : Env := newEnv e parentId { s.envs e with envPgdir := some p }
  have henv : ∀ e', s'.envs e' = if e' = e then v else s.envs e' := fun e' => by rw [henvs, Function.update_apply]
  have hbound : allocated h e + 1 < 2 ^ 19 := by
    have := hb e
    rwa [allocated_cons, if_pos rfl] at this
  have hid : (s'.envs e).envId = nthId (allocated h e + 1) e := by
    rw [henv, if_pos rfl, ← next_id hbound, ← hi.id e]; rfl
  refine ⟨hf, fun e' => ?_, fun a ha => ?_, ?_, fun e' => ?_, fun a ha hfr => ?_⟩
  · rw [allocated_cons]
    by_cases he : e' = e
    · rw [he, if_pos rfl, hid]
    · rw [if_neg (Ne.symm he), henv, if_neg he]; exact hi.id e'
  · rw [allocated_cons]
    rcases List.mem_cons.1 ha with rfl | ha
    · exact ⟨allocated h e + 1, hid, by omega, by simp⟩
    · obtain ⟨n, hn, h0, hle⟩ := hi.nth a ha
      exact ⟨n, hn, h0, by omega⟩
  · refine List.pairwise_cons.2 ⟨fun a ha heq => ?_, hi.nodup⟩
    obtain ⟨n, hn, h0, hle⟩ := hi.nth a ha
    have ha19 := hb a.slot
    rw [allocated_cons] at ha19
    rw [show (⟨e, (s'.envs e).envId, false⟩ : Handed).id = _ from hid, hn] at heq
    obtain ⟨hnn, hslot⟩ := nthId_inj hbound (by omega) (by omega) h0 heq
    rw [← hslot] at hle
    omega
  · rw [henv]
    by_cases he : e' = e
    · rw [if_pos he]
      exact iff_of_true (by simp [v, newEnv]) ⟨_, List.mem_cons_self .., he.symm, rfl⟩
    · rw [if_neg he, hi.live e']
      refine ⟨fun ⟨a, ha, hx⟩ => ⟨a, List.mem_cons_of_mem _ ha, hx⟩, fun ⟨a, ha, hx⟩ => ⟨a, ?_, hx⟩⟩
      rcases List.mem_cons.1 ha with rfl | ha
      · exact absurd hx.1.symm he
      · exact ha
  · rcases List.mem_cons.1 ha with rfl | ha
    · rfl
    · -- the slot was free, so the environments it held before have been freed
      have hne : a.slot ≠ e := fun hs => (hi.live e).2 ⟨a, ha, hs, hfr⟩ hwas
      rw [henv, if_neg hne]
      exact hi.last a ha hfr

theorem IdsInv.free (hi : IdsInv h s) (he : (s.envs e).envStatus ≠ .free)
    (henvs : s'.envs = Function.update s.envs e (freedEnv s.envFreeList (s.envs e))) (hfree : s'.envFreeList = some e) :
    IdsInv (h.map (Handed.free e)) s' := by
  have henv : ∀ e', s'.envs e' = if e' = e then freedEnv s.envFreeList (s.envs e) else s.envs e' := fun e' => by
    rw [henvs, Function.update_apply]
  have hfid : ∀ a, (Handed.free e a).id = a.id := fun a => by unfold Handed.free; split <;> rfl
  have hfslot : ∀ a, (Handed.free e a).slot = a.slot := fun a => by unfold Handed.free; split <;> rfl
  have hlive : ∀ a, (Handed.free e a).freed = false ↔ a.freed = false ∧ a.slot ≠ e := fun a => by
    unfold Handed.free
    split <;> simp_all
  refine ⟨hi.toFreeEnvs.give he henvs hfree, fun e' => ?_, fun a ha => ?_, ?_, fun e' => ?_, fun a ha hfr => ?_⟩
  · rw [allocated_free, henv, ← hi.id e']
    split
    · rename_i h; rw [h]; rfl
    · rfl
  · obtain ⟨c, hc, rfl⟩ := List.mem_map.1 ha
    rw [hfid, hfslot, allocated_free]
    exact hi.nth c hc
  · rw [List.pairwise_map]
    exact hi.nodup.imp fun {a c} hne => by rw [hfid, hfid]; exact hne
  · rw [henv]
    by_cases hee : e' = e
    · rw [if_pos hee]
      refine iff_of_false (by simp [freedEnv]) ?_
      rintro ⟨a, ha, hs, hfr⟩
      obtain ⟨c, hc, rfl⟩ := List.mem_map.1 ha
      rw [hfslot, hee] at hs
      exact ((hlive c).1 hfr).2 hs
    · rw [if_neg hee, hi.live e']
      constructor
      · rintro ⟨a, ha, hs, hfr⟩
        exact ⟨_, List.mem_map.2 ⟨a, ha, rfl⟩, (hfslot a).trans hs, (hlive a).2 ⟨hfr, hs ▸ hee⟩⟩
      · rintro ⟨a, ha, hs, hfr⟩
        obtain ⟨c, hc, rfl⟩ := List.mem_map.1 ha
        exact ⟨c, hc, (hfslot c).symm.trans hs, ((hlive c).1 hfr).1⟩
  · obtain ⟨c, hc, rfl⟩ := List.mem_map.1 ha
    obtain ⟨hcf, hcs⟩ := (hlive c).1 hfr
    rw [hfid, hfslot, henv, if_neg hcs]
    exact hi.last c hc hcf

end Step

/-- `env_free` of a slot that is not in use faults on its null page directory. -/
theorem envFree_live (h : FreeEnvs s) (hf : (envFree e).run s = .ok () s') : (s.envs e).envStatus ≠ .free := by
  intro hfree
  have hd : (s.envs e).envPgdir = none := (h.pgdir e).1 hfree
  have hflush : ∀ t : State, t.envs = s.envs → (envFlush e >>= fun _ => envRetire e).run t = .error .panic t := by
    intro t ht
    refine run_bind_error ?_
    unfold envFlush
    rw [run_bind_ok (run_env e), ht, hd]
    exact run_bind_error rfl
  unfold envFree at hf
  rw [run_bind_ok (EStateM.run_get s)] at hf
  split at hf
  · let t : State := s.setCpu { s.cpus s.cpunum with cr3 := page2pa s.kernPgdir, tlb := [] }
    rw [run_bind_ok (show (lcr3 (page2pa s.kernPgdir)).run s = .ok () t from rfl)] at hf
    cases (hflush t rfl).symm.trans hf
  · cases (hflush s rfl).symm.trans hf

theorem IdRun.inv {h : List Handed} (hr : IdRun h s) (hb : ∀ e, allocated h e < 2 ^ 19) : IdsInv h s := by
  induction hr with
  | @init s₀ s hz hinit =>
    obtain ⟨s₁, hrun, hf, hall⟩ := envInit_spec (s := s₀) (by rw [hz]; exact fun _ => rfl)
    rw [hrun] at hinit
    cases hinit
    exact ⟨hf, fun e => (hall e).2, by simp, .nil, fun e => by simp [(hall e).1], by simp⟩
  | @alloc h s s' e parentId hr ha ih =>
    have hres := envAlloc_res s parentId
    rw [ha] at hres
    cases hres with
    | takes e p s' hl hsame henvs hfree =>
      refine (ih fun e' => ?_).alloc hl henvs hfree hb
      have := hb e'
      rw [allocated_cons] at this
      omega
  | @allocFails h s s' r parentId hr ha ih =>
    have hres := envAlloc_res s parentId
    rw [ha] at hres
    cases hres with
    | fails r s' hneg hrest => exact (ih hb).rest hrest
  | @free h s s' e hr hf ih =>
    have hi := ih fun e' => by have := hb e'; rwa [allocated_free] at this
    have hres := envFree_res s e
    rw [hf] at hres
    cases hres with
    | done s' hsame henvs hfree => exact hi.free (envFree_live hi.toFreeEnvs hf) henvs hfree

/-- `envid2env` without the permission check, for an id that is not 0. -/
theorem run_envid2env_any {envid : Word} (h0 : envid ≠ 0#32) : (envid2env envid false).run s =
    .ok (if (s.envs (envx envid)).envStatus = .free ∨ (s.envs (envx envid)).envId ≠ envid then (-eBadEnv, none)
      else (0, some (envx envid))) s := by
  unfold envid2env
  rw [run_bind_ok (EStateM.run_get s), if_neg h0, run_bind_ok (run_env _)]
  split
  · rfl
  · rfl

/-- Identifiers over all runs: the free list holds exactly the free slots, each once; every id handed
out is positive, names its slot and differs from all others; and an id resolves exactly while the
environment that got it has not been freed, to that environment. -/
theorem env_ids_unique {h : List Handed} (hr : IdRun h s) (hb : ∀ e, allocated h e ≤ 2 ^ 19 - 1) :
    (∃ le, Chain (fun e => (s.envs e).envLink) s.envFreeList le ∧ le.Nodup ∧
      ∀ e, e ∈ le ↔ (s.envs e).envStatus = .free) ∧
    (∀ a ∈ h, 0 < a.id.toInt ∧ envx a.id = a.slot) ∧
    (h.Pairwise fun a b => a.id ≠ b.id) ∧
    ∀ envid, envid ≠ 0#32 →
      (∀ a ∈ h, a.id = envid → a.freed = false → (envid2env envid false).run s = .ok (0, some a.slot) s) ∧
      ((∀ a ∈ h, a.id = envid → a.freed = true) → (envid2env envid false).run s = .ok (-eBadEnv, none) s) := by
  have hb' : ∀ e, allocated h e < 2 ^ 19 := fun e => by have := hb e; omega
  have hi := hr.inv hb'
  have hx : ∀ a ∈ h, envx a.id = a.slot := by
    intro a ha
    obtain ⟨n, hn, h0, hle⟩ := hi.nth a ha
    rw [hn]
    exact envx_nthId (lt_of_le_of_lt hle (hb' _)) h0 _
  refine ⟨hi.table, fun a ha => ⟨?_, hx a ha⟩, hi.nodup, fun envid h0 => ⟨fun a ha hid hfr => ?_, fun hgone => ?_⟩⟩
  · obtain ⟨n, hn, h0, hle⟩ := hi.nth a ha
    rw [hn]
    exact nthId_pos (lt_of_le_of_lt hle (hb' _)) h0 _
  · have hslot : envx envid = a.slot := hid ▸ hx a ha
    rw [run_envid2env_any h0, if_neg, hslot]
    rw [hslot, ← hi.last a ha hfr]
    rintro (hc | hc)
    · exact (hi.live a.slot).2 ⟨a, ha, rfl, hfr⟩ hc
    · exact hc hid
  · rw [run_envid2env_any h0, if_pos]
    by_contra hc
    rw [not_or, not_not] at hc
    -- the slot is in use with this id, so the environment that holds it got it
    obtain ⟨a, ha, hs, hfr⟩ := (hi.live _).1 hc.1
    have hid := hi.last a ha hfr
    rw [hs, hc.2] at hid
    rw [hgone a ha hid] at hfr
    cases hfr

/-! ## A run -/

/-- A relation that writes to `envs[]` and to `env_free_list` keep. -/
theorem keeps_envInit {R : State → State → Prop} (hR : ∀ s, R s s) (htrans : ∀ s₁ s₂ s₃, R s₁ s₂ → R s₂ s₃ → R s₁ s₃)
    (henv : ∀ s e v, R s (s.setEnv e v)) (hlist : ∀ (s : State) l, R s { s with envFreeList := l }) :
    Keeps R (fun _ => True) envInit := by
  have hmod : ∀ e f, Keeps R (fun _ => True) (modifyEnv e f) := fun e f => .modify fun s => henv s e _
  have hderef : ∀ e, Keeps R (fun _ => True) (deref e) := by
    intro e
    cases e with
    | none => exact .throw hR trivial
    | some e => exact .pure hR e
  have hset : ∀ i : Slot, Keeps R (fun _ => True) (modify fun s : State => { s with envFreeList := some i } : Kern Unit) :=
    fun i => .modify fun s => hlist s (some i)
  have hslot : ∀ i, Keeps R (fun _ => True) (envInitSlot i) := fun i =>
    (hmod _ _).bind htrans fun _ => .get fun s =>
      (hderef _).bind htrans (fun _ => (hmod _ _).bind htrans fun _ => hset i) s
  exact (hset 0).bind htrans fun _ => (Keeps.forM hR htrans hslot _).bind htrans
    fun _ => .get fun s => (hderef _).bind htrans (fun _ => (hmod _ _).bind htrans fun _ => hset 0) s

/-- `env_init` leaves memory and its pages alone. -/
structure EnvsOnly (s s' : State) : Prop where
  mem : s'.mem = s.mem
  pages : s'.pages = s.pages
  pageFreeList : s'.pageFreeList = s.pageFreeList
  npages : s'.npages = s.npages
  kernPgdir : s'.kernPgdir = s.kernPgdir

theorem EnvsOnly.trans (s₁ s₂ s₃ : State) (h : EnvsOnly s₁ s₂) (h' : EnvsOnly s₂ s₃) : EnvsOnly s₁ s₃ where
  mem := h'.mem.trans h.mem
  pages := h'.pages.trans h.pages
  pageFreeList := h'.pageFreeList.trans h.pageFreeList
  npages := h'.npages.trans h.npages
  kernPgdir := h'.kernPgdir.trans h.kernPgdir

theorem envsOnly_envInit : Keeps EnvsOnly (fun _ => True) envInit :=
  keeps_envInit (fun _ => ⟨rfl, rfl, rfl, rfl, rfl⟩) EnvsOnly.trans (fun _ _ _ => ⟨rfl, rfl, rfl, rfl, rfl⟩)
    fun _ _ => ⟨rfl, rfl, rfl, rfl, rfl⟩

/-- `bootState` before `env_init`. -/
def clearEnvs : State := { bootState with envs := fun _ => {}, envFreeList := none }

/-- After `env_init` two environments are created, the first is freed, and a third gets its slot. -/
def idsInit : State := finalState (envInit.run clearEnvs)

def idsOne : State := finalState ((envAlloc 0#32).run idsInit)

def idsTwo : State := finalState ((envAlloc 0#32).run idsOne)

def idsFreed : State := finalState ((envFree 0).run idsTwo)

def idsReused : State := finalState ((envAlloc 0#32).run idsFreed)

theorem IdRun.gets {h : List Handed} {parentId id : Word} (hr : IdRun h s)
    (ha : okValue ((envAlloc parentId).run s) = some (0, some e))
    (hid : ((finalState ((envAlloc parentId).run s)).envs e).envId = id) :
    IdRun (⟨e, id, false⟩ :: h) (finalState ((envAlloc parentId).run s)) := by
  subst hid
  exact .alloc parentId hr (eq_ok_of_okValue ha)

theorem idRun_reused : IdRun [⟨0, 0x2000#32, false⟩, ⟨1, 0x1001#32, false⟩, ⟨0, 0x1000#32, true⟩] idsReused := by
  have h₀ : IdRun [] idsInit := .init rfl (eq_ok_of_okValue (by decide +kernel))
  have h₁ : IdRun [⟨0, 0x1000#32, false⟩] idsOne := h₀.gets (by decide +kernel) (by decide +kernel)
  have h₂ : IdRun [⟨1, 0x1001#32, false⟩, ⟨0, 0x1000#32, false⟩] idsTwo := h₁.gets (by decide +kernel) (by decide +kernel)
  have h₃ : IdRun [⟨1, 0x1001#32, false⟩, ⟨0, 0x1000#32, true⟩] idsFreed :=
    .free (h := [⟨1, 0x1001#32, false⟩, ⟨0, 0x1000#32, false⟩]) 0 h₂ (eq_ok_of_okValue (by decide +kernel))
  exact h₃.gets (by decide +kernel) (by decide +kernel)

/-- The first id is stale although its slot is in use, and the three ids differ. -/
theorem env_ids_unique_reused : (idsReused.envs 0).envStatus ≠ .free ∧ (0x2000#32 : Word) ≠ 0x1000#32 ∧
    (envid2env 0x1000#32 false).run idsReused = .ok (-eBadEnv, none) idsReused ∧
    (envid2env 0x1001#32 false).run idsReused = .ok (0, some 1) idsReused ∧
    (envid2env 0x2000#32 false).run idsReused = .ok (0, some 0) idsReused := by
  obtain ⟨-, -, hdiff, hres⟩ := env_ids_unique idRun_reused fun e => List.countP_le_length.trans (by decide)
  refine ⟨by decide +kernel, ?_, (hres _ (by decide)).2 ?_, (hres _ (by decide)).1 ⟨1, 0x1001#32, false⟩ (by simp) rfl rfl,
    (hres _ (by decide)).1 ⟨0, 0x2000#32, false⟩ (by simp) rfl rfl⟩
  · rw [List.pairwise_cons] at hdiff
    exact hdiff.1 ⟨0, 0x1000#32, true⟩ (by simp)
  · intro a ha hid
    simp only [List.mem_cons, List.not_mem_nil, or_false] at ha
    rcases ha with rfl | rfl | rfl
    · exact absurd hid (by decide)
    · exact absurd hid (by decide)
    · rfl

end Jos
