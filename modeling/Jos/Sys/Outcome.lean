/-
What a system call leads to: an event for the mappings, the invariant kept, and every environment
outside the reach of the caller as it was. The lemmas here build up the outcome of a call from the
steps it is made of: a mapping changed, a record changed, the scheduler left.
-/
import Jos.Run.Step
import Jos.Sys.Perm
import Jos.Sys.Sched

namespace Jos

open Lib Kern

variable {b s s' s'' : State} {M l l' : List Nat} {le : List Slot} {Q : Nat → Nat → Prop} {cur e : Slot} {c : Call}
variable {ev : Event} {α β : Type}

/-! ## The reach of a call -/

/-- The environments that a call by `cur` may change: the caller, its children, and for a send the
target that waits for a message. -/
def Call.Target (s : State) (cur : Slot) (c : Call) (e : Slot) : Prop :=
  e = cur ∨ (s.envs e).envParentId = (s.envs cur).envId ∨
    match c with
    | .ipcTrySend envid _ _ _ => s.resolve cur envid false = some e ∧ (s.envs e).envIpcRecving = true
    | _ => False

theorem resolve_target {envid : Word} (h : s.resolve cur envid true = some e) : c.Target s cur e :=
  (resolve_some h).imp id fun ⟨_, hp⟩ => Or.inl (hp rfl)

/-- The tests of a call let it map page `pp`, mapped at the source, at `va` of environment `dst`. -/
inductive Call.Maps (s : State) (cur : Slot) : Call → Slot → Nat → Word → Word → Prop where
  | pageMap {srcenvid srcva dstenvid dstva perm w : Word} {src dst : Slot}
      (hva : ¬ (utop ≤ srcva ∨ roundup srcva pgsize ≠ srcva ∨ utop ≤ dstva ∨ roundup dstva pgsize ≠ dstva))
      (hset : ¬ permUnset perm) (hmask : ¬ 0 < (perm &&& ~~~pteUser).toInt)
      (hsrc : s.resolve cur srcenvid true = some src) (hdst : s.resolve cur dstenvid true = some dst)
      (hw : s.pte src (pdx srcva) (ptx srcva) = some w) (hperm : ¬ (0 < (perm &&& pteW).toInt ∧ w &&& pteW = 0#32)) :
      Maps s cur (.pageMap srcenvid srcva dstenvid dstva perm) dst (pgnum w) dstva perm
  | ipcTrySend {envid value srcva perm w : Word} {dst : Slot} (hdst : s.resolve cur envid false = some dst)
      (hrecv : ¬ ((s.envs dst).envIpcRecving = false ∨ (s.envs dst).envIpcFrom ≠ 0#32)) (hva : srcva < utop)
      (halign : ¬ rounddown srcva pgsize ≠ srcva) (hset : ¬ permUnset perm)
      (hmask : ¬ 0 < (perm &&& ~~~pteUser).toNat) (hw : s.pte cur (pdx srcva) (ptx srcva) = some w)
      (hperm : ¬ (w &&& pteW = 0#32 ∧ 0 < (perm &&& pteW).toNat)) (hasked : (s.envs dst).envIpcDstva ≠ 0#32) :
      Maps s cur (.ipcTrySend envid value srcva perm) dst (pgnum w) (s.envs dst).envIpcDstva perm

/-- `sys_page_map` tests the address; a send takes the one the receiver has left. -/
theorem Call.Maps.user {dst : Slot} {pp : Nat} {va perm : Word} (h : c.Maps s cur dst pp va perm) :
    va < utop ∨ ∃ envid value srcva, c = .ipcTrySend envid value srcva perm ∧ s.resolve cur envid false = some dst ∧
      va = (s.envs dst).envIpcDstva := by
  cases h with
  | pageMap h1 =>
    rw [not_or, not_or, not_or] at h1
    exact Or.inl (BitVec.not_le.1 h1.2.2.1)
  | ipcTrySend h1 => exact Or.inr ⟨_, _, _, rfl, h1, rfl⟩

/-- Wherever a call may map a page, the address is a user address. -/
def Call.UserDst (s : State) (cur : Slot) (c : Call) : Prop :=
  ∀ dst pp va perm, c.Maps s cur dst pp va perm → va < utop

/-- Wherever a call may map a page, its counter has room. -/
def Call.Room (s : State) (cur : Slot) (c : Call) : Prop :=
  ∀ dst pp va perm, c.Maps s cur dst pp va perm → Jos.Room s pp (.leaf dst (pdx va) (ptx va))

/-! ## Outcomes -/

/-- The environments in use outside `T` have their records, the scheduler's fields apart, and their mappings. -/
structure Confined (s s' : State) (T : Slot → Prop) : Prop where
  envs : ∀ e, (s.envs e).envStatus ≠ .free → ¬ T e → EnvKeep (s.envs e) (s'.envs e)
  pte : ∀ e, (s.envs e).envStatus ≠ .free → ¬ T e → s'.pte e = s.pte e

/-- What a call that does not stop in a panic leads to; `l` is the free list before it. -/
structure Called (b : State) (M : List Nat) (Q : Nat → Nat → Prop) (s : State) (l : List Nat) (cur : Slot) (c : Call)
    (s' : State) (ev : Event) : Prop where
  pte : s'.pte = ev.apply s.pte
  npages : s'.npages = s.npages
  data : ∀ f, f ∉ l → ¬ s.Struct f → s'.mem f = s.mem f
  new : ∀ e pp va perm, ev = .inserted e pp va perm → pp ∈ M ∧ (LowPerm perm ∨ s.npages ≤ pp ||| pgnum perm) ∧
    ((pp ∈ l ∧ ∃ envid, c = .pageAlloc envid va perm) ∨ c.Maps s cur e pp va perm)
  confined : Confined s s' (c.Target s cur)
  inv : ∃ l' le', Vm b M s' l' ∧ EnvTable s' le' ∧ (c.Room s cur → Counts Q M l' none s')

/-- The outcome of a call. -/
inductive Outcome (b : State) (M : List Nat) (Q : Nat → Nat → Prop) (s : State) (l : List Nat) (cur : Slot) (c : Call) :
    EStateM.Result Stop State α → Prop where
  | panic (s' : State) (h : Confined s s' (c.Target s cur)) : Outcome b M Q s l cur c (.error .panic s')
  | done (r : EStateM.Result Stop State α) (ev : Event) (h : Called b M Q s l cur c (finalState r) ev) :
      Outcome b M Q s l cur c r

theorem Confined.refl (s : State) (T : Slot → Prop) : Confined s s T := ⟨fun _ _ _ => .refl _, fun _ _ _ => rfl⟩

theorem EnvKeep.trans {u v w : Env} (h : EnvKeep u v) (h' : EnvKeep v w) : EnvKeep u w := by
  refine ⟨h.toEnvLike.trans h'.toEnvLike, ?_⟩
  rcases h.status with h1 | ⟨h1, h2⟩
  · rw [← h1]
    exact h'.status
  · rcases h'.status with h3 | ⟨h3, h4⟩
    · exact Or.inr ⟨h1, h3.trans h2⟩
    · rw [h2] at h3; cases h3

theorem Confined.of_rest {T : Slot → Prop} (hr : Rest s s') (hp : ∀ e, ¬ T e → s'.pte e = s.pte e) : Confined s s' T :=
  ⟨fun e _ _ => by rw [hr.envs]; exact .refl _, fun e _ ht => hp e ht⟩

/-- A call that changes nothing. -/
theorem Called.stay (h : Inv Q b M s l le) : Called b M Q s l cur c s .failed where
  pte := rfl
  npages := rfl
  data _ _ _ := rfl
  new := by simp
  confined := .refl s _
  inv := ⟨l, le, h.toVm, h.toEnvTable, fun _ => h.counts⟩

theorem Outcome.stay (h : Inv Q b M s l le) (r : α) : Outcome b M Q s l cur c (.ok r s) :=
  .done _ .failed (.stay h)

/-- What follows a program and changes nothing is not part of its outcome, unless it panics. -/
theorem Outcome.bind_same {x : Kern α} (h : Outcome b M Q s l cur c (x.run s')) (f : α → Kern β)
    (hf : ∀ a t, (∃ r, (f a).run t = .ok r t) ∨ (f a).run t = .error .panic t) : Outcome b M Q s l cur c ((x >>= f).run s') := by
  cases hx : x.run s' with
  | ok a t =>
    rw [hx] at h
    rw [run_bind_ok hx]
    cases h with
    | done _ ev h =>
      rcases hf a t with ⟨r, hr⟩ | hr
      · rw [hr]
        exact .done _ ev h
      · rw [hr]
        exact .panic t h.confined
  | error e t =>
    rw [hx] at h
    rw [run_bind_error hx]
    cases h with
    | panic _ h => exact .panic t h
    | done _ ev h => exact .done _ ev h

/-! ## The steps calls are made of -/

theorem envs_setEnv (s : State) (e e' : Slot) (v : Env) : (s.setEnv e v).envs e' = if e' = e then v else s.envs e' :=
  Function.update_apply ..

/-- A record that stays in use with its directory changes no address space. -/
theorem dir_setEnv {v : Env} (hlive : (s.envs e).envStatus ≠ .free) (hv : v.envStatus ≠ .free)
    (hd : v.envPgdir = (s.envs e).envPgdir) : (s.setEnv e v).dir = s.dir := by
  funext e'
  unfold State.dir
  rw [envs_setEnv]
  by_cases he : e' = e
  · rw [if_pos he, he, if_neg hv, if_neg hlive, hd]
  · rw [if_neg he]

theorem Confined.setEnv {T : Slot → Prop} {v : Env} (h : Confined s s' T) (ht : (s.envs e).envStatus ≠ .free → T e)
    (hlive : (s'.envs e).envStatus ≠ .free) (hv : v.envStatus ≠ .free) (hd : v.envPgdir = (s'.envs e).envPgdir) :
    Confined s (s'.setEnv e v) T := by
  have hpte : (s'.setEnv e v).pte = s'.pte := pte_congr rfl (dir_setEnv hlive hv hd)
  refine ⟨fun e' he' hne => ?_, fun e' he' hne => by rw [hpte]; exact h.pte e' he' hne⟩
  rw [envs_setEnv, if_neg (by rintro rfl; exact hne (ht he'))]
  exact h.envs e' he' hne

theorem EnvTable.setEnv {v : Env} (h : EnvTable s le) (hlive : (s.envs e).envStatus ≠ .free) (hv : v.envStatus ≠ .free)
    (hd : v.envPgdir = (s.envs e).envPgdir) (hl : v.envLink = (s.envs e).envLink) : EnvTable (s.setEnv e v) le := by
  refine ⟨?_, h.envNodup, fun e' => ?_, fun e' => ?_⟩
  · refine Chain.congr (fun e' _ => ?_) h.envChain
    rw [envs_setEnv]
    split
    · rename_i he; rw [he, hl]
    · rfl
  · rw [envs_setEnv, h.mem_iff]
    split
    · rename_i he; rw [he]; exact iff_of_false hlive hv
    · rfl
  · rw [envs_setEnv]
    split
    · rw [hd]
      exact fun _ => h.pgdir e hlive
    · exact h.pgdir e'

/-- The record of a target, or of an environment that was free, is changed; it stays in use, with its directory. -/
theorem Called.setEnv (h : Called b M Q s l cur c s' ev) (ht : (s.envs e).envStatus ≠ .free → c.Target s cur e) {v : Env}
    (hlive : (s'.envs e).envStatus ≠ .free) (hv : v.envStatus ≠ .free) (hd : v.envPgdir = (s'.envs e).envPgdir)
    (hl : v.envLink = (s'.envs e).envLink) : Called b M Q s l cur c (s'.setEnv e v) ev := by
  have hdir := dir_setEnv hlive hv hd
  have hpte : (s'.setEnv e v).pte = s'.pte := pte_congr rfl hdir
  obtain ⟨l', le', hvm, het, hc⟩ := h.inv
  exact ⟨hpte.trans h.pte, h.npages, h.data, h.new, h.confined.setEnv ht hlive hv hd, l', le',
    hvm.congr rfl rfl rfl hdir rfl rfl, het.setEnv hlive hv hd hl, fun hroom => (hc hroom).congr rfl (cell_congr rfl hdir)⟩

/-- The CPUs, the lock and `user_mem_check_addr` are not part of the outcome. -/
theorem Called.congr (h : Called b M Q s l cur c s' ev) (he : s''.envs = s'.envs) (hm : s''.mem = s'.mem)
    (hp : s''.pages = s'.pages) (hl : s''.pageFreeList = s'.pageFreeList) (hn : s''.npages = s'.npages)
    (hk : s''.kernPgdir = s'.kernPgdir) (hf : s''.envFreeList = s'.envFreeList) : Called b M Q s l cur c s'' ev := by
  have hdir : s''.dir = s'.dir := by funext e; unfold State.dir; rw [he]
  obtain ⟨l', le', hvm, het, hc⟩ := h.inv
  exact ⟨(pte_congr hm hdir).trans h.pte, hn.trans h.npages, by rw [hm]; exact h.data, h.new,
    ⟨by rw [he]; exact h.confined.envs, by rw [pte_congr hm hdir]; exact h.confined.pte⟩,
    l', le', hvm.congr hp hl hm hdir hk hn,
    ⟨by rw [he, hf]; exact het.envChain, het.envNodup, by rw [he]; exact het.mem_iff, by rw [he]; exact het.pgdir⟩,
    fun hroom => (hc hroom).congr hp (cell_congr hm hdir)⟩

/-- The call ends in the scheduler. -/
theorem Called.switch (h : Called b M Q s l cur c s' ev) (hsw : Switched s' s'') (hc : ∀ e, s'.curenv = some e → e = cur) :
    Called b M Q s l cur c s'' ev := by
  obtain ⟨l', le', hvm, het, hcount⟩ := h.inv
  refine ⟨(pte_congr hsw.mem hsw.dir).trans h.pte, hsw.npages.trans h.npages, by rw [hsw.mem]; exact h.data, h.new,
    ⟨fun e he ht => (h.confined.envs e he ht).trans (hsw.keep e fun hce => ht (Or.inl (hc e hce))), ?_⟩,
    l', le', hsw.vm hvm, hsw.envTable het, fun hroom => hsw.counts (hcount hroom)⟩
  rw [pte_congr hsw.mem hsw.dir]
  exact h.confined.pte

/-- A page that was free is written. -/
theorem Called.setMem {p : Nat} (h : Called b M Q s l cur c s' ev) (hM : p ∈ M) (hl : p ∈ l) (hp : ¬ s'.Struct p)
    (x : Idx → Word) : Called b M Q s l cur c (s'.setMem p x) ev := by
  have hpte := pte_setMem_other hp x
  obtain ⟨l', le', hvm, het, hc⟩ := h.inv
  refine ⟨hpte.trans h.pte, h.npages, fun f hf hs => ?_, h.new, ⟨h.confined.envs, by rw [hpte]; exact h.confined.pte⟩,
    l', le', hvm.setMem_other hM hp x, ⟨het.envChain, het.envNodup, het.mem_iff, het.pgdir⟩, fun hroom =>
      (hc hroom).congr rfl (cell_setMem_other hp x)⟩
  show Function.update s'.mem p x f = _
  rw [Function.update_of_ne (ne_of_mem_of_not_mem hl hf).symm]
  exact h.data f hf hs

/-- A mapping of a target was changed. -/
theorem Called.of_remap {x : Option Word} {i j : Idx} (h : Inv Q b M s l le) (hr : Remap s s' l l' e i j x)
    (hv : Vm b M s' l') (hc : c.Room s cur → Counts Q M l' none s') (ht : c.Target s cur e)
    (hev : ev.apply s.pte = fun e' i' j' => if e' = e ∧ i' = i ∧ j' = j then x else s.pte e' i' j')
    (hnew : ∀ e pp va perm, ev = .inserted e pp va perm → pp ∈ M ∧ (LowPerm perm ∨ s.npages ≤ pp ||| pgnum perm) ∧
      ((pp ∈ l ∧ ∃ envid, c = .pageAlloc envid va perm) ∨ c.Maps s cur e pp va perm)) :
    Called b M Q s l cur c s' ev where
  pte := by
    rw [hev]
    funext e' i' j'
    exact hr.pte e' i' j'
  npages := hr.rest.npages
  data := hr.mem
  new := hnew
  confined := .of_rest hr.rest fun e' hne => by
    funext i' j'
    rw [hr.pte, if_neg]
    rintro ⟨rfl, -, -⟩
    exact hne ht
  inv := ⟨l', le, hv, h.toEnvTable.rest hr.rest, hc⟩

theorem Outcome.confined {r : EStateM.Result Stop State α} (h : Outcome b M Q s l cur c r) :
    Confined s (finalState r) (c.Target s cur) := by
  cases h with
  | panic s' h => exact h
  | done _ ev h => exact h.confined

end Jos
