/-
The steps of the processes keep the invariant of a tree of forks: stores and the copying of `memmove`, calls that map a page,
calls that change a record, and `sys_exofork`.
-/
import Jos.Run.ReadOnly
import Jos.User.ForkInv

namespace Jos

open Lib Kern

variable {b s' : State} {M : List Nat} {m m' : Machine} {E E' : Memories} {e d x : Slot} {envid : Word} {p q : UPage}

/-! ## Steps that leave memory alone -/

/-- Nothing changes for the processes but the point at which `e` stands. -/
structure Unseen (b : State) (M : List Nat) (m m' : Machine) (e : Slot) : Prop where
  sane : Sane b M m'.kern
  vpt : m'.kern.vpt = m.kern.vpt
  mem : m'.kern.mem = m.kern.mem
  proc : ∀ x, x ≠ e → m'.proc x = m.proc x
  id : ∀ x, (m'.kern.envs x).envId = (m.kern.envs x).envId
  status : ∀ x, x ≠ e → (∀ envid, (m.proc e).fork.child = some envid → envx envid ≠ x) →
    (m'.kern.envs x).envStatus = (m.kern.envs x).envStatus

theorem Unseen.others (h : Unseen b M m m' e) : OthersKept m m' E E e where
  proc x hx := Or.inl (h.proc x hx)
  vpt x p _ _ := by rw [h.vpt]
  mem x p w _ _ _ _ _ := by rw [h.mem]
  temp x t _ _ ht := by
    unfold State.Temp
    rw [h.vpt, h.mem]
    exact ⟨ht, rfl⟩
  envs x hx hc _ := ⟨h.id x, h.status x hx hc⟩
  copied x envid done _ _ _ hd := hd

theorem Unseen.lent (h : Unseen b M m m' e) (hx : x ≠ e) (c : Slot) (p : UPage) : m'.Lent x c p ↔ m.Lent x c p := by
  unfold Machine.Lent
  rw [h.proc x hx]

/-- A step that changes neither memory nor a page that is lent. -/
theorem CowInv.unseen (h : CowInv b M m E) (hr : m.Runs e) (hs : Unseen b M m m' e)
    (hl : ∀ c p, m'.Lent e c p ↔ m.Lent e c p) (hfault : FaultOk m'.kern e (m'.proc e).fault)
    (hfork : ForkOk m' E e (m'.proc e).fork)
    (hone : ∀ envid, (m'.proc e).fork.child = some envid → (m.proc e).fork.child = some envid) : CowInv b M m' E := by
  have hlent : ∀ y c p, m'.Lent y c p ↔ m.Lent y c p := by
    intro y c p
    by_cases hy : y = e
    · rw [hy]; exact hl c p
    · exact hs.lent hy c p
  refine h.of_step hr hs.others hs.sane (fun x p hp hn => ?_) (fun x p w hp hw hW x' p' w' hw' hpg => ?_) hfault hfork
    fun envid hc => Or.inl (hone envid hc)
  · exact (userPage_congr (congrFun (congrFun hs.vpt x) p) fun w _ => congrFun hs.mem _).trans
      (h.view x p hp fun y hy => hn y ((hlent ..).2 hy))
  · rw [hs.vpt] at hw hw'
    rw [hlent]
    exact h.sole x p w hp hw hW x' p' w' hw' hpg

theorem ChildKept.of_unseen (h : CowInv b M m E) (hr : m.Runs e) (hs : Unseen b M m m' e)
    (hc : (m.proc e).fork.child = some envid)
    (hst : (m'.kern.envs (envx envid)).envStatus = (m.kern.envs (envx envid)).envStatus) : ChildKept m m' E E e envid where
  id := hs.id _
  status := hst
  idle := by rw [hs.proc _ (h.awake hr hc)]; exact (h.child hc).idle
  vpt p _ := by rw [hs.vpt]
  copied _ hd := hd

theorem FaultOk.unseen (h : CowInv b M m E) (hs : Unseen b M m m' e) : FaultOk m'.kern e (m.proc e).fault := by
  refine (h.fault e).kept (fun p _ => by rw [hs.vpt]) (fun p w _ _ _ => by rw [hs.mem]) fun t ht => ⟨?_, by rw [hs.mem]⟩
  unfold State.Temp
  rw [hs.vpt]
  exact ht

theorem unseen_setProc (h : CowInv b M m E) (e : Slot) (v : Proc) : Unseen b M m (m.setProc e v) e where
  sane := h.sane
  vpt := rfl
  mem := rfl
  proc _ hx := Function.update_of_ne hx ..
  id _ := rfl
  status _ _ _ := rfl

theorem setProc_proc (m : Machine) (e : Slot) (v : Proc) : (m.setProc e v).proc e = v := Function.update_self ..

/-! ## Stores -/

/-- The machine after a word of a page that `e` has mapped is stored. -/
theorem store_views (h : CowInv b M m E) {w : Word} (hw : m.kern.vpt e p = some w) (j : Idx) (v : Word) :
    Sane b M (m.kern.setWord (pgnum w) j v) ∧ (m.kern.setWord (pgnum w) j v).vpt = m.kern.vpt := by
  obtain ⟨hs, -, hpte⟩ := h.sane.setWord hw j v
  refine ⟨hs, ?_⟩
  funext x q
  unfold State.vpt
  rw [hpte]

theorem mem_setWord_ne {s : State} {f g : Nat} (h : g ≠ f) (j : Idx) (v : Word) : (s.setWord f j v).mem g = s.mem g :=
  Function.update_of_ne h ..

theorem mem_setWord_self (s : State) (f : Nat) (j : Idx) (v : Word) :
    (s.setWord f j v).mem f = Function.update (s.mem f) j v := Function.update_self ..

/-- Only `e`, its child apart, maps the frame of `w`, and no process but `e` copies from it. -/
theorem store_others (h : CowInv b M m E) {w : Word} (hw : m.kern.vpt e p = some w) (j : Idx) (v : Word)
    (hproc : ∀ x, x ≠ e → m'.proc x = m.proc x) (hkern : m'.kern = m.kern.setWord (pgnum w) j v)
    (honly : ∀ x q w', m.kern.vpt x q = some w' → pgnum w' = pgnum w → x = e ∨
      ∃ envid, (m.proc e).fork.child = some envid ∧ envx envid = x)
    (hcop : ∀ x envid done, x ≠ e → (m.proc x).fork.child = some envid → E.Copied x (envx envid) done →
      E'.Copied x (envx envid) done) : OthersKept m m' E E' e := by
  obtain ⟨-, hv⟩ := store_views h hw j v
  have hne : ∀ x q w', x ≠ e → (∀ envid, (m.proc e).fork.child = some envid → envx envid ≠ x) →
      m.kern.vpt x q = some w' → pgnum w' ≠ pgnum w := by
    intro x q w' hx hc hw' heq
    rcases honly x q w' hw' heq with hxe | ⟨envid, hch, hx'⟩
    · exact hx hxe
    · exact hc envid hch hx'
  constructor
  · exact fun x hx => Or.inl (hproc x hx)
  · intro x q _ _
    rw [hkern, hv]
  · intro x q w' hx hc _ hw' _
    rw [hkern]
    exact mem_setWord_ne (hne x q w' hx hc hw') j v
  · intro x t hx hc ht
    rw [hkern]
    refine ⟨?_, mem_setWord_ne (hne x _ t hx hc ht.1) j v⟩
    unfold State.Temp
    rw [hv]
    exact ht
  · intro x _ _ _
    rw [hkern]
    exact ⟨rfl, rfl⟩
  · intro x envid done hx _ hch hd
    exact hcop x envid done hx hch hd

theorem CowInv.lent_forked (h : CowInv b M m E) (hl : m.Lent e x p) : p.Forked := by
  obtain ⟨envid, addr, hf, -, rfl⟩ := hl
  have hk := h.fork e
  rw [hf] at hk
  exact hk.1.forked

theorem ChildKept.of_store (h : CowInv b M m E) (hr : m.Runs e) {w : Word} (hw : m.kern.vpt e p = some w) (j : Idx) (v : Word)
    (hproc : ∀ x, x ≠ e → m'.proc x = m.proc x) (hkern : m'.kern = m.kern.setWord (pgnum w) j v)
    (hc : (m.proc e).fork.child = some envid)
    (hcop : ∀ done, E.Copied e (envx envid) done → E'.Copied e (envx envid) done) : ChildKept m m' E E' e envid where
  id := by rw [hkern]; rfl
  status := by rw [hkern]; rfl
  idle := by rw [hproc _ (h.awake hr hc)]; exact (h.child hc).idle
  vpt q _ := by rw [hkern, (store_views h hw j v).2]
  copied := hcop

/-- A store to a page that no program reads: the exception stack, or the copy that `pgfault` makes. -/
theorem CowInv.store_aside (h : CowInv b M m E) (hr : m.Runs e) {w : Word} (hw : m.kern.vpt e p = some w) (j : Idx) (v : Word)
    (hproc : ∀ x, x ≠ e → m'.proc x = m.proc x) (hkern : m'.kern = m.kern.setWord (pgnum w) j v)
    (hfork : (m'.proc e).fork = (m.proc e).fork)
    (honly : ∀ x q w', m.kern.vpt x q = some w' → pgnum w' = pgnum w → x = e ∧ ¬ q.Forked)
    (hfault : FaultOk m'.kern e (m'.proc e).fault) : CowInv b M m' E := by
  obtain ⟨hs, hv⟩ := store_views h hw j v
  have hlent : ∀ y c q, m'.Lent y c q ↔ m.Lent y c q := by
    intro y c q
    unfold Machine.Lent
    by_cases hy : y = e
    · rw [hy, hfork]
    · rw [hproc y hy]
  refine h.of_step hr (store_others h hw j v hproc hkern (fun x q w' hw' heq => Or.inl (honly x q w' hw' heq).1)
    fun _ _ _ _ _ hd => hd) (by rw [hkern]; exact hs) (fun x q hq hn => ?_) (fun x q w₁ hq hw₁ hW x' q' w' hw' hpg => ?_)
    hfault ?_ fun envid hc => Or.inl (by rw [← hfork]; exact hc)
  · rw [hkern]
    refine (userPage_congr (by rw [hv]) fun w' hw' => mem_setWord_ne (fun heq => ?_) j v).trans
      (h.view x q hq fun y hy => hn y ((hlent ..).2 hy))
    exact (honly x q w' hw' heq).2 hq
  · rw [hkern, hv] at hw₁ hw'
    rw [hlent]
    exact h.sole x q w₁ hq hw₁ hW x' q' w' hw' hpg
  · rw [hfork]
    refine (h.fork e).kept (.refl fun q => by rw [hkern, hv]) fun envid hc => ?_
    exact .of_store h hr hw j v hproc hkern hc fun _ hd => hd

theorem CowInv.writeStack (h : CowInv b M m E) (hr : m.Runs e) {w : Word} (hw : m.kern.vpt e (pageOf xstack) = some w)
    (hW : w &&& pteW ≠ 0#32) (j : Idx) (v : Word) : CowInv b M { m with kern := m.kern.setWord (pgnum w) j v } E := by
  have hsole : ∀ x q w', m.kern.vpt x q = some w' → pgnum w' = pgnum w → x = e ∧ (q = pageOf xstack ∨ q = pageOf pftemp) := by
    intro x q w' hw' heq
    rcases h.sole e _ w (Or.inr rfl) hw hW x q w' hw' heq with hx | ⟨hl, -⟩
    · exact hx
    · exact absurd (h.lent_forked hl) xstack_not_forked
  have honly : ∀ x q w', m.kern.vpt x q = some w' → pgnum w' = pgnum w → x = e ∧ ¬ q.Forked := by
    intro x q w' hw' heq
    obtain ⟨hx, rfl | rfl⟩ := hsole x q w' hw' heq
    · exact ⟨hx, xstack_not_forked⟩
    · exact ⟨hx, fun hq => pftemp_not_own (Or.inl hq)⟩
  refine h.store_aside hr hw j v (fun _ _ => rfl) rfl rfl honly ?_
  obtain ⟨-, hv⟩ := store_views h hw j v
  refine (h.fault e).kept (fun q _ => by rw [hv]) (fun q w' hq hw' _ => ?_) fun t ht => ⟨?_, ?_⟩
  · exact mem_setWord_ne (fun heq => (honly e q w' hw' heq).2 hq) j v
  · unfold State.Temp
    rw [hv]
    exact ht
  · refine mem_setWord_ne (fun heq => ?_) j v
    have hx : pageOf xstack = pageOf pftemp := (ht.2 e _ w hw heq.symm).2
    exact absurd hx (by decide)

/-- `memmove` copies a word of the page. -/
theorem CowInv.move (h : CowInv b M m E) (hr : m.Runs e) {addr : Word} {k : Idx} {w t : Word}
    (hf : (m.proc e).fault = .copy addr k) (hw : m.kern.vpt e (pageOf addr) = some w) (hu : w &&& pteU ≠ 0#32)
    (ht : m.kern.vpt e (pageOf pftemp) = some t) : CowInv b M
      { kern := m.kern.setWord (pgnum t) k (m.kern.mem (pgnum w) k),
        proc := Function.update m.proc e { m.proc e with fault := .copy addr (k.val + 1) } } E := by
  have hfault := h.fault e
  rw [hf] at hfault
  obtain ⟨hp, w₀, t₀, hw₀, hcow, hW, htemp, hk⟩ := hfault
  obtain rfl : w₀ = w := Option.some.inj (hw₀.symm.trans hw)
  obtain rfl : t₀ = t := Option.some.inj (htemp.1.symm.trans ht)
  have hne : pgnum w₀ ≠ pgnum t₀ := fun heq => by
    have hq := (htemp.2 e _ w₀ hw heq).2
    rw [hq] at hp
    exact pftemp_not_own (Or.inl hp)
  obtain ⟨-, hv⟩ := store_views h ht k (m.kern.mem (pgnum w₀) k)
  refine h.store_aside hr ht k _ (fun x hx => Function.update_of_ne hx ..) rfl (by simp)
    (fun x q w' hw' heq => ?_) ?_
  · obtain ⟨hx, rfl⟩ := htemp.2 x q w' hw' heq
    exact ⟨hx, fun hq => pftemp_not_own (Or.inl hq)⟩
  · dsimp only
    rw [Function.update_self]
    refine ⟨hp, w₀, t₀, by rw [hv]; exact hw, hcow, hW, ?_, fun _ => ⟨hu, fun j hj => ?_⟩⟩
    · unfold State.Temp
      rw [hv]
      exact htemp
    · rw [mem_setWord_self, mem_setWord_ne hne]
      by_cases hjk : j = k
      · rw [hjk, Function.update_self]
      · rw [Function.update_of_ne hjk]
        have hlt : j.val < k.val := by
          have : j.val ≠ k.val := fun hc => hjk (Fin.ext hc)
          omega
        exact (hk (by omega)).2 j hlt

/-- A store of a program. -/
theorem CowInv.write (h : CowInv b M m E) (hr : m.Runs e) (hf : (m.proc e).fault = .none) (hp : p.Forked) {w : Word}
    (hw : m.kern.vpt e p = some w) (hu : w &&& pteU ≠ 0#32) (hW : w &&& pteW ≠ 0#32) (j : Idx) (v : Word) :
    CowInv b M { m with kern := m.kern.setWord (pgnum w) j v } (E.apply (.write e p fun c => Function.update c j v)) := by
  obtain ⟨hs, hv⟩ := store_views h hw j v
  have hsole := h.sole e p w (Or.inl hp) hw hW
  refine h.of_step hr (store_others h hw j v (fun _ _ => rfl) rfl (fun x q w' hw' heq => ?_) fun x envid done hx hc hd => ?_)
    hs (fun x q hq hn => ?_) (fun x q w₁ hq hw₁ hW₁ x' q' w' hw' hpg => ?_) ?_ ?_ fun envid hc => Or.inl hc
  · rcases hsole x q w' hw' heq with ⟨hx, -⟩ | ⟨hl, -⟩
    · exact Or.inl hx
    · exact Or.inr hl.child
  · exact hd.write (h.awake hr hc).symm p _
  · by_cases hxq : x = e ∧ q = p
    · obtain ⟨rfl, rfl⟩ := hxq
      have hread := h.view_runs hr hq
      rw [userPage_some hw hu] at hread
      rw [userPage_some (w := w) (by rw [hv]; exact hw) hu, mem_setWord_self]
      simp [Eager.apply, ← hread]
    · have hE : (E.apply (.write e p fun c => Function.update c j v)).mem x q = E.mem x q := by
        simp only [Eager.apply, if_neg hxq]
      rw [hE]
      refine (userPage_congr (by rw [hv]) fun w' hw' => mem_setWord_ne (fun heq => ?_) j v).trans (h.view x q hq hn)
      rcases hsole x q w' hw' heq with ⟨hx, rfl | rfl⟩ | ⟨hl, rfl⟩
      · exact hxq ⟨hx, rfl⟩
      · exact pftemp_not_own (Or.inl hq)
      · exact hn e hl
  · rw [hv] at hw₁ hw'
    exact h.sole x q w₁ hq hw₁ hW₁ x' q' w' hw' hpg
  · show FaultOk _ e (m.proc e).fault
    rw [hf]
    trivial
  · refine (h.fork e).kept (.refl fun q => by rw [hv]) fun envid hc => ?_
    exact .of_store h hr hw j v (fun _ _ => rfl) rfl hc fun done hd => hd.write (h.child hc).ne.symm p _

/-! ## Calls that map a page -/

/-- The frame is new, or one that `e` maps. -/
def FrameOf (s : State) (e : Slot) (f : Nat) : Prop :=
  (∀ x p w, s.vpt x p = some w → pgnum w ≠ f) ∨ ∃ p w, s.vpt e p = some w ∧ pgnum w = f

section

variable {f : Nat} {perm : Word} (hm : MapsPage b M m.kern m'.kern d q f perm)

include hm

theorem MapsPage.other {x : Slot} {p : UPage} (hne : ¬ (x = d ∧ p = q)) : m'.kern.vpt x p = m.kern.vpt x p := by
  rw [hm.vpt, if_neg hne]

theorem MapsPage.self : m'.kern.vpt d q = some (entry f perm) := by rw [hm.vpt, if_pos ⟨rfl, rfl⟩]

/-- What the other processes see of the call. -/
theorem MapsPage.others (hd : d = e ∨ ∃ envid, (m.proc e).fork.child = some envid ∧ envx envid = d)
    (hf : FrameOf m.kern e f) (hproc : ∀ x, x ≠ e → m'.proc x = m.proc x)
    (hcop : ∀ x envid done, x ≠ e → (m.proc x).fork.child = some envid → E.Copied x (envx envid) done →
      E'.Copied x (envx envid) done) : OthersKept m m' E E' e := by
  have hne : ∀ x, x ≠ e → (∀ envid, (m.proc e).fork.child = some envid → envx envid ≠ x) → x ≠ d := by
    rintro x hx hc rfl
    rcases hd with h | ⟨envid, hch, h⟩
    · exact hx h
    · exact hc envid hch h
  constructor
  · exact fun x hx => Or.inl (hproc x hx)
  · exact fun x p hx hc => hm.other fun h => hne x hx hc h.1
  · exact fun x p w _ _ _ hw _ => hm.mem x p w hw
  · intro x t hx hc ht
    refine ⟨⟨(hm.other fun h => hne x hx hc h.1).trans ht.1, fun y p w hw heq => ?_⟩, hm.mem x _ t ht.1⟩
    by_cases hyp : y = d ∧ p = q
    · obtain ⟨rfl, rfl⟩ := hyp
      rw [hm.self] at hw
      cases hw
      rw [hm.frame] at heq
      rcases hf with hnew | ⟨p₀, w₀, hw₀, hf⟩
      · exact absurd heq.symm (hnew x _ t ht.1)
      · exact absurd (ht.2 e p₀ w₀ hw₀ (hf.trans heq)).1.symm hx
    · exact ht.2 y p w ((hm.other hyp).symm.trans hw) heq
  · intro x _ _ _
    rw [hm.envs]
    exact ⟨rfl, rfl⟩
  · intro x envid done hx _ hch hd'
    exact hcop x envid done hx hch hd'

/-- The view of a page other than the one that is mapped. -/
theorem MapsPage.view_other {x : Slot} {p : UPage} (hne : ¬ (x = d ∧ p = q)) :
    m'.kern.userPage x p = m.kern.userPage x p :=
  userPage_congr (hm.other hne) fun w hw => hm.mem x p w hw

/-- A new page is mapped nowhere else. -/
theorem MapsPage.sole_new (h : CowInv b M m E) (hnew : ∀ x p w, m.kern.vpt x p = some w → pgnum w ≠ f)
    (hl : ∀ y c p, m.Lent y c p → m'.Lent y c p) (x : Slot) (p : UPage) (w : Word) (hp : p.Own)
    (hw : m'.kern.vpt x p = some w) (hW : w &&& pteW ≠ 0#32) (x' : Slot) (p' : UPage) (w' : Word)
    (hw' : m'.kern.vpt x' p' = some w') (heq : pgnum w' = pgnum w) :
    (x' = x ∧ (p' = p ∨ p' = pageOf pftemp)) ∨ (m'.Lent x x' p ∧ p' = p) := by
  by_cases h1 : x = d ∧ p = q
  · obtain ⟨rfl, rfl⟩ := h1
    rw [hm.self] at hw
    cases hw
    rw [hm.frame] at heq
    by_cases h2 : x' = x ∧ p' = p
    · exact Or.inl ⟨h2.1, Or.inl h2.2⟩
    · exact absurd heq (hnew x' p' w' ((hm.other h2).symm.trans hw'))
  · rw [hm.other h1] at hw
    by_cases h2 : x' = d ∧ p' = q
    · obtain ⟨rfl, rfl⟩ := h2
      rw [hm.self] at hw'
      cases hw'
      rw [hm.frame] at heq
      exact absurd heq.symm (hnew x p w hw)
    · rw [hm.other h2] at hw'
      exact (h.sole x p w hp hw hW x' p' w' hw' heq).imp id fun hc => ⟨hl _ _ _ hc.1, hc.2⟩

end

theorem Machine.Lent.congr {y c : Slot} (hp : (m'.proc y).fork = (m.proc y).fork) : m'.Lent y c p ↔ m.Lent y c p := by
  unfold Machine.Lent
  rw [hp]

/-- A new page at a place that no program reads, in `e` or in its child. -/
theorem CowInv.map_new (h : CowInv b M m E) (hr : m.Runs e) {f : Nat} {perm : Word}
    (hm : MapsPage b M m.kern m'.kern d q f perm)
    (hd : d = e ∨ ∃ envid, (m.proc e).fork.child = some envid ∧ envx envid = d)
    (hnew : ∀ x p w, m.kern.vpt x p = some w → pgnum w ≠ f) (hq : ¬ q.Forked)
    (hproc : ∀ x, x ≠ e → m'.proc x = m.proc x) (hl : ∀ c p, m'.Lent e c p ↔ m.Lent e c p)
    (hfault : FaultOk m'.kern e (m'.proc e).fault) (hfork : ForkOk m' E e (m'.proc e).fork)
    (hone : ∀ envid, (m'.proc e).fork.child = some envid → (m.proc e).fork.child = some envid) : CowInv b M m' E := by
  have hlent : ∀ y c p, m'.Lent y c p ↔ m.Lent y c p := by
    intro y c p
    by_cases hy : y = e
    · rw [hy]; exact hl c p
    · exact Machine.Lent.congr (by rw [hproc y hy])
  refine h.of_step hr (hm.others hd (Or.inl hnew) hproc fun _ _ _ _ _ hd => hd) hm.sane (fun x p hp hn => ?_)
    (hm.sole_new h hnew fun y c p => (hlent y c p).2) hfault hfork fun envid hc => Or.inl (hone envid hc)
  rw [hm.view_other (by rintro ⟨-, rfl⟩; exact hq hp)]
  exact h.view x p hp fun y hy => hn y ((hlent ..).2 hy)

theorem entry_and_ne {f : Nat} {perm flag : Word} (h : perm &&& flag ≠ 0#32) : entry f perm &&& flag ≠ 0#32 := by
  intro h0
  unfold entry at h0
  rw [BitVec.and_or_distrib_right, BitVec.and_or_distrib_right, BitVec.or_eq_zero_iff, BitVec.or_eq_zero_iff] at h0
  exact h h0.1.2

theorem entry_isUser {f : Nat} {perm : Word} (h : perm = permRW ∨ perm = permCow ∨ perm = permRO) :
    entry f perm &&& pteU ≠ 0#32 := by
  rcases h with rfl | rfl | rfl <;> exact entry_and_ne (by decide)

theorem ChildKept.of_maps (h : CowInv b M m E) (hr : m.Runs e) {f : Nat} {perm : Word}
    (hm : MapsPage b M m.kern m'.kern d q f perm) (hproc : ∀ x, x ≠ e → m'.proc x = m.proc x)
    (hc : (m.proc e).fork.child = some envid) (hd : d ≠ envx envid ∨ ¬ q.Forked)
    (hcop : ∀ done, E.Copied e (envx envid) done → E'.Copied e (envx envid) done) : ChildKept m m' E E' e envid where
  id := by rw [hm.envs]
  status := by rw [hm.envs]
  idle := by rw [hproc _ (h.awake hr hc)]; exact (h.child hc).idle
  vpt p hp := hm.other (by rintro ⟨rfl, rfl⟩; exact hd.elim (fun h => h rfl) fun h => h hp)
  copied := hcop

/-- The end of `pgfault`: the copy takes the place of the page. -/
theorem CowInv.map_copy (h : CowInv b M m E) (hr : m.Runs e) {addr w t : Word} (hf : (m.proc e).fault = .copy addr 1024)
    (ht : m.kern.vpt e (pageOf pftemp) = some t) (hw : m.kern.vpt e (pageOf addr) = some w)
    (hm : MapsPage b M m.kern m'.kern e (pageOf addr) (pgnum t) permRW)
    (hproc : ∀ x, x ≠ e → m'.proc x = m.proc x) (hfork : (m'.proc e).fork = (m.proc e).fork)
    (hfault : (m'.proc e).fault = .none) : CowInv b M m' E := by
  have hok := h.fault e
  rw [hf] at hok
  obtain ⟨hp, w₀, t₀, hw₀, hcow, hW, htemp, hk⟩ := hok
  obtain rfl : w₀ = w := Option.some.inj (hw₀.symm.trans hw)
  obtain rfl : t₀ = t := Option.some.inj (htemp.1.symm.trans ht)
  obtain ⟨hu, hk⟩ := hk (by decide)
  -- the copy of all 1024 words is finished
  have hsame : m.kern.mem (pgnum t₀) = m.kern.mem (pgnum w₀) := funext fun j => hk j j.isLt
  have hlent : ∀ y c p, m'.Lent y c p ↔ m.Lent y c p := by
    intro y c p
    refine Machine.Lent.congr ?_
    by_cases hy : y = e
    · rw [hy, hfork]
    · rw [hproc y hy]
  refine h.of_step hr (hm.others (Or.inl rfl) (Or.inr ⟨_, t₀, ht, rfl⟩) hproc fun _ _ _ _ _ hd => hd) hm.sane
    (fun x p hp' hn => ?_) (fun x p w₁ hp₁ hw₁ hW₁ x' p' w' hw' heq => ?_) (by rw [hfault]; trivial) ?_
    fun envid hc => Or.inl (by rw [← hfork]; exact hc)
  · by_cases hxp : x = e ∧ p = pageOf addr
    · obtain ⟨rfl, rfl⟩ := hxp
      rw [userPage_some hm.self (entry_isUser (Or.inl rfl)), hm.frame, hm.mem x _ t₀ ht, hsame, ← userPage_some hw hu]
      exact h.view_runs hr hp
    · rw [hm.view_other hxp]
      exact h.view x p hp' fun y hy => hn y ((hlent ..).2 hy)
  · rw [hlent]
    by_cases h1 : x = e ∧ p = pageOf addr
    · obtain ⟨rfl, rfl⟩ := h1
      rw [hm.self] at hw₁
      cases hw₁
      rw [hm.frame] at heq
      by_cases h2 : x' = x ∧ p' = pageOf addr
      · exact Or.inl ⟨h2.1, Or.inl h2.2⟩
      -- the frame of `PFTEMP` is mapped there and nowhere else
      · obtain ⟨hx, hp'⟩ := htemp.2 x' p' w' ((hm.other h2).symm.trans hw') heq
        exact Or.inl ⟨hx, Or.inr hp'⟩
    · rw [hm.other h1] at hw₁
      by_cases h2 : x' = e ∧ p' = pageOf addr
      · obtain ⟨rfl, rfl⟩ := h2
        rw [hm.self] at hw'
        cases hw'
        rw [hm.frame] at heq
        exact absurd (htemp.2 x p w₁ hw₁ heq.symm).2 hp₁.ne_pftemp
      · rw [hm.other h2] at hw'
        exact h.sole x p w₁ hp₁ hw₁ hW₁ x' p' w' hw' heq
  · rw [hfork]
    refine (h.fork e).kept (fun p hp' => ?_) fun envid hc => ?_
    · by_cases hpa : p = pageOf addr
      · subst hpa
        exact Or.inr ⟨w₀, _, hw, hcow, hW hu, hm.self, entry_isUser (Or.inl rfl)⟩
      · exact Or.inl (hm.other fun hc => hpa hc.2)
    · exact .of_maps h hr hm hproc hc (Or.inl (h.child hc).ne.symm) fun _ hd => hd

/-! ## `duppage` -/

theorem pgnum_step {addr : Word} (hlt : pgnum addr < pgnum xstack) : pgnum (addr + pgsize) = pgnum addr + 1 ∧
    (addr + pgsize).toNat = addr.toNat + 4096 := by
  have hx : pgnum xstack < 1048575 := by decide
  rw [pgnum_eq] at hlt
  have hadd : (addr + pgsize).toNat = addr.toNat + 4096 := by
    rw [BitVec.toNat_add, show pgsize.toNat = 4096 from rfl]
    omega
  rw [pgnum_eq, pgnum_eq, hadd]
  exact ⟨by omega, rfl⟩

theorem InLoop.next {addr : Word} (h : InLoop addr) (hlt : pgnum addr < pgnum xstack) : InLoop (addr + pgsize) := by
  obtain ⟨hn, ht⟩ := pgnum_step hlt
  have := h.aligned
  have := h.low
  exact ⟨by omega, by omega, by omega⟩

/-- A frame that a process maps without `PTE_W` can be written by no one. -/
theorem CowInv.shared (h : CowInv b M m E) (hr : m.Runs e) (hp : p.Forked) {w : Word} (hw : m.kern.vpt e p = some w)
    {y : Slot} {q : UPage} {v : Word} (hq : q.Own) (hv : m.kern.vpt y q = some v) (hW : v &&& pteW ≠ 0#32)
    (heq : pgnum w = pgnum v) : y = e ∧ q = p := by
  rcases h.sole y q v hq hv hW e p w hw heq with ⟨hey, hpq⟩ | ⟨hl, -⟩
  · exact ⟨hey.symm, (hpq.resolve_right fun hpf => pftemp_not_own (Or.inl (hpf ▸ hp))).symm⟩
  · exact absurd hl (h.not_lent hr)

theorem UPage.Below.succ {addr : Word} (hp : p.Below (pgnum addr + 1)) : p.Below (pgnum addr) ∨ p = pageOf addr := by
  rcases Nat.lt_or_ge p.num (pgnum addr) with hlt | hge
  · exact Or.inl ⟨hp.1, hlt⟩
  · have := hp.2
    exact Or.inr (UPage.num_inj (by rw [num_pageOf]; omega))

/-- The copies of other processes are not touched when `e` copies a page to its child. -/
theorem CowInv.copied_other (h : CowInv b M m E) (hc : (m.proc e).fork.child = some envid) (hx : x ≠ e) {id : Word}
    (hch : (m.proc x).fork.child = some id) {done : UPage → Prop} (hd : E.Copied x (envx id) done) (p : UPage) :
    (E.apply (.copy e (envx envid) p)).Copied x (envx id) done := by
  refine hd.copy_other hx.symm (fun he => ?_) (fun he => hx (h.one x e id envid hch hc he.symm)) p
  -- a child does not fill another one
  have hidle := (h.child hc).idle.1
  rw [he] at hidle
  rw [hidle] at hch
  cases hch

/-- The child gets a page that `e` may not write. -/
theorem CowInv.share_copy (h : CowInv b M m E) (hr : m.Runs e) {addr pte w : Word} {perm : Word}
    (hk : (m.proc e).fork = .share envid addr pte) (hw : m.kern.vpt e (pageOf addr) = some w) (hW : w &&& pteW = 0#32)
    (hperm : perm = permCow ∨ perm = permRO)
    (hm : MapsPage b M m.kern m'.kern (envx envid) (pageOf addr) (pgnum w) perm)
    (hproc : ∀ x, x ≠ e → m'.proc x = m.proc x) (hfault : (m'.proc e).fault = .none)
    (hnext : (m'.proc e).fork = .mark envid addr false ∨ (m'.proc e).fork = .loop envid (addr + pgsize)) :
    CowInv b M m' (E.apply (.copy e (envx envid) (pageOf addr))) := by
  have hok := h.fork e
  rw [hk] at hok
  obtain ⟨hat, hfill, -⟩ := hok
  have hc : (m.proc e).fork.child = some envid := by rw [hk]; rfl
  have hp := hat.forked
  have hperm0 : perm &&& pteW = 0#32 := by rcases hperm with rfl | rfl <;> decide
  have hread := h.view_runs hr hp
  obtain ⟨w₀, hw₀, hu⟩ := hat.readable
  obtain rfl : w₀ = w := Option.some.inj (hw₀.symm.trans hw)
  rw [userPage_some hw hu] at hread
  have hlent : ∀ y c p, m'.Lent y c p ↔ m.Lent y c p := by
    intro y c p
    by_cases hy : y = e
    · subst hy
      unfold Machine.Lent
      rw [hk]
      rcases hnext with hn | hn <;> simp [hn]
    · exact Machine.Lent.congr (by rw [hproc y hy])
  -- only the page table of the child changes
  have hvown : ∀ p, m'.kern.vpt e p = m.kern.vpt e p := fun p => hm.other fun hc' => hfill.ne hc'.1.symm
  have hat' : AtPage m' e addr := hat.kept (.refl hvown)
  have hfill' : Filled m' (E.apply (.copy e (envx envid) (pageOf addr))) e envid (UPage.Below (pgnum addr + 1))
      (pgnum addr + 1) := by
    refine ⟨⟨hfill.ne, hfill.idNe, by rw [hm.envs]; exact hfill.id, by rw [hm.envs]; exact hfill.asleep, ?_⟩, ?_,
      fun p hp' hn => ?_⟩
    · rw [hproc _ (h.awake hr hc)]
      exact hfill.idle
    · exact (hfill.copied.copy hfill.ne.symm (pageOf addr)).mono fun p hp' => hp'.succ
    · rw [hm.other (by rintro ⟨-, rfl⟩; rw [num_pageOf] at hn; omega)]
      exact hfill.rest p hp' (by omega)
  refine h.of_step hr (hm.others (Or.inr ⟨envid, hc, rfl⟩) (Or.inr ⟨_, w₀, hw, rfl⟩) hproc fun x id done hx hch hd => ?_)
    hm.sane (fun x p hp' hn => ?_) (fun x p w₁ hp₁ hw₁ hW₁ x' p' w' hw' heq => ?_) (by rw [hfault]; trivial) ?_
    fun id hc' => Or.inl ?_
  · exact h.copied_other hc hx hch hd _
  -- the child reads in the page what its parent reads, every other view is as before
  · by_cases hxp : x = envx envid ∧ p = pageOf addr
    · obtain ⟨rfl, rfl⟩ := hxp
      rw [userPage_some hm.self (entry_isUser (Or.inr hperm)), hm.frame, hm.mem e _ w₀ hw, hread]
      simp [Eager.apply]
    · rw [hm.view_other hxp]
      simp only [Eager.apply, if_neg hxp]
      exact h.view x p hp' fun y hy => hn y ((hlent ..).2 hy)
  -- neither entry of the page may be written
  · rw [hlent]
    by_cases h1 : x = envx envid ∧ p = pageOf addr
    · obtain ⟨rfl, rfl⟩ := h1
      rw [hm.self] at hw₁
      cases hw₁
      exact absurd (entry_and_pteW hperm0) hW₁
    · rw [hm.other h1] at hw₁
      by_cases h2 : x' = envx envid ∧ p' = pageOf addr
      · obtain ⟨rfl, rfl⟩ := h2
        rw [hm.self] at hw'
        cases hw'
        rw [hm.frame] at heq
        obtain ⟨rfl, rfl⟩ := h.shared hr hp hw hp₁ hw₁ hW₁ heq
        rw [hw] at hw₁
        cases hw₁
        exact absurd hW hW₁
      · rw [hm.other h2] at hw'
        exact h.sole x p w₁ hp₁ hw₁ hW₁ x' p' w' hw' heq
  -- the page is passed, whether `duppage` marks it in the parent or not
  · rcases hnext with hn | hn
    · rw [hn]
      exact ⟨hat', hfill', fun hc' => absurd hc' Bool.false_ne_true⟩
    · rw [hn]
      refine ⟨hat.toInLoop.next hat.lt, ?_⟩
      rw [(pgnum_step hat.lt).1]
      exact hfill'
  · rcases hnext with hn | hn <;> rw [hn] at hc' <;> cases hc' <;> exact hc

/-- The child gets a page that `e` may write, and may go on writing until it has marked it. -/
theorem CowInv.share_live (h : CowInv b M m E) (hr : m.Runs e) {addr pte w : Word}
    (hk : (m.proc e).fork = .share envid addr pte) (hw : m.kern.vpt e (pageOf addr) = some w) (hW : w &&& pteW ≠ 0#32)
    (hm : MapsPage b M m.kern m'.kern (envx envid) (pageOf addr) (pgnum w) permCow)
    (hproc : ∀ x, x ≠ e → m'.proc x = m.proc x) (hfault : (m'.proc e).fault = .none)
    (hnext : (m'.proc e).fork = .mark envid addr true) : CowInv b M m' E := by
  have hok := h.fork e
  rw [hk] at hok
  obtain ⟨hat, hfill, -⟩ := hok
  have hc : (m.proc e).fork.child = some envid := by rw [hk]; rfl
  have hp := hat.forked
  have hperm0 : permCow &&& pteW = 0#32 := by decide
  have hlent : ∀ y c p, m'.Lent y c p ↔ m.Lent y c p ∨ (y = e ∧ c = envx envid ∧ p = pageOf addr) := by
    intro y c p
    by_cases hy : y = e
    · subst hy
      unfold Machine.Lent
      rw [hk, hnext]
      simp [eq_comm]
    · rw [Machine.Lent.congr (m := m) (by rw [hproc y hy])]
      simp [hy]
  have hvown : ∀ p, m'.kern.vpt e p = m.kern.vpt e p := fun p => hm.other fun hc' => hfill.ne hc'.1.symm
  refine h.of_step hr (hm.others (Or.inr ⟨envid, hc, rfl⟩) (Or.inr ⟨_, w, hw, rfl⟩) hproc fun _ _ _ _ _ hd => hd)
    hm.sane (fun x p hp' hn => ?_) (fun x p w₁ hp₁ hw₁ hW₁ x' p' w' hw' heq => ?_) (by rw [hfault]; trivial) ?_
    fun id hc' => Or.inl ?_
  -- the child's view of the page is left open while it is lent
  · have hxp : ¬ (x = envx envid ∧ p = pageOf addr) := fun hxp => hn e ((hlent ..).2 (Or.inr ⟨rfl, hxp.1, hxp.2⟩))
    rw [hm.view_other hxp]
    exact h.view x p hp' fun y hy => hn y ((hlent ..).2 (Or.inl hy))
  -- the parent's entry may be written and the child has the frame too, which is what lending says
  · by_cases h1 : x = envx envid ∧ p = pageOf addr
    · obtain ⟨rfl, rfl⟩ := h1
      rw [hm.self] at hw₁
      cases hw₁
      exact absurd (entry_and_pteW hperm0) hW₁
    · rw [hm.other h1] at hw₁
      by_cases h2 : x' = envx envid ∧ p' = pageOf addr
      · obtain ⟨rfl, rfl⟩ := h2
        rw [hm.self] at hw'
        cases hw'
        rw [hm.frame] at heq
        obtain ⟨rfl, rfl⟩ := h.shared hr hp hw hp₁ hw₁ hW₁ heq
        exact Or.inr ⟨(hlent ..).2 (Or.inr ⟨rfl, rfl, rfl⟩), rfl⟩
      · rw [hm.other h2] at hw'
        exact (h.sole x p w₁ hp₁ hw₁ hW₁ x' p' w' hw' heq).imp id fun hl => ⟨(hlent ..).2 (Or.inl hl.1), hl.2⟩
  · rw [hnext]
    refine ⟨hat.kept (.refl hvown), ⟨⟨hfill.ne, hfill.idNe, by rw [hm.envs]; exact hfill.id, by rw [hm.envs]; exact hfill.asleep,
      ?_⟩, hfill.copied, fun p hp' hn => ?_⟩, fun _ => ⟨w, _, (hvown _).trans hw, hW, hm.self, entry_isUser (Or.inr (Or.inl rfl)),
        hm.frame⟩⟩
    · rw [hproc _ (h.awake hr hc)]
      exact hfill.idle
    · rw [hm.other (by rintro ⟨-, rfl⟩; rw [num_pageOf] at hn; omega)]
      exact hfill.rest p hp' (by omega)
  · rw [hnext] at hc'
    cases hc'
    exact hc

/-- `e` marks the page, which its child has. -/
theorem CowInv.mark (h : CowInv b M m E) (hr : m.Runs e) {addr w : Word} {live : Bool}
    (hk : (m.proc e).fork = .mark envid addr live) (hw : m.kern.vpt e (pageOf addr) = some w)
    (hm : MapsPage b M m.kern m'.kern e (pageOf addr) (pgnum w) permCow)
    (hproc : ∀ x, x ≠ e → m'.proc x = m.proc x) (hfault : (m'.proc e).fault = .none)
    (hnext : (m'.proc e).fork = .loop envid (addr + pgsize)) :
    CowInv b M m' (E.apply (if live = false then .internal else .copy e (envx envid) (pageOf addr))) := by
  have hok := h.fork e
  rw [hk] at hok
  obtain ⟨hat, hfill, hlive⟩ := hok
  have hc : (m.proc e).fork.child = some envid := by rw [hk]; rfl
  have hp := hat.forked
  have hperm0 : permCow &&& pteW = 0#32 := by decide
  obtain ⟨w₀, hw₀, hu⟩ := hat.readable
  obtain rfl : w₀ = w := Option.some.inj (hw₀.symm.trans hw)
  have hread := h.view_runs hr hp
  rw [userPage_some hw hu] at hread
  -- the page is lent no longer, what others lend they still lend
  have hlent : ∀ y c p, m'.Lent y c p → m.Lent y c p ∧ y ≠ e := by
    intro y c p hl
    have hy : y ≠ e := by
      rintro rfl
      obtain ⟨id, a, hk', -⟩ := hl
      rw [hnext] at hk'
      cases hk'
    exact ⟨(Machine.Lent.congr (by rw [hproc y hy])).1 hl, hy⟩
  have hback : ∀ y c p, m.Lent y c p → y ≠ e → m'.Lent y c p := fun y c p hl hy =>
    (Machine.Lent.congr (by rw [hproc y hy])).2 hl
  have hat_own : ∀ c p, m.Lent e c p → live = true ∧ c = envx envid ∧ p = pageOf addr := by
    rintro c p ⟨id, a, hk', hc', hp'⟩
    rw [hk] at hk'
    cases hk'
    exact ⟨rfl, hc'.symm, hp'.symm⟩
  refine h.of_step hr (hm.others (Or.inl rfl) (Or.inr ⟨_, w₀, hw, rfl⟩) hproc fun x id done hx hch hd => ?_)
    hm.sane (fun x p hp' hn => ?_) (fun x p w₁ hp₁ hw₁ hW₁ x' p' w' hw' heq => ?_) (by rw [hfault]; trivial) ?_
    fun id hc' => Or.inl ?_
  · cases live with
    | false => exact hd
    | true => exact h.copied_other hc hx hch hd _
  -- the parent keeps its view; the child's view of a page that was lent is the copy made now
  · by_cases hxp : x = e ∧ p = pageOf addr
    · obtain ⟨rfl, rfl⟩ := hxp
      rw [userPage_some hm.self (entry_isUser (Or.inr (Or.inl rfl))), hm.frame, hm.mem x _ w₀ hw, hread]
      cases live with
      | false => rfl
      | true => simp [Eager.apply, hfill.ne.symm]
    · rw [hm.view_other hxp]
      by_cases hcp : live = true ∧ x = envx envid ∧ p = pageOf addr
      · obtain ⟨rfl, rfl, rfl⟩ := hcp
        obtain ⟨w, w', hw₁, -, hw', hu', heq⟩ := hlive rfl
        rw [hw] at hw₁
        cases hw₁
        rw [userPage_some hw' hu', heq, hread]
        simp [Eager.apply]
      · have hE : (E.apply (if live = false then .internal else .copy e (envx envid) (pageOf addr))).mem x p = E.mem x p := by
          cases live with
          | false => rfl
          | true =>
            simp only [Eager.apply, Bool.true_eq_false, if_false]
            rw [if_neg fun hx => hcp ⟨rfl, hx⟩]
        rw [hE]
        refine h.view x p hp' fun y hy => ?_
        by_cases hye : y = e
        · subst hye
          exact hcp (hat_own x p hy)
        · exact hn y (hback y x p hy hye)
  -- the parent's entry has lost `PTE_W`, so the frame has no writable entry
  · by_cases h1 : x = e ∧ p = pageOf addr
    · obtain ⟨rfl, rfl⟩ := h1
      rw [hm.self] at hw₁
      cases hw₁
      exact absurd (entry_and_pteW hperm0) hW₁
    · rw [hm.other h1] at hw₁
      by_cases h2 : x' = e ∧ p' = pageOf addr
      · obtain ⟨rfl, rfl⟩ := h2
        rw [hm.self] at hw'
        cases hw'
        rw [hm.frame] at heq
        exact absurd (h.shared hr hp hw hp₁ hw₁ hW₁ heq) h1
      · rw [hm.other h2] at hw'
        refine (h.sole x p w₁ hp₁ hw₁ hW₁ x' p' w' hw' heq).imp id fun hl => ⟨hback x x' p hl.1 ?_, hl.2⟩
        rintro rfl
        exact h1 ⟨rfl, (hat_own x' p hl.1).2.2⟩
  · rw [hnext]
    -- the loop goes on behind the page
    refine ⟨hat.toInLoop.next hat.lt, ?_⟩
    rw [(pgnum_step hat.lt).1]
    refine ⟨⟨hfill.ne, hfill.idNe, by rw [hm.envs]; exact hfill.id, by rw [hm.envs]; exact hfill.asleep, ?_⟩, ?_,
      fun p hp' hn => ?_⟩
    · rw [hproc _ (h.awake hr hc)]
      exact hfill.idle
    · cases live with
      | false => exact hfill.copied
      | true => exact (hfill.copied.copy hfill.ne.symm (pageOf addr)).mono fun p hp' => hp'.succ
    · rw [hm.other fun hx => hfill.ne hx.1]
      exact hfill.rest p hp' hn
  · rw [hnext] at hc'
    cases hc'
    exact hc

/-! ## `sys_exofork` -/

theorem CowInv.spawn (h : CowInv b M m E) (hr : m.Runs e) {r : Int} (hk : (m.proc e).fork = .exofork)
    (hf : Forks b M m.kern m'.kern d r) (hproc : ∀ x, x ≠ e → m'.proc x = if x = d then { handler := true } else m.proc x)
    (hfault : (m'.proc e).fault = .none) (hnext : (m'.proc e).fork = .loop (BitVec.ofInt 32 r) utext) :
    CowInv b M m' (E.apply (.spawn e (envx (BitVec.ofInt 32 r)))) := by
  have hde : d ≠ e := by
    rintro rfl
    exact hr.live hf.wasFree
  -- a slot that was free is nobody's child
  have hchild : ∀ x id, (m.proc x).fork.child = some id → envx id ≠ d := by
    rintro x id hc rfl
    have := (h.child hc).asleep
    rw [hf.wasFree] at this
    cases this
  have hnone : ∀ p, m.kern.vpt d p = none := fun p => by rw [← hf.vpt]; exact hf.none p
  have hlent : ∀ y c p, m.Lent y c p → (∃ q w, m.kern.vpt y q = some w) → m'.Lent y c p := by
    rintro y c p hl ⟨q, w, hq⟩
    have hyd : y ≠ d := by
      rintro rfl
      rw [hnone] at hq
      cases hq
    have hye : y ≠ e := by
      rintro rfl
      obtain ⟨id, a, hk', -⟩ := hl
      rw [hk] at hk'
      cases hk'
    exact (Machine.Lent.congr (by rw [hproc y hye, if_neg hyd])).2 hl
  have hspawn : ∀ x p, x ≠ d → (E.apply (.spawn e (envx (BitVec.ofInt 32 r)))).mem x p = E.mem x p := by
    intro x p hx
    simp only [Eager.apply, hf.envx, if_neg hx]
  refine h.of_step hr ⟨fun x hx => ?_, fun x p _ _ => by rw [hf.vpt], fun x p w _ _ _ hw _ => hf.mem x p w hw,
    fun x t _ _ ht => ?_, fun x hx _ hst => ?_, fun x id done hx hch hch' hd => ?_⟩ hf.sane (fun x p hp hn => ?_)
    (fun x p w hp hw hW x' p' w' hw' heq => ?_) (by rw [hfault]; trivial) ?_ fun id hc => Or.inr fun x id' hx hc' => ?_
  · rw [hproc x hx]
    split
    · exact Or.inr ⟨rfl, rfl⟩
    · exact Or.inl rfl
  · unfold State.Temp
    rw [hf.vpt]
    exact ⟨ht, hf.mem x _ t ht.1⟩
  · rw [hf.envs x (by rintro rfl; rw [hf.wasFree] at hst; cases hst)]
    exact ⟨rfl, rfl⟩
  · rw [hf.envx]
    refine hd.spawn hx.symm ?_ (hchild x id hch').symm
    rintro rfl
    rw [hproc _ hx, if_pos rfl] at hch
    cases hch
  -- the child has no page yet, in both machines
  · by_cases hxd : x = d
    · subst hxd
      rw [userPage_none (hf.none p)]
      simp [Eager.apply, hf.envx]
    · rw [hspawn x p hxd]
      refine (userPage_congr (by rw [hf.vpt]) fun w hw => hf.mem x p w hw).trans (h.view x p hp fun y hy => ?_)
      refine hn y (hlent y x p hy ?_)
      -- who lends a page has it mapped
      obtain ⟨id, a, hk', -, rfl⟩ := hy
      have hfo := h.fork y
      rw [hk'] at hfo
      obtain ⟨w, hw, -⟩ := hfo.1.readable
      exact ⟨_, w, hw⟩
  · rw [hf.vpt] at hw hw'
    exact (h.sole x p w hp hw hW x' p' w' hw' heq).imp id fun hl => ⟨hlent _ _ _ hl.1 ⟨p, w, hw⟩, hl.2⟩
  · rw [hnext]
    refine ⟨⟨by decide, le_refl _, by decide⟩,
      ⟨?_, hf.idNe, by rw [hf.envx]; exact hf.id, by rw [hf.envx]; exact hf.status, ?_⟩, ?_,
      fun p _ _ => by rw [hf.envx]; exact hf.none p⟩
    · rw [hf.envx]
      exact hde
    · rw [hf.envx, hproc d hde, if_pos rfl]
      exact ⟨rfl, rfl⟩
    · refine (Eager.copied_none _ _ _).mono fun p hp => ?_
      exact absurd hp.2 (not_lt.2 hp.1.1)
  · rw [hnext] at hc
    cases hc
    rw [hf.envx]
    exact hchild x id' hc'

end Jos
