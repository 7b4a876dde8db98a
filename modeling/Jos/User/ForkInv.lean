/-
The invariant of a tree of forks. A page that an environment may write is mapped nowhere else, but for its own `PFTEMP` and for
the child that it is just being given to; the words that `pgfault` has copied are those of the page; and a child that does not
run yet has the pages that the loop of `fork` has passed.
-/
import Jos.User.ForkCalls

namespace Jos

open Lib Kern

/-- The memories that the processes would have if every fork copied every page. -/
abbrev Memories := Eager Slot UPage (Idx → Word)

/-- The child that a process is filling. -/
def ForkPoint.child : ForkPoint → Option Word
  | .loop envid _ | .dup envid _ | .share envid .. | .mark envid .. | .stack envid | .setUpcall envid | .setStatus envid =>
    some envid
  | .none | .handler | .upcall | .exofork => .none

/-- Environment `e` may write page `p` and has mapped it in its child `c`. -/
def Machine.Lent (m : Machine) (e c : Slot) (p : UPage) : Prop :=
  ∃ envid addr, (m.proc e).fork = .mark envid addr true ∧ envx envid = c ∧ pageOf addr = p

/-- No other mapping targets the page at `PFTEMP`, which is `t`. -/
def State.Temp (s : State) (e : Slot) (t : Word) : Prop :=
  s.vpt e (pageOf pftemp) = some t ∧ ∀ e' p' w', s.vpt e' p' = some w' → pgnum w' = pgnum t → e' = e ∧ p' = pageOf pftemp

/-- `envid` is a child of `e` that does not run yet. -/
structure Child (m : Machine) (e : Slot) (envid : Word) : Prop where
  ne : envx envid ≠ e
  idNe : envid ≠ 0#32
  id : (m.kern.envs (envx envid)).envId = envid
  asleep : (m.kern.envs (envx envid)).envStatus = .notRunnable
  idle : (m.proc (envx envid)).fork = .none ∧ (m.proc (envx envid)).fault = .none

/-- The child has the pages `done`, and none from number `n` on. -/
structure Filled (m : Machine) (E : Memories) (e : Slot) (envid : Word) (done : UPage → Prop) (n : Nat) : Prop
    extends Child m e envid where
  copied : E.Copied e (envx envid) done
  rest : ∀ p, p.Forked → n ≤ p.num → m.kern.vpt (envx envid) p = none

/-- A value of `addr` in the loop of `fork`. -/
structure InLoop (addr : Word) : Prop where
  aligned : addr.toNat % 4096 = 0
  low : pgnum utext ≤ pgnum addr
  high : pgnum addr ≤ pgnum xstack

/-- The user can access the page. -/
def State.Readable (s : State) (e : Slot) (p : UPage) : Prop := ∃ w, s.vpt e p = some w ∧ w &&& pteU ≠ 0#32

/-- `duppage` is at a page that is there. -/
structure AtPage (m : Machine) (e : Slot) (addr : Word) : Prop extends InLoop addr where
  lt : pgnum addr < pgnum xstack
  readable : m.kern.Readable e (pageOf addr)

def UPage.Below (n : Nat) (p : UPage) : Prop := p.Forked ∧ p.num < n

/-- What holds of a process at each point of `fork`. -/
def ForkOk (m : Machine) (E : Memories) (e : Slot) : ForkPoint → Prop
  | .none | .handler | .upcall | .exofork => True
  | .loop envid addr => InLoop addr ∧ Filled m E e envid (UPage.Below (pgnum addr)) (pgnum addr)
  | .dup envid addr => AtPage m e addr ∧ Filled m E e envid (UPage.Below (pgnum addr)) (pgnum addr)
  | .share envid addr pte => AtPage m e addr ∧ Filled m E e envid (UPage.Below (pgnum addr)) (pgnum addr) ∧
      (¬ Cowed pte → ∀ w, m.kern.vpt e (pageOf addr) = some w → ¬ Cowed w)
  | .mark envid addr live => AtPage m e addr ∧
      Filled m E e envid (UPage.Below (if live then pgnum addr else pgnum addr + 1)) (pgnum addr + 1) ∧
      (live = true → ∃ w w', m.kern.vpt e (pageOf addr) = some w ∧ w &&& pteW ≠ 0#32 ∧
        m.kern.vpt (envx envid) (pageOf addr) = some w' ∧ w' &&& pteU ≠ 0#32 ∧ pgnum w' = pgnum w)
  | .stack envid | .setUpcall envid | .setStatus envid => Filled m E e envid UPage.Forked (pgnum xstack)

/-- What holds of a process at each point of `pgfault`. -/
def FaultOk (s : State) (e : Slot) : FaultPoint → Prop
  | .none => True
  | .alloc addr => (pageOf addr).Forked ∧ ∃ w, s.vpt e (pageOf addr) = some w ∧ w &&& pteCow ≠ 0#32 ∧
      (w &&& pteU ≠ 0#32 → w &&& pteW = 0#32)
  | .copy addr k => (pageOf addr).Forked ∧ ∃ w t, s.vpt e (pageOf addr) = some w ∧ w &&& pteCow ≠ 0#32 ∧
      (w &&& pteU ≠ 0#32 → w &&& pteW = 0#32) ∧ s.Temp e t ∧
      (0 < k → w &&& pteU ≠ 0#32 ∧ ∀ j : Idx, j.val < k → s.mem (pgnum t) j = s.mem (pgnum w) j)

/-- The invariant, for the machine `m` and the memories `E` that eager copies would have. -/
structure CowInv (b : State) (M : List Nat) (m : Machine) (E : Memories) : Prop where
  sane : Sane b M m.kern
  view : ∀ e p, p.Forked → (∀ x, ¬ m.Lent x e p) → m.kern.userPage e p = E.mem e p
  sole : ∀ e p w, p.Own → m.kern.vpt e p = some w → w &&& pteW ≠ 0#32 → ∀ e' p' w', m.kern.vpt e' p' = some w' →
    pgnum w' = pgnum w → (e' = e ∧ (p' = p ∨ p' = pageOf pftemp)) ∨ (m.Lent e e' p ∧ p' = p)
  fault : ∀ e, FaultOk m.kern e (m.proc e).fault
  fork : ∀ e, ForkOk m E e (m.proc e).fork
  one : ∀ e e' envid envid', (m.proc e).fork.child = some envid → (m.proc e').fork.child = some envid' →
    envx envid = envx envid' → e = e'

variable {b : State} {M : List Nat} {m m' : Machine} {E E' : Memories} {e x : Slot} {envid : Word} {p q : UPage}

/-! ## What the other processes keep -/

/-- The own pages of `e` stay, apart from copy-on-write pages that have been replaced. -/
def OwnKept (s s' : State) (e : Slot) : Prop :=
  ∀ p, p.Forked → s'.vpt e p = s.vpt e p ∨
    ∃ w w', s.vpt e p = some w ∧ w &&& pteCow ≠ 0#32 ∧ w &&& pteW = 0#32 ∧ s'.vpt e p = some w' ∧ w' &&& pteU ≠ 0#32

/-- A child of `e` stays as it was. -/
structure ChildKept (m m' : Machine) (E E' : Memories) (e : Slot) (envid : Word) : Prop where
  id : (m'.kern.envs (envx envid)).envId = (m.kern.envs (envx envid)).envId
  status : (m'.kern.envs (envx envid)).envStatus = (m.kern.envs (envx envid)).envStatus
  idle : (m'.proc (envx envid)).fork = .none ∧ (m'.proc (envx envid)).fault = .none
  vpt : ∀ p, p.Forked → m'.kern.vpt (envx envid) p = m.kern.vpt (envx envid) p
  copied : ∀ done, E.Copied e (envx envid) done → E'.Copied e (envx envid) done

theorem OwnKept.refl {s s' : State} (h : ∀ p, s'.vpt e p = s.vpt e p) : OwnKept s s' e := fun p _ => Or.inl (h p)

theorem Filled.kept {done : UPage → Prop} {n : Nat} (h : Filled m E e envid done n) (hk : ChildKept m m' E E' e envid) :
    Filled m' E' e envid done n where
  ne := h.ne
  idNe := h.idNe
  id := hk.id.trans h.id
  asleep := hk.status.trans h.asleep
  idle := hk.idle
  copied := hk.copied done h.copied
  rest p hp hn := (hk.vpt p hp).trans (h.rest p hp hn)

theorem OwnKept.readable {s s' : State} (h : OwnKept s s' e) (hp : p.Forked) (hr : s.Readable e p) : s'.Readable e p := by
  rcases h p hp with h | ⟨w, w', -, -, -, h, hu⟩
  · unfold State.Readable
    rw [h]
    exact hr
  · exact ⟨w', h, hu⟩

theorem InLoop.forked {addr : Word} (h : InLoop addr) (hlt : pgnum addr < pgnum xstack) : (pageOf addr).Forked := by
  unfold UPage.Forked
  rw [num_pageOf]
  exact ⟨h.low, hlt⟩

theorem AtPage.forked {addr : Word} (h : AtPage m e addr) : (pageOf addr).Forked := h.toInLoop.forked h.lt

theorem AtPage.kept {addr : Word} (h : AtPage m e addr) (hv : OwnKept m.kern m'.kern e) : AtPage m' e addr :=
  ⟨h.toInLoop, h.lt, hv.readable h.forked h.readable⟩

theorem ForkOk.kept {k : ForkPoint} (h : ForkOk m E e k) (hv : OwnKept m.kern m'.kern e)
    (hc : ∀ envid, k.child = some envid → ChildKept m m' E E' e envid) : ForkOk m' E' e k := by
  cases k with
  | none | handler | upcall | exofork => trivial
  | loop envid addr => exact ⟨h.1, h.2.kept (hc _ rfl)⟩
  | dup envid addr => exact ⟨h.1.kept hv, h.2.kept (hc _ rfl)⟩
  | share envid addr pte =>
    obtain ⟨hp, hf, hn⟩ := h
    refine ⟨hp.kept hv, hf.kept (hc _ rfl), fun hcow w hw => ?_⟩
    rcases hv _ hp.forked with h | ⟨w₀, w', h₀, hcow₀, -⟩
    · exact hn hcow w (h.symm.trans hw)
    · exact absurd (Or.inr hcow₀) (hn hcow w₀ h₀)
  | mark envid addr live =>
    obtain ⟨hp, hf, hl⟩ := h
    refine ⟨hp.kept hv, hf.kept (hc _ rfl), fun hlive => ?_⟩
    obtain ⟨w, w', hw, hW, hw', hu, hpg⟩ := hl hlive
    rcases hv _ hp.forked with h | ⟨w₀, -, h₀, -, hW₀, -⟩
    · exact ⟨w, w', h.trans hw, hW, ((hc _ rfl).vpt _ hp.forked).trans hw', hu, hpg⟩
    · rw [hw] at h₀
      cases h₀
      exact absurd hW₀ hW
  | stack envid | setUpcall envid | setStatus envid => exact Filled.kept h (hc _ rfl)

theorem FaultOk.kept {s s' : State} {k : FaultPoint} (h : FaultOk s e k)
    (hv : ∀ p, p.Forked ∨ p = pageOf pftemp → s'.vpt e p = s.vpt e p)
    (hm : ∀ p w, p.Forked → s.vpt e p = some w → w &&& pteW = 0#32 → s'.mem (pgnum w) = s.mem (pgnum w))
    (ht : ∀ t, s.Temp e t → s'.Temp e t ∧ s'.mem (pgnum t) = s.mem (pgnum t)) : FaultOk s' e k := by
  cases k with
  | none => trivial
  | alloc addr =>
    obtain ⟨hp, w, hw, hcow, hW⟩ := h
    exact ⟨hp, w, (hv _ (Or.inl hp)).trans hw, hcow, hW⟩
  | copy addr k =>
    obtain ⟨hp, w, t, hw, hcow, hW, htemp, hk⟩ := h
    obtain ⟨htemp', hmem⟩ := ht t htemp
    refine ⟨hp, w, t, (hv _ (Or.inl hp)).trans hw, hcow, hW, htemp', fun h0 => ?_⟩
    obtain ⟨hu, hk⟩ := hk h0
    refine ⟨hu, fun j hj => ?_⟩
    rw [hmem, hm _ w hp hw (hW hu)]
    exact hk j hj

theorem ForkOk.toChild {k : ForkPoint} (h : ForkOk m E e k) (hc : k.child = some envid) : Child m e envid := by
  cases k with
  | none | handler | upcall | exofork => cases hc
  | loop | dup => cases hc; exact h.2.toChild
  | share | mark => cases hc; exact h.2.1.toChild
  | stack | setUpcall | setStatus => cases hc; exact Filled.toChild h

theorem Machine.Lent.child {c : Slot} (h : m.Lent e c p) : ∃ envid, (m.proc e).fork.child = some envid ∧ envx envid = c := by
  obtain ⟨envid, addr, hf, hc, -⟩ := h
  exact ⟨envid, by rw [hf]; rfl, hc⟩

theorem Machine.Runs.live (hr : m.Runs e) : (m.kern.envs e).envStatus ≠ .free := by
  rcases hr.1 with h | h <;> rw [h] <;> simp

section

variable (h : CowInv b M m E)

include h

theorem CowInv.child (hc : (m.proc e).fork.child = some envid) : Child m e envid := (h.fork e).toChild hc

/-- An environment that runs is nobody's child any more. -/
theorem CowInv.awake (hr : m.Runs e) (hc : (m.proc x).fork.child = some envid) : envx envid ≠ e := by
  rintro rfl
  have := (h.child hc).asleep
  rcases hr.1 with h | h <;> rw [h] at this <;> cases this

theorem CowInv.not_lent (hr : m.Runs e) : ¬ m.Lent x e p := by
  rintro hl
  obtain ⟨envid, hc, he⟩ := hl.child
  exact h.awake hr hc he

/-- What an environment that runs reads. -/
theorem CowInv.view_runs (hr : m.Runs e) (hp : p.Forked) : m.kern.userPage e p = E.mem e p :=
  h.view e p hp fun _ => h.not_lent hr

end

/-! ## A step of one process -/

/-- A step of `e` leaves the other processes alone. -/
structure OthersKept (m m' : Machine) (E E' : Memories) (e : Slot) : Prop where
  proc : ∀ x, x ≠ e → m'.proc x = m.proc x ∨ ((m'.proc x).fork = .none ∧ (m'.proc x).fault = .none)
  vpt : ∀ x p, x ≠ e → (∀ envid, (m.proc e).fork.child = some envid → envx envid ≠ x) → m'.kern.vpt x p = m.kern.vpt x p
  mem : ∀ x p w, x ≠ e → (∀ envid, (m.proc e).fork.child = some envid → envx envid ≠ x) → p.Forked →
    m.kern.vpt x p = some w → w &&& pteW = 0#32 → m'.kern.mem (pgnum w) = m.kern.mem (pgnum w)
  temp : ∀ x t, x ≠ e → (∀ envid, (m.proc e).fork.child = some envid → envx envid ≠ x) → m.kern.Temp x t →
    m'.kern.Temp x t ∧ m'.kern.mem (pgnum t) = m.kern.mem (pgnum t)
  envs : ∀ x, x ≠ e → (∀ envid, (m.proc e).fork.child = some envid → envx envid ≠ x) →
    (m.kern.envs x).envStatus = .notRunnable →
    (m'.kern.envs x).envId = (m.kern.envs x).envId ∧ (m'.kern.envs x).envStatus = (m.kern.envs x).envStatus
  copied : ∀ x envid done, x ≠ e → (m'.proc x).fork.child = some envid → (m.proc x).fork.child = some envid →
    E.Copied x (envx envid) done → E'.Copied x (envx envid) done

theorem CowInv.others (h : CowInv b M m E) (hr : m.Runs e) (ho : OthersKept m m' E E' e) (hx : x ≠ e) :
    FaultOk m'.kern x (m'.proc x).fault ∧ ForkOk m' E' x (m'.proc x).fork := by
  rcases ho.proc x hx with hp | ⟨hk, hf⟩
  swap
  · rw [hk, hf]
    exact ⟨trivial, trivial⟩
  by_cases hc : ∃ envid, (m.proc e).fork.child = some envid ∧ envx envid = x
  · obtain ⟨envid, hc, rfl⟩ := hc
    rw [hp, (h.child hc).idle.1, (h.child hc).idle.2]
    exact ⟨trivial, trivial⟩
  · have hne : ∀ envid, (m.proc e).fork.child = some envid → envx envid ≠ x := fun envid hc' he => hc ⟨envid, hc', he⟩
    have hfault := h.fault x
    have hfork := h.fork x
    rw [← hp] at hfault hfork
    refine ⟨hfault.kept (fun p _ => ho.vpt x p hx hne) (fun p w => ho.mem x p w hx hne) fun t => ho.temp x t hx hne,
      hfork.kept (.refl fun p => ho.vpt x p hx hne) fun envid hch => ?_⟩
    have hch' : (m.proc x).fork.child = some envid := by rw [← hp]; exact hch
    have hchild := h.child hch'
    have hce : envx envid ≠ e := h.awake hr hch'
    have hcc : ∀ envid', (m.proc e).fork.child = some envid' → envx envid' ≠ envx envid := fun envid' he heq =>
      hx (h.one x e envid envid' hch' he heq.symm)
    obtain ⟨hid, hst⟩ := ho.envs _ hce hcc hchild.asleep
    refine ⟨hid, hst, ?_, fun p _ => ho.vpt _ p hce hcc, fun done => ho.copied x envid done hx hch hch'⟩
    rcases ho.proc _ hce with hpc | hpc
    · rw [hpc]
      exact hchild.idle
    · exact hpc

/-- The invariant after a step of `e`, from what the step does to `e` and to the mappings. -/
theorem CowInv.of_step (h : CowInv b M m E) (hr : m.Runs e) (ho : OthersKept m m' E E' e) (hs : Sane b M m'.kern)
    (hview : ∀ x p, p.Forked → (∀ y, ¬ m'.Lent y x p) → m'.kern.userPage x p = E'.mem x p)
    (hsole : ∀ x p w, p.Own → m'.kern.vpt x p = some w → w &&& pteW ≠ 0#32 → ∀ x' p' w', m'.kern.vpt x' p' = some w' →
      pgnum w' = pgnum w → (x' = x ∧ (p' = p ∨ p' = pageOf pftemp)) ∨ (m'.Lent x x' p ∧ p' = p))
    (hfault : FaultOk m'.kern e (m'.proc e).fault) (hfork : ForkOk m' E' e (m'.proc e).fork)
    (hone : ∀ envid, (m'.proc e).fork.child = some envid → (m.proc e).fork.child = some envid ∨
      ∀ x envid', x ≠ e → (m.proc x).fork.child = some envid' → envx envid' ≠ envx envid) : CowInv b M m' E' := by
  have hkeep : ∀ x envid, x ≠ e → (m'.proc x).fork.child = some envid → (m.proc x).fork.child = some envid := by
    intro x envid hx hc
    rcases ho.proc x hx with hp | ⟨hk, -⟩
    · rw [← hp]
      exact hc
    · rw [hk] at hc
      cases hc
  refine ⟨hs, hview, hsole, fun x => ?_, fun x => ?_, fun x y envid envid' hx hy heq => ?_⟩
  · by_cases hx : x = e
    · rw [hx]; exact hfault
    · exact (h.others hr ho hx).1
  · by_cases hx : x = e
    · rw [hx]; exact hfork
    · exact (h.others hr ho hx).2
  · by_cases hxe : x = e
    · by_cases hye : y = e
      · rw [hxe, hye]
      · subst hxe
        have hy' := hkeep y envid' hye hy
        rcases hone envid hx with hx' | hnew
        · exact h.one _ _ _ _ hx' hy' heq
        · exact absurd heq.symm (hnew y envid' hye hy')
    · have hx' := hkeep x envid hxe hx
      by_cases hye : y = e
      · subst hye
        rcases hone envid' hy with hy' | hnew
        · exact h.one _ _ _ _ hx' hy' heq
        · exact absurd heq (hnew x envid hxe hx')
      · exact h.one _ _ _ _ hx' (hkeep y envid' hye hy) heq

end Jos
