/-
`boot_alloc` of kern/pmap.c: the memory that `mem_init` takes for the kernel's arrays. The addresses are handed out in
order and apart from each other as long as the requests fit; the code does not look whether they do.
-/
import Jos.Mmu.Word

namespace Jos

/-! ## The allocator -/

/-- `nextfree` after the test at the start of `boot_alloc`; `kernEnd` is the linker's symbol `end`. -/
def startFree (kernEnd nextfree : Word) : Word := if nextfree = 0#32 then roundup kernEnd pgsize else nextfree

/-- `boot_alloc(n)`: the address it returns and the new `nextfree`. -/
def bootAlloc (kernEnd n nextfree : Word) : Word × Word :=
  let nextfree := startFree kernEnd nextfree
  if 0#32 < n then
    let result := nextfree
    let nextfree := nextfree + n
    (result, roundup nextfree pgsize)
  else (nextfree, nextfree)

/-- A request and the address that it got. -/
structure Request where
  n : Word
  r : Word

/-- The requests `ns`, one after the other. -/
def bootAllocs (kernEnd : Word) : Word → List Word → List Request
  | _, [] => []
  | nextfree, n :: ns => ⟨n, (bootAlloc kernEnd n nextfree).1⟩ :: bootAllocs kernEnd (bootAlloc kernEnd n nextfree).2 ns

/-! ## What is asked for -/

/-- The end of the memory above `KERNBASE`. -/
def memEnd (npages : Nat) : Nat := min (kernbase.toNat + npages * 4096) (2 ^ 32)

/-- The range of a request lies between the kernel and the end of memory. -/
def Request.Inside (kernEnd : Word) (npages : Nat) (x : Request) : Prop :=
  x.r.toNat % 4096 = 0 ∧ kernEnd.toNat ≤ x.r.toNat ∧ x.r.toNat + x.n.toNat ≤ memEnd npages

def Request.Apart (x y : Request) : Prop :=
  x.r.toNat + x.n.toNat ≤ y.r.toNat ∨ y.r.toNat + y.n.toNat ≤ x.r.toNat

/-- The requests got memory of their own, and a request for nothing the address that the next one got. -/
structure Disjointly (kernEnd : Word) (npages : Nat) (xs : List Request) : Prop where
  inside : ∀ x ∈ xs, 0#32 < x.n → x.Inside kernEnd npages
  apart : xs.Pairwise fun x y => 0#32 < x.n → 0#32 < y.n → x.Apart y
  next : ∀ before x mid y after, xs = before ++ x :: mid ++ y :: after → x.n = 0#32 → (∀ z ∈ mid, z.n = 0#32) →
    0#32 < y.n → x.r = y.r

/-- The first page boundary at or above `c`. -/
def pageUp (c : Nat) : Nat := (c + 4095) / 4096 * 4096

/-- The requests, each in whole pages from `c` on, end below `limit`. -/
def FitsFrom (limit : Nat) : Nat → List Word → Prop
  | _, [] => True
  | c, n :: ns => (0#32 < n → c + n.toNat ≤ limit) ∧ FitsFrom limit (if 0#32 < n then pageUp (c + n.toNat) else c) ns

variable {kernEnd nextfree n : Word} {npages c limit : Nat} {ns : List Word} {x y : Request}

/-! ## One request -/

theorem roundup_pageUp (a : Word) : (roundup a pgsize).toNat = pageUp a.toNat % 2 ^ 32 := by
  have hp : pgsize.toNat = 4096 := rfl
  have h1 : (1#32 : Word).toNat = 1 := rfl
  have := a.isLt
  unfold roundup rounddown pageUp
  rw [BitVec.toNat_sub, BitVec.toNat_umod, BitVec.toNat_sub, BitVec.toNat_add, hp, h1]
  omega

theorem le_pageUp (c : Nat) : c ≤ pageUp c := by
  unfold pageUp
  omega

theorem pageUp_mod (c : Nat) : pageUp c % 4096 = 0 := Nat.mul_mod_left ..

theorem pageUp_le {c : Nat} (h : c ≤ 2 ^ 32) : pageUp c ≤ 2 ^ 32 := by
  unfold pageUp
  omega

/-- The next address is `c`; at the end of the address space `nextfree` is 0 and counts from the kernel's end again. -/
def At (kernEnd nextfree : Word) (c : Nat) : Prop :=
  (c < 2 ^ 32 ∧ (startFree kernEnd nextfree).toNat = c) ∨ (c = 2 ^ 32 ∧ startFree kernEnd nextfree = roundup kernEnd pgsize)

theorem at_first (kernEnd : Word) : At kernEnd 0#32 (pageUp kernEnd.toNat) := by
  have h := roundup_pageUp kernEnd
  have hle := pageUp_le (Nat.le_of_lt kernEnd.isLt)
  unfold At startFree
  rw [if_pos rfl]
  rcases Nat.lt_or_eq_of_le hle with hlt | heq
  · exact Or.inl ⟨hlt, by rw [h, Nat.mod_eq_of_lt hlt]⟩
  · exact Or.inr ⟨heq, rfl⟩

theorem startFree_startFree : startFree kernEnd (startFree kernEnd nextfree) = startFree kernEnd nextfree := by
  unfold startFree
  by_cases h : nextfree = 0#32
  · rw [if_pos h]
    split <;> rfl
  · rw [if_neg h, if_neg h]

theorem bootAlloc_zero : bootAlloc kernEnd 0#32 nextfree = (startFree kernEnd nextfree, startFree kernEnd nextfree) := rfl

theorem bootAlloc_pos (h : 0#32 < n) :
    bootAlloc kernEnd n nextfree = (startFree kernEnd nextfree, roundup (startFree kernEnd nextfree + n) pgsize) :=
  if_pos h

theorem eq_zero_of_not_pos (h : ¬ 0#32 < n) : n = 0#32 := by
  have := BitVec.not_lt.1 h
  exact BitVec.le_zero_iff.1 this

theorem At.zero (h : At kernEnd nextfree c) : At kernEnd (bootAlloc kernEnd 0#32 nextfree).2 c := by
  unfold At
  rw [bootAlloc_zero, startFree_startFree]
  exact h

/-- A request that fits gets `c`, and the next one the page boundary after it. -/
theorem At.pos (h : At kernEnd nextfree c) (hc : c < 2 ^ 32) (hn : 0#32 < n) (hfit : c + n.toNat ≤ 2 ^ 32) :
    (bootAlloc kernEnd n nextfree).1.toNat = c ∧ At kernEnd (bootAlloc kernEnd n nextfree).2 (pageUp (c + n.toNat)) := by
  obtain ⟨-, hr⟩ := h.resolve_right fun h' => by omega
  have hpos : 0 < n.toNat := BitVec.lt_def.1 hn
  have hup := pageUp_le hfit
  have hge := le_pageUp (c + n.toNat)
  rw [bootAlloc_pos hn]
  refine ⟨hr, ?_⟩
  have hnext : (roundup (startFree kernEnd nextfree + n) pgsize).toNat = pageUp (c + n.toNat) % 2 ^ 32 := by
    rw [roundup_pageUp, BitVec.toNat_add, hr]
    rcases Nat.lt_or_eq_of_le hfit with hlt | heq
    · rw [Nat.mod_eq_of_lt hlt]
    · rw [heq]
      rfl
  rcases Nat.lt_or_eq_of_le hup with hlt | heq
  · rw [Nat.mod_eq_of_lt hlt] at hnext
    refine Or.inl ⟨hlt, ?_⟩
    show (startFree kernEnd (roundup (startFree kernEnd nextfree + n) pgsize)).toNat = _
    unfold startFree at hnext ⊢
    rw [if_neg, hnext]
    intro h0
    rw [h0] at hnext
    have : (0#32 : Word).toNat = 0 := rfl
    omega
  · rw [heq, Nat.mod_self] at hnext
    refine Or.inr ⟨heq, ?_⟩
    show startFree kernEnd (roundup (startFree kernEnd nextfree + n) pgsize) = _
    have h0 : roundup (startFree kernEnd nextfree + n) pgsize = 0#32 := BitVec.eq_of_toNat_eq hnext
    rw [h0]
    exact if_pos rfl

/-! ## Runs of requests -/

theorem bootAllocs_cons : bootAllocs kernEnd nextfree (n :: ns) =
    ⟨n, (bootAlloc kernEnd n nextfree).1⟩ :: bootAllocs kernEnd (bootAlloc kernEnd n nextfree).2 ns := rfl

theorem At.step (h : At kernEnd nextfree c) (hl : limit ≤ 2 ^ 32) (hfit : 0#32 < n → c + n.toNat ≤ limit) :
    At kernEnd (bootAlloc kernEnd n nextfree).2 (if 0#32 < n then pageUp (c + n.toNat) else c) ∧
      (0#32 < n → (bootAlloc kernEnd n nextfree).1.toNat = c) := by
  by_cases hn : 0#32 < n
  · have hpos : 0 < n.toNat := BitVec.lt_def.1 hn
    have := hfit hn
    obtain ⟨hr, hat⟩ := h.pos (by omega) hn (by omega)
    rw [if_pos hn]
    exact ⟨hat, fun _ => hr⟩
  · rw [if_neg hn, eq_zero_of_not_pos hn]
    exact ⟨h.zero, fun h' => absurd h' (by decide)⟩

/-- Requests that fit get their addresses in order from `c` on, below the limit. -/
theorem inOrder_of_fits (hl : limit ≤ 2 ^ 32) : ∀ {ns : List Word} {nextfree : Word} {c : Nat}, At kernEnd nextfree c →
    FitsFrom limit c ns → c % 4096 = 0 →
    (∀ x ∈ bootAllocs kernEnd nextfree ns, 0#32 < x.n → x.r.toNat % 4096 = 0 ∧ c ≤ x.r.toNat ∧ x.r.toNat + x.n.toNat ≤ limit) ∧
      (bootAllocs kernEnd nextfree ns).Pairwise fun x y => 0#32 < x.n → 0#32 < y.n → x.Apart y
  | [], _, _, _, _, _ => ⟨nofun, List.Pairwise.nil⟩
  | n :: ns, nextfree, c, hat, ⟨hfit, hrest⟩, hc => by
    obtain ⟨hat', hr⟩ := hat.step hl hfit
    have hc' : (if 0#32 < n then pageUp (c + n.toNat) else c) % 4096 = 0 := by
      split
      · exact pageUp_mod _
      · exact hc
    have hle : 0#32 < n → c + n.toNat ≤ (if 0#32 < n then pageUp (c + n.toNat) else c) := fun hn => by
      rw [if_pos hn]
      exact le_pageUp _
    have hle' : c ≤ (if 0#32 < n then pageUp (c + n.toNat) else c) := by
      split
      · exact (Nat.le_add_right ..).trans (le_pageUp _)
      · exact le_rfl
    obtain ⟨hin, hap⟩ := inOrder_of_fits hl hat' hrest hc'
    rw [bootAllocs_cons]
    refine ⟨fun x hx hn => ?_, List.pairwise_cons.2 ⟨fun y hy hn hny => Or.inl ?_, hap⟩⟩
    · rcases List.mem_cons.1 hx with rfl | hx
      · rw [hr hn]
        exact ⟨hc, le_rfl, hfit hn⟩
      · obtain ⟨h₁, h₂, h₃⟩ := hin x hx hn
        exact ⟨h₁, hle'.trans h₂, h₃⟩
    · show (bootAlloc kernEnd n nextfree).1.toNat + n.toNat ≤ _
      rw [hr hn]
      exact (hle hn).trans (hin y hy hny).2.1

/-- A request for nothing leaves the address to the one after it. -/
theorem chain_bootAllocs (kernEnd : Word) : ∀ (ns : List Word) (nextfree : Word),
    (bootAllocs kernEnd nextfree ns).IsChain fun x y => x.n = 0#32 → x.r = y.r
  | [], _ => List.IsChain.nil
  | [_], _ => List.IsChain.singleton _
  | n :: m :: ns, nextfree => by
    rw [bootAllocs_cons, bootAllocs_cons, List.isChain_cons_cons, ← bootAllocs_cons]
    refine ⟨fun hn => ?_, chain_bootAllocs kernEnd (m :: ns) _⟩
    have hn' : n = 0#32 := hn
    subst hn'
    show startFree kernEnd nextfree = (bootAlloc kernEnd m (startFree kernEnd nextfree)).1
    unfold bootAlloc
    rw [startFree_startFree]
    split <;> rfl

theorem next_of_chain {x y : Request} {after : List Request} : ∀ {mid : List Request},
    (x :: mid ++ y :: after).IsChain (fun x y => x.n = 0#32 → x.r = y.r) → x.n = 0#32 → (∀ z ∈ mid, z.n = 0#32) → x.r = y.r
  | [], h, hx, _ => (List.isChain_cons_cons.1 h).1 hx
  | z :: mid, h, hx, hz => by
    obtain ⟨hxz, h'⟩ := List.isChain_cons_cons.1 h
    have hzy : z.r = y.r :=
      next_of_chain h' (hz z (List.mem_cons_self ..)) fun w hw => hz w (List.mem_cons_of_mem _ hw)
    exact (hxz hx).trans hzy

/-! ## Requests that do not fit -/

/-- Requests that got memory of their own fit. `hused` says that the first page is taken when others were handed out. -/
theorem fits_of_disjointly {npages : Nat} : ∀ {ns : List Word} {nextfree : Word} {c : Nat}, At kernEnd nextfree c →
    (c ≠ pageUp kernEnd.toNat → ∀ x ∈ bootAllocs kernEnd nextfree ns, 0#32 < x.n → x.r ≠ roundup kernEnd pgsize) →
    (∀ x ∈ bootAllocs kernEnd nextfree ns, 0#32 < x.n → x.Inside kernEnd npages) →
    ((bootAllocs kernEnd nextfree ns).Pairwise fun x y => 0#32 < x.n → 0#32 < y.n → x.Apart y) →
    FitsFrom (memEnd npages) c ns
  | [], _, _, _, _, _, _ => trivial
  | n :: ns, nextfree, c, hat, hused, hin, hap => by
    have hl : memEnd npages ≤ 2 ^ 32 := min_le_right _ _
    rw [bootAllocs_cons] at hused hin hap
    obtain ⟨hhead, htail⟩ := List.pairwise_cons.1 hap
    have hmem := List.mem_cons_self (a := (⟨n, (bootAlloc kernEnd n nextfree).1⟩ : Request))
      (l := bootAllocs kernEnd (bootAlloc kernEnd n nextfree).2 ns)
    have hfit : 0#32 < n → c + n.toNat ≤ memEnd npages := by
      intro hn
      obtain ⟨-, hlo, hhi⟩ := hin _ hmem hn
      have hr : (bootAlloc kernEnd n nextfree).1 = startFree kernEnd nextfree := by rw [bootAlloc_pos hn]
      rcases hat with ⟨-, hc⟩ | ⟨hc, hst⟩
      · have hhi' : (bootAlloc kernEnd n nextfree).1.toNat + n.toNat ≤ memEnd npages := hhi
        rw [hr, hc] at hhi'
        exact hhi'
      · -- the addresses start again at the kernel's end
        by_cases hfirst : c = pageUp kernEnd.toNat
        · have hz := roundup_pageUp kernEnd
          rw [← hfirst, hc, Nat.mod_self] at hz
          have hlo' : kernEnd.toNat ≤ (bootAlloc kernEnd n nextfree).1.toNat := hlo
          rw [hr, hst, hz] at hlo'
          unfold pageUp at hfirst
          omega
        · exact absurd (hr.trans hst) (hused hfirst _ hmem hn)
    obtain ⟨hat', hr⟩ := hat.step hl hfit
    refine ⟨hfit, fits_of_disjointly hat' (fun hne x hx hxn => ?_) (fun x hx => hin x (List.mem_cons_of_mem _ hx)) htail⟩
    by_cases hfirst : c = pageUp kernEnd.toNat
    · by_cases hn : 0#32 < n
      · -- the first page went to this request
        have hapart : (bootAlloc kernEnd n nextfree).1.toNat + n.toNat ≤ x.r.toNat ∨
            x.r.toNat + x.n.toNat ≤ (bootAlloc kernEnd n nextfree).1.toNat := hhead x hx hn hxn
        intro hxr
        have hlt : pageUp kernEnd.toNat < 2 ^ 32 := by
          have := hfit hn
          have hpos : 0 < n.toNat := BitVec.lt_def.1 hn
          omega
        have hx' : x.r.toNat = c := by rw [hxr, roundup_pageUp, Nat.mod_eq_of_lt hlt, hfirst]
        have hn' : 0 < n.toNat := BitVec.lt_def.1 hn
        have hxn' : 0 < x.n.toNat := BitVec.lt_def.1 hxn
        have hr' := hr hn
        omega
      · rw [if_neg hn] at hne
        exact absurd hfirst hne
    · exact hused hfirst x (List.mem_cons_of_mem _ hx) hxn

/-! ## The result -/

/-- The requests get pages of their own exactly when they fit, each in whole pages, below the end of memory. -/
theorem bootAlloc_disjoint_iff (kernEnd : Word) (npages : Nat) (ns : List Word) :
    Disjointly kernEnd npages (bootAllocs kernEnd 0#32 ns) ↔ FitsFrom (memEnd npages) (pageUp kernEnd.toNat) ns := by
  constructor
  · intro h
    exact fits_of_disjointly (at_first kernEnd) (fun hne => absurd rfl hne) h.inside h.apart
  · intro h
    obtain ⟨hin, hap⟩ := inOrder_of_fits (min_le_right _ _) (at_first kernEnd) h (pageUp_mod _)
    refine ⟨fun x hx hn => ?_, hap, fun before x mid y after hxs hx hz _ => ?_⟩
    · obtain ⟨h₁, h₂, h₃⟩ := hin x hx hn
      exact ⟨h₁, (le_pageUp _).trans h₂, h₃⟩
    · have hch := chain_bootAllocs kernEnd ns 0#32
      rw [hxs, List.append_assoc] at hch
      exact next_of_chain hch.right_of_append hx hz

/-- A machine of 2 MB whose kernel ends in its last page: the first page handed out lies outside memory. -/
theorem bootAlloc_out_of_memory : ¬ Disjointly 0xf01ff800#32 512 (bootAllocs 0xf01ff800#32 0#32 [4096#32]) := by
  intro h
  obtain ⟨-, -, hend⟩ := h.inside _ (List.mem_cons_self ..) (by decide)
  exact absurd hend (by decide)

end Jos
