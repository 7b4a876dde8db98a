/-
Runs of the kernel's operations on address spaces, from the state in which `mem_init` and
`env_init` leave the machine: creating and freeing environments, mapping a new page or one that is
mapped already, and unmapping. Each operation leaves an event; the events of a run say what the
address spaces hold.
-/
import Jos.Vm.Take

namespace Jos

open Lib Kern

/-! ## The start -/

/-- The slots of an array in order. -/
@[irreducible] def slotOrder (n : Nat) : List (Fin n) := List.finRange n

theorem nodup_slotOrder (n : Nat) : (slotOrder n).Nodup := by
  unfold slotOrder; exact List.nodup_finRange n

theorem mem_slotOrder {n : Nat} (e : Fin n) : e ∈ slotOrder n := by
  unfold slotOrder; exact List.mem_finRange e

/-- A table of slots that are linked upwards. -/
theorem chain_slotOrder {n : Nat} {link : Fin n → Option (Fin n)} (x : Fin n) (h0 : x.val = 0)
    (hl : ∀ i j : Fin n, j.val = i.val + 1 → link i = some j) (hend : ∀ i : Fin n, i.val + 1 = n → link i = none) :
    Chain link (some x) (slotOrder n) := by
  unfold slotOrder; exact chain_finRange link x h0 hl hend

/-- The state after `mem_init` and `env_init`: the pages `M` are free, `kern_pgdir` is not one of
them, and all environments are free, in order. -/
structure Booted (b : State) (M : List Nat) : Prop extends FreePages M b M where
  managed : ∀ f ∈ M, f < b.npages
  kernM : b.kernPgdir ∉ M
  envChain : Chain (fun e => (b.envs e).envLink) b.envFreeList (slotOrder nenv)
  envFree : ∀ e, (b.envs e).envStatus = .free

section Boot

variable {b : State} {M : List Nat}

theorem Booted.dir (h : Booted b M) (e : Slot) : b.dir e = none := dir_free (h.envFree e)

theorem Booted.tab (h : Booted b M) (e : Slot) (i : Idx) : b.tab e i = none := node_of_no_root (h.dir e) i

theorem Booted.pte (h : Booted b M) (e : Slot) (i j : Idx) : b.pte e i j = none := pte_of_no_tab (h.tab e i) j

theorem Booted.cell (h : Booted b M) (c : Cell Slot Idx) : b.cell c = none := by
  cases c with
  | root e => exact h.dir e
  | node e i => exact h.tab e i
  | leaf e i j => rw [cell_leaf, h.pte]; rfl

theorem Booted.tables (h : Booted b M) : Tables b M b where
  sep :=
    { roots := fun e _ _ hd => by rw [h.dir] at hd; cases hd
      nodes := fun e i _ _ _ hn => by cases (h.tab e i).symm.trans hn
      apart := fun e _ _ _ hd => by rw [h.dir] at hd; cases hd }
  structM f hf := by
    rcases hf with ⟨e, hd⟩ | ⟨e, i, hn⟩
    · rw [h.dir] at hd; cases hd
    · cases (h.tab e i).symm.trans hn
  leafM e i j w hw := by rw [h.pte] at hw; cases hw
  pde e d i n hd := by rw [h.dir] at hd; cases hd
  managed := h.managed
  outside _ _ := rfl
  kern e d i hd := by rw [h.dir] at hd; cases hd
  self e d hd := by rw [h.dir] at hd; cases hd
  kernPgdir := rfl
  kernM := h.kernM
  npages := rfl

/-- The invariant holds at the start. -/
theorem Booted.inv (h : Booted b M) (Q : Nat → Nat → Prop) : Inv Q b M b M (slotOrder nenv) where
  toTables := h.tables
  toFreePages := h.toFreePages
  freeCell f _ c := by rw [h.cell]; simp
  envChain := h.envChain
  envNodup := nodup_slotOrder nenv
  mem_iff e := ⟨fun _ => h.envFree e, fun _ => mem_slotOrder e⟩
  pgdir e hs := absurd (h.envFree e) hs
  counts f hf := absurd hf.1 hf.2.1

end Boot

/-! ## Operations -/

/-- An operation on the address spaces; `allocInsert` is `page_alloc` followed by `page_insert`, or by
`page_free` when that fails. -/
inductive Op where
  | envAlloc (parentId : Word)
  | allocInsert (flags : Word) (e : Slot) (va perm : Word)
  | insert (e : Slot) (pp : Nat) (va perm : Word)
  | remove (e : Slot) (va : Word)
  | envFree (e : Slot)

/-- What an operation did. -/
inductive Event where
  | created (e : Slot)
  | inserted (e : Slot) (pp : Nat) (va perm : Word)
  | removed (e : Slot) (va : Word)
  | freed (e : Slot)
  | failed
  deriving DecidableEq

def Op.exec : Op → Kern Event
  | .envAlloc parentId => do
    match ← Jos.envAlloc parentId with
    | (_, some e) => return .created e
    | (_, none) => return .failed
  | .allocInsert flags e va perm => do
    match ← pageAlloc flags with
    | none => return .failed
    | some pp =>
      let pgdir ← derefPage (← env e).envPgdir
      let r ← pageInsert pgdir pp va perm
      if r < 0 then
        pageFree pp
        return .failed
      return .inserted e pp va perm
  | .insert e pp va perm => do
    let pgdir ← derefPage (← env e).envPgdir
    let r ← pageInsert pgdir pp va perm
    if r < 0 then
      return .failed
    return .inserted e pp va perm
  | .remove e va => do
    pageRemove (← derefPage (← env e).envPgdir) va
    return .removed e va
  | .envFree e => do
    Jos.envFree e
    return .freed e

/-- `page_lookup` returns page `pp` for some address of the environment in slot `src`. -/
def LooksUp (s : State) (pp : Nat) : Prop :=
  ∃ src d srcva q s', s.dir src = some d ∧ srcva < utop ∧ (pageLookup d srcva).run s = .ok (some pp, q) s'

/-- The operations of a run: on live environments, at user addresses, with `perm` in the low bits; a
page that is inserted without being allocated is mapped somewhere. -/
def Op.Ok (s : State) : Op → Prop
  | .envAlloc _ => True
  | .allocInsert _ e va perm => (s.envs e).envStatus ≠ .free ∧ va < utop ∧ LowPerm perm
  | .insert e pp va perm => (s.envs e).envStatus ≠ .free ∧ va < utop ∧ LowPerm perm ∧ LooksUp s pp
  | .remove e va => (s.envs e).envStatus ≠ .free ∧ va < utop
  | .envFree e => (s.envs e).envStatus ≠ .free

/-- The states of the runs from `b` in which no page has more than 65535 references, with the events
that led there, the last one first. -/
inductive Reach (b : State) : List Event → State → Prop where
  | boot : Reach b [] b
  | step {h : List Event} {s s' : State} {op : Op} {ev : Event} : Reach b h s → op.Ok s → op.exec.run s = .ok ev s' →
      (∀ f, s'.refs f ≤ 65535) → Reach b (ev :: h) s'

/-! ## The flat map -/

/-- The mappings of all environments, by directory and table index. -/
abbrev Flat := Slot → Idx → Idx → Option Word

/-- What an event does to the mappings. -/
def Event.apply (m : Flat) : Event → Flat
  | .created e => fun e' i j => if e' = e then none else m e' i j
  | .inserted e pp va perm => fun e' i j =>
    if e' = e ∧ i = pdx va ∧ j = ptx va then some (entry pp perm) else m e' i j
  | .removed e va => fun e' i j => if e' = e ∧ i = pdx va ∧ j = ptx va then none else m e' i j
  | .freed e => fun e' i j => if e' = e then none else m e' i j
  | .failed => m

end Jos
