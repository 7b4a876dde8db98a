/-
Two-level page tables refine a flat map: in every state of a run, `page_lookup` of a user address
returns what the events of the run say was mapped there last, and an operation leaves the lookups
of all other pages alone.
-/
import Jos.Run.Conserve

namespace Jos

open Lib Kern

variable {b s s' : State} {M l : List Nat} {le : List Slot} {h : List Event} {ev : Event} {e : Slot} {d : Nat} {va : Word}

/-- What `page_lookup` returns: the page and the entry it found, nothing, or a panic. -/
def State.lookup (s : State) (d : Nat) (va : Word) : Option (Option (Nat × Word)) :=
  match (pageLookup d va).run s with
  | .ok (some pp, some pte) s' => some (some (pp, s'.mem pte.1 pte.2))
  | .ok _ _ => some none
  | .error _ _ => none

theorem lookup_eq (ht : Tables b M s) (hg : Genuine s) (hd : s.dir e = some d) (hva : va < utop) :
    s.lookup d va = some ((s.pte e (pdx va) (ptx va)).map fun w => (pgnum w, w)) := by
  unfold State.lookup
  cases hw : s.pte e (pdx va) (ptx va) with
  | none =>
    obtain ⟨q, hq⟩ := lookup_absent ht hd hva hw
    rw [hq]; rfl
  | some w =>
    obtain ⟨n, hn, hm, -⟩ := pte_eq_some.1 hw
    have hlt : pgnum w < s.npages := by
      by_contra hc
      exact hg e ⟨_, _, w, hw, Nat.le_of_not_lt hc⟩
    rw [lookup_present ht hd hn hw, if_pos hlt]
    simp [hm]

/-! ## The history of a page -/

/-- The page and permission of the latest successful `page_insert` for page number `v` of the
environment in slot `e`, since its directory was created, if no `page_remove` came after it. -/
def latest : List Event → Slot → Nat → Option (Nat × Word)
  | [], _, _ => none
  | .created e' :: h, e, v => if e = e' then none else latest h e v
  | .inserted e' pp va perm :: h, e, v => if e = e' ∧ v = pgnum va then some (pp, perm) else latest h e v
  | .removed e' va :: h, e, v => if e = e' ∧ v = pgnum va then none else latest h e v
  | .freed e' :: h, e, v => if e = e' then none else latest h e v
  | .failed :: h, e, v => latest h e v

/-- The pages an event maps, unmaps or takes away. -/
def Event.Touches (e : Slot) (va : Word) : Event → Prop
  | .created e' => e = e'
  | .inserted e' _ va' _ => e = e' ∧ pgnum va = pgnum va'
  | .removed e' va' => e = e' ∧ pgnum va = pgnum va'
  | .freed e' => e = e'
  | .failed => False

theorem apply_untouched (m : Flat) (h : ¬ ev.Touches e va) :
    ev.apply m e (pdx va) (ptx va) = m e (pdx va) (ptx va) := by
  cases ev with
  | created e' | freed e' => exact if_neg h
  | inserted e' pp va' perm | removed e' va' =>
    refine if_neg ?_
    rintro ⟨he, hi⟩
    exact h ⟨he, (idx_eq_iff va va').1 hi⟩
  | failed => rfl

/-- The mapping that the history of a page says it has. -/
def mapped (x : Nat × Word) : Word := entry x.1 x.2

/-- The entries follow the history. -/
theorem reach_latest (hb : Booted b M) (hr : Reach b h s) (e : Slot) (va : Word) :
    s.pte e (pdx va) (ptx va) = (latest h e (pgnum va)).map mapped ∧
      ∀ pp perm, latest h e (pgnum va) = some (pp, perm) → pp ∈ M ∧ LowPerm perm := by
  induction hr with
  | boot => exact ⟨hb.pte e _ _, fun _ _ h => by cases h⟩
  | @step h s s' op ev hr hok hrun _ ih =>
    obtain ⟨⟨l, le, hi⟩, hg⟩ := reach_inv hb hr
    obtain ⟨ev', s'', hrun', hs⟩ := op_step countRel_eq hi hg _ hok
    cases hrun.symm.trans hrun'
    rw [hs.pte]
    cases ev with
    | failed => exact ih
    | created e' | freed e' =>
      simp only [Event.apply, latest]
      split
      · exact ⟨rfl, fun _ _ h => by cases h⟩
      · exact ih
    | inserted e' pp va' perm =>
      simp only [Event.apply, latest, idx_eq_iff]
      split
      · refine ⟨rfl, ?_⟩
        rintro _ _ ⟨⟩
        obtain ⟨h1, h2, -⟩ := hs.new _ _ _ _ rfl
        exact ⟨h1, h2⟩
      · exact ih
    | removed e' va' =>
      simp only [Event.apply, latest, idx_eq_iff]
      split
      · exact ⟨rfl, fun _ _ h => by cases h⟩
      · exact ih

/-! ## Refinement -/

/-- Lookup follows the history of the page, and an operation changes no lookup it does not touch. -/
theorem lookup_refines_flat_map (hb : Booted b M) (hr : Reach b h s) :
    (∀ e d va, s.dir e = some d → va < utop →
      s.lookup d va = some ((latest h e (pgnum va)).map fun x => (x.1, page2pa x.1 ||| x.2 ||| pteP))) ∧
    ∀ (op : Op) ev s', op.Ok s → op.exec.run s = .ok ev s' → ∀ e d va, s.dir e = some d → va < utop →
      ¬ ev.Touches e va → s'.dir e = some d ∧ s'.lookup d va = s.lookup d va := by
  obtain ⟨⟨l, le, hi⟩, hg⟩ := reach_inv hb hr
  constructor
  · intro e d va hd hva
    obtain ⟨hpte, hnew⟩ := reach_latest hb hr e va
    rw [lookup_eq hi.toTables hg hd hva, hpte]
    cases hl : latest h e (pgnum va) with
    | none => rfl
    | some x =>
      obtain ⟨hM, hlow⟩ := hnew x.1 x.2 hl
      have hp : pgnum (mapped x) = x.1 := pgnum_entry_low (hi.lt_pow hM) hlow
      simp only [Option.map_some, hp]
      rfl
  · intro op ev s' hok hrun e d va hd hva ht
    obtain ⟨ev', s'', hrun', hs⟩ := op_step countRel_eq hi hg _ hok
    cases hrun.symm.trans hrun'
    obtain ⟨l', le', hv, -, -⟩ := hs.inv
    have hd' : s'.dir e = some d := by
      rw [hs.dir e ?_]
      · exact hd
      · cases ev <;> first | exact ht | exact id
    refine ⟨hd', ?_⟩
    rw [lookup_eq hv.toTables (hs.genuine hg hi.managed) hd' hva, lookup_eq hi.toTables hg hd hva, hs.pte,
      apply_untouched _ ht]

theorem lookup_refines_flat_map_firstMap :
    firstMap.lookup 128 (utext + 5#32) = some (some (127, page2pa 127 ||| (pteU ||| pteW) ||| pteP)) ∧
      firstMap.lookup 128 (utext + pgsize) = some none :=
  ⟨(lookup_refines_flat_map bootState_booted firstMap_reach).1 0 128 (utext + 5#32) rfl (by decide),
    (lookup_refines_flat_map bootState_booted firstMap_reach).1 0 128 (utext + pgsize) rfl (by decide)⟩

end Jos
