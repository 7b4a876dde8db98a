/-
`check_page_free_list(1)` of kern/pmap.c, up to its checks: the pages that `entry_pgdir` maps are moved to the front of
the free list. The list is taken apart and linked again through pointers to its last links.
-/
import Jos.Boot.PageInit
import Jos.Lib.Tails

namespace Jos

open Lib

/-! ## The code -/

/-- `pages[]` and the locals of the function. A pointer to a link is one to `pp1` or `pp2`, the heads of the two lists, or
to the `pp_link` of a page. -/
structure Reorder where
  pages : Nat → PageInfo
  pp1 : Option Nat
  pp2 : Option Nat
  tp : Bool → Place Bool Nat

def Reorder.get (s : Reorder) : Place Bool Nat → Option Nat
  | .head false => s.pp1
  | .head true => s.pp2
  | .link p => (s.pages p).ppLink

/-- `*q = v`. -/
def Reorder.store (s : Reorder) (q : Place Bool Nat) (v : Option Nat) : Reorder :=
  match q with
  | .head false => { s with pp1 := v }
  | .head true => { s with pp2 := v }
  | .link p => { s with pages := Function.update s.pages p { s.pages p with ppLink := v } }

/-- `PDX(page2pa(pp)) >= pdx_limit`, with the limit for low memory. -/
def pagetype (pp : Nat) : Bool := 1 ≤ (pdx (page2pa pp)).val

/-- The body of the loop. -/
def Reorder.turn (s : Reorder) (pp : Nat) : Reorder :=
  let s := s.store (s.tp (pagetype pp)) (some pp)
  { s with tp := Function.update s.tp (pagetype pp) (.link pp) }

/-- `for (pp = page_free_list; pp; pp = pp->pp_link)`. -/
def reorderLoop : Nat → Option Nat → Reorder → Option Reorder
  | 0, _, _ => none
  | _ + 1, none, s => some s
  | lim + 1, some pp, s => reorderLoop lim ((s.turn pp).pages pp).ppLink (s.turn pp)

/-- `pp1` and `pp2` are not initialised. -/
def PageArray.reorder (lim : Nat) (pp1 pp2 : Option Nat) (a : PageArray) : Option PageArray := do
  let s ← reorderLoop lim a.pageFreeList ⟨a.pages, pp1, pp2, .head⟩
  let s := s.store (s.tp true) none
  let s := s.store (s.tp false) s.pp2
  return ⟨s.pages, s.pp1⟩

/-- `check_page_free_list` up to the first use of the list that it checks; whether it panicked, and the list. -/
def checkPageFreeList (lim : Nat) (onlyLowMemory : Bool) (pp1 pp2 : Option Nat) (a : PageArray) : Option (Bool × PageArray) :=
  if a.pageFreeList = none then some (true, a)
  else if onlyLowMemory then (a.reorder lim pp1 pp2).map fun a => (false, a)
  else some (false, a)

/-! ## The loop -/

variable {s : Reorder} {a : PageArray} {q : Place Bool Nat} {v : Option Nat} {done rest l : List Nat} {lim : Nat}

theorem get_store (s : Reorder) (q : Place Bool Nat) (v : Option Nat) : (s.store q v).get = Function.update s.get q v := by
  funext r
  by_cases hr : r = q
  · subst hr
    rw [Function.update_self]
    rcases r with (_ | _) | p
    · rfl
    · rfl
    · show (Function.update s.pages p _ p).ppLink = v
      rw [Function.update_self]
  · rw [Function.update_of_ne hr]
    rcases q with (_ | _) | p <;> rcases r with (_ | _) | r <;> first | rfl | exact absurd rfl hr | skip
    show (Function.update s.pages p _ r).ppLink = (s.pages r).ppLink
    rw [Function.update_of_ne fun h => hr (by rw [h])]

theorem store_tp (s : Reorder) (q : Place Bool Nat) (v : Option Nat) : (s.store q v).tp = s.tp := by
  rcases q with (_ | _) | p <;> rfl

theorem store_ref (s : Reorder) (q : Place Bool Nat) (v : Option Nat) (p : Nat) :
    ((s.store q v).pages p).ppRef = (s.pages p).ppRef := by
  rcases q with (_ | _) | r
  · rfl
  · rfl
  · show (Function.update s.pages r _ p).ppRef = _
    rw [Function.update_apply]
    split
    · rename_i h
      rw [h]
    · rfl

/-- The pages that have been passed are on the two lists, the others are linked as they were. -/
structure Sorting (a : PageArray) (done rest : List Nat) (s : Reorder) : Prop where
  threaded : Threaded pagetype s.get s.tp done
  nodup : (done ++ rest).Nodup
  other : ∀ p, p ∉ done → s.get (.link p) = (a.pages p).ppLink
  ref : ∀ p, (s.pages p).ppRef = (a.pages p).ppRef

theorem Sorting.turn {pp : Nat} (h : Sorting a done (pp :: rest) s) : Sorting a (done ++ [pp]) rest (s.turn pp) := by
  have hnodup := h.nodup
  have hdone := (List.nodup_append.1 hnodup).1
  have hget : (s.turn pp).get = Function.update s.get (s.tp (pagetype pp)) (some pp) := get_store _ _ _
  constructor
  · have htp : (s.turn pp).tp = Function.update s.tp (pagetype pp) (.link pp) := by
      show Function.update (s.store (s.tp (pagetype pp)) (some pp)).tp _ _ = _
      rw [store_tp]
    rw [hget, htp]
    exact h.threaded.push hdone pp
  · rw [List.append_assoc]
    exact hnodup
  · intro p hp
    have hp : p ∉ done := fun hin => hp (List.mem_append_left _ hin)
    rw [hget, h.threaded.store_other hp]
    exact h.other p hp
  · intro p
    exact (store_ref _ _ _ p).trans (h.ref p)

theorem Sorting.loop (h : Sorting a done rest s) {head : Option Nat} (hc : Chain (fun p => (a.pages p).ppLink) head rest)
    (hlim : rest.length < lim) : ∃ s', reorderLoop lim head s = some s' ∧ Sorting a (done ++ rest) [] s' := by
  induction rest generalizing done s head lim with
  | nil =>
    cases hc
    obtain ⟨lim, rfl⟩ : ∃ k, lim = k + 1 := ⟨lim - 1, by omega⟩
    rw [List.append_nil]
    exact ⟨s, rfl, h⟩
  | cons pp rest ih =>
    obtain ⟨rfl, hc⟩ := hc
    obtain ⟨lim, rfl⟩ : ∃ k, lim = k + 1 := ⟨lim - 1, by omega⟩
    have hpp : pp ∉ done := fun hin => (List.nodup_append.1 h.nodup).2.2 pp hin pp (List.mem_cons_self ..) rfl
    -- the store of this turn is to a link of a page that has been passed, or to a head
    have hnext : ((s.turn pp).pages pp).ppLink = (a.pages pp).ppLink := by
      have hget : (s.turn pp).get (.link pp) = s.get (.link pp) := by
        show (s.store (s.tp (pagetype pp)) (some pp)).get (.link pp) = _
        rw [get_store, h.threaded.store_other hpp]
      exact hget.trans (h.other pp hpp)
    rw [List.length_cons] at hlim
    obtain ⟨s', hrun, hs'⟩ := ih h.turn hc (Nat.lt_of_succ_lt_succ hlim)
    refine ⟨s', ?_, ?_⟩
    · rw [← hrun]
      dsimp only
      rw [← hnext]
      rfl
    · rwa [List.append_assoc] at hs'

/-! ## The reordered list -/

/-- The pages of the first page table first, and the others behind them, each in their order. -/
def lowFirst (l : List Nat) : List Nat :=
  l.filter (fun p => (pdx (page2pa p)).val = 0) ++ l.filter fun p => (pdx (page2pa p)).val ≠ 0

theorem lowFirst_eq (l : List Nat) : lowFirst l = l.filter (pagetype · = false) ++ l.filter (pagetype · = true) := by
  unfold lowFirst
  congr 1 <;> refine List.filter_congr fun p _ => ?_ <;> unfold pagetype <;>
    simp only [decide_eq_false_iff_not, decide_eq_true_eq, decide_eq_decide] <;> omega

theorem lowFirst_perm (l : List Nat) : (lowFirst l).Perm l := by
  simpa only [lowFirst, decide_not] using List.filter_append_perm (fun p => decide ((pdx (page2pa p)).val = 0)) l

theorem reorder_partition (hc : Chain (fun p => (a.pages p).ppLink) a.pageFreeList l) (pp1 pp2 : Option Nat)
    (hlim : l.length < lim) : ∃ a', a.reorder lim pp1 pp2 = some a' ∧
      Chain (fun p => (a'.pages p).ppLink) a'.pageFreeList (lowFirst l) ∧
      (∀ p, (a'.pages p).ppRef = (a.pages p).ppRef) ∧ ∀ p, p ∉ l → (a'.pages p).ppLink = (a.pages p).ppLink := by
  have hstart : Sorting a [] l ⟨a.pages, pp1, pp2, .head⟩ :=
    ⟨threaded_nil _ _, by simpa using hc.nodup, fun _ _ => rfl, fun _ => rfl⟩
  obtain ⟨s, hrun, hs⟩ := hstart.loop hc hlim
  rw [List.nil_append] at hs
  have hl := hc.nodup
  refine ⟨_, by unfold PageArray.reorder; rw [hrun]; rfl, ?_, ?_, ?_⟩
  · have hjoin := hs.threaded.join hl (show true ≠ false by decide)
    dsimp only at hjoin
    rw [← lowFirst_eq, ← get_store, ← get_store, show s.tp false = (s.store (s.tp true) none).tp false by rw [store_tp]] at hjoin
    exact hjoin
  · intro p
    exact (store_ref _ _ _ p).trans ((store_ref _ _ _ p).trans (hs.ref p))
  · intro p hp
    have hended := hs.threaded.store hl true none
    rw [← get_store] at hended
    have h₁ := hs.threaded.store_other hp true none
    have h₂ := hended.store_other hp false (s.store (s.tp true) none).pp2
    rw [← get_store] at h₁ h₂
    rw [show s.tp false = (s.store (s.tp true) none).tp false by rw [store_tp]] at h₂
    exact h₂.trans (h₁.trans (hs.other p hp))

/-- A list that is not empty is put in order. -/
theorem checkPageFreeList_run {a : PageArray} {l : List Nat} (pp1 pp2 : Option Nat) {lim : Nat}
    (hc : Chain (fun p => (a.pages p).ppLink) a.pageFreeList l) (hlim : l.length < lim) (hne : l ≠ []) :
    ∃ a', checkPageFreeList lim true pp1 pp2 a = some (false, a') ∧
      Chain (fun p => (a'.pages p).ppLink) a'.pageFreeList (lowFirst l) ∧
      (∀ p, (a'.pages p).ppRef = (a.pages p).ppRef) ∧ ∀ p, p ∉ l → (a'.pages p).ppLink = (a.pages p).ppLink := by
  obtain ⟨p, l, rfl⟩ := List.exists_cons_of_ne_nil hne
  obtain ⟨a', hrun, hchain, href, hother⟩ := reorder_partition hc pp1 pp2 hlim
  refine ⟨a', ?_, hchain, href, hother⟩
  unfold checkPageFreeList
  rw [if_neg (by rw [hc.1]; simp), if_pos rfl, hrun]
  rfl

/-- The call leaves a stable partition of the list, in which each page is once. An empty list makes it panic. -/
theorem checkPageFreeList_partition (a : PageArray) (l : List Nat) (pp1 pp2 : Option Nat) (lim : Nat)
    (hc : Chain (fun p => (a.pages p).ppLink) a.pageFreeList l) (hlim : l.length < lim) :
    ∃ panics a', checkPageFreeList lim true pp1 pp2 a = some (panics, a') ∧ (panics = true ↔ l = []) ∧
      Chain (fun p => (a'.pages p).ppLink) a'.pageFreeList (lowFirst l) ∧
      (lowFirst l).Perm l ∧ (lowFirst l).Nodup ∧ (∀ p, (a'.pages p).ppRef = (a.pages p).ppRef) ∧
      ∀ p, p ∉ l → (a'.pages p).ppLink = (a.pages p).ppLink := by
  have hperm := lowFirst_perm l
  by_cases hnil : l = []
  · subst hnil
    unfold checkPageFreeList
    rw [if_pos (show a.pageFreeList = none from hc)]
    exact ⟨true, a, rfl, by simp, hc, hperm, List.nodup_nil, fun _ => rfl, fun _ _ => rfl⟩
  · obtain ⟨a', hrun, hchain, href, hother⟩ := checkPageFreeList_run pp1 pp2 hc hlim hnil
    exact ⟨false, a', hrun, by simp [hnil], hchain, hperm, (hperm.nodup_iff).2 hc.nodup, href, hother⟩

/-- Three pages, of which only the middle one is mapped by `entry_pgdir`. -/
def mixedList : PageArray where
  pages p := { ppLink := if p = 0x500 then some 1 else if p = 1 then some 0x600 else none }
  pageFreeList := some 0x500

theorem checkPageFreeList_partition_mixed : ∃ panics a', checkPageFreeList 4 true (some 7) none mixedList = some (panics, a') ∧
    Chain (fun p => (a'.pages p).ppLink) a'.pageFreeList [1, 0x500, 0x600] := by
  obtain ⟨panics, a', hrun, -, hchain, -⟩ := checkPageFreeList_partition mixedList [0x500, 1, 0x600] (some 7) none 4
    ⟨rfl, rfl, rfl, rfl⟩ (by decide)
  exact ⟨panics, a', hrun, hchain⟩

end Jos
