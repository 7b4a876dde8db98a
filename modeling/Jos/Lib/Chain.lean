/-
Singly linked lists threaded through a table: `next` gives the successor of each cell and `head`
the first cell. `Chain next head l` says that following the links from `head` visits exactly the
cells of `l` and then ends. Popping the head and pushing an unlinked cell keep a chain.
-/
import Mathlib.Logic.Function.Basic
import Mathlib.Data.List.Nodup
import Mathlib.Tactic

namespace Jos.Lib

variable {α : Type*}

/-- Following `next` from `head` visits exactly `l` and ends. -/
def Chain (next : α → Option α) : Option α → List α → Prop
  | head, [] => head = none
  | head, x :: l => head = some x ∧ Chain next (next x) l

variable {next : α → Option α} {head : Option α} {l : List α}

theorem Chain.none_iff : Chain next none l ↔ l = [] := by
  cases l <;> simp [Chain]

theorem Chain.some_iff {x : α} : Chain next (some x) l ↔ ∃ l', l = x :: l' ∧ Chain next (next x) l' := by
  cases l with
  | nil => simp [Chain]
  | cons y l' =>
    constructor
    · rintro ⟨h, h'⟩
      cases h
      exact ⟨l', rfl, h'⟩
    · rintro ⟨_, h, h'⟩
      cases h
      exact ⟨rfl, h'⟩

/-- The links determine the list. -/
theorem Chain.unique : ∀ {head : Option α} {l l' : List α}, Chain next head l → Chain next head l' → l = l'
  | _, [], l', h, h' => by
    cases h
    exact (Chain.none_iff.1 h').symm
  | _, x :: l, l', ⟨h, ht⟩, h' => by
    cases h
    obtain ⟨m, rfl, hm⟩ := Chain.some_iff.1 h'
    rw [Chain.unique ht hm]

theorem Chain.drop {x : α} : ∀ {head : Option α} {l : List α}, Chain next head l → x ∈ l →
    ∃ l', Chain next (some x) (x :: l') ∧ l'.length < l.length
  | _, y :: l, ⟨h, ht⟩, hx => by
    rcases List.mem_cons.1 hx with rfl | hx
    · exact ⟨l, ⟨rfl, ht⟩, Nat.lt_succ_self _⟩
    · obtain ⟨l', hc, hlt⟩ := Chain.drop ht hx
      exact ⟨l', hc, hlt.trans (Nat.lt_succ_self _)⟩

/-- A list that ends does not come to a cell twice. -/
theorem Chain.nodup : ∀ {head : Option α} {l : List α}, Chain next head l → l.Nodup
  | _, [], _ => List.nodup_nil
  | _, x :: l, ⟨h, ht⟩ => by
    refine List.nodup_cons.2 ⟨fun hx => ?_, ht.nodup⟩
    obtain ⟨l', hc, hlt⟩ := Chain.drop ht hx
    rw [Chain.unique hc.2 ht] at hlt
    exact lt_irrefl _ hlt

/-- Links of cells outside the list do not matter. -/
theorem Chain.congr {next' : α → Option α} :
    ∀ {head : Option α} {l : List α}, (∀ x ∈ l, next' x = next x) → Chain next head l → Chain next' head l
  | _, [], _, h => h
  | _, x :: l, hn, ⟨h, ht⟩ => by
    refine ⟨h, ?_⟩
    rw [hn x (List.mem_cons_self ..)]
    exact Chain.congr (fun y hy => hn y (List.mem_cons_of_mem _ hy)) ht

/-- Linking a cell that is not on the list in front of it. -/
theorem Chain.push [DecidableEq α] {x : α} (h : Chain next head l) (hx : x ∉ l) :
    Chain (Function.update next x head) (some x) (x :: l) := by
  refine ⟨rfl, ?_⟩
  rw [Function.update_self]
  refine Chain.congr (fun y hy => ?_) h
  rw [Function.update_of_ne (ne_of_mem_of_not_mem hy hx)]

/-! ## An array linked up in order -/

theorem drop_finRange {N n : Nat} (h : N - (n + 1) < N) (hn : n < N) :
    (List.finRange N).drop (N - (n + 1)) = ⟨N - (n + 1), h⟩ :: (List.finRange N).drop (N - n) := by
  rw [List.drop_eq_getElem_cons (by simp; omega), List.getElem_finRange]
  congr 2
  omega

theorem chain_drop_finRange {N : Nat} {link : Fin N → Option (Fin N)}
    (hl : ∀ i j : Fin N, j.val = i.val + 1 → link i = some j) (hend : ∀ i : Fin N, i.val + 1 = N → link i = none) (n : Nat)
    (hn : n ≤ N) : ∀ head : Option (Fin N), (∀ i : Fin N, i.val = N - n → head = some i) → (n = 0 → head = none) →
    Chain link head ((List.finRange N).drop (N - n)) := by
  induction n with
  | zero =>
    intro head _ h0
    rw [List.drop_of_length_le (by simp)]
    exact h0 rfl
  | succ n ih =>
    intro head hh _
    have hlt : N - (n + 1) < N := by omega
    rw [drop_finRange hlt hn]
    refine ⟨hh _ rfl, ih (by omega) _ (fun j hj => hl _ j ?_) fun hn0 => hend _ ?_⟩
    · show j.val = N - (n + 1) + 1
      omega
    · show N - (n + 1) + 1 = N
      omega

/-- An array in which each cell is linked to the next one and the last one ends the list: the list
from the first cell is the array. -/
theorem chain_finRange {N : Nat} (f : Fin N → Option (Fin N)) (x : Fin N) (h0 : x.val = 0)
    (hl : ∀ i j : Fin N, j.val = i.val + 1 → f i = some j) (hend : ∀ i : Fin N, i.val + 1 = N → f i = none) :
    Chain f (some x) (List.finRange N) := by
  have h := chain_drop_finRange hl hend N le_rfl (some x) (fun i hi => ?_) fun hN => ?_
  · rwa [Nat.sub_self, List.drop_zero] at h
  · rw [Nat.sub_self] at hi
    rw [show i = x from Fin.ext (hi.trans h0.symm)]
  · have := x.isLt
    omega

end Jos.Lib
