/-
Two-level tables in a memory of frames. Each owner `e` may have a root frame; word `i` of a root,
when `i` is one of the owned indices and the word decodes, points at a node frame; the decodable
words of a node are the leaves of the owner. Roots, nodes and leaves are the pointer cells of the
tables. In separated tables, where no frame is used as a root or node by two cells, every write
the tables allow changes exactly one cell.
-/
import Mathlib.Logic.Function.Basic
import Mathlib.Data.Fintype.Card
import Mathlib.Tactic

namespace Jos.Lib

variable {E F I W : Type*}

/-- A pointer cell of the tables: the root of an owner, a word of its root, or a word of a node. -/
inductive Cell (E I : Type*) where
  | root (e : E)
  | node (e : E) (i : I)
  | leaf (e : E) (i j : I)
  deriving DecidableEq, Fintype

section Tables

variable (dec : W → Option F) (own : I → Prop) [DecidablePred own]

/-- The node frame that word `i` of the root of `e` points at. -/
def node (root : E → Option F) (mem : F → I → W) (e : E) (i : I) : Option F :=
  (root e).bind fun d => if own i then dec (mem d i) else none

/-- The leaf word `j` of node `i` of `e`, when it decodes. -/
def leaf (root : E → Option F) (mem : F → I → W) (e : E) (i j : I) : Option W :=
  (node dec own root mem e i).bind fun n => if (dec (mem n j)).isSome then some (mem n j) else none

/-- What a cell points at. -/
def target (root : E → Option F) (mem : F → I → W) : Cell E I → Option F
  | .root e => root e
  | .node e i => node dec own root mem e i
  | .leaf e i j => (leaf dec own root mem e i j).bind dec

/-- A frame in use as a root or a node. -/
def Structural (root : E → Option F) (mem : F → I → W) (f : F) : Prop :=
  (∃ e, root e = some f) ∨ ∃ e i, node dec own root mem e i = some f

/-- No frame is a root or a node through two cells. -/
structure Separate (root : E → Option F) (mem : F → I → W) : Prop where
  roots : ∀ e e' f, root e = some f → root e' = some f → e' = e
  nodes : ∀ e i e' i' f, node dec own root mem e i = some f → node dec own root mem e' i' = some f →
    e' = e ∧ i' = i
  apart : ∀ e e' i f, root e = some f → node dec own root mem e' i = some f → False

variable {dec own}
variable {root : E → Option F} {mem : F → I → W}

theorem node_eq_some {e : E} {i : I} {n : F} :
    node dec own root mem e i = some n ↔ ∃ d, root e = some d ∧ own i ∧ dec (mem d i) = some n := by
  unfold node
  rw [Option.bind_eq_some_iff]
  constructor
  · rintro ⟨d, hd, h⟩
    split at h
    · exact ⟨d, hd, ‹_›, h⟩
    · cases h
  · rintro ⟨d, hd, ho, h⟩
    exact ⟨d, hd, by rw [if_pos ho]; exact h⟩

theorem node_of_root {e : E} {d : F} (hd : root e = some d) {i : I} (hi : own i) :
    node dec own root mem e i = dec (mem d i) := by
  unfold node; rw [hd, Option.bind_some, if_pos hi]

theorem node_of_no_root {e : E} (hd : root e = none) (i : I) : node dec own root mem e i = none := by
  unfold node; rw [hd]; rfl

theorem leaf_of_node {e : E} {i : I} {n : F} (hn : node dec own root mem e i = some n) (j : I) :
    leaf dec own root mem e i j = if (dec (mem n j)).isSome then some (mem n j) else none := by
  unfold leaf; rw [hn]; rfl

theorem leaf_of_no_node {e : E} {i : I} (hn : node dec own root mem e i = none) (j : I) :
    leaf dec own root mem e i j = none := by
  unfold leaf; rw [hn]; rfl

theorem leaf_eq_some {e : E} {i j : I} {w : W} :
    leaf dec own root mem e i j = some w ↔
      ∃ n, node dec own root mem e i = some n ∧ mem n j = w ∧ (dec w).isSome = true := by
  unfold leaf
  rw [Option.bind_eq_some_iff]
  constructor
  · rintro ⟨n, hn, h⟩
    split at h
    · cases h; exact ⟨n, hn, rfl, ‹_›⟩
    · cases h
  · rintro ⟨n, hn, rfl, h⟩
    exact ⟨n, hn, by rw [if_pos h]⟩

/-- Separation speaks about roots and nodes only. -/
theorem Separate.congr {mem' : F → I → W} (hs : Separate dec own root mem)
    (hn : ∀ e i, node dec own root mem' e i = node dec own root mem e i) : Separate dec own root mem' where
  roots := hs.roots
  nodes e i e' i' f := by rw [hn, hn]; exact hs.nodes e i e' i' f
  apart e e' i f := by rw [hn]; exact hs.apart e e' i f

/-! ## Frames that are not written -/

/-- The nodes of an owner depend only on its root frame. -/
theorem node_congr {mem' : F → I → W} {e : E} (h : ∀ d, root e = some d → ∀ i, own i → mem' d i = mem d i) (i : I) :
    node dec own root mem' e i = node dec own root mem e i := by
  unfold node
  cases hd : root e with
  | none => rfl
  | some d =>
    rw [Option.bind_some, Option.bind_some]
    split
    · rename_i hi; rw [h d hd i hi]
    · rfl

/-- The leaves of an owner depend only on its root and node frames. -/
theorem leaf_congr {mem' : F → I → W} {e : E} (h : ∀ d, root e = some d → ∀ i, own i → mem' d i = mem d i)
    (hn : ∀ i n, node dec own root mem e i = some n → mem' n = mem n) (i j : I) :
    leaf dec own root mem' e i j = leaf dec own root mem e i j := by
  unfold leaf
  rw [node_congr h]
  cases hi : node dec own root mem e i with
  | none => rfl
  | some n => rw [Option.bind_some, Option.bind_some, hn i n hi]

section Writes

variable [DecidableEq F]

/-- Writing a frame that is neither a root nor a node changes no cell. -/
theorem node_write_other {f : F} {p : I → W} (hf : ¬ Structural dec own root mem f) (e : E) (i : I) :
    node dec own root (Function.update mem f p) e i = node dec own root mem e i := by
  apply node_congr
  intro d hd i _
  have hne : d ≠ f := by rintro rfl; exact hf (Or.inl ⟨e, hd⟩)
  rw [Function.update_of_ne hne]

theorem leaf_write_other {f : F} {p : I → W} (hf : ¬ Structural dec own root mem f) (e : E) (i j : I) :
    leaf dec own root (Function.update mem f p) e i j = leaf dec own root mem e i j := by
  apply leaf_congr
  · intro d hd i _
    have hne : d ≠ f := by rintro rfl; exact hf (Or.inl ⟨e, hd⟩)
    rw [Function.update_of_ne hne]
  · intro i n hn
    have hne : n ≠ f := by rintro rfl; exact hf (Or.inr ⟨e, i, hn⟩)
    rw [Function.update_of_ne hne]

/-! ## Writing a word of a node -/

theorem node_write_leaf (hs : Separate dec own root mem) {e : E} {i : I} {n : F}
    (hn : node dec own root mem e i = some n) (p : I → W) (e' : E) (i' : I) :
    node dec own root (Function.update mem n p) e' i' = node dec own root mem e' i' := by
  apply node_congr
  intro d hd i' _
  have hne : d ≠ n := by rintro rfl; exact hs.apart e' e i d hd hn
  rw [Function.update_of_ne hne]

/-- Writing word `j` of node `i` of `e` changes that leaf only. -/
theorem leaf_write_leaf [DecidableEq E] [DecidableEq I] (hs : Separate dec own root mem) {e : E} {i j : I} {n : F}
    (hn : node dec own root mem e i = some n) (w : W) (e' : E) (i' j' : I) :
    leaf dec own root (Function.update mem n (Function.update (mem n) j w)) e' i' j' =
      if e' = e ∧ i' = i ∧ j' = j then (if (dec w).isSome then some w else none)
      else leaf dec own root mem e' i' j' := by
  have hnode := node_write_leaf hs hn (Function.update (mem n) j w) e' i'
  by_cases hei : e' = e ∧ i' = i
  · obtain ⟨rfl, rfl⟩ := hei
    rw [leaf_of_node (hnode.trans hn), leaf_of_node hn, Function.update_self]
    by_cases hj : j' = j
    · subst hj; simp
    · simp [hj]
  · rw [if_neg (fun h => hei ⟨h.1, h.2.1⟩)]
    unfold leaf
    rw [hnode]
    cases hm : node dec own root mem e' i' with
    | none => rfl
    | some m =>
      have hne : m ≠ n := by rintro rfl; exact hei (hs.nodes e i e' i' m hn hm)
      rw [Option.bind_some, Option.bind_some, Function.update_of_ne hne]

/-! ## Writing a word of a root -/

/-- Writing word `i` of the root of `e` changes that node only. -/
theorem node_write_node [DecidableEq E] [DecidableEq I] (hs : Separate dec own root mem) {e : E} {i : I} {d : F}
    (hd : root e = some d) (hi : own i) (w : W) (e' : E) (i' : I) :
    node dec own root (Function.update mem d (Function.update (mem d) i w)) e' i' =
      if e' = e ∧ i' = i then dec w else node dec own root mem e' i' := by
  by_cases he : e' = e
  · subst he
    by_cases hii : i' = i
    · subst hii
      rw [if_pos ⟨rfl, rfl⟩, node_of_root hd hi]; simp
    · rw [if_neg (fun h => hii h.2)]
      unfold node
      rw [hd, Option.bind_some, Option.bind_some, Function.update_self, Function.update_of_ne hii]
  · rw [if_neg (fun h => he h.1)]
    apply node_congr
    intro d' hd' i' _
    have hne : d' ≠ d := by rintro rfl; exact he (hs.roots e e' d' hd hd')
    rw [Function.update_of_ne hne]

/-- A node without leaves may be hung up or taken down: no leaf changes. -/
theorem leaf_write_node [DecidableEq E] [DecidableEq I] (hs : Separate dec own root mem) {e : E} {i : I} {d : F}
    (hd : root e = some d) (hi : own i) {w : W} (hold : ∀ j, leaf dec own root mem e i j = none)
    (hnew : ∀ n, dec w = some n → n ≠ d ∧ ∀ j, dec (mem n j) = none) (e' : E) (i' j' : I) :
    leaf dec own root (Function.update mem d (Function.update (mem d) i w)) e' i' j' =
      leaf dec own root mem e' i' j' := by
  have hnode := node_write_node hs hd hi w e' i'
  by_cases hei : e' = e ∧ i' = i
  · obtain ⟨rfl, rfl⟩ := hei
    rw [if_pos ⟨rfl, rfl⟩] at hnode
    rw [hold]
    cases hw : dec w with
    | none => exact leaf_of_no_node (hnode.trans hw) j'
    | some n =>
      obtain ⟨hne, hz⟩ := hnew n hw
      rw [leaf_of_node (hnode.trans hw), Function.update_of_ne hne, hz]; rfl
  · rw [if_neg hei] at hnode
    unfold leaf
    rw [hnode]
    cases hm : node dec own root mem e' i' with
    | none => rfl
    | some m =>
      have hne : m ≠ d := by rintro rfl; exact hs.apart e e' i' m hd hm
      rw [Option.bind_some, Option.bind_some, Function.update_of_ne hne]

end Writes

/-! ## Changing a root -/

/-- A root without nodes may be given to an owner or taken from it: no node changes. -/
theorem node_change_root [DecidableEq E] {e : E} {x : Option F} (hold : ∀ i, node dec own root mem e i = none)
    (hnew : ∀ d, x = some d → ∀ i, own i → dec (mem d i) = none) (e' : E) (i : I) :
    node dec own (Function.update root e x) mem e' i = node dec own root mem e' i := by
  by_cases he : e' = e
  · subst he
    rw [hold]
    unfold node
    rw [Function.update_self]
    cases x with
    | none => rfl
    | some d =>
      rw [Option.bind_some]
      split
      · rename_i hi; exact hnew d rfl i hi
      · rfl
  · unfold node
    rw [Function.update_of_ne he]

theorem leaf_change_root [DecidableEq E] {e : E} {x : Option F} (hold : ∀ i, node dec own root mem e i = none)
    (hnew : ∀ d, x = some d → ∀ i, own i → dec (mem d i) = none) (e' : E) (i j : I) :
    leaf dec own (Function.update root e x) mem e' i j = leaf dec own root mem e' i j := by
  unfold leaf
  rw [node_change_root hold hnew]

end Tables

end Jos.Lib
