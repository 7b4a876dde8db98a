/-
Lists that grow at the tail through a pointer to the last link, which is the link of the last cell, or the head of the
list while it is empty. The cells of several lists, one for each class, are linked through one table.
-/
import Jos.Lib.Chain

namespace Jos.Lib

universe u v

/-- A place that holds a link: the head of a list, or the link of a cell. -/
inductive Place (ι : Type u) (α : Type v) where
  | head (i : ι)
  | link (x : α)
  deriving DecidableEq

variable {ι : Type u} {α : Type v} {get get' : Place ι α → Option α} {p q : Place ι α} {l t : List α} {x : α}

/-- From the place `p` the links lead over the cells of `l`, and `q` is the place behind them. -/
def Leads (get : Place ι α → Option α) : Place ι α → List α → Place ι α → Prop
  | p, [], q => q = p
  | p, x :: l, q => get p = some x ∧ Leads get (.link x) l q

theorem Leads.last : ∀ {p : Place ι α} {l : List α}, Leads get p l q → q = p ∨ ∃ x ∈ l, q = .link x
  | _, [], h => Or.inl h
  | _, x :: l, ⟨_, h⟩ => by
    rcases h.last with h | ⟨y, hy, h⟩
    · exact Or.inr ⟨x, List.mem_cons_self .., h⟩
    · exact Or.inr ⟨y, List.mem_cons_of_mem _ hy, h⟩

theorem Leads.append : ∀ {p : Place ι α} {l : List α}, Leads get p l q → get q = some x → Leads get p (l ++ [x]) (.link x)
  | _, [], h, hx => by
    cases h
    exact ⟨hx, rfl⟩
  | _, _ :: _, ⟨hy, h⟩, hx => ⟨hy, h.append hx⟩

/-- The links before `q` are all that matters. -/
theorem Leads.congr : ∀ {p : Place ι α} {l : List α}, Leads get p l q → l.Nodup → (∀ x ∈ l, p ≠ .link x) →
    (∀ r, (r = p ∨ ∃ x ∈ l, r = .link x) → r ≠ q → get' r = get r) → Leads get' p l q
  | _, [], h, _, _, _ => h
  | p, x :: l, ⟨hx, h⟩, hl, hp, hget => by
    obtain ⟨hxl, hl⟩ := List.nodup_cons.1 hl
    have hpq : p ≠ q := by
      rintro rfl
      rcases h.last with h | ⟨y, hy, h⟩
      · exact hp x (List.mem_cons_self ..) h
      · exact hp y (List.mem_cons_of_mem _ hy) h
    refine ⟨(hget p (Or.inl rfl) hpq).trans hx, h.congr hl ?_ ?_⟩
    · rintro y hy heq
      cases heq
      exact hxl hy
    · rintro r (rfl | ⟨y, hy, rfl⟩) hr
      · exact hget _ (Or.inr ⟨x, List.mem_cons_self .., rfl⟩) hr
      · exact hget _ (Or.inr ⟨y, List.mem_cons_of_mem _ hy, rfl⟩) hr

/-- The list goes on with the one that begins behind it. -/
theorem Leads.chain : ∀ {p : Place ι α} {l : List α}, Leads get p l q → Chain (fun x => get (.link x)) (get q) t →
    Chain (fun x => get (.link x)) (get p) (l ++ t)
  | _, [], h, ht => by
    cases h
    exact ht
  | _, _ :: _, ⟨hx, h⟩, ht => ⟨hx, h.chain ht⟩

/-! ## One list for each class -/

variable [DecidableEq ι] {cls : α → ι} {tp : ι → Place ι α} {done : List α} {i j : ι}

/-- The cells of each class among `done` are linked in their order, and `tp` points behind the last of them. -/
def Threaded (cls : α → ι) (get : Place ι α → Option α) (tp : ι → Place ι α) (done : List α) : Prop :=
  ∀ i, Leads get (.head i) (done.filter (cls · = i)) (tp i)

theorem threaded_nil (cls : α → ι) (get : Place ι α → Option α) : Threaded cls get .head [] := fun _ => rfl

theorem Threaded.tail (h : Threaded cls get tp done) (i : ι) : tp i = .head i ∨ ∃ x ∈ done, cls x = i ∧ tp i = .link x := by
  refine (h i).last.imp_right ?_
  rintro ⟨x, hx, h⟩
  obtain ⟨hx, hc⟩ := List.mem_filter.1 hx
  exact ⟨x, hx, of_decide_eq_true hc, h⟩

theorem Threaded.tail_ne (h : Threaded cls get tp done) (hij : i ≠ j) : tp i ≠ tp j := by
  intro heq
  rcases h.tail i with hi | ⟨x, -, hx, hi⟩ <;> rcases h.tail j with hj | ⟨y, -, hy, hj⟩ <;> rw [hi, hj] at heq <;> cases heq
  · exact hij rfl
  · exact hij (hx.symm.trans hy)

variable [DecidableEq α]

/-- A store through one of the pointers. -/
theorem Threaded.store (h : Threaded cls get tp done) (hd : done.Nodup) (i : ι) (v : Option α) :
    Threaded cls (Function.update get (tp i) v) tp done := by
  intro j
  refine (h j).congr (hd.filter _) (fun _ _ => by rintro ⟨⟩) fun r hr hne => Function.update_of_ne ?_ _ _
  by_cases hij : i = j
  · rw [hij]
    exact hne
  · -- the places of class `j` are not those of class `i`
    rintro rfl
    rcases h.tail i with hi | ⟨x, -, hx, hi⟩ <;> rw [hi] at hr <;> rcases hr with hr | ⟨y, hy, hr⟩ <;> cases hr
    · exact hij rfl
    · exact hij (hx.symm.trans (of_decide_eq_true (List.mem_filter.1 hy).2))

/-- A store through one of the pointers leaves the links of other cells. -/
theorem Threaded.store_other (h : Threaded cls get tp done) (hx : x ∉ done) (i : ι) (v : Option α) :
    Function.update get (tp i) v (.link x) = get (.link x) := by
  refine Function.update_of_ne ?_ _ _
  rcases h.tail i with hi | ⟨y, hy, -, hi⟩ <;> rw [hi] <;> rintro heq <;> cases heq
  exact hx hy

/-- Linking a cell behind the last one of its class. -/
theorem Threaded.push (h : Threaded cls get tp done) (hd : done.Nodup) (x : α) :
    Threaded cls (Function.update get (tp (cls x)) (some x)) (Function.update tp (cls x) (.link x)) (done ++ [x]) := by
  intro i
  have hs := h.store hd (cls x) (some x) i
  rw [List.filter_append]
  by_cases hi : cls x = i
  · subst hi
    rw [Function.update_self, List.filter_singleton, decide_eq_true rfl]
    exact hs.append (Function.update_self ..)
  · rw [Function.update_of_ne (Ne.symm hi), List.filter_singleton, decide_eq_false hi]
    simpa using hs

/-- The list of class `i` is ended, and the one of class `j` goes on with it. -/
theorem Threaded.join (h : Threaded cls get tp done) (hd : done.Nodup) (hij : i ≠ j) :
    let ended := Function.update get (tp i) none
    let joined := Function.update ended (tp j) (ended (.head i))
    Chain (fun x => joined (.link x)) (joined (.head j)) (done.filter (cls · = j) ++ done.filter (cls · = i)) := by
  intro ended joined
  have hended := h.store hd i none
  have hjoined := hended.store hd j (ended (.head i))
  refine (hjoined j).chain ?_
  have hhead : ended (.head i) = joined (.head i) := by
    refine (Function.update_of_ne ?_ _ _).symm
    rcases h.tail j with hj | ⟨x, -, -, hj⟩ <;> rw [hj] <;> rintro heq <;> cases heq
    exact hij rfl
  have hnone : joined (tp i) = none := (Function.update_of_ne (h.tail_ne hij) _ _).trans (Function.update_self ..)
  have hchain := (hjoined i).chain (t := []) hnone
  rw [List.append_nil] at hchain
  show Chain _ (joined (tp j)) _
  rw [show joined (tp j) = joined (.head i) from (Function.update_self ..).trans hhead]
  exact hchain

end Jos.Lib
