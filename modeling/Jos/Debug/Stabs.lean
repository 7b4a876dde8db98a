/-
`stab_binsearch` of kern/kdebug.c: a binary search for the stab that contains an address, among the
entries of one type. It finds the stab unless no entry begins at or below the address although there
are entries, or an entry begins at the address and the increment of the key makes the next one match.
-/
import Jos.Mmu.Word
import Mathlib.Tactic

namespace Jos

/-! ## The search -/

/-- `struct Stab`, as far as the search reads it. -/
structure Stab where
  nType : BitVec 8
  nValue : Word

/-- The entry has the type that is searched for. -/
def Stab.Is (s : Stab) (type : Int) : Prop := (s.nType.toNat : Int) = type

instance (s : Stab) (type : Int) : Decidable (s.Is type) := inferInstanceAs (Decidable (_ = _))

section Search

variable (stabs : Int → Stab) (type : Int)

/-- `while (m > lo && stabs[m].n_type != type) m--`. -/
def scan (lo m : Int) : Int :=
  if lo < m ∧ ¬ (stabs m).Is type then scan lo (m - 1) else m
termination_by (m - lo).toNat

/-- The variables of `stab_binsearch`; `left` and `right` are what `region_left` and `region_right` point to. -/
structure Search where
  l : Int
  r : Int
  anyMatches : Bool
  left : Int
  right : Int
  addr : Word

theorem scan_le (lo m : Int) : scan stabs type lo m ≤ m := by
  fun_induction scan stabs type lo m with
  | case1 m h ih => omega
  | case2 m h => omega

theorem scan_ge {lo m : Int} (h : lo ≤ m) : lo ≤ scan stabs type lo m := by
  fun_induction scan stabs type lo m with
  | case1 m h' ih => exact ih (by omega)
  | case2 m h' => exact h

/-- The outer loop. -/
def stabLoop (s : Search) : Search :=
  if s.l ≤ s.r then
    let trueM := (s.l + s.r) / 2
    let m := scan stabs type (s.l - 1) trueM
    if m < s.l then
      stabLoop { s with l := trueM + 1 }
    else if (stabs m).nValue < s.addr then
      stabLoop { s with anyMatches := true, left := m, l := trueM + 1 }
    else if (stabs m).nValue > s.addr then
      stabLoop { s with anyMatches := true, right := m - 1, r := m - 1 }
    else
      stabLoop { s with anyMatches := true, left := m, l := m, addr := s.addr + 1#32 }
  else s
termination_by 2 * (s.r + 1 - s.l).toNat + (if (stabs s.l).nValue = s.addr then 1 else 0)
decreasing_by
  · split <;> split <;> omega
  · split <;> split <;> omega
  · have hle := scan_le stabs type (s.l - 1) ((s.l + s.r) / 2)
    show 2 * (scan stabs type (s.l - 1) ((s.l + s.r) / 2) - 1 + 1 - s.l).toNat + _ < _
    omega
  · -- an entry that has matched does not match again
    rename_i hnot hlt hgt
    have heq : (stabs m).nValue = s.addr := BitVec.le_antisymm (BitVec.not_lt.1 hgt) (BitVec.not_lt.1 hlt)
    show 2 * (s.r + 1 - m).toNat + (if (stabs m).nValue = s.addr + 1#32 then 1 else 0) < _
    have hne : (stabs m).nValue ≠ s.addr + 1#32 := by rw [heq]; bv_omega
    rw [if_neg hne]
    by_cases hml : m = s.l
    · rw [← hml, if_pos heq]
      omega
    · split <;> omega

/-- `stab_binsearch`: what it leaves in `*region_left` and `*region_right`. -/
def stabBinsearch (regionLeft regionRight : Int) (addr : Word) : Int × Int :=
  let s := stabLoop stabs type ⟨regionLeft, regionRight, false, regionLeft, regionRight, addr⟩
  if s.anyMatches then (scan stabs type s.left s.right, s.right) else (s.left, s.left - 1)

end Search

/-! ## What is asked for -/

section Spec

variable (stabs : Int → Stab) (type : Int) (L R : Int) (addr : Word)

/-- An entry of the type in `[L, R]`. -/
def Entry (i : Int) : Prop := L ≤ i ∧ i ≤ R ∧ (stabs i).Is type

/-- The entries of the type are in order of their addresses. -/
def Increasing : Prop := ∀ i j, Entry stabs type L R i → Entry stabs type L R j → i < j → (stabs i).nValue < (stabs j).nValue

/-- `k` is the last entry that begins at or below the address. -/
def IsLast (k : Int) : Prop :=
  Entry stabs type L R k ∧ (stabs k).nValue ≤ addr ∧ ∀ i, Entry stabs type L R i → k < i → addr < (stabs i).nValue

/-- `n` is the entry after `k`. -/
def IsNext (k n : Int) : Prop := Entry stabs type L R n ∧ k < n ∧ ∀ i, Entry stabs type L R i → k < i → n ≤ i

/-- The search ends as the comment says. -/
def Finds (res : Int × Int) : Prop :=
  (∀ k, IsLast stabs type L R addr k → res.1 = k ∧
    ((∃ n, IsNext stabs type L R k n ∧ res.2 = n - 1) ∨ ((∀ i, Entry stabs type L R i → i ≤ k) ∧ res.2 = R))) ∧
  ((∀ k, ¬ IsLast stabs type L R addr k) → res.2 < res.1)

/-- The bisection of `[l, r]` comes to `k` before it comes to `n`. -/
def Meets (k n l r : Int) : Prop :=
  if l ≤ r then
    let trueM := (l + r) / 2
    if trueM < k then Meets k n (trueM + 1) r
    else if trueM < n then True
    else
      let m := scan stabs type (l - 1) trueM
      if m = n then False else Meets k n l (m - 1)
  else False
termination_by (r + 1 - l).toNat
decreasing_by
  · omega
  · have hle := scan_le stabs type (l - 1) ((l + r) / 2)
    omega

/-- The increment of the key makes the search lose `k`: it wraps around, or it reaches the next entry,
which the search has not come to yet. If the key wraps around at that entry, right after `k`, the two
slips make up for each other. -/
def Slips (k : Int) : Prop :=
  (stabs k).nValue = addr ∧ (addr = 0xffffffff#32 ∨ ∃ n, IsNext stabs type L R k n ∧ (stabs n).nValue = addr + 1#32 ∧
    Meets stabs type k n L R ∧ ¬ (addr + 1#32 = 0xffffffff#32 ∧ n = k + 1))

end Spec

variable {stabs : Int → Stab} {type : Int} {L R k n i : Int} {addr : Word} {s : Search}

/-! ## Scanning down -/

theorem scan_spec (stabs : Int → Stab) (type : Int) {lo m : Int} (h : lo ≤ m) :
    (scan stabs type lo m = lo ∨ (stabs (scan stabs type lo m)).Is type) ∧
      ∀ i, scan stabs type lo m < i → i ≤ m → ¬ (stabs i).Is type := by
  fun_induction scan stabs type lo m with
  | case1 m h' ih =>
    obtain ⟨hat, hno⟩ := ih (by omega)
    refine ⟨hat, fun i hi him => ?_⟩
    by_cases him' : i = m
    · rw [him']; exact h'.2
    · exact hno i hi (by omega)
  | case2 m h' =>
    refine ⟨?_, fun i hi him => by omega⟩
    by_cases hlt : lo < m
    · exact Or.inr (by by_contra hc; exact h' ⟨hlt, hc⟩)
    · exact Or.inl (by omega)

/-- The entry that an iteration looks at. -/
theorem probe_spec {l t : Int} (h : l ≤ t) (hm : ¬ scan stabs type (l - 1) t < l) :
    (stabs (scan stabs type (l - 1) t)).Is type ∧ scan stabs type (l - 1) t ≤ t ∧
      ∀ i, scan stabs type (l - 1) t < i → i ≤ t → ¬ (stabs i).Is type := by
  obtain ⟨hat, hno⟩ := scan_spec stabs type (show l - 1 ≤ t by omega)
  exact ⟨hat.resolve_left (by omega), scan_le .., hno⟩

theorem scan_eq {lo m : Int} (hlo : lo ≤ k) (hkm : k ≤ m) (hk : (stabs k).Is type)
    (hno : ∀ i, k < i → i ≤ m → ¬ (stabs i).Is type) : scan stabs type lo m = k := by
  obtain ⟨hat, hno'⟩ := scan_spec stabs type (show lo ≤ m by omega)
  have hge := scan_ge stabs type (show lo ≤ m by omega)
  have hle := scan_le stabs type lo m
  by_contra hne
  rcases lt_or_gt_of_ne hne with h | h
  · exact hno' k h hkm hk
  · rcases hat with hat | hat
    · omega
    · exact hno _ h hle hat

/-! ## Whether anything matched -/

theorem any_mono (h : s.anyMatches = true) : (stabLoop stabs type s).anyMatches = true := by
  fun_induction stabLoop stabs type s with
  | case1 s hl t m hm ih => exact ih h
  | case2 s hl t m hm hv ih => exact ih rfl
  | case3 s hl t m hm hv hv' ih => exact ih rfl
  | case4 s hl t m hm hv hv' ih => exact ih rfl
  | case5 s hl => exact h

theorem any_of_entry (hi : (stabs i).Is type) (hl : s.l ≤ i) (hr : i ≤ s.r) : (stabLoop stabs type s).anyMatches = true := by
  fun_induction stabLoop stabs type s with
  | case1 s hlr t m hm ih =>
    refine ih ?_ hr
    by_contra hc
    have hno := (scan_spec stabs type (show s.l - 1 ≤ t by omega)).2
    exact hno i (show m < i by omega) (by simpa using hc) hi
  | case2 => exact any_mono rfl
  | case3 => exact any_mono rfl
  | case4 => exact any_mono rfl
  | case5 s hlr => omega

theorem loop_of_no_entry (h : ∀ i, s.l ≤ i → i ≤ s.r → ¬ (stabs i).Is type) (hany : s.anyMatches = false) :
    (stabLoop stabs type s).anyMatches = false := by
  fun_induction stabLoop stabs type s with
  | case1 s hlr t m hm ih => exact ih (fun i hi => h i (by simp at hi; omega)) hany
  | case2 s hlr t m hm hv ih =>
    obtain ⟨hat, hle, -⟩ := probe_spec (show s.l ≤ t by omega) hm
    exact absurd hat (h m (by omega) (by omega))
  | case3 s hlr t m hm hv hv' ih =>
    obtain ⟨hat, hle, -⟩ := probe_spec (show s.l ≤ t by omega) hm
    exact absurd hat (h m (by omega) (by omega))
  | case4 s hlr t m hm hv hv' ih =>
    obtain ⟨hat, hle, -⟩ := probe_spec (show s.l ≤ t by omega) hm
    exact absurd hat (h m (by omega) (by omega))
  | case5 s hlr => exact hany

/-! ## A key that lies between two entries -/

/-- `k` is the last entry below the key, and the search has not lost it. -/
structure Between (stabs : Int → Stab) (type : Int) (k : Int) (s : Search) : Prop where
  is : (stabs k).Is type
  below : ∀ i, (stabs i).Is type → s.l ≤ i → i ≤ k → (stabs i).nValue < s.addr
  above : ∀ i, (stabs i).Is type → k < i → i ≤ s.r → s.addr < (stabs i).nValue
  passed : ∀ i, (stabs i).Is type → k < i → i ≤ s.r → s.l ≤ i
  left : s.left ≤ k
  r : k ≤ s.r
  right : s.right = s.r
  any : s.anyMatches = true ∨ s.l ≤ k

theorem Between.run (h : Between stabs type k s) :
    (stabLoop stabs type s).anyMatches = true ∧
      scan stabs type (stabLoop stabs type s).left (stabLoop stabs type s).right = k ∧
      k ≤ (stabLoop stabs type s).right ∧ (stabLoop stabs type s).right ≤ s.r ∧
      (∀ i, k < i → i ≤ (stabLoop stabs type s).right → ¬ (stabs i).Is type) ∧
      ((stabLoop stabs type s).right = s.r ∨ (stabs ((stabLoop stabs type s).right + 1)).Is type) := by
  fun_induction stabLoop stabs type s with
  | case1 s hlr t m hm ih =>
    -- no entry of the type in `[l, t]`, so the search goes on in `[t + 1, r]`
    have hno := (scan_spec stabs type (show s.l - 1 ≤ t by omega)).2
    refine ih ⟨h.is, fun i hi hl => h.below i hi (by simp at hl; omega), h.above, fun i hi hk hr => ?_, h.left, h.r, h.right, ?_⟩
    · have hl := h.passed i hi hk hr
      by_contra hc
      exact hno i (show m < i by omega) (by simpa using hc) hi
    · refine h.any.imp_right fun hlk => ?_
      by_contra hc
      exact hno k (show m < k by omega) (by simpa using hc) h.is
  | case2 s hlr t m hm hv ih =>
    obtain ⟨hat, hle, hno⟩ := probe_spec (show s.l ≤ t by omega) hm
    have hmk : m ≤ k := by
      by_contra hc
      exact absurd (h.above m hat (by omega) (by omega)) (BitVec.not_lt.2 (BitVec.le_of_lt hv))
    refine ih ⟨h.is, fun i hi hl => h.below i hi (by simp at hl; omega), h.above, fun i hi hk hr => ?_, hmk, h.r, h.right,
      Or.inl rfl⟩
    by_contra hc
    exact hno i (show m < i by omega) (by simpa using hc) hi
  | case3 s hlr t m hm hv hv' ih =>
    obtain ⟨hat, hle, hno⟩ := probe_spec (show s.l ≤ t by omega) hm
    have hmk : k < m := by
      by_contra hc
      exact hv (h.below m hat (by omega) (by omega))
    obtain ⟨hany, hscan, hk, hr, hno', hb⟩ := ih ⟨h.is, h.below, fun i hi hk hr => h.above i hi hk (by simp at hr; omega),
      fun i hi hk hr => h.passed i hi hk (by simp at hr; omega), h.left, by simp; omega, rfl, Or.inl rfl⟩
    have hmr : m - 1 ≤ s.r := by omega
    refine ⟨hany, hscan, hk, hr.trans hmr, hno', Or.inr ?_⟩
    rcases hb with hb | hb
    · rw [hb, show m - 1 + 1 = m by omega]; exact hat
    · exact hb
  | case4 s hlr t m hm hv hv' ih =>
    obtain ⟨hat, hle, hno⟩ := probe_spec (show s.l ≤ t by omega) hm
    -- no entry of the type is at `addr` itself
    exfalso
    by_cases hmk : m ≤ k
    · exact hv (h.below m hat (by omega) hmk)
    · exact hv' (h.above m hat (by omega) (by omega))
  | case5 s hlr =>
    have hno : ∀ i, k < i → i ≤ s.r → ¬ (stabs i).Is type := fun i hk hr hi => by
      have hl := h.passed i hi hk hr
      omega
    have hr := h.r
    have hright := h.right
    refine ⟨h.any.resolve_right (by omega), ?_, by omega, by omega, fun i hk hi => hno i hk (by omega), Or.inl hright⟩
    exact scan_eq h.left (by omega) h.is fun i hk hi => hno i hk (by omega)

/-! ## A key at an entry -/

/-- The key is the address of `k`, which the search has not looked at. -/
structure Near (stabs : Int → Stab) (type : Int) (k : Int) (s : Search) : Prop where
  is : (stabs k).Is type
  value : (stabs k).nValue = s.addr
  below : ∀ i, (stabs i).Is type → s.l ≤ i → i < k → (stabs i).nValue < s.addr
  above : ∀ i, (stabs i).Is type → k < i → i ≤ s.r → s.addr < (stabs i).nValue
  l : s.l ≤ k
  r : k ≤ s.r
  right : s.right = s.r

/-- The search comes to `k`, and increments the key. -/
theorem Near.run (h : Near stabs type k s) : ∃ r, k ≤ r ∧ r ≤ s.r ∧ (r = s.r ∨ (stabs (r + 1)).Is type) ∧
    (∀ n, (stabs n).Is type → k < n → (∀ i, (stabs i).Is type → k < i → n ≤ i) → n ≤ s.r →
      (n ≤ r ↔ Meets stabs type k n s.l s.r)) ∧
    stabLoop stabs type s = stabLoop stabs type ⟨k, r, true, k, r, s.addr + 1#32⟩ := by
  fun_induction stabLoop stabs type s with
  | case1 s hlr t m hm ih =>
    have hno := (scan_spec stabs type (show s.l - 1 ≤ t by omega)).2
    -- `k` is not among the entries passed
    have hk : t + 1 ≤ k := by
      by_contra hc
      have hl := h.l
      exact hno k (show m < k by omega) (by omega) h.is
    obtain ⟨r, hkr, hr, hb, hmeet, heq⟩ :=
      ih ⟨h.is, h.value, fun i hi hl => h.below i hi (by simp at hl; omega), h.above, hk, h.r, h.right⟩
    refine ⟨r, hkr, hr, hb, fun n hn hkn hfirst hnr => ?_, heq⟩
    rw [hmeet n hn hkn hfirst hnr, Meets.eq_def stabs type k n s.l, if_pos hlr]
    show _ ↔ if t < k then _ else _
    rw [if_pos (by omega)]
  | case2 s hlr t m hm hv ih =>
    obtain ⟨hat, hle, hno⟩ := probe_spec (show s.l ≤ t by omega) hm
    -- the entry is left of `k`, where the key is not yet passed
    have hmk : m < k := by
      by_contra hc
      by_cases hmk : m = k
      · rw [hmk, h.value] at hv; exact absurd hv (BitVec.lt_irrefl _)
      · exact absurd (h.above m hat (by omega) (by omega)) (BitVec.not_lt.2 (BitVec.le_of_lt hv))
    have hk : t + 1 ≤ k := by
      by_contra hc
      exact hno k hmk (by omega) h.is
    obtain ⟨r, hkr, hr, hb, hmeet, heq⟩ :=
      ih ⟨h.is, h.value, fun i hi hl => h.below i hi (by simp at hl; omega), h.above, hk, h.r, h.right⟩
    refine ⟨r, hkr, hr, hb, fun n hn hkn hfirst hnr => ?_, heq⟩
    rw [hmeet n hn hkn hfirst hnr, Meets.eq_def stabs type k n s.l, if_pos hlr]
    show _ ↔ if t < k then _ else _
    rw [if_pos (by omega)]
  | case3 s hlr t m hm hv hv' ih =>
    obtain ⟨hat, hle, hno⟩ := probe_spec (show s.l ≤ t by omega) hm
    -- an entry above `addr` is right of `k`, and cuts the interval off before itself
    have hmk : k < m := by
      by_contra hc
      by_cases hmk : m = k
      · rw [hmk, h.value] at hv'; exact absurd hv' (BitVec.lt_irrefl _)
      · exact hv (h.below m hat (by omega) (by omega))
    obtain ⟨r, hkr, hr, hb, hmeet, heq⟩ :=
      ih ⟨h.is, h.value, h.below, fun i hi hk hr => h.above i hi hk (by simp at hr; omega), h.l,
      by simp; omega, rfl⟩
    have hr : r ≤ m - 1 := hr
    refine ⟨r, hkr, by omega, Or.inr ?_, fun n hn hkn hfirst hnr => ?_, heq⟩
    · rcases hb with hb | hb
      · have hb : r = m - 1 := hb
        rw [hb, show m - 1 + 1 = m by omega]; exact hat
      · exact hb
    · have hnm := hfirst m hat hmk
      rw [Meets.eq_def stabs type k n s.l, if_pos hlr]
      show _ ↔ if t < k then _ else if t < n then _ else if m = n then _ else _
      rw [if_neg (by omega), if_neg (by omega)]
      -- cut off at `n` the interval leaves it out, cut off behind it the search still has to meet it
      by_cases hmn : m = n
      · rw [if_pos hmn]
        constructor
        · intro hnr'; omega
        · exact False.elim
      · rw [if_neg hmn]
        exact hmeet n hn hkn hfirst (by simp; omega)
  | case4 s hlr t m hm hv hv' ih =>
    obtain ⟨hat, hle, hno⟩ := probe_spec (show s.l ≤ t by omega) hm
    -- the key is found; from here on the search looks for `addr + 1` right of `k`
    have hmk : m = k := by
      by_contra hne
      rcases lt_or_gt_of_ne hne with hlt | hgt
      · exact hv (h.below m hat (by omega) hlt)
      · exact hv' (h.above m hat hgt (by omega))
    refine ⟨s.r, h.r, le_refl _, Or.inl rfl, fun n hn hkn hfirst hnr => ?_, ?_⟩
    · rw [Meets.eq_def stabs type k n s.l, if_pos hlr]
      show _ ↔ if t < k then _ else if t < n then _ else _
      have hnt : t < n := by
        by_contra hc
        exact hno n (by omega) (by omega) hn
      rw [if_neg (by omega), if_pos hnt]
      simp [hnr]
    · rw [hmk, h.right]
  | case5 s hlr =>
    have hl := h.l
    have hr := h.r
    omega

/-- The key has wrapped around at `k`, the last entry: the search steps back over it. -/
theorem loop_wrapped (stabs : Int → Stab) (type : Int) {r : Int} (hk : (stabs k).Is type) (hkr : k ≤ r)
    (hno : ∀ i, k < i → i ≤ r → ¬ (stabs i).Is type) (hv : (stabs k).nValue ≠ 0#32) :
      stabLoop stabs type ⟨k, r, true, k, r, 0#32⟩ = ⟨k, k - 1, true, k, k - 1, 0#32⟩ := by
  have hscan : scan stabs type (k - 1) ((k + r) / 2) = k :=
    scan_eq (by omega) (by omega) hk fun i hi hir => hno i hi (by omega)
  have hpos : (stabs k).nValue > 0#32 := by
    show 0#32 < _
    bv_omega
  rw [stabLoop.eq_def]
  dsimp only
  rw [if_pos hkr, hscan, if_neg (by omega), if_neg (by bv_omega), if_pos hpos, stabLoop.eq_def, if_neg (by simp)]

/-- The key has reached `n`, or the search has. -/
structure Over (stabs : Int → Stab) (type : Int) (n : Int) (s : Search) : Prop where
  is : (stabs n).Is type
  top : (stabs n).nValue ≠ 0xffffffff#32
  r : n ≤ s.r
  right : s.right = s.r
  at_n : (s.l ≤ n ∧ (stabs n).nValue ≤ s.addr ∧ ∀ i, (stabs i).Is type → s.l ≤ i → i < n → (stabs i).nValue < (stabs n).nValue) ∨
    (n ≤ s.left ∧ s.left ≤ s.l ∧ (s.l = n → (stabs n).nValue < s.addr))

theorem Over.run (h : Over stabs type n s) : n ≤ (stabLoop stabs type s).left ∧ n ≤ (stabLoop stabs type s).right := by
  fun_induction stabLoop stabs type s with
  | case1 s hlr t m hm ih =>
    have hno := (scan_spec stabs type (show s.l - 1 ≤ t by omega)).2
    refine ih ⟨h.is, h.top, h.r, h.right, ?_⟩
    -- `n` is right of the entries passed, or `left` is at it or behind already
    rcases h.at_n with ⟨hl, hv, hi⟩ | ⟨hl, hll, hv⟩
    · left
      refine ⟨?_, hv, fun i hi' hl => hi i hi' (by simp at hl; omega)⟩
      show t + 1 ≤ n
      by_contra hc
      exact hno n (show m < n by omega) (by omega) h.is
    · right
      exact ⟨hl, show s.left ≤ t + 1 by omega, fun (hln : t + 1 = n) => by omega⟩
  | case2 s hlr t m hm hv ih =>
    obtain ⟨hat, hle, hno⟩ := probe_spec (show s.l ≤ t by omega) hm
    refine ih ⟨h.is, h.top, h.r, h.right, ?_⟩
    by_cases hmn : n ≤ m
    · exact Or.inr ⟨hmn, show m ≤ t + 1 by omega, fun (hln : t + 1 = n) => by omega⟩
    rcases h.at_n with ⟨hl, hv', hi⟩ | ⟨hl, hll, hv'⟩
    · left
      refine ⟨?_, hv', fun i hi' hl => hi i hi' (by simp at hl; omega)⟩
      show t + 1 ≤ n
      by_contra hc
      exact hno n (by omega) (by omega) h.is
    · omega
  | case3 s hlr t m hm hv hv' ih =>
    obtain ⟨hat, hle, hno⟩ := probe_spec (show s.l ≤ t by omega) hm
    -- an entry above `addr` is right of `n`
    have hnm : n < m := by
      rcases h.at_n with ⟨hl, hle', hi⟩ | ⟨hl, hll, hn⟩
      · by_contra hc
        by_cases hmn : m = n
        · rw [hmn] at hv'; exact absurd hle' (BitVec.not_le.2 hv')
        · have hlt := hi m hat (by omega) (by omega)
          bv_omega
      · by_contra hc
        have hmn : m = n := by omega
        have hln : s.l = n := by omega
        rw [hmn] at hv'
        exact absurd (hn hln) (BitVec.not_lt.2 (BitVec.le_of_lt hv'))
    exact ih ⟨h.is, h.top, show n ≤ m - 1 by omega, rfl, h.at_n⟩
  | case4 s hlr t m hm hv hv' ih =>
    obtain ⟨hat, hle, hno⟩ := probe_spec (show s.l ≤ t by omega) hm
    -- an exact match, from which the search goes on for `addr + 1`
    have heq : (stabs m).nValue = s.addr := BitVec.le_antisymm (BitVec.not_lt.1 hv') (BitVec.not_lt.1 hv)
    have hnm : n ≤ m := by
      by_contra hc
      rcases h.at_n with ⟨hl, hle', hi⟩ | ⟨hl, hll, -⟩
      · have hlt := hi m hat (by omega) (by omega)
        rw [heq] at hlt
        exact absurd hle' (BitVec.not_le.2 hlt)
      · omega
    refine ih ⟨h.is, h.top, h.r, h.right, Or.inr ⟨hnm, le_refl _, fun (hln : m = n) => ?_⟩⟩
    have htop := h.top
    rw [← hln] at htop ⊢
    show (stabs m).nValue < s.addr + 1#32
    rw [heq] at htop ⊢
    -- `addr + 1` does not wrap, the value at `n` being below the largest
    bv_omega
  | case5 s hlr =>
    have hr := h.r
    have hright := h.right
    rcases h.at_n with ⟨hl, -, -⟩ | ⟨hl, hll, -⟩ <;> constructor <;> omega

theorem Over.scan (h : Over stabs type n s) : n ≤ scan stabs type (stabLoop stabs type s).left (stabLoop stabs type s).right := by
  obtain ⟨hleft, hright⟩ := h.run
  by_cases hlr : (stabLoop stabs type s).left ≤ (stabLoop stabs type s).right
  · exact hleft.trans (scan_ge stabs type hlr)
  · rw [Jos.scan, if_neg (by omega)]
    exact hright

/-! ## When the search finds the stab -/

/-- The result of a search from `[L, R]`, given how its loop ends. -/
theorem binsearch_of_any (h : (stabLoop stabs type ⟨L, R, false, L, R, addr⟩).anyMatches = true) :
    stabBinsearch stabs type L R addr =
      (scan stabs type (stabLoop stabs type ⟨L, R, false, L, R, addr⟩).left (stabLoop stabs type ⟨L, R, false, L, R, addr⟩).right,
        (stabLoop stabs type ⟨L, R, false, L, R, addr⟩).right) := if_pos h

theorem IsLast.unique {k' : Int} (h : IsLast stabs type L R addr k) (h' : IsLast stabs type L R addr k') : k = k' := by
  by_contra hne
  rcases lt_or_gt_of_ne hne with hlt | hgt
  · exact absurd h'.2.1 (BitVec.not_le.2 (h.2.2 k' h'.1 hlt))
  · exact absurd h.2.1 (BitVec.not_le.2 (h'.2.2 k h.1 hgt))

theorem IsNext.first (h : IsNext stabs type L R k n) (hk : L ≤ k) : ∀ i, (stabs i).Is type → k < i → n ≤ i := by
  intro i hi hki
  by_contra hc
  have hn := h.1.2.1
  exact hc (h.2.2 i ⟨by omega, by omega, hi⟩ hki)

theorem finds_iff {res : Int × Int} (h : IsLast stabs type L R addr k) : Finds stabs type L R addr res ↔
    res.1 = k ∧ ((∃ n, IsNext stabs type L R k n ∧ res.2 = n - 1) ∨ ((∀ i, Entry stabs type L R i → i ≤ k) ∧ res.2 = R)) := by
  refine ⟨fun hf => hf.1 k h, fun hres => ⟨fun k' hk' => ?_, fun hno => absurd h (hno k)⟩⟩
  rw [← h.unique hk']
  exact hres

/-- A search whose key has come to lie between `k` and the next entry finds `k`. -/
theorem Between.finds (h : Between stabs type k s) (hk : IsLast stabs type L R addr k) (hr : s.r ≤ R)
    (hb : s.r = R ∨ (stabs (s.r + 1)).Is type)
    (heq : stabLoop stabs type ⟨L, R, false, L, R, addr⟩ = stabLoop stabs type s) :
    Finds stabs type L R addr (stabBinsearch stabs type L R addr) := by
  obtain ⟨hany, hscan, hkr, hrr, hno, hb'⟩ := h.run
  rw [finds_iff hk, binsearch_of_any (by rw [heq]; exact hany), heq]
  refine ⟨hscan, ?_⟩
  have hL := hk.1.1
  by_cases hR : (stabLoop stabs type s).right = R
  · right
    exact ⟨fun i hi => by
      by_contra hc
      exact hno i (by omega) (by have := hi.2.1; omega) hi.2.2, hR⟩
  · left
    have hnext : (stabs ((stabLoop stabs type s).right + 1)).Is type := by
      rcases hb' with hb' | hb'
      · rcases hb with hb | hb
        · omega
        · rw [hb']; exact hb
      · exact hb'
    refine ⟨_, ⟨⟨by omega, by omega, hnext⟩, by omega, fun i hi hki => ?_⟩, by show _ = _ + 1 - 1; omega⟩
    by_contra hc
    exact hno i hki (by omega) hi.2.2

theorem IsNext.unique {n' : Int} (h : IsNext stabs type L R k n) (h' : IsNext stabs type L R k n') : n = n' :=
  le_antisymm (h.2.2 n' h'.1 h'.2.1) (h'.2.2 n h.1 h.2.1)

/-- Nothing matches where there is no entry. -/
theorem finds_nothing (h : ∀ i, ¬ Entry stabs type L R i) : Finds stabs type L R addr (stabBinsearch stabs type L R addr) := by
  have hany : (stabLoop stabs type ⟨L, R, false, L, R, addr⟩).anyMatches = false :=
    loop_of_no_entry (fun i hl hr hi => h i ⟨hl, hr, hi⟩) rfl
  have hres : stabBinsearch stabs type L R addr = _ := if_neg (by rw [hany]; simp)
  refine ⟨fun k hk => absurd hk.1 (h k), fun _ => ?_⟩
  rw [hres]
  show _ - 1 < _
  omega

/-- When everything is above the address the bounds never cross. -/
theorem not_finds_below {e : Int} (he : Entry stabs type L R e) (h : ¬ ∃ k, IsLast stabs type L R addr k) :
    ¬ Finds stabs type L R addr (stabBinsearch stabs type L R addr) := by
  intro hf
  have hlt := hf.2 fun k hk => h ⟨k, hk⟩
  rw [binsearch_of_any (any_of_entry he.2.2 he.1 he.2.1)] at hlt
  exact absurd (scan_le stabs type _ _) (by simpa using hlt)

/-- No entry follows one at the end of the address space. -/
theorem Increasing.none_behind (hinc : Increasing stabs type L R) (hk : Entry stabs type L R k)
    (hv : (stabs k).nValue = 0xffffffff#32)
    (hki : k < i) (hi : i ≤ R) : ¬ (stabs i).Is type := by
  intro his
  have hkL := hk.1
  have hlt := hinc k i hk ⟨by omega, hi, his⟩ hki
  rw [hv] at hlt
  bv_omega

theorem IsLast.above (hk : IsLast stabs type L R addr k) : ∀ i, (stabs i).Is type → k < i → i ≤ R → addr < (stabs i).nValue :=
  fun i hi hki hiR => hk.2.2 i ⟨by have := hk.1.1; omega, hiR, hi⟩ hki

/-- A key that is not at an entry lies between two. -/
theorem IsLast.between (hinc : Increasing stabs type L R) (hk : IsLast stabs type L R addr k) (hval : (stabs k).nValue ≠ addr) :
    Between stabs type k ⟨L, R, false, L, R, addr⟩ := by
  have habove := hk.above
  obtain ⟨⟨hkL, hkR, hkT⟩, hkle, -⟩ := hk
  have hlt : (stabs k).nValue < addr := by bv_omega
  refine ⟨hkT, fun i hi hiL hik => ?_, habove, fun i _ hki _ => by show L ≤ i; omega, hkL, hkR, rfl, Or.inr hkL⟩
  by_cases hik' : i = k
  · rw [hik']; exact hlt
  · exact BitVec.lt_trans (hinc i k ⟨hiL, by omega, hi⟩ ⟨hkL, hkR, hkT⟩ (by omega)) hlt

theorem IsLast.near (hinc : Increasing stabs type L R) (hk : IsLast stabs type L R addr k) (hval : (stabs k).nValue = addr) :
    Near stabs type k ⟨L, R, false, L, R, addr⟩ := by
  have habove := hk.above
  obtain ⟨⟨hkL, hkR, hkT⟩, -, -⟩ := hk
  refine ⟨hkT, hval, fun i hi hiL hik => ?_, habove, hkL, hkR, rfl⟩
  have hlt := hinc i k ⟨hiL, by omega, hi⟩ ⟨hkL, hkR, hkT⟩ hik
  rw [hval] at hlt
  exact hlt

/-- The search from `[L, R]` has come to its key at `k`, and goes on in `[k, r]` with the next one. -/
structure AtKey (stabs : Int → Stab) (type L R : Int) (addr : Word) (k r : Int) : Prop where
  increasing : Increasing stabs type L R
  last : IsLast stabs type L R addr k
  value : (stabs k).nValue = addr
  le : k ≤ r
  within : r ≤ R
  bound : r = R ∨ (stabs (r + 1)).Is type
  loop : stabLoop stabs type ⟨L, R, false, L, R, addr⟩ = stabLoop stabs type ⟨k, r, true, k, r, addr + 1#32⟩

variable {r : Int}

theorem AtKey.result (h : AtKey stabs type L R addr k r) (heq : stabLoop stabs type ⟨k, r, true, k, r, addr + 1#32⟩ = s) :
    stabBinsearch stabs type L R addr = (scan stabs type s.left s.right, s.right) := by
  rw [binsearch_of_any (any_of_entry h.last.1.2.2 h.last.1.1 h.last.1.2.1), h.loop, heq]

/-- The key wraps around at `k`. -/
theorem AtKey.wraps (h : AtKey stabs type L R addr k r) (hmax : addr = 0xffffffff#32) :
    ¬ Finds stabs type L R addr (stabBinsearch stabs type L R addr) := by
  intro hf
  have hv : (stabs k).nValue = 0xffffffff#32 := h.value.trans hmax
  have hr := h.within
  have hwrap := loop_wrapped stabs type h.last.1.2.2 h.le
    (fun i hki hir => h.increasing.none_behind h.last.1 hv hki (by omega)) (by rw [hv]; decide)
  have hzero : addr + 1#32 = 0#32 := by rw [hmax]; decide
  rw [← hzero] at hwrap
  have hres := ((finds_iff h.last).1 hf).1
  rw [h.result hwrap] at hres
  have hle := scan_le stabs type k (k - 1)
  dsimp only at hres
  omega

/-- The search has already passed the next entry, or the incremented key lies below it. -/
theorem AtKey.passes (h : AtKey stabs type L R addr k r) (hmax : addr ≠ 0xffffffff#32)
    (hnext : ¬ ∃ n, IsNext stabs type L R k n ∧ (stabs n).nValue = addr + 1#32 ∧ n ≤ r) :
    Finds stabs type L R addr (stabBinsearch stabs type L R addr) := by
  have hrR := h.within
  obtain ⟨hkL, hkR, hkT⟩ := h.last.1
  have hb : Between stabs type k ⟨k, r, true, k, r, addr + 1#32⟩ := by
    refine ⟨hkT, fun i hi hki hik => ?_, fun i hi hki hir => ?_, fun i _ hki _ => by show k ≤ i; omega, le_refl _, h.le,
      rfl, Or.inl rfl⟩
    · have hik : i = k := by
        have hki : k ≤ i := hki
        omega
      rw [hik, h.value]
      show addr < addr + 1#32
      bv_omega
    · have hir : i ≤ r := hir
      have hlt := h.last.above i hi hki (by omega)
      by_contra hc
      have heqv : (stabs i).nValue = addr + 1#32 := by
        have hc : ¬ addr + 1#32 < (stabs i).nValue := hc
        bv_omega
      -- nothing fits between the key and the next one
      refine hnext ⟨i, ⟨⟨by omega, by omega, hi⟩, hki, fun j hj hkj => ?_⟩, heqv, hir⟩
      by_contra hji
      have hj' := h.increasing j i hj ⟨by omega, by omega, hi⟩ (by omega)
      have hlt' := h.last.2.2 j hj hkj
      rw [heqv] at hj'
      bv_omega
  exact hb.finds h.last h.within h.bound h.loop

/-- The key wraps around at the next entry, and the search steps back over it. -/
theorem AtKey.steps_back (h : AtKey stabs type L R addr k r) (hn : IsNext stabs type L R k n)
    (hnv : (stabs n).nValue = addr + 1#32)
    (hnr : n ≤ r) (hmaxn : addr + 1#32 = 0xffffffff#32) :
    Finds stabs type L R addr (stabBinsearch stabs type L R addr) ↔ n = k + 1 := by
  have hrR := h.within
  have hfirst := hn.first h.last.1.1
  have hnT := hn.1.2.2
  have hkn := hn.2.1
  have hbehind : ∀ i, n < i → i ≤ r → ¬ (stabs i).Is type := fun i hni hir =>
    h.increasing.none_behind hn.1 (hnv.trans hmaxn) hni (by omega)
  have hnear : Near stabs type n ⟨k, r, true, k, r, addr + 1#32⟩ := by
    refine ⟨hnT, hnv, fun i hi hki hin => ?_, fun i hi hni hir => absurd hi (hbehind i hni hir), by show k ≤ n; omega, hnr, rfl⟩
    have hik : i = k := by
      by_contra hne
      have hki : k ≤ i := hki
      have hni := hfirst i hi (by omega)
      omega
    rw [hik, h.value]
    show addr < addr + 1#32
    bv_omega
  obtain ⟨r', hnr', hrr', -, -, heq⟩ := hnear.run
  dsimp only at hrr' heq
  have hwrap := loop_wrapped stabs type hnT hnr' (fun i hni hir => hbehind i hni (by omega)) (by rw [hnv, hmaxn]; decide)
  have hzero : addr + 1#32 + 1#32 = 0#32 := by rw [hmaxn]; decide
  rw [← hzero] at hwrap
  have hscan : scan stabs type n (n - 1) = n - 1 := by rw [scan, if_neg (by omega)]
  rw [finds_iff h.last, h.result (heq.trans hwrap)]
  dsimp only
  rw [hscan]
  exact ⟨fun hres => by omega, fun hnk => ⟨by omega, Or.inl ⟨n, hn, rfl⟩⟩⟩

/-- The search goes on to the next entry. -/
theorem AtKey.overruns (h : AtKey stabs type L R addr k r) (hn : IsNext stabs type L R k n) (hnv : (stabs n).nValue = addr + 1#32)
    (hnr : n ≤ r) (hmaxn : addr + 1#32 ≠ 0xffffffff#32) : ¬ Finds stabs type L R addr (stabBinsearch stabs type L R addr) := by
  intro hf
  have hkn := hn.2.1
  have hkL := h.last.1.1
  have hnR := hn.1.2.1
  have hover : Over stabs type n ⟨k, r, true, k, r, addr + 1#32⟩ := by
    refine ⟨hn.1.2.2, by rw [hnv]; exact hmaxn, hnr, rfl,
      Or.inl ⟨by show k ≤ n; omega, by rw [hnv]; exact BitVec.le_refl _, fun i hi hki hin => ?_⟩⟩
    have hki : k ≤ i := hki
    exact h.increasing i n ⟨by omega, by omega, hi⟩ hn.1 hin
  have hres := ((finds_iff h.last).1 hf).1
  have hscan := hover.scan
  rw [h.result rfl] at hres
  dsimp only at hres
  omega

/-- Where the key is at an entry, the search finds it unless the increment loses it. -/
theorem IsLast.finds_at (hinc : Increasing stabs type L R) (hk : IsLast stabs type L R addr k) (hval : (stabs k).nValue = addr) :
    Finds stabs type L R addr (stabBinsearch stabs type L R addr) ↔ ¬ Slips stabs type L R addr k := by
  obtain ⟨r, hkr, hrR, hrb, hmeet, heq⟩ := (hk.near hinc hval).run
  have hat : AtKey stabs type L R addr k r := ⟨hinc, hk, hval, hkr, hrR, hrb, heq⟩
  have hmeets : ∀ n, IsNext stabs type L R k n → (n ≤ r ↔ Meets stabs type k n L R) := fun n hn =>
    hmeet n hn.1.2.2 hn.2.1 (hn.first hk.1.1) hn.1.2.1
  by_cases hmax : addr = 0xffffffff#32
  · exact iff_of_false (hat.wraps hmax) (not_not_intro ⟨hval, Or.inl hmax⟩)
  by_cases hnext : ∃ n, IsNext stabs type L R k n ∧ (stabs n).nValue = addr + 1#32 ∧ n ≤ r
  swap
  · refine iff_of_true (hat.passes hmax hnext) ?_
    rintro ⟨-, hs | ⟨n, hn, hv, hm, -⟩⟩
    · exact hmax hs
    · exact hnext ⟨n, hn, hv, (hmeets n hn).2 hm⟩
  obtain ⟨n, hn, hnv, hnr⟩ := hnext
  have hslips : Slips stabs type L R addr k ↔ ¬ (addr + 1#32 = 0xffffffff#32 ∧ n = k + 1) := by
    constructor
    · rintro ⟨-, hs | ⟨n', hn', -, -, hslip⟩⟩
      · exact absurd hs hmax
      · rw [hn.unique hn']
        exact hslip
    · exact fun hs => ⟨hval, Or.inr ⟨n, hn, hnv, (hmeets n hn).1 hnr, hs⟩⟩
  rw [hslips, not_not]
  by_cases hmaxn : addr + 1#32 = 0xffffffff#32
  · rw [hat.steps_back hn hnv hnr hmaxn]
    exact ⟨fun hnk => ⟨hmaxn, hnk⟩, fun h => h.2⟩
  · exact iff_of_false (hat.overruns hn hnv hnr hmaxn) fun h => hmaxn h.1

/-- `stab_binsearch` does what its comment says if and only if there is no entry of the type at all, or
one begins at or below the address and the increment of the key does not lose it. -/
theorem stabBinsearch_finds_iff (hinc : Increasing stabs type L R) :
    Finds stabs type L R addr (stabBinsearch stabs type L R addr) ↔
      (∀ i, ¬ Entry stabs type L R i) ∨ ∃ k, IsLast stabs type L R addr k ∧ ¬ Slips stabs type L R addr k := by
  by_cases hentry : ∀ i, ¬ Entry stabs type L R i
  · exact iff_of_true (finds_nothing hentry) (Or.inl hentry)
  obtain ⟨e, he⟩ : ∃ e, Entry stabs type L R e := by simpa using hentry
  by_cases hlast : ∃ k, IsLast stabs type L R addr k
  swap
  · refine iff_of_false (not_finds_below he hlast) ?_
    rintro (hr | ⟨k, hk, -⟩)
    · exact hentry hr
    · exact hlast ⟨k, hk⟩
  obtain ⟨k, hk⟩ := hlast
  have hright : ((∀ i, ¬ Entry stabs type L R i) ∨ ∃ k, IsLast stabs type L R addr k ∧ ¬ Slips stabs type L R addr k) ↔
      ¬ Slips stabs type L R addr k := by
    constructor
    · rintro (hr | ⟨k', hk', hs⟩)
      · exact absurd hr hentry
      · rw [hk.unique hk']; exact hs
    · exact fun hs => Or.inr ⟨k, hk, hs⟩
  rw [hright]
  by_cases hval : (stabs k).nValue = addr
  · exact hk.finds_at hinc hval
  · exact iff_of_true ((hk.between hinc hval).finds hk (le_refl _) (Or.inl rfl) rfl) fun hs => hval hs.1

/-- Two functions, the first one byte long. -/
def shortFun (i : Int) : Stab := if i ≤ 0 then ⟨36#8, 0x100#32⟩ else ⟨36#8, 0x101#32⟩

theorem shortFun_increasing : Increasing shortFun 36 0 1 := by
  rintro i j ⟨hi, -, -⟩ ⟨-, hj, -⟩ hij
  have hi : i = 0 := by omega
  have hj : j = 1 := by omega
  subst hi hj
  decide

theorem shortFun_last : IsLast shortFun 36 0 1 0x100#32 0 := by
  refine ⟨⟨by omega, by omega, by decide⟩, by decide, fun i hi h => ?_⟩
  have hi : i = 1 := by have := hi.2.1; omega
  subst hi
  decide

theorem stabBinsearch_finds_iff_shortFun : Finds shortFun 36 0 1 0x102#32 (stabBinsearch shortFun 36 0 1 0x102#32) := by
  refine (stabBinsearch_finds_iff shortFun_increasing).2 (Or.inr ⟨1, ⟨⟨by omega, by omega, by decide⟩, by decide, ?_⟩, ?_⟩)
  · rintro i ⟨-, hi, -⟩ h
    omega
  · rintro ⟨hv, -⟩
    exact absurd hv (by decide)

/-- At the address of the first function the search finds the second one, and below both it finds an
entry before the first. -/
theorem stabBinsearch_misses : ¬ Finds shortFun 36 0 1 0x100#32 (stabBinsearch shortFun 36 0 1 0x100#32) ∧
    ¬ Finds shortFun 36 0 1 0x50#32 (stabBinsearch shortFun 36 0 1 0x50#32) := by
  have hfirst : stabBinsearch shortFun 36 0 1 0x100#32 = (1, 1) := by
    simp [stabBinsearch, stabLoop, scan, shortFun, Stab.Is]
  have hbelow : stabBinsearch shortFun 36 0 1 0x50#32 = (-1, -1) := by
    simp [stabBinsearch, stabLoop, scan, shortFun, Stab.Is]
  rw [hfirst, hbelow]
  constructor
  · intro h
    exact absurd (h.1 0 shortFun_last).1 (by decide)
  · intro h
    have hno : ∀ k, ¬ IsLast shortFun 36 0 1 0x50#32 k := by
      rintro k ⟨⟨hk, hk', -⟩, hv, -⟩
      rcases (show k = 0 ∨ k = 1 by omega) with rfl | rfl
      · exact absurd hv (by decide)
      · exact absurd hv (by decide)
    exact absurd (h.2 hno) (by decide)

end Jos
