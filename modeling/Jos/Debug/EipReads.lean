/-
`debuginfo_eip` stays inside the tables unless the search for the file runs off the left end: every entry of a file it
looks at begins above the address, down to entry 0.
-/
import Jos.Debug.Eip

namespace Jos

/-! ## The property and its condition -/

/-- A pointer into the string table, or the constant. -/
def StabTab.Points (t : StabTab) : StrPtr → Prop
  | .unknown => True
  | .str p => (p - t.stabstr).toNat < (t.stabstrEnd - t.stabstr).toNat

/-- The reads are of entries of the table, and the names stored are in the string table. -/
structure StabTab.Inside (t : StabTab) (r : EipRun) : Prop where
  reads : ∀ x ∈ r.reads, 0 ≤ x.1 ∧ x.1 < t.n
  file : t.Points r.info.eipFile
  fnName : t.Points r.info.eipFnName

/-- The bisection of `[0, r]` goes left at every entry it looks at, the last one of the type at or below the middle, and
comes to entry 0. There it goes left too when the key wraps around. -/
def Leftward (stabs : Int → Stab) (type : Int) (addr : Word) (r : Int) : Prop :=
  if 0 ≤ r then
    let m := scan stabs type (-1) (r / 2)
    addr < (stabs m).nValue ∧ 0 < m ∧ Leftward stabs type addr (m - 1) ∨
      m = 0 ∧ (addr < (stabs m).nValue ∨ (stabs m).nValue = addr ∧ addr = 0xffffffff#32)
  else False
termination_by (r + 1).toNat
decreasing_by
  have hle := scan_le stabs type (-1) (r / 2)
  omega

variable {stabs : Int → Stab} {type : Int} {addr : Word} {s : Search} {lo m l r : Int} {t : StabTab}

/-! ## The bounds of a search -/

theorem scanReads_bounds : ∀ x ∈ scanReads stabs type lo m, lo < x.1 ∧ x.1 ≤ m := by
  fun_induction scanReads stabs type lo m with
  | case1 m h his =>
    intro x hx
    rw [List.mem_singleton.1 hx]
    exact ⟨h, le_rfl⟩
  | case2 m h his ih =>
    intro x hx
    rcases List.mem_cons.1 hx with rfl | hx
    · exact ⟨h, le_rfl⟩
    · have := ih x hx
      omega
  | case3 m h => simp

/-- The reads of an iteration, and those behind it. -/
theorem turn_bounds {rest : List StabRead} (hm : ¬ scan stabs type (l - 1) m < l) (hmr : m ≤ r)
    (hrest : ∀ x ∈ rest, l ≤ x.1 ∧ x.1 ≤ r) :
    ∀ x ∈ scanReads stabs type (l - 1) m ++ (scan stabs type (l - 1) m, .value) :: rest, l ≤ x.1 ∧ x.1 ≤ r := by
  have hle := scan_le stabs type (l - 1) m
  intro x hx
  rcases List.mem_append.1 hx with hx | hx
  · have := scanReads_bounds x hx
    omega
  · rcases List.mem_cons.1 hx with rfl | hx
    · constructor
      · exact not_lt.1 hm
      · exact hle.trans hmr
    · exact hrest x hx

theorem loopReads_bounds (stabs : Int → Stab) (type : Int) (s : Search) :
    ∀ x ∈ loopReads stabs type s, s.l ≤ x.1 ∧ x.1 ≤ s.r := by
  fun_induction loopReads stabs type s with
  | case1 s hl t m types hm ih =>
    intro x hx
    rcases List.mem_append.1 hx with hx | hx
    · have := scanReads_bounds x hx
      omega
    · have := ih x hx
      change t + 1 ≤ x.1 ∧ x.1 ≤ s.r at this
      omega
  | case2 s hl t m types hm hv ih =>
    refine turn_bounds hm (by omega) fun x hx => ?_
    have := ih x hx
    change t + 1 ≤ x.1 ∧ x.1 ≤ s.r at this
    omega
  | case3 s hl t m types hm hv hv' ih =>
    have hle := scan_le stabs type (s.l - 1) t
    refine turn_bounds hm (by omega) fun x hx => ?_
    have := ih x hx
    change s.l ≤ x.1 ∧ x.1 ≤ m - 1 at this
    omega
  | case4 s hl t m types hm hv hv' ih =>
    refine turn_bounds hm (by omega) fun x hx => ?_
    have := ih x hx
    change m ≤ x.1 ∧ x.1 ≤ s.r at this
    omega
  | case5 s hl => simp

/-- `left` changes with a match only, and stays in the range. -/
theorem loop_left (stabs : Int → Stab) (type : Int) (s : Search) : (stabLoop stabs type s).left = s.left ∨
    s.l ≤ (stabLoop stabs type s).left ∧ (stabLoop stabs type s).anyMatches = true := by
  fun_induction stabLoop stabs type s with
  | case1 s hl t m hm ih =>
    refine ih.imp_right fun h => ⟨?_, h.2⟩
    have := h.1
    change t + 1 ≤ _ at this
    omega
  | case2 s hl t m hm hv ih =>
    refine Or.inr ⟨?_, any_mono rfl⟩
    rcases ih with h | ⟨h, -⟩
    · rw [h]
      exact not_lt.1 hm
    · change t + 1 ≤ _ at h
      omega
  | case3 s hl t m hm hv hv' ih => exact ih
  | case4 s hl t m hm hv hv' ih =>
    refine Or.inr ⟨?_, any_mono rfl⟩
    rcases ih with h | ⟨h, -⟩
    · rw [h]
      exact not_lt.1 hm
    · change m ≤ _ at h
      omega
  | case5 s hl => exact Or.inl rfl

/-- `right` changes with a match only, and stays in the range. -/
theorem loop_right (stabs : Int → Stab) (type : Int) (s : Search) (hr : s.r ≤ s.right) : (stabLoop stabs type s).right ≤ s.right ∧
    ((stabLoop stabs type s).right = s.right ∨
      s.l - 1 ≤ (stabLoop stabs type s).right ∧ (stabLoop stabs type s).anyMatches = true) := by
  fun_induction stabLoop stabs type s with
  | case1 s hl t m hm ih =>
    obtain ⟨hle, h⟩ := ih hr
    refine ⟨hle, h.imp_right fun h => ⟨?_, h.2⟩⟩
    have := h.1
    change t + 1 - 1 ≤ _ at this
    omega
  | case2 s hl t m hm hv ih =>
    obtain ⟨hle, h⟩ := ih hr
    refine ⟨hle, h.imp_right fun h => ⟨?_, h.2⟩⟩
    have := h.1
    change t + 1 - 1 ≤ _ at this
    omega
  | case3 s hl t m hm hv hv' ih =>
    have hle := scan_le stabs type (s.l - 1) t
    obtain ⟨hle', h⟩ := ih le_rfl
    change _ ≤ m - 1 at hle'
    change _ = m - 1 ∨ _ at h
    refine ⟨by omega, Or.inr ⟨?_, any_mono rfl⟩⟩
    rcases h with h | ⟨h, -⟩
    · rw [h]
      omega
    · exact h
  | case4 s hl t m hm hv hv' ih =>
    obtain ⟨hle, h⟩ := ih hr
    refine ⟨hle, h.imp_right fun h => ⟨?_, h.2⟩⟩
    have := h.1
    change m - 1 ≤ _ at this
    omega
  | case5 s hl => exact ⟨le_rfl, Or.inl rfl⟩

/-! ## What a search leaves -/

theorem binsearch_none (h : (stabLoop stabs type ⟨l, r, false, l, r, addr⟩).anyMatches = false) :
    (stabBinsearch stabs type l r addr).2 = (stabBinsearch stabs type l r addr).1 - 1 := by
  unfold stabBinsearch
  dsimp only
  rw [h]
  rfl

theorem scan_of_le (h : m ≤ lo) : scan stabs type lo m = m := by
  unfold scan
  rw [if_neg (by omega)]

/-- The bounds after a search that matched, and its reads in any case. -/
theorem binsearch_bounds (stabs : Int → Stab) (type : Int) (addr : Word) (hlr : l ≤ r) :
    ((stabLoop stabs type ⟨l, r, false, l, r, addr⟩).anyMatches = true →
      l - 1 ≤ (stabBinsearch stabs type l r addr).1 ∧
        (l ≤ (stabBinsearch stabs type l r addr).2 → l ≤ (stabBinsearch stabs type l r addr).1) ∧
        (stabBinsearch stabs type l r addr).1 ≤ (stabBinsearch stabs type l r addr).2 ∧
        (stabBinsearch stabs type l r addr).2 ≤ r ∧
        (stabBinsearch stabs type l r addr).2 = (stabLoop stabs type ⟨l, r, false, l, r, addr⟩).right) ∧
      ∀ x ∈ binsearchReads stabs type l r addr, l ≤ x.1 ∧ x.1 ≤ r := by
  have hleft := loop_left stabs type ⟨l, r, false, l, r, addr⟩
  obtain ⟨hright, hright'⟩ := loop_right stabs type ⟨l, r, false, l, r, addr⟩ le_rfl
  have hloop := loopReads_bounds stabs type ⟨l, r, false, l, r, addr⟩
  unfold stabBinsearch binsearchReads
  dsimp only at hleft hright hright' hloop ⊢
  generalize stabLoop stabs type ⟨l, r, false, l, r, addr⟩ = e at *
  have hge : l ≤ e.left := by omega
  refine ⟨fun hany => ?_, fun x hx => ?_⟩
  · rw [if_pos hany]
    dsimp only
    by_cases hlt : e.left ≤ e.right
    · have := scan_ge stabs type hlt
      exact ⟨by omega, fun _ => by omega, scan_le .., hright, rfl⟩
    · rw [scan_of_le (show e.right ≤ e.left by omega)]
      exact ⟨by omega, id, le_rfl, hright, rfl⟩
  · rcases List.mem_append.1 hx with hx | hx
    · exact hloop x hx
    · split at hx
      · have := scanReads_bounds x hx
        omega
      · simp at hx

/-- The bounds after a search, when there is an entry between them. -/
theorem binsearch_within (stabs : Int → Stab) (type : Int) (addr : Word) (hlr : l ≤ r)
    (h : (stabBinsearch stabs type l r addr).1 ≤ (stabBinsearch stabs type l r addr).2) :
    l - 1 ≤ (stabBinsearch stabs type l r addr).1 ∧ (stabBinsearch stabs type l r addr).2 ≤ r := by
  obtain ⟨hany, -⟩ := binsearch_bounds stabs type addr hlr
  cases hm : (stabLoop stabs type ⟨l, r, false, l, r, addr⟩).anyMatches with
  | false =>
    have := binsearch_none hm
    omega
  | true =>
    obtain ⟨hge, -, -, hlast, -⟩ := hany hm
    exact ⟨hge, hlast⟩

theorem right_nonneg (stabs : Int → Stab) (type : Int) (s : Search) (hl : 1 ≤ s.l) (hr : s.r ≤ s.right) (h : 0 ≤ s.right) :
    0 ≤ (stabLoop stabs type s).right := by
  obtain ⟨-, h' | ⟨h', -⟩⟩ := loop_right stabs type s hr <;> omega

/-- The entry in the middle is read first. -/
theorem middle_mem (stabs : Int → Stab) (type : Int) (addr : Word) (hlr : l ≤ r) :
    ((l + r) / 2, .type) ∈ binsearchReads stabs type l r addr := by
  have hscan : ((l + r) / 2, .type) ∈ scanReads stabs type (l - 1) ((l + r) / 2) := by
    unfold scanReads
    rw [if_pos (by omega)]
    split
    · exact List.mem_singleton.2 rfl
    · exact List.mem_cons_self ..
  refine List.mem_append_left _ ?_
  unfold loopReads
  rw [if_pos hlr]
  dsimp only
  split_ifs <;> exact List.mem_append_left _ hscan

/-- The search of the whole table runs off its left end. -/
theorem right_iff_leftward (stabs : Int → Stab) (type : Int) (addr : Word) (any : Bool) (left : Int) (hr : 0 ≤ r) :
    (stabLoop stabs type ⟨0, r, any, left, r, addr⟩).right = -1 ↔ Leftward stabs type addr r := by
  induction h : r.toNat using Nat.strong_induction_on generalizing r any left with
  | _ k ih =>
    have hle := scan_le stabs type (-1) (r / 2)
    have hge := scan_ge stabs type (show -1 ≤ r / 2 by omega)
    -- a search that has gone to the right of the first entry does not come back to it
    have hstay : ∀ (l left : Int) (any : Bool) (a : Word), 1 ≤ l → (stabLoop stabs type ⟨l, r, any, left, r, a⟩).right ≠ -1 :=
      fun l left any a hl => by
        have := right_nonneg stabs type ⟨l, r, any, left, r, a⟩ hl le_rfl hr
        omega
    rw [stabLoop, Leftward]
    dsimp only
    rw [if_pos hr, if_pos hr, zero_sub, zero_add]
    generalize hm : scan stabs type (-1) (r / 2) = m at *
    by_cases hneg : m < 0
    · rw [if_pos hneg]
      refine iff_of_false (hstay _ _ _ _ (by omega)) ?_
      rintro (⟨-, hpos, -⟩ | ⟨hzero, -⟩) <;> omega
    rw [if_neg hneg]
    by_cases hlt : (stabs m).nValue < addr
    · rw [if_pos hlt]
      refine iff_of_false (hstay _ _ _ _ (by omega)) ?_
      rintro (⟨hgt, -⟩ | ⟨-, hgt | ⟨heq, -⟩⟩)
      · exact absurd hgt (BitVec.not_lt.2 (BitVec.le_of_lt hlt))
      · exact absurd hgt (BitVec.not_lt.2 (BitVec.le_of_lt hlt))
      · rw [heq] at hlt
        exact absurd hlt (BitVec.lt_irrefl _)
    rw [if_neg hlt]
    by_cases hgt : (stabs m).nValue > addr
    · rw [if_pos hgt]
      by_cases hzero : m = 0
      · rw [hzero, stabLoop, if_neg (show ¬ (0 : Int) ≤ 0 - 1 by omega)]
        exact iff_of_true rfl (Or.inr ⟨rfl, Or.inl (hzero ▸ hgt)⟩)
      · rw [ih (m - 1).toNat (by omega) true left (show 0 ≤ m - 1 by omega) rfl]
        constructor
        · intro h'
          exact Or.inl ⟨hgt, by omega, h'⟩
        · rintro (⟨-, -, h'⟩ | ⟨h', -⟩)
          · exact h'
          · exact absurd h' hzero
    rw [if_neg hgt]
    have heq : (stabs m).nValue = addr := BitVec.le_antisymm (BitVec.not_lt.1 hgt) (BitVec.not_lt.1 hlt)
    by_cases hzero : m = 0
    · -- an exact match of the first entry: `addr++` makes it the largest address or one above the entry
      rw [hzero] at hm heq ⊢
      rw [stabLoop]
      dsimp only
      rw [if_pos hr, zero_sub, zero_add, hm, if_neg (lt_irrefl _), heq]
      by_cases hmax : addr = 0xffffffff#32
      · rw [hmax, if_neg (by decide), if_pos (by decide), stabLoop, if_neg (show ¬ (0 : Int) ≤ 0 - 1 by omega)]
        exact iff_of_true rfl (Or.inr ⟨rfl, Or.inr ⟨rfl, rfl⟩⟩)
      · rw [if_pos (show addr < addr + 1#32 by bv_omega)]
        refine iff_of_false (hstay _ _ _ _ (by omega)) ?_
        rintro (⟨-, hpos, -⟩ | ⟨-, hgt' | ⟨-, hmax'⟩⟩)
        · exact absurd hpos (lt_irrefl _)
        · exact absurd hgt' (BitVec.lt_irrefl _)
        · exact absurd hmax' hmax
    · refine iff_of_false (hstay _ _ _ _ (by omega)) ?_
      rintro (⟨h', -⟩ | ⟨h', -⟩)
      · exact absurd h' hgt
      · exact absurd h' hzero

/-! ## What follows the searches -/

theorem toFile_bounds (t : StabTab) (lfile lline : Int) : (t.toFile lfile lline).1 ≤ lline ∧
    ∀ x ∈ (t.toFile lfile lline).2, lfile ≤ x.1 ∧ x.1 ≤ lline := by
  fun_induction StabTab.toFile t lfile lline with
  | case1 lline h hsol => simp [h]
  | case2 lline h hsol hso r ih =>
    have hr : r.1 ≤ lline - 1 := ih.1
    refine ⟨by omega, fun x hx => ?_⟩
    rcases List.mem_cons.1 hx with rfl | hx
    · exact ⟨h, le_rfl⟩
    · have := ih.2 x hx
      omega
  | case3 lline h hsol hso hv r ih =>
    have hr : r.1 ≤ lline - 1 := ih.1
    refine ⟨by omega, fun x hx => ?_⟩
    rcases List.mem_cons.1 hx with rfl | hx
    · exact ⟨h, le_rfl⟩
    · rcases List.mem_cons.1 hx with rfl | hx
      · exact ⟨h, le_rfl⟩
      · have := ih.2 x hx
        omega
  | case4 lline h hsol hso hv => simp [h]
  | case5 lline h => simp

theorem args_bounds (t : StabTab) (lline rfun : Int) : ∀ x ∈ (t.args lline rfun).2, lline ≤ x.1 ∧ x.1 < rfun := by
  fun_induction StabTab.args t lline rfun with
  | case1 lline h hp r ih =>
    intro x hx
    rcases List.mem_cons.1 hx with rfl | hx
    · exact ⟨le_rfl, h⟩
    · have := ih x hx
      omega
  | case2 lline h hp => simp [h]
  | case3 lline h => simp

theorem name_points (t : StabTab) (i : Int) : t.Points (t.name i .unknown) := by
  unfold StabTab.name
  split
  · rename_i hlt
    show (t.stabstr + (t.stabs i).nStrx - t.stabstr).toNat < _
    rwa [BitVec.add_comm, BitVec.add_sub_cancel]
  · trivial

theorem describe_inside (t : StabTab) (addr : Word) (lfile lfun rfun : Int) (hfile : 0 ≤ lfile) (hfile' : lfile < t.n)
    (hfun : lfun ≤ rfun → 0 ≤ lfun ∧ rfun < t.n) : t.Inside (t.describe addr lfile lfun rfun) := by
  have hline : (if lfun ≤ rfun then lfun else lfile) < t.n := by
    split
    · have := hfun ‹_›
      omega
    · exact hfile'
  unfold StabTab.describe
  dsimp only
  generalize (if lfun ≤ rfun then lfun else lfile) = lline at hline ⊢
  obtain ⟨hto, hreads⟩ := toFile_bounds t lfile lline
  constructor
  · intro x hx
    rcases List.mem_append.1 hx with hx | hx
    · rcases List.mem_append.1 hx with hx | hx
      · rcases List.mem_append.1 hx with hx | hx
        · split at hx
          · have := hfun ‹_›
            rcases List.mem_cons.1 hx with rfl | hx
            · exact ⟨this.1, by show lfun < _; omega⟩
            · rw [List.mem_singleton.1 hx]
              exact ⟨this.1, by show lfun < _; omega⟩
          · simp at hx
        · have := hreads x hx
          omega
      · split at hx
        · rw [List.mem_singleton.1 hx]
          exact ⟨hfile.trans ‹_›, lt_of_le_of_lt hto hline⟩
        · simp at hx
    · split at hx
      · have := args_bounds t _ _ x hx
        have := hfun (le_of_lt ‹_›)
        omega
      · simp at hx
  · dsimp only
    split
    · exact name_points t _
    · trivial
  · dsimp only
    split
    · exact name_points t _
    · trivial

/-! ## The tables are not left -/

/-- The string table is empty or does not end in NUL; the call returns before the search. -/
def StabTab.BadStrings (t : StabTab) : Prop := t.stabstrEnd ≤ t.stabstr ∨ t.mem (t.stabstrEnd - 1#32) ≠ 0#8

/-- The search of a table without entries. -/
theorem search_empty (t : StabTab) (addr : Word) (hn : ¬ 0 ≤ t.n - 1) :
    (stabBinsearch t.toStabs nSo 0 (t.n - 1) addr).1 = 0 ∧ binsearchReads t.toStabs nSo 0 (t.n - 1) addr = [] := by
  have hloop : stabLoop t.toStabs nSo ⟨0, t.n - 1, false, 0, t.n - 1, addr⟩ = ⟨0, t.n - 1, false, 0, t.n - 1, addr⟩ := by
    rw [stabLoop, if_neg hn]
  unfold stabBinsearch binsearchReads
  dsimp only
  rw [hloop, loopReads, if_neg hn]
  exact ⟨rfl, rfl⟩

/-- The second search, when the first ran off the left end. -/
theorem reads_before {file : Int × Int} (pre : List StabRead) (post : EipRun) (h₁ : file.1 = -1) (h₂ : file.2 = -1) :
    ¬ t.Inside { post with
      reads := pre ++ binsearchReads t.toStabs nFun file.1 file.2 addr ++ post.reads
      strReads := (t.stabstrEnd - 1#32) :: post.strReads } := by
  intro h
  rw [h₁, h₂] at h
  have hmem : ((-1, .type) : StabRead) ∈ binsearchReads t.toStabs nFun (-1) (-1) addr := by
    simpa using middle_mem t.toStabs nFun addr (le_refl (-1 : Int))
  have := h.reads (-1, .type) (List.mem_append_left _ (List.mem_append_right _ hmem))
  exact absurd this.1 (by decide)

/-- What follows the search for the file, when that leaves entries of the table. -/
theorem funs_inside (t : StabTab) (addr : Word) {file : Int × Int} {pre : List StabRead}
    (hpre : ∀ x ∈ pre, 0 ≤ x.1 ∧ x.1 < t.n) (hpos : 1 ≤ file.1) (hle : file.1 ≤ file.2) (hlt : file.2 < t.n) (fn : Int × Int)
    (hfn : fn = stabBinsearch t.toStabs nFun file.1 file.2 addr) : t.Inside
    { t.describe addr file.1 fn.1 fn.2 with
      reads := pre ++ binsearchReads t.toStabs nFun file.1 file.2 addr ++ (t.describe addr file.1 fn.1 fn.2).reads
      strReads := (t.stabstrEnd - 1#32) :: (t.describe addr file.1 fn.1 fn.2).strReads } := by
  have hreads := (binsearch_bounds t.toStabs nFun addr hle).2
  have hdesc := describe_inside t addr file.1 fn.1 fn.2 (by omega) (by omega) fun h => by
    subst hfn
    obtain ⟨hge, hlast⟩ := binsearch_within t.toStabs nFun addr hle h
    omega
  refine ⟨fun x hx => ?_, hdesc.file, hdesc.fnName⟩
  rcases List.mem_append.1 hx with hx | hx
  · rcases List.mem_append.1 hx with hx | hx
    · exact hpre x hx
    · have := hreads x hx
      omega
  · exact hdesc.reads x hx

/-- What the call reads and stores is inside the tables exactly when the search for the file does not run off the left end
of the stab table. -/
theorem debuginfo_inside_iff (t : StabTab) (addr : Word) :
    t.Inside (t.debuginfo addr) ↔ t.BadStrings ∨ ¬ Leftward t.toStabs nSo addr (t.n - 1) := by
  unfold StabTab.debuginfo StabTab.BadStrings
  dsimp only
  by_cases hempty : t.stabstrEnd ≤ t.stabstr
  · rw [if_pos hempty]
    exact iff_of_true ⟨by simp, trivial, trivial⟩ (Or.inl (Or.inl hempty))
  rw [if_neg hempty]
  by_cases hnul : t.mem (t.stabstrEnd - 1#32) ≠ 0#8
  · rw [if_pos hnul]
    exact iff_of_true ⟨by simp, trivial, trivial⟩ (Or.inl (Or.inr hnul))
  rw [if_neg hnul]
  have hbad : ¬ (t.stabstrEnd ≤ t.stabstr ∨ t.mem (t.stabstrEnd - 1#32) ≠ 0#8) := by
    rintro (h | h)
    · exact hempty h
    · exact hnul h
  rw [or_iff_right hbad]
  by_cases hn : 0 ≤ t.n - 1
  · obtain ⟨hany, hreads⟩ := binsearch_bounds t.toStabs nSo addr hn
    have hiff := right_iff_leftward t.toStabs nSo addr false 0 hn
    obtain ⟨-, hright⟩ := loop_right t.toStabs nSo ⟨0, t.n - 1, false, 0, t.n - 1, addr⟩ le_rfl
    have hleft := loop_left t.toStabs nSo ⟨0, t.n - 1, false, 0, t.n - 1, addr⟩
    have hfirst : ∀ x ∈ binsearchReads t.toStabs nSo 0 (t.n - 1) addr, 0 ≤ x.1 ∧ x.1 < t.n := fun x hx => by
      have := hreads x hx
      omega
    cases hm : (stabLoop t.toStabs nSo ⟨0, t.n - 1, false, 0, t.n - 1, addr⟩).anyMatches with
    | false =>
      -- no entry of the type: `lfile` is still 0, and the call returns
      rw [hm] at hright hleft
      have hzero : (stabBinsearch t.toStabs nSo 0 (t.n - 1) addr).1 = 0 := by
        unfold stabBinsearch
        dsimp only
        rw [hm]
        exact hleft.resolve_right (by simp)
      rw [if_pos hzero]
      refine iff_of_true ⟨hfirst, trivial, trivial⟩ fun h => ?_
      have h₁ := hiff.2 h
      have h₂ := hright.resolve_right (by simp)
      dsimp only at h₂
      omega
    | true =>
      obtain ⟨hge, hge', hle, hlast, heq⟩ := hany hm
      by_cases hoff : (stabLoop t.toStabs nSo ⟨0, t.n - 1, false, 0, t.n - 1, addr⟩).right = -1
      · -- both bounds are -1, which is not 0, so the search for the function begins at entry -1
        rw [if_neg (by omega)]
        exact iff_of_false (reads_before _ _ (by omega) (heq.trans hoff)) (not_not_intro (hiff.1 hoff))
      · have hnot : ¬ Leftward t.toStabs nSo addr (t.n - 1) := fun h => hoff (hiff.2 h)
        refine iff_of_true ?_ hnot
        split
        · exact ⟨hfirst, trivial, trivial⟩
        · rename_i hne
          exact funs_inside t addr hfirst (by omega) hle (by omega) _ rfl
  · have hleft : ¬ Leftward t.toStabs nSo addr (t.n - 1) := by
      unfold Leftward
      rw [if_neg hn]
      exact not_false
    obtain ⟨hzero, hnone⟩ := search_empty t addr hn
    rw [if_pos hzero, hnone]
    exact iff_of_true ⟨by simp, trivial, trivial⟩ hleft

/-- One entry, of a file that begins above the address; the string table is a NUL. -/
def lateFile : StabTab where
  stabs _ := { nType := 0x64#8, nValue := 0x100#32, nStrx := 0#32 }
  n := 1
  stabstr := 0x1000#32
  stabstrEnd := 0x1001#32
  mem _ := 0#8

theorem debuginfo_reads_before : ¬ ∀ (t : StabTab) (addr : Word), t.Inside (t.debuginfo addr) := by
  intro h
  have hscan : ∀ i, (lateFile.toStabs i).Is nSo := fun _ => rfl
  have hzero : scan lateFile.toStabs nSo (-1) 0 = 0 := by
    rw [scan, if_neg (by simp [hscan])]
  have hloop : stabLoop lateFile.toStabs nSo ⟨0, 0, false, 0, 0, 0x10#32⟩ = ⟨0, -1, true, 0, -1, 0x10#32⟩ := by
    rw [stabLoop, if_pos le_rfl]
    simp only [zero_sub, add_zero, Int.zero_ediv, hzero]
    rw [if_neg (by decide), if_neg (by decide), if_pos (by decide), stabLoop, if_neg (by decide)]
  have hfile : stabBinsearch lateFile.toStabs nSo 0 0 0x10#32 = (-1, -1) := by
    unfold stabBinsearch
    dsimp only
    rw [hloop]
    dsimp only
    rw [scan_of_le (by decide)]
    rfl
  have := h lateFile 0x10#32
  unfold StabTab.debuginfo at this
  dsimp only at this
  rw [if_neg (by decide), if_neg (by decide), show lateFile.n - 1 = 0 from rfl, hfile, if_neg (by decide)] at this
  exact reads_before _ _ rfl rfl this

end Jos
