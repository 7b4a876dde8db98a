/-
The output of user programs: `vcprintf` of lib/printf.c collects bytes in a buffer and prints them
with `sys_cputs`, which checks the buffer and prints it with `cprintf("%.*s", len, s)`. `vprintfmt`
reads a byte before it tests the precision and stops at a NUL.
-/
import Jos.Lib.Bytes
import Jos.Fmt.Sinks
import Jos.Sys.MemCheck
import Jos.Run.Smp
import Mathlib.Data.List.TakeWhile

namespace Jos

open Lib Kern

/-! ## What the loop reads -/

variable {mem : Word → Option (BitVec 8)} {p va len str : Word} {precision : Int} {n : Nat} {s : State}

/-- The loop comes to the byte `j`: those before it are not NUL and the precision allows them. -/
def Goes (mem : Word → Option (BitVec 8)) (p : Word) (precision : Int) (j : Nat) : Prop :=
  (∀ i < j, ∃ b, mem (p + BitVec.ofNat 32 i) = some b ∧ b ≠ 0#8) ∧ (precision < 0 ∨ (j : Int) ≤ precision)

theorem goes_zero (h : precision < 0 ∨ 0 ≤ precision) : Goes mem p precision 0 := ⟨by simp, h.imp id (by simp)⟩

theorem add_succ (p : Word) (j : Nat) : p + 1#32 + BitVec.ofNat 32 j = p + BitVec.ofNat 32 (j + 1) := by
  rw [BitVec.add_assoc, Nat.add_comm, BitVec.ofNat_add]

theorem char_ne_zero (b : Byte) : b.toInt ≠ 0 ↔ b ≠ 0#8 := by
  rw [ne_eq, ne_eq, ← BitVec.toInt_inj]
  simp

theorem goes_succ {b : BitVec 8} {j : Nat} (hb : mem p = some b) : Goes mem p precision (j + 1) ↔
    (b.toInt ≠ 0 ∧ (precision < 0 ∨ 0 ≤ precision - 1)) ∧
      Goes mem (p + 1#32) (if precision < 0 then precision else precision - 1) j := by
  rw [char_ne_zero]
  unfold Goes
  constructor
  · rintro ⟨hall, hp⟩
    have h0 := hall 0 (by omega)
    rw [BitVec.add_zero, hb] at h0
    obtain ⟨_, h0, hb0⟩ := h0
    cases h0
    refine ⟨⟨hb0, by omega⟩, fun i hi => ?_, by split <;> omega⟩
    rw [add_succ]
    exact hall (i + 1) (by omega)
  · rintro ⟨⟨hb0, hp⟩, hall, hp'⟩
    refine ⟨fun i hi => ?_, by split at hp' <;> omega⟩
    cases i with
    | zero => rw [BitVec.add_zero]; exact ⟨b, hb, hb0⟩
    | succ i => rw [← add_succ]; exact hall i (by omega)

theorem goes_next {b : BitVec 8} {j : Nat} (hb : mem p = some b) (hgo : b.toInt ≠ 0 ∧ (precision < 0 ∨ 0 ≤ precision - 1)) :
    Goes mem p precision (j + 1) ↔ Goes mem (p + 1#32) (if precision < 0 then precision else precision - 1) j := by
  rw [goes_succ hb]
  exact and_iff_right hgo

theorem goes_stop {b : BitVec 8} {j : Nat} (hb : mem p = some b) (hgo : ¬ (b.toInt ≠ 0 ∧ (precision < 0 ∨ 0 ≤ precision - 1))) :
    ¬ Goes mem p precision (j + 1) := by
  rw [goes_succ hb]
  exact fun h => hgo h.1

theorem strLoop_fault (hb : mem p = none) : strLoop mem (n + 1) p precision = [.read p, .fault] := by rw [strLoop, hb]

theorem strLoop_next {b : Byte} (hb : mem p = some b) (hgo : b.toInt ≠ 0 ∧ (precision < 0 ∨ 0 ≤ precision - 1)) :
    strLoop mem (n + 1) p precision =
      .read p :: .putch b.toInt :: strLoop mem n (p + 1#32) (if precision < 0 then precision else precision - 1) := by
  rw [strLoop, hb]
  exact if_pos hgo

theorem strLoop_stop {b : Byte} (hb : mem p = some b) (hgo : ¬ (b.toInt ≠ 0 ∧ (precision < 0 ∨ 0 ≤ precision - 1))) :
    strLoop mem (n + 1) p precision = [.read p, .done] := by
  rw [strLoop, hb]
  exact if_neg hgo

/-- The loop reads the bytes that it comes to, and faults at one that is not mapped. -/
theorem read_mem_strLoop (hp : precision < 0 ∨ 0 ≤ precision) :
    .read va ∈ strLoop mem n p precision ↔ ∃ j < n, va = p + BitVec.ofNat 32 j ∧ Goes mem p precision j := by
  induction n generalizing p precision with
  | zero => simp [strLoop]
  | succ n ih =>
    have hzero : (∃ j < n + 1, va = p + BitVec.ofNat 32 j ∧ Goes mem p precision j) ↔
        va = p ∨ ∃ j < n, va = p + BitVec.ofNat 32 (j + 1) ∧ Goes mem p precision (j + 1) := by
      constructor
      · rintro ⟨j, hj, rfl, hg⟩
        cases j with
        | zero => exact Or.inl (BitVec.add_zero p)
        | succ j => exact Or.inr ⟨j, by omega, rfl, hg⟩
      · rintro (rfl | ⟨j, hj, rfl, hg⟩)
        · exact ⟨0, by omega, (BitVec.add_zero va).symm, goes_zero hp⟩
        · exact ⟨j + 1, by omega, rfl, hg⟩
    rw [hzero]
    cases hb : mem p with
    | none =>
      have hno : ¬ ∃ j < n, va = p + BitVec.ofNat 32 (j + 1) ∧ Goes mem p precision (j + 1) := by
        rintro ⟨j, -, -, hg, -⟩
        obtain ⟨b, h0, -⟩ := hg 0 (by omega)
        rw [BitVec.add_zero, hb] at h0
        cases h0
      rw [strLoop_fault hb]
      simp [hno]
    | some b =>
      by_cases hgo : b.toInt ≠ 0 ∧ (precision < 0 ∨ 0 ≤ precision - 1)
      · rw [strLoop_next hb hgo, List.mem_cons, List.mem_cons, ih (by split <;> omega)]
        simp only [goes_next hb hgo, add_succ, PrintEvent.read.injEq, reduceCtorEq, false_or]
      · rw [strLoop_stop hb hgo]
        simp [goes_stop hb hgo]

theorem fault_mem_strLoop (hp : precision < 0 ∨ 0 ≤ precision) :
    .fault ∈ strLoop mem n p precision ↔ ∃ j < n, mem (p + BitVec.ofNat 32 j) = none ∧ Goes mem p precision j := by
  induction n generalizing p precision with
  | zero => simp [strLoop]
  | succ n ih =>
    have hzero : (∃ j < n + 1, mem (p + BitVec.ofNat 32 j) = none ∧ Goes mem p precision j) ↔
        mem p = none ∨ ∃ j < n, mem (p + BitVec.ofNat 32 (j + 1)) = none ∧ Goes mem p precision (j + 1) := by
      constructor
      · rintro ⟨j, hj, hm, hg⟩
        cases j with
        | zero => rw [BitVec.add_zero] at hm; exact Or.inl hm
        | succ j => exact Or.inr ⟨j, by omega, hm, hg⟩
      · rintro (hm | ⟨j, hj, hm, hg⟩)
        · exact ⟨0, by omega, by rw [BitVec.add_zero]; exact hm, goes_zero hp⟩
        · exact ⟨j + 1, by omega, hm, hg⟩
    rw [hzero]
    cases hb : mem p with
    | none =>
      rw [strLoop_fault hb]
      simp
    | some b =>
      by_cases hgo : b.toInt ≠ 0 ∧ (precision < 0 ∨ 0 ≤ precision - 1)
      · rw [strLoop_next hb hgo, List.mem_cons, List.mem_cons, ih (by split <;> omega)]
        simp only [goes_next hb hgo, add_succ, reduceCtorEq, false_or]
      · rw [strLoop_stop hb hgo]
        simp [goes_stop hb hgo]

/-- The host that keeps a record of what is read and printed; a byte that is not mapped cannot be read. -/
def traceHost (mem : Word → Option Byte) : Host (List PrintEvent) where
  putch ch evs := evs ++ [.putch ch.toInt]
  fetch _ := failure
  load a := fun evs => (mem a).map fun b => (b, evs ++ [.read a])

/-- A precision is counted down unless it is negative. -/
theorem toInt_counted {precision : Word} : (if 0 ≤ precision.toInt then precision - 1#32 else precision).toInt =
    if precision.toInt < 0 then precision.toInt else precision.toInt - 1 := by
  by_cases h : 0 ≤ precision.toInt
  · rw [if_pos h, if_neg (not_lt.2 h)]
    rw [BitVec.toInt_eq_toNat_cond] at h ⊢
    rw [BitVec.toInt_eq_toNat_cond]
    split at h <;> split <;> bv_omega
  · rw [if_neg h, if_pos (not_le.1 h)]

/-- The test that ends the loop. -/
theorem stops_iff (b : Byte) (precision : Word) :
    (b = 0#8 ∨ 0 ≤ precision.toInt ∧ (if 0 ≤ precision.toInt then precision - 1#32 else precision).toInt < 0) ↔
      ¬ (b.toInt ≠ 0 ∧ (precision.toInt < 0 ∨ 0 ≤ precision.toInt - 1)) := by
  rw [toInt_counted, char_ne_zero, not_and_or, not_not]
  refine or_congr_right ?_
  split <;> omega

/-- The events are those of the loop of `vprintfmt`, which returns exactly when none of its reads faults. -/
theorem putLoop_trace (p precision width : Word) (evs : List PrintEvent) :
    ((putLoop (traceHost mem) false n (.mem p) precision width).run evs).map (·.2) =
      if .done ∈ strLoop mem n p precision.toInt then
        some (evs ++ (strLoop mem n p precision.toInt).filter (· ≠ .done)) else none := by
  induction n generalizing p precision width evs with
  | zero => rfl
  | succ n ih =>
    unfold putLoop
    cases hb : mem p with
    | none =>
      have hread : ((traceHost mem).loadAt (.mem p)).run evs = none := by
        show (mem p).map _ = none
        rw [hb, Option.map_none]
      rw [StateT.run_bind, hread, strLoop_fault hb, if_neg (by simp)]
      rfl
    | some b =>
      have hread : ((traceHost mem).loadAt (.mem p)).run evs = some (b, evs ++ [.read p]) := by
        show (mem p).map _ = _
        rw [hb, Option.map_some]
      have hput : ((traceHost mem).put (charInt b)).run (evs ++ [.read p]) = some ((), evs ++ [.read p] ++ [.putch b.toInt]) := by
        show some ((), evs ++ [.read p] ++ [.putch (charInt b).toInt]) = _
        rw [show (charInt b).toInt = b.toInt from BitVec.toInt_signExtend_of_le (by decide)]
      rw [run_bind_of hread]
      dsimp only
      by_cases hgo : b.toInt ≠ 0 ∧ (precision.toInt < 0 ∨ 0 ≤ precision.toInt - 1)
      · rw [strLoop_next hb hgo, if_neg fun h => (stops_iff b precision).1 h hgo, if_neg (by simp), run_bind_of hput]
        refine (ih _ _ _ _).trans ?_
        rw [toInt_counted]
        simp
      · rw [strLoop_stop hb hgo, if_pos ((stops_iff b precision).2 hgo), if_pos (by simp)]
        rfl

/-- A precision that comes from a 32-bit length allows all its bytes. -/
theorem precision_len (len : Word) : (len.toInt < 0 ∨ 0 ≤ len.toInt) ∧
    ∀ j ≤ len.toNat, len.toInt < 0 ∨ (j : Int) ≤ len.toInt := by
  have hlt := len.isLt
  rw [BitVec.toInt_eq_toNat_cond]
  constructor
  · omega
  · intro j hj
    split <;> omega

/-! ## sys_cputs -/

/-- `cprintf("%.*s", len, s)` reads user memory only in `[s, s + len)`, and does not fault. -/
def ReadsOnly (mem : Word → Option (BitVec 8)) (len str : Word) : Prop :=
  ∀ n, .fault ∉ cprintfStr mem len str n ∧
    ∀ va, .read va ∈ cprintfStr mem len str n → ∃ i < len.toNat, va = str + BitVec.ofNat 32 i

/-- What `sys_cputs` prints ends at a NUL in the string. -/
def NulWithin (mem : Word → Option (BitVec 8)) (len str : Word) : Prop :=
  ∃ i < len.toNat, mem (str + BitVec.ofNat 32 i) = some 0#8 ∧ ∀ j < i, mem (str + BitVec.ofNat 32 j) ≠ none

theorem readsOnly_null : ReadsOnly mem len 0#32 := by
  intro n
  unfold cprintfStr
  rw [if_pos rfl]
  refine ⟨fun hf => ?_, fun va hr => ?_⟩
  · rw [List.mem_filter] at hf
    obtain ⟨j, -, hnone, -⟩ := (fault_mem_strLoop (precision_len len).1).1 hf.1
    cases hnone
  · rw [List.mem_filter] at hr
    have hno := of_decide_eq_true hr.2
    exact absurd rfl (hno va)

theorem NulWithin.readsOnly (h : NulWithin mem len str) (hs : str ≠ 0#32) : ReadsOnly mem len str := by
  obtain ⟨i, hi, hnul, hmapped⟩ := h
  have hstop : ∀ j, Goes mem str len.toInt j → j ≤ i := by
    intro j hg
    by_contra hc
    obtain ⟨b, hb, hne⟩ := hg.1 i (by omega)
    rw [hnul] at hb
    cases hb
    exact hne rfl
  intro n
  unfold cprintfStr
  rw [if_neg hs]
  refine ⟨fun hf => ?_, fun va hr => ?_⟩
  · obtain ⟨j, -, hnone, hg⟩ := (fault_mem_strLoop (precision_len len).1).1 hf
    have hji := hstop j hg
    by_cases hj : j = i
    · rw [hj, hnul] at hnone; cases hnone
    · exact hmapped j (by omega) hnone
  · obtain ⟨j, -, rfl, hg⟩ := (read_mem_strLoop (precision_len len).1).1 hr
    have hji := hstop j hg
    exact ⟨j, by omega, rfl⟩

/-- A string without a NUL is read beyond its end, or faults. -/
theorem ReadsOnly.nulWithin (h : ReadsOnly mem len str) (hs : str ≠ 0#32) : NulWithin mem len str := by
  by_contra hno
  have htrace : ∀ n, cprintfStr mem len str n = strLoop mem n str len.toInt := fun n => if_neg hs
  -- every byte of the string is there and not NUL
  have hall : ∀ j ≤ len.toNat, ∀ i < j, ∃ b, mem (str + BitVec.ofNat 32 i) = some b ∧ b ≠ 0#8 := by
    intro j
    induction j with
    | zero => intro _ i hi; omega
    | succ j ih =>
      intro hj i hi
      have ih := ih (by omega)
      by_cases hij : i < j
      · exact ih i hij
      have hij : i = j := by omega
      subst hij
      cases hb : mem (str + BitVec.ofNat 32 i) with
      | none =>
        have hf := (fault_mem_strLoop (n := i + 1) (precision_len len).1).2
          ⟨i, by omega, hb, ih, (precision_len len).2 i (by omega)⟩
        rw [← htrace] at hf
        exact absurd hf (h (i + 1)).1
      | some b =>
        refine ⟨b, rfl, ?_⟩
        rintro rfl
        refine hno ⟨i, by omega, hb, fun j hj hnone => ?_⟩
        obtain ⟨b, hb, -⟩ := ih j hj
        rw [hnone] at hb
        cases hb
  have hr : .read (str + len) ∈ strLoop mem (len.toNat + 1) str _ := (read_mem_strLoop (precision_len len).1).2
    ⟨len.toNat, by omega, by rw [BitVec.ofNat_toNat, BitVec.setWidth_eq], hall _ (le_refl _), (precision_len len).2 _ (le_refl _)⟩
  rw [← htrace] at hr
  obtain ⟨i, hi, heq⟩ := (h (len.toNat + 1)).2 _ hr
  have hlen : len = BitVec.ofNat 32 i := by
    have hlt := len.isLt
    generalize BitVec.ofNat 32 i = x at heq
    bv_omega
  have hi' : len.toNat = i := by
    have hlt := len.isLt
    rw [hlen, BitVec.toNat_ofNat, Nat.mod_eq_of_lt (by omega)]
  omega

/-- The print of `sys_cputs` keeps to `[s, s + len)` if and only if the string holds a NUL, or is the null
pointer; the check of the range does not matter. -/
theorem sysCputs_reads_iff (s : State) (str len : Word) : ReadsOnly s.fetch len str ↔ str = 0#32 ∨ NulWithin s.fetch len str := by
  constructor
  · intro h
    by_cases hs : str = 0#32
    · exact Or.inl hs
    · exact Or.inr (h.nulWithin hs)
  · rintro (rfl | h)
    · exact readsOnly_null
    · by_cases hs : str = 0#32
      · rw [hs]; exact readsOnly_null
      · exact h.readsOnly hs

/-- A string of length 0 at an address that is not mapped passes the check, and the kernel faults. -/
theorem sysCputs_faults : (userMemCheck 0 utext 0#32 (pteU ||| pteU)).run soloRun = .ok 0 soloRun ∧
    (sysCputs utext 0#32).run soloRun = .error .panic soloRun ∧ ¬ ReadsOnly soloRun.fetch 0#32 utext := by
  have hcur : soloRun.curenv = some 0 := rfl
  have hcheck : (userMemCheck 0 utext 0#32 (pteU ||| pteU)).run soloRun = .ok 0 soloRun := by
    rw [run_userMemCheck (d := 128) rfl, userMemCheckLoop, if_neg (by decide)]
    rfl
  have hnone : soloRun.fetch utext = none := by decide +kernel
  have hfault : PrintEvent.fault ∈ cprintfStr soloRun.fetch 0#32 utext (2 ^ 32) := by
    unfold cprintfStr
    rw [if_neg (by decide)]
    exact (fault_mem_strLoop (precision_len 0#32).1).2
      ⟨0, by decide, by rw [BitVec.add_zero]; exact hnone, goes_zero (precision_len 0#32).1⟩
  refine ⟨hcheck, ?_, fun h => (h (2 ^ 32)).1 hfault⟩
  unfold sysCputs userMemAssert
  rw [run_bind_ok (EStateM.run_get soloRun), hcur, run_bind_ok (run_deref_some 0), bind_assoc, run_bind_ok hcheck,
    if_neg (by decide), run_bind_ok (EStateM.run_pure _ _)]
  unfold cprintf
  rw [run_bind_ok (EStateM.run_get soloRun), if_pos hfault]
  rfl

/-! ## The user library -/

/-- `vcprintf` of lib/printf.c when `vprintfmt` emits the bytes `w`: the strings that go to `sys_cputs`. -/
def vcprintf (w : List Byte) : List (List Byte) :=
  (w.foldl (fun b c => b.putch (c.setWidth 32)) ({} : PrintBuf)).sysCputs.calls

/-- The bytes that `cputchar` gets. -/
def putchars (evs : List PrintEvent) : List (BitVec 8) :=
  evs.filterMap fun ev => match ev with
    | .putch ch => some (BitVec.ofInt 8 ch)
    | _ => none

/-- The buffer at `buf` holds the string `bs`; the byte after it is there too. -/
def HoldsStr (mem : Word → Option (BitVec 8)) (buf : Word) (bs : List (BitVec 8)) : Prop :=
  (∀ i (hi : i < bs.length), mem (buf + BitVec.ofNat 32 i) = some (bs.get ⟨i, hi⟩)) ∧
    mem (buf + BitVec.ofNat 32 bs.length) ≠ none

/-- The kernel prints a string up to its first NUL, and the print ends. -/
theorem strLoop_prints {bs : List (BitVec 8)} (h : HoldsStr mem p bs) :
    putchars (strLoop mem (bs.length + 1) p bs.length) = bs.takeWhile (· ≠ 0#8) ∧
      .done ∈ strLoop mem (bs.length + 1) p bs.length := by
  induction bs generalizing p with
  | nil =>
    obtain ⟨-, hend⟩ := h
    rw [List.length_nil, BitVec.add_zero] at hend
    obtain ⟨b, hb⟩ := Option.ne_none_iff_exists'.1 hend
    unfold strLoop
    rw [List.length_nil, hb]
    simp [putchars]
  | cons b bs ih =>
    obtain ⟨hbytes, hend⟩ := h
    have hb : mem p = some b := by
      have h0 := hbytes 0 (by simp)
      rw [BitVec.add_zero] at h0
      exact h0
    have htail : HoldsStr mem (p + 1#32) bs := by
      refine ⟨fun i hi => ?_, ?_⟩
      · rw [add_succ]
        exact hbytes (i + 1) (by simpa using hi)
      · rw [add_succ]
        exact hend
    obtain ⟨ih₁, ih₂⟩ := ih htail
    have hne := char_ne_zero b
    by_cases hz : b = 0#8
    · rw [strLoop_stop hb fun h => hne.1 h.1 hz, hz]
      simp [putchars]
    · have hprec : (((b :: bs).length : Nat) : Int) - 1 = bs.length := by rw [List.length_cons]; omega
      rw [strLoop_next hb ⟨hne.2 hz, Or.inr (by omega)⟩, if_neg (by omega), hprec]
      constructor
      · have hcons : putchars (.read p :: .putch b.toInt :: strLoop mem (bs.length + 1) (p + 1#32) bs.length) =
            b :: putchars (strLoop mem (bs.length + 1) (p + 1#32) bs.length) := by
          simp [putchars]
        rw [List.length_cons, hcons, ih₁, List.takeWhile_cons, if_pos (by simpa using hz)]
      · exact List.mem_cons_of_mem _ (List.mem_cons_of_mem _ ih₂)

/-- A character waits, or is the last of the string that goes out. -/
theorem putch_cases (b : PrintBuf) (ch : Word) :
    b.idx + 1 = 255 ∧ (b.putch ch).idx = 0 ∧ (b.putch ch).calls = b.calls ++ [b.text ++ [ch.setWidth 8]] ∨
      b.idx + 1 ≠ 255 ∧ (b.putch ch).idx = b.idx + 1 ∧ (b.putch ch).calls = b.calls ∧
        (b.putch ch).text = b.text ++ [ch.setWidth 8] := by
  have htext : (List.range (b.idx + 1)).map (Function.update b.buf b.idx (ch.setWidth 8)) = b.text ++ [ch.setWidth 8] := by
    rw [List.range_succ, List.map_append, List.map_singleton, Function.update_self]
    refine congrArg (· ++ _) (List.map_congr_left fun j hj => ?_)
    rw [Function.update_of_ne (List.mem_range.1 hj).ne]
  unfold PrintBuf.putch
  dsimp only
  by_cases hfull : b.idx + 1 = 255
  · rw [if_pos hfull]
    exact Or.inl ⟨hfull, rfl, congrArg (b.calls ++ [·]) htext⟩
  · rw [if_neg hfull]
    exact Or.inr ⟨hfull, rfl, rfl, htext⟩

theorem length_text (b : PrintBuf) : b.text.length = b.idx := by
  unfold PrintBuf.text
  rw [List.length_map, List.length_range]

/-- What went out and what waits is all that was printed; at most 254 bytes wait. -/
theorem foldl_putch (w : List Byte) : ∀ b : PrintBuf, b.idx < 255 → (∀ c ∈ b.calls, c.length ≤ 255) →
    let b' := w.foldl (fun b c => b.putch (c.setWidth 32)) b
    b'.calls.flatten ++ b'.text = b.calls.flatten ++ b.text ++ w ∧ b'.idx < 255 ∧ ∀ c ∈ b'.calls, c.length ≤ 255 := by
  induction w with
  | nil => exact fun b hb hc => ⟨(List.append_nil _).symm, hb, hc⟩
  | cons ch w ih =>
    intro b hb hc
    have hbyte : ((ch.setWidth 32 : Word).setWidth 8 : Byte) = ch := by
      rw [BitVec.setWidth_setWidth_of_le _ (by decide), BitVec.setWidth_eq]
    rcases putch_cases b (ch.setWidth 32) with ⟨hfull, hidx, hcalls⟩ | ⟨hroom, hidx, hcalls, htext⟩
    · have hempty : (b.putch (ch.setWidth 32)).text = [] := List.length_eq_zero_iff.1 (by rw [length_text, hidx])
      obtain ⟨hout, hrest⟩ := ih (b.putch (ch.setWidth 32)) (by omega) fun c hc' => by
        rw [hcalls, List.mem_append, List.mem_singleton] at hc'
        rcases hc' with hc' | rfl
        · exact hc c hc'
        · rw [List.length_append, length_text, List.length_singleton, hfull]
      refine ⟨hout.trans ?_, hrest⟩
      rw [hempty, hcalls, hbyte, List.flatten_append, List.flatten_singleton]
      simp
    · obtain ⟨hout, hrest⟩ := ih (b.putch (ch.setWidth 32)) (by omega) (by rwa [hcalls])
      refine ⟨hout.trans ?_, hrest⟩
      rw [htext, hcalls, hbyte]
      simp

/-- The calls cut the output into strings of at most 255 bytes. -/
theorem vcprintf_chunks (w : List Byte) : (vcprintf w).flatten = w ∧ ∀ c ∈ vcprintf w, c.length ≤ 255 := by
  obtain ⟨hout, hidx, hcalls⟩ := foldl_putch w {} (by decide) (by simp)
  constructor
  · show (_ ++ [_]).flatten = w
    rw [List.flatten_append, List.flatten_singleton, hout]
    rfl
  · intro c hc
    rcases List.mem_append.1 hc with hc | hc
    · exact hcalls c hc
    · rw [List.mem_singleton.1 hc, length_text]
      exact hidx.le

/-- Two buffers hold the same text behind the same calls. -/
def SameText (b c : PrintBuf) : Prop := b.idx = c.idx ∧ b.buf = c.buf ∧ b.calls = c.calls

/-- The calls that a run of `vprintfmt` makes are those of the bytes that it emits. -/
theorem printBuf_calls {mem : Bytes} {fmt : Word} {ap : Nat → Word} {lim : Nat} {w : List Word}
    (h : emitted mem (fun _ => false) lim fmt ap = some w) :
    ∃ r b, PrintBuf.vcprintf lim mem fmt ap = some (r, b) ∧ b.calls = vcprintf (w.map (·.setWidth 8)) := by
  have hbyte : ∀ ch : Word, ((ch.setWidth 8).setWidth 32).setWidth 8 = (ch.setWidth 8 : Byte) := fun ch => by
    rw [BitVec.setWidth_setWidth_of_le _ (by decide), BitVec.setWidth_eq]
  have hput : ∀ (ch : Word) (b c : PrintBuf), SameText b c → SameText (b.putch ch) (c.putch ((ch.setWidth 8).setWidth 32)) := by
    rintro ch b c ⟨hidx, hbuf, hcalls⟩
    unfold PrintBuf.putch
    dsimp only
    rw [hbyte, hidx, hbuf]
    split
    · exact ⟨rfl, rfl, by simp only [PrintBuf.sysCputs, PrintBuf.text, hcalls]⟩
    · exact ⟨rfl, rfl, hcalls⟩
  obtain ⟨b, hr, hb⟩ := emitted_sim (g := PrintBuf.host mem)
    (R := fun w b => SameText b ((w.map (·.setWidth 8)).foldl (fun b c => b.putch (c.setWidth 32)) {})) h
    (fun c w b hb => by
      rw [List.map_append, List.map_singleton, List.foldl_append]
      exact hput c b _ hb)
    (fun _ _ _ _ _ => rfl) (fun _ _ _ _ _ => rfl) (s := {}) ⟨rfl, rfl, rfl⟩
  refine ⟨b.cnt, b.sysCputs, ?_, ?_⟩
  · unfold PrintBuf.vcprintf
    rw [hr]
    rfl
  · obtain ⟨hidx, hbuf, hcalls⟩ := hb
    unfold vcprintf
    simp only [PrintBuf.sysCputs, PrintBuf.text, hidx, hbuf, hcalls]

/-- What the console gets from the calls of `sys_cputs`, each with memory as it is then. -/
def console (mem : Nat → Word → Option (BitVec 8)) (buf : Word) (calls : List (List (BitVec 8))) : List (BitVec 8) :=
  calls.zipIdx.flatMap fun c => putchars (cprintfStr (mem c.2) (BitVec.ofNat 32 c.1.length) buf (c.1.length + 1))

/-- The console gets the output of `vcprintf`, all of it and in order, if and only if there is no NUL in it. -/
theorem vcprintf_delivers_iff {buf : Word} (hbuf : buf ≠ 0#32) (w : List (BitVec 8)) (mem : Nat → Word → Option (BitVec 8))
    (hmem : ∀ c ∈ (vcprintf w).zipIdx, HoldsStr (mem c.2) buf c.1) :
    (∀ c ∈ (vcprintf w).zipIdx, .done ∈ cprintfStr (mem c.2) (BitVec.ofNat 32 c.1.length) buf (c.1.length + 1)) ∧
      (console mem buf (vcprintf w) = w ↔ 0#8 ∉ w) := by
  obtain ⟨hflat, hlen⟩ := vcprintf_chunks w
  have htrace : ∀ c ∈ (vcprintf w).zipIdx, cprintfStr (mem c.2) (BitVec.ofNat 32 c.1.length) buf (c.1.length + 1) =
      strLoop (mem c.2) (c.1.length + 1) buf c.1.length := by
    intro c hc
    have hle := hlen c.1 (List.fst_mem_of_mem_zipIdx hc)
    unfold cprintfStr
    have hint : (BitVec.ofNat 32 c.1.length).toInt = c.1.length := by
      rw [BitVec.toInt_eq_toNat_cond, BitVec.toNat_ofNat, Nat.mod_eq_of_lt (by omega), if_pos (by omega)]
    rw [if_neg hbuf, hint]
  refine ⟨fun c hc => by rw [htrace c hc]; exact (strLoop_prints (hmem c hc)).2, ?_⟩
  have hout : console mem buf (vcprintf w) = (vcprintf w).flatMap fun c => c.takeWhile (· ≠ 0#8) := by
    unfold console
    rw [← List.zipIdx_map_fst 0 (vcprintf w), List.flatMap_map, List.zipIdx_map_fst]
    refine List.flatMap_congr fun c hc => ?_
    rw [htrace c hc]
    exact (strLoop_prints (hmem c hc)).1
  rw [hout]
  constructor
  · intro h hz
    rw [← h, List.mem_flatMap] at hz
    obtain ⟨c, -, hz⟩ := hz
    have hne := List.mem_takeWhile_imp hz
    simp at hne
  · intro hz
    have hall : ∀ c ∈ vcprintf w, c.takeWhile (· ≠ 0#8) = c := by
      intro c hc
      rw [List.takeWhile_eq_self_iff]
      intro b hb
      have hbw : b ∈ w := by
        rw [← hflat]
        exact List.mem_flatten.2 ⟨c, hc, hb⟩
      simpa using fun h0 : b = 0#8 => hz (h0 ▸ hbw)
    rw [List.flatMap_congr hall]
    simpa using hflat

/-- A buffer on the stack that holds `bs`. -/
def stackBuf (bs : List (BitVec 8)) (va : Word) : Option (BitVec 8) := some (bs.getD (va - 0xEEBFDE00#32).toNat 0#8)

theorem stackBuf_holds (bs : List (BitVec 8)) (h : bs.length ≤ 255) : HoldsStr (stackBuf bs) 0xEEBFDE00#32 bs := by
  refine ⟨fun i hi => ?_, by simp [stackBuf]⟩
  have hoff : (0xEEBFDE00#32 + BitVec.ofNat 32 i - 0xEEBFDE00#32).toNat = i := toNat_offset _ (by omega)
  unfold stackBuf
  rw [hoff]
  simp [hi]

theorem vcprintf_delivers_iff_hi :
    console (fun _ => stackBuf [72#8, 105#8]) 0xEEBFDE00#32 (vcprintf [72#8, 105#8]) = [72#8, 105#8] := by
  have hcalls : vcprintf [72#8, 105#8] = [[72#8, 105#8]] := rfl
  refine (vcprintf_delivers_iff (by decide) [72#8, 105#8] (fun _ => stackBuf [72#8, 105#8]) ?_).2.2 (by decide)
  rw [hcalls]
  intro c hc
  rw [List.mem_singleton.1 hc]
  exact stackBuf_holds _ (by decide)

/-- A NUL and what follows it in the string do not get to the console. -/
theorem vcprintf_drops : vcprintf [65#8, 0#8, 66#8] = [[65#8, 0#8, 66#8]] ∧
    HoldsStr (stackBuf [65#8, 0#8, 66#8]) 0xEEBFDE00#32 [65#8, 0#8, 66#8] ∧
    console (fun _ => stackBuf [65#8, 0#8, 66#8]) 0xEEBFDE00#32 (vcprintf [65#8, 0#8, 66#8]) = [65#8] :=
  ⟨rfl, stackBuf_holds _ (by decide), by decide⟩

end Jos
