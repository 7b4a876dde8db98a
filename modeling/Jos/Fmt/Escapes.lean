/-
`vprintfmt` on any format: it comes to its end, reads the format between the last `%` and the terminating NUL only, and
prints what its items say.
-/
import Jos.Fmt.Items

namespace Jos

open Lib

variable {σ : Type}

/-- The host that refuses bytes of the format, the `len` characters at `f`, that lie behind the NUL or before the last `%`
that was read; the offset of the latter is kept. -/
def guardHost (put : Word → σ → σ) (mem : Bytes) (f : Word) (len : Nat) : Host (σ × Nat) where
  putch ch s := (put ch s.1, s.2)
  fetch a := fun s =>
    if s.2 ≤ (a - f).toNat ∧ (a - f).toNat ≤ len then
      some (mem a, s.1, if mem a = chr '%' then (a - f).toNat else s.2)
    else none
  load a := pure (mem a)

/-- The bytes at `f` are the characters `cs` and a NUL. -/
def IsFormat (mem : Bytes) (f : Word) (cs : List Byte) : Prop :=
  0#8 ∉ cs ∧ ∀ o ≤ cs.length, mem (f + BitVec.ofNat 32 o) = cs.getD o 0#8

variable {put : Word → σ → σ} {mem : Bytes} {f : Word} {cs : List Byte} {ap : Nat → Word} {lim : Nat}

theorem IsFormat.length_lt (h : IsFormat mem f cs) : cs.length < 2 ^ 32 := by
  by_contra hge
  have hwrap : (BitVec.ofNat 32 cs.length : Word) = BitVec.ofNat 32 (cs.length - 2 ^ 32) := by
    apply BitVec.eq_of_toNat_eq
    rw [BitVec.toNat_ofNat, BitVec.toNat_ofNat]
    omega
  have hend := h.2 cs.length le_rfl
  rw [hwrap, h.2 _ (by omega), List.getD_eq_default _ _ le_rfl, List.getD_eq_getElem _ _ (by omega)] at hend
  exact h.1 (hend ▸ List.getElem_mem _)

theorem at_succ (o : Nat) : f + BitVec.ofNat 32 o + 1#32 = f + BitVec.ofNat 32 (o + 1) := by
  rw [BitVec.add_assoc, BitVec.ofNat_add]

theorem at_pred (o : Nat) : f + BitVec.ofNat 32 (o + 1) - 1#32 = f + BitVec.ofNat 32 o := by
  rw [← at_succ, BitVec.add_sub_cancel]

/-- A byte in reach is read. -/
theorem fetch_run (put : Word → σ → σ) (h : IsFormat mem f cs) {o low : Nat} (hlow : low ≤ o) (ho : o ≤ cs.length) (s : σ) :
    ((memFormat (guardHost put mem f cs.length)).get (f + BitVec.ofNat 32 o)).run (s, low) =
      some (cs.getD o 0#8, s, if cs.getD o 0#8 = chr '%' then o else low) := by
  have hlen := h.length_lt
  show (if low ≤ (f + BitVec.ofNat 32 o - f).toNat ∧ (f + BitVec.ofNat 32 o - f).toNat ≤ cs.length then
    some (mem (f + BitVec.ofNat 32 o), s,
      if mem (f + BitVec.ofNat 32 o) = chr '%' then (f + BitVec.ofNat 32 o - f).toNat else low)
    else none) = _
  rw [toNat_offset _ (by omega), if_pos ⟨hlow, ho⟩, h.2 o ho]

theorem getD_of_drop {o : Nat} {a b : List Byte} (h : cs.drop o = a ++ b) (k : Nat) :
    cs.getD (o + k) 0#8 = (a ++ b).getD k 0#8 := by
  rw [← h, List.getD_eq_getElem?_getD, List.getD_eq_getElem?_getD, List.getElem?_drop]

theorem length_of_drop {o : Nat} {a b : List Byte} (h : cs.drop o = a ++ b) (ho : o ≤ cs.length) :
    o + a.length + b.length = cs.length := by
  have := congrArg List.length h
  rw [List.length_drop, List.length_append] at this
  omega

/-- A number in an escape: the test of the loop. -/
theorem charInt_digit (c : Byte) : ((charInt c).toInt < 0x30 ∨ 0x39 < (charInt c).toInt) ↔ isDigit c = false := by
  have hint : (charInt c).toInt = c.toInt := BitVec.toInt_signExtend_of_le (by omega)
  have hlt := c.isLt
  have hc := BitVec.toInt_eq_toNat_cond c
  have hd : isDigit c = false ↔ ¬ (0x30 ≤ c.toNat ∧ c.toNat ≤ 0x39) := by
    simp only [isDigit, Bool.decide_and, Bool.and_eq_false_iff, decide_eq_false_iff_not]
    omega
  rw [hint, hd]
  split at hc <;> omega

theorem isFlag_cases {c : Byte} (h : isFlag c = true) (hd : isDigit c = false) :
    c = chr '-' ∨ c = chr '*' ∨ c = chr '.' ∨ c = chr '#' ∨ c = chr 'l' := by
  have hmem : c ∈ strLit "-*.#l" := by simpa [isFlag, hd] using h
  exact (by decide : ∀ c ∈ strLit "-*.#l", c = chr '-' ∨ c = chr '*' ∨ c = chr '.' ∨ c = chr '#' ∨ c = chr 'l') c hmem

theorem not_flag_percent {c : Byte} (h : isFlag c = true) : c ≠ chr '%' ∧ c ≠ 0#8 := by
  constructor <;> rintro rfl <;> exact absurd h (by decide)

theorem isDigit_eq (c : Byte) : isDigit c = true ↔ 0x30 ≤ c.toNat ∧ c.toNat ≤ 0x39 := by simp [isDigit]

/-- The digits with which a number starts. -/
theorem number_start (c : Byte) : (0x31 ≤ c.toNat ∧ c.toNat ≤ 0x39) ↔ isDigit c = true ∧ c ≠ chr '0' := by
  have hzero : c = chr '0' ↔ c.toNat = 0x30 :=
    ⟨fun h => by rw [h]; rfl, fun h => BitVec.eq_of_toNat_eq (by rw [h]; rfl)⟩
  rw [isDigit_eq, ne_eq, hzero]
  omega

/-! ## One character of an escape -/

section Reswitch

variable {π : Type} {F : Format σ π} {fmt : π} {c : Byte} {t t' : σ} {fl : Flags} {i : Nat}

theorem reswitch_end (args : VaList) (hget : (F.get fmt).run t = some (c, t')) (hc : isFlag c = false) :
    (reswitch F args (lim + 1) fmt fl i).run t = some ((c, F.next fmt, fl, i), t') := by
  have hd : isDigit c = false := by
    cases hd : isDigit c with
    | true => simp [isFlag, hd] at hc
    | false => rfl
  have hne : ∀ x, isFlag x = true → c ≠ x := by
    rintro x hx rfl
    rw [hc] at hx
    cases hx
  have hnum : ¬ (0x31 ≤ c.toNat ∧ c.toNat ≤ 0x39) := by
    rw [number_start, hd]
    simp
  rw [reswitch, run_bind_of hget, if_neg (hne _ (by decide)), if_neg (hne _ (by decide)), if_neg hnum, if_neg (hne _ (by decide)),
    if_neg (hne _ (by decide)), if_neg (hne _ (by decide)), if_neg (hne _ (by decide))]
  rfl

theorem reswitch_number (hget : (F.get fmt).run t = some (c, t')) (hc : isDigit c = true ∧ c ≠ chr '0') :
    (reswitch F (fun i => .mem (ap i)) (lim + 1) fmt fl i).run t =
      (digits F lim c (F.next fmt) 0#32 >>= fun r =>
        reswitch F (fun i => .mem (ap i)) lim r.2 (fl.process r.1) i).run t' := by
  have hdash : c ≠ chr '-' := by
    rintro rfl
    exact absurd hc.1 (by decide)
  rw [reswitch, run_bind_of hget, if_neg hdash, if_neg hc.2, if_pos ((number_start c).2 hc)]

theorem reswitch_set (hget : (F.get fmt).run t = some (c, t')) (hc : isFlag c = true) (hn : ¬ (isDigit c = true ∧ c ≠ chr '0')) :
    (reswitch F (fun i => .mem (ap i)) (lim + 1) fmt fl i).run t =
      (reswitch F (fun i => .mem (ap i)) lim (F.next fmt) (fl.set ap c i).1 (fl.set ap c i).2).run t' := by
  have hnum : ¬ (0x31 ≤ c.toNat ∧ c.toNat ≤ 0x39) := fun h => hn ((number_start c).1 h)
  have hcases : c = chr '0' ∨ c = chr '-' ∨ c = chr '*' ∨ c = chr '.' ∨ c = chr '#' ∨ c = chr 'l' := by
    by_cases hzero : c = chr '0'
    · exact Or.inl hzero
    · refine Or.inr (isFlag_cases hc ?_)
      cases hd : isDigit c with
      | true => exact absurd ⟨hd, hzero⟩ hn
      | false => rfl
  rw [reswitch, run_bind_of hget]
  rcases hcases with rfl | rfl | rfl | rfl | rfl | rfl <;> rfl

end Reswitch

/-- Behind the flags `reswitch` stops, and so does the number loop before it. -/
theorem reswitch_behind (put : Word → σ → σ) (ap : Nat → Word) (h : IsFormat mem f cs) {o low : Nat}
    (hc : isFlag (cs.getD o 0#8) = false) (hlow : low ≤ o) (ho : o ≤ cs.length) (i lim lim' : Nat) (fl : Flags) (s : σ) :
    (reswitch (memFormat (guardHost put mem f cs.length)) (fun i => .mem (ap i)) (lim + 1) (f + BitVec.ofNat 32 o) fl i).run
      (s, low) =
        some ((cs.getD o 0#8, f + BitVec.ofNat 32 (o + 1), fl, i), s, if cs.getD o 0#8 = chr '%' then o else low) ∧
      ∀ (ch : Byte) (v : Word),
        (digits (memFormat (guardHost put mem f cs.length)) (lim' + 1) ch (f + BitVec.ofNat 32 o) v >>= fun r =>
          reswitch (memFormat (guardHost put mem f cs.length)) (fun i => .mem (ap i)) (lim + 1) r.2 (fl.process r.1) i).run
            (s, low) =
        some ((cs.getD o 0#8, f + BitVec.ofNat 32 (o + 1), fl.process (v * 10#32 + charInt ch - charInt (chr '0')), i), s,
          if cs.getD o 0#8 = chr '%' then o else low) := by
  have hnext : ∀ (fl : Flags) (low : Nat), low ≤ o →
      (reswitch (memFormat (guardHost put mem f cs.length)) (fun i => .mem (ap i)) (lim + 1) (f + BitVec.ofNat 32 o) fl i).run
        (s, low) = some ((cs.getD o 0#8, f + BitVec.ofNat 32 (o + 1), fl, i), s, if cs.getD o 0#8 = chr '%' then o else low) := by
    intro fl low hlow
    rw [reswitch_end _ (fetch_run put h hlow ho s) hc]
    show some ((_, f + BitVec.ofNat 32 o + 1#32, _, _), _) = _
    rw [at_succ]
  refine ⟨hnext fl low hlow, fun ch v => ?_⟩
  have hdig : isDigit (cs.getD o 0#8) = false := by
    cases hd : isDigit (cs.getD o 0#8) with
    | true => simp only [isFlag, hd, Bool.true_or, Bool.true_eq_false] at hc
    | false => rfl
  have hrun : (digits (memFormat (guardHost put mem f cs.length)) (lim' + 1) ch (f + BitVec.ofNat 32 o) v).run (s, low) =
      some ((v * 10#32 + charInt ch - charInt (chr '0'), f + BitVec.ofNat 32 o), s,
        if cs.getD o 0#8 = chr '%' then o else low) := by
    unfold digits
    rw [run_bind_of (fetch_run put h hlow ho s), if_pos ((charInt_digit _).2 hdig)]
    rfl
  -- the character is fetched a second time
  have hagain : (if cs.getD o 0#8 = chr '%' then o else if cs.getD o 0#8 = chr '%' then o else low) =
      if cs.getD o 0#8 = chr '%' then o else low := by split <;> rfl
  rw [run_bind_of hrun, hnext _ _ (by split <;> omega), hagain]

/-- `reswitch` passes over the flags and takes them as `scan` does. The number loop, entered behind a digit, and what
follows it read on in the same way. -/
theorem reswitch_flags (put : Word → σ → σ) (ap : Nat → Word) (h : IsFormat mem f cs) {tail : List Byte}
    (htail : isFlag (tail.headD 0#8) = false) :
    ∀ (fs : List Byte) (o i low lim lim' : Nat) (fl : Flags) (s : σ), cs.drop o = fs ++ tail → o ≤ cs.length →
      (∀ c ∈ fs, isFlag c = true) → low ≤ o → fs.length < lim → fs.length < lim' →
      (reswitch (memFormat (guardHost put mem f cs.length)) (fun i => .mem (ap i)) lim (f + BitVec.ofNat 32 o) fl i).run
        (s, low) =
          some ((tail.headD 0#8, f + BitVec.ofNat 32 (o + fs.length + 1), Flags.scan ap none fl i fs), s,
            if tail.headD 0#8 = chr '%' then o + fs.length else low) ∧
        ∀ (ch : Byte) (v : Word),
          (digits (memFormat (guardHost put mem f cs.length)) lim' ch (f + BitVec.ofNat 32 o) v >>= fun r =>
            reswitch (memFormat (guardHost put mem f cs.length)) (fun i => .mem (ap i)) lim r.2 (fl.process r.1) i).run (s, low) =
          some ((tail.headD 0#8, f + BitVec.ofNat 32 (o + fs.length + 1),
              Flags.scan ap (some (v * 10#32 + charInt ch - charInt (chr '0'))) fl i fs), s,
            if tail.headD 0#8 = chr '%' then o + fs.length else low)
  | [], o, i, low, lim + 1, lim' + 1, fl, s, hdrop, ho, _, hlow, _, _ => by
    -- both loops stop at the character behind the flags
    have hc : cs.getD o 0#8 = tail.headD 0#8 := by
      have := getD_of_drop hdrop 0
      rw [Nat.add_zero, List.nil_append] at this
      rw [this]
      cases tail <;> rfl
    rw [← hc] at htail ⊢
    exact reswitch_behind put ap h htail hlow ho i lim lim' fl s
  | c :: fs, o, i, low, lim + 1, lim' + 1, fl, s, hdrop, ho, hfs, hlow, hlim, hlim' => by
    rw [List.length_cons] at hlim hlim'
    have hlen := length_of_drop hdrop ho
    rw [List.length_cons] at hlen
    have hc : cs.getD o 0#8 = c := getD_of_drop hdrop 0
    have hflag := hfs c (List.mem_cons_self ..)
    have hget := fetch_run put h hlow ho s
    rw [hc, if_neg (not_flag_percent hflag).1] at hget
    have hdrop' : cs.drop (o + 1) = fs ++ tail := by
      rw [← List.drop_drop, hdrop]
      rfl
    have ih := fun i lim lim' fl => reswitch_flags put ap h htail fs (o + 1) i low lim lim' fl s hdrop' (by omega)
      (fun c hc => hfs c (List.mem_cons_of_mem _ hc)) (by omega)
    have hadd : o + 1 + fs.length = o + (c :: fs).length := by
      rw [List.length_cons]
      omega
    simp only [hadd] at ih
    -- a digit other than `0` enters the number loop, and any other flag is set before `reswitch` goes on
    have hA : ∀ fl, (reswitch (memFormat (guardHost put mem f cs.length)) (fun i => .mem (ap i)) (lim + 1) (f + BitVec.ofNat 32 o)
        fl i).run (s, low) =
          some ((tail.headD 0#8, f + BitVec.ofNat 32 (o + (c :: fs).length + 1), Flags.scan ap none fl i (c :: fs)), s,
            if tail.headD 0#8 = chr '%' then o + (c :: fs).length else low) := by
      intro fl
      unfold Flags.scan
      by_cases hnum : isDigit c = true ∧ c ≠ chr '0'
      · rw [reswitch_number hget hnum, if_pos hnum]
        have := (ih i lim lim fl (by omega) (by omega)).2 c 0#32
        rwa [← at_succ] at this
      · rw [reswitch_set hget hflag hnum, if_neg hnum]
        have := (ih (fl.set ap c i).2 lim (lim + 1) (fl.set ap c i).1 (by omega) (by omega)).1
        rwa [← at_succ] at this
    refine ⟨hA fl, fun ch v => ?_⟩
    -- inside the number loop a digit goes on with the number, and another flag ends it
    unfold digits
    rw [bind_assoc, run_bind_of hget]
    by_cases hdig : isDigit c = true
    · have hscan : Flags.scan ap (some (v * 10#32 + charInt ch - charInt (chr '0'))) fl i (c :: fs) =
          Flags.scan ap (some ((v * 10#32 + charInt ch - charInt (chr '0')) * 10#32 + charInt c - charInt (chr '0')))
            fl i fs := by
        rw [Flags.scan, if_pos hdig]
      rw [if_neg (by rw [charInt_digit, hdig]; simp), hscan]
      have := (ih i (lim + 1) lim' fl (by omega) (by omega)).2 c (v * 10#32 + charInt ch - charInt (chr '0'))
      rwa [← at_succ] at this
    · have hdig' : isDigit c = false := by simpa using hdig
      have hscan : Flags.scan ap (some (v * 10#32 + charInt ch - charInt (chr '0'))) fl i (c :: fs) =
          Flags.scan ap none (fl.process (v * 10#32 + charInt ch - charInt (chr '0'))) i (c :: fs) := by
        rw [Flags.scan, Flags.scan, if_neg hdig, if_neg (by simp [hdig'])]
      rw [if_pos ((charInt_digit c).2 hdig'), hscan]
      exact hA _

/-- The way back to the `%` at `q`, from `k` characters behind it. -/
theorem rewind_run (put : Word → σ → σ) (h : IsFormat mem f cs) {q : Nat} (hq : cs.getD q 0#8 = chr '%') (s : σ) :
    ∀ (k lim low : Nat), q + k ≤ cs.length → (∀ j, 0 < j → j ≤ k → cs.getD (q + j) 0#8 ≠ chr '%') → low ≤ q → k < lim →
      (rewind (memFormat (guardHost put mem f cs.length)) lim (f + BitVec.ofNat 32 (q + k + 1))).run (s, low) =
        some (f + BitVec.ofNat 32 (q + 1), s, q)
  | 0, lim + 1, low, hle, _, hlow, _ => by
    have hget := fetch_run put h hlow hle s
    rw [hq, if_pos rfl] at hget
    unfold rewind
    rw [show (memFormat (guardHost put mem f cs.length)).prev (f + BitVec.ofNat 32 (q + 0 + 1)) = f + BitVec.ofNat 32 q from
      at_pred q, run_bind_of hget, if_pos rfl]
    rfl
  | k + 1, lim + 1, low, hle, hne, hlow, hlim => by
    have hget := fetch_run put h (show low ≤ q + (k + 1) by omega) hle s
    have hk := hne (k + 1) (by omega) le_rfl
    rw [if_neg hk] at hget
    unfold rewind
    rw [show (memFormat (guardHost put mem f cs.length)).prev (f + BitVec.ofNat 32 (q + (k + 1) + 1)) =
      f + BitVec.ofNat 32 (q + (k + 1)) from at_pred _, run_bind_of hget, if_neg hk]
    exact rewind_run put h hq s k lim low (by omega) (fun j hj hjk => hne j hj (by omega)) hlow (by omega)

/-- The output of characters as they stand. -/
def putText (put : Word → σ → σ) (cs : List Byte) (s : σ) : σ := cs.foldl (fun s c => put (c.setWidth 32) s) s

theorem putAll_run (h : Host σ) : ∀ (cs : List Byte) (s : σ), (putAll h cs).run s = some ((), putText h.putch cs s)
  | [], _ => rfl
  | c :: cs, s => by
    have hput : (h.put (c.setWidth 32)).run s = some ((), h.putch (c.setWidth 32) s) := rfl
    unfold putAll
    rw [run_bind_of hput, putAll_run h cs]
    rfl

/-- Plain characters are printed. -/
theorem fmtLoop_text (put : Word → σ → σ) (lim : Nat) (pf : List Byte → VaList → Prog (σ × Nat) Unit) (args : VaList)
    (h : IsFormat mem f cs) {tail : List Byte} :
    ∀ (text : List Byte) (o n i low : Nat) (s : σ), cs.drop o = text ++ tail → o ≤ cs.length → (∀ c ∈ text, c ≠ chr '%') →
      low ≤ o →
      (fmtLoop (guardHost put mem f cs.length) (memFormat (guardHost put mem f cs.length)) lim pf args (n + text.length)
        (f + BitVec.ofNat 32 o) i).run (s, low) =
      (fmtLoop (guardHost put mem f cs.length) (memFormat (guardHost put mem f cs.length)) lim pf args n
        (f + BitVec.ofNat 32 (o + text.length)) i).run (putText put text s, low)
  | [], _, _, _, _, _, _, _, _, _ => rfl
  | c :: text, o, n, i, low, s, hdrop, ho, hne, hlow => by
    have hlen := length_of_drop hdrop ho
    rw [List.length_cons] at hlen
    have hc : cs.getD o 0#8 = c := getD_of_drop hdrop 0
    have hp := hne c (List.mem_cons_self ..)
    have hzero : c ≠ 0#8 := by
      rintro rfl
      rw [List.getD_eq_getElem _ _ (by omega)] at hc
      exact h.1 (hc ▸ List.getElem_mem _)
    have hget := fetch_run put h hlow ho s
    rw [hc, if_neg hp] at hget
    have hdrop' : cs.drop (o + 1) = text ++ tail := by
      rw [← List.drop_drop, hdrop]
      rfl
    have ih := fmtLoop_text put lim pf args h text (o + 1) n i low (put (c.setWidth 32) s) hdrop' (by omega)
      (fun c hc => hne c (List.mem_cons_of_mem _ hc)) (by omega)
    have hput : ((guardHost put mem f cs.length).put (c.setWidth 32)).run (s, low) = some ((), put (c.setWidth 32) s, low) := rfl
    rw [List.length_cons, ← Nat.add_assoc, fmtLoop, run_bind_of hget, if_neg hzero, if_pos hp, run_bind_of hput]
    rw [Nat.add_right_comm o 1, Nat.add_assoc o] at ih
    rw [← at_succ] at ih
    exact ih

/-- A conversion does the same over the host that guards the format, and reads none of it. -/
theorem convert_guard {i : Nat} {fl : Flags} {c : Byte} {low j : Nat} {s s' : σ} {len : Nat}
    (hrun : (convert (memHost put mem) lim (printfmt (memHost put mem) lim) (fun i => .mem (ap i)) i fl c).run s = some (j, s')) :
    (convert (guardHost put mem f len) lim (printfmt (guardHost put mem f len) lim) (fun i => .mem (ap i)) i fl c).run (s, low) =
      some (j, s', low) := by
  have H : HostSim (fun s t => t = (s, low)) (memHost put mem) (guardHost put mem f len) :=
    ⟨fun c s t hst => by rw [hst]; rfl, fun a s t hst b s' hb => by cases hb; exact ⟨t, rfl, hst⟩⟩
  obtain ⟨t, ht, rfl⟩ := convert_sim H lim (printfmt_sim H lim) _ i fl c rfl hrun
  exact ht

theorem takeWhile_flags {cs tail : List Byte} (hd : cs.dropWhile isFlag = tail) :
    cs = cs.takeWhile isFlag ++ tail ∧ isFlag (tail.headD 0#8) = false ∧ ∀ c ∈ cs.takeWhile isFlag, isFlag c = true := by
  refine ⟨by rw [← hd, List.takeWhile_append_dropWhile], ?_, fun c hc => List.all_eq_true.1 List.all_takeWhile c hc⟩
  cases tail with
  | nil => decide
  | cons d rest =>
    have := List.head_dropWhile_not isFlag (l := cs) (by rw [hd]; exact List.cons_ne_nil _ _)
    simpa [hd] using this

/-- The escape at `o`: a conversion follows, or the loop goes on behind the `%`, which is printed. -/
theorem fmtLoop_escape (put : Word → σ → σ) (ap : Nat → Word) (pf : List Byte → VaList → Prog (σ × Nat) Unit) (n i : Nat)
    (h : IsFormat mem f cs) (hlim : cs.length < lim) {o low : Nat} {fs tail : List Byte}
    (hdrop : cs.drop o = chr '%' :: (fs ++ tail)) (hfs : ∀ c ∈ fs, isFlag c = true)
      (htail : isFlag (tail.headD 0#8) = false) (hlow : low ≤ o) (s : σ) :
    (fmtLoop (guardHost put mem f cs.length) (memFormat (guardHost put mem f cs.length)) lim pf (fun i => .mem (ap i)) (n + 1)
        (f + BitVec.ofNat 32 o) i).run (s, low) =
      if tail.headD 0#8 ∈ conversions then
        (convert (guardHost put mem f cs.length) lim pf (fun i => .mem (ap i)) (Flags.scan ap none {} i fs).2
            (Flags.scan ap none {} i fs).1 (tail.headD 0#8) >>= fun j =>
          fmtLoop (guardHost put mem f cs.length) (memFormat (guardHost put mem f cs.length)) lim pf (fun i => .mem (ap i)) n
            (f + BitVec.ofNat 32 (o + 1 + fs.length + 1)) j).run
          (s, if tail.headD 0#8 = chr '%' then o + 1 + fs.length else o)
      else
        (fmtLoop (guardHost put mem f cs.length) (memFormat (guardHost put mem f cs.length)) lim pf (fun i => .mem (ap i)) n
          (f + BitVec.ofNat 32 (o + 1)) (Flags.scan ap none {} i fs).2).run (put ((chr '%').setWidth 32) s, o) := by
  have ho : o < cs.length := by
    by_contra hge
    rw [List.drop_eq_nil_of_le (by omega)] at hdrop
    cases hdrop
  have hdrop' : cs.drop (o + 1) = fs ++ tail := by
    rw [← List.drop_drop, hdrop]
    rfl
  have hlen := length_of_drop hdrop' ho
  have hp : cs.getD o 0#8 = chr '%' := by
    have := getD_of_drop (a := [chr '%']) hdrop 0
    exact this
  have hget := fetch_run put h hlow (by omega) s
  rw [hp, if_pos rfl] at hget
  -- the flags are scanned up to the conversion or to what is none
  have hscan := (reswitch_flags put ap h htail fs (o + 1) i o lim lim {} s hdrop' ho hfs (by omega) (by omega)
    (by omega)).1
  rw [fmtLoop, run_bind_of hget, if_neg (by decide), if_neg (not_not_intro rfl)]
  rw [show (memFormat (guardHost put mem f cs.length)).next (f + BitVec.ofNat 32 o) = f + BitVec.ofNat 32 (o + 1) from at_succ o,
    run_bind_of hscan]
  dsimp only
  by_cases hconv : tail.headD 0#8 ∈ conversions
  · rw [if_pos hconv, if_pos hconv]
  · -- the `%` is printed, and the pointer goes back to it over the flags, none of which is a `%`
    have hd : tail.headD 0#8 ≠ chr '%' := by
      intro hd
      rw [hd] at hconv
      exact hconv (by decide)
    have hput : ((guardHost put mem f cs.length).put (charInt (chr '%'))).run (s, o) =
        some ((), put ((chr '%').setWidth 32) s, o) := rfl
    have hback := rewind_run put h hp (put ((chr '%').setWidth 32) s) fs.length lim o (by omega)
      (fun j hj hjk => by
        have hat := getD_of_drop hdrop' (j - 1)
        rw [show o + 1 + (j - 1) = o + j by omega, List.getD_append _ _ _ _ (by omega), List.getD_eq_getElem fs _ (by omega)]
          at hat
        rw [hat]
        exact (not_flag_percent (hfs _ (List.getElem_mem _))).1) le_rfl (by omega)
    rw [if_neg hconv, if_neg hconv, if_neg hd, run_bind_of hput,
      show (memFormat (guardHost put mem f cs.length)).prev (f + BitVec.ofNat 32 (o + 1 + fs.length + 1)) =
        f + BitVec.ofNat 32 (o + 1 + fs.length) from at_pred _, Nat.add_right_comm o 1, run_bind_of hback]

theorem fmtLoop_end (put : Word → σ → σ) (lim : Nat) (pf : List Byte → VaList → Prog (σ × Nat) Unit) (args : VaList)
    (h : IsFormat mem f cs) {o n i low : Nat} (hdrop : cs.drop o = []) (ho : o ≤ cs.length) (hlow : low ≤ o) (hn : 0 < n)
      (s : σ) :
    (fmtLoop (guardHost put mem f cs.length) (memFormat (guardHost put mem f cs.length)) lim pf args n
      (f + BitVec.ofNat 32 o) i).run (s, low) = some ((), s, low) := by
  obtain ⟨n, rfl⟩ : ∃ m, n = m + 1 := ⟨n - 1, by omega⟩
  have hget := fetch_run put h hlow ho s
  have hzero : cs.getD o 0#8 = 0#8 := getD_of_drop (a := []) hdrop 0
  rw [hzero, if_neg (by decide)] at hget
  rw [fmtLoop, run_bind_of hget, if_pos rfl]
  rfl

/-- The loop does what the items say; the guard is never hit. -/
theorem fmtLoop_items (h : IsFormat mem f cs) (hlim : cs.length < lim) (rest : List Byte) :
    ∀ (o n i low : Nat) (s s' : σ), cs.drop o = rest → o ≤ cs.length → low ≤ o → rest.length < n →
      (runItems (memHost put mem) lim ap (items rest) i).run s = some ((), s') →
      ∃ low', (fmtLoop (guardHost put mem f cs.length) (memFormat (guardHost put mem f cs.length)) lim
        (printfmt (guardHost put mem f cs.length) lim) (fun i => .mem (ap i)) n (f + BitVec.ofNat 32 o) i).run (s, low) =
          some ((), s', low') := by
  induction rest using items_induction with
  | nil =>
    intro o n i low s s' hdrop ho hlow hn hrun
    rw [items] at hrun
    cases hrun
    exact ⟨low, fmtLoop_end put lim _ _ h hdrop ho hlow hn s⟩
  | lit c rest hc ih =>
    intro o n i low s s' hdrop ho hlow hn hrun
    rw [List.length_cons] at hn
    obtain ⟨n, rfl⟩ : ∃ m, n = m + 1 := ⟨n - 1, by omega⟩
    have hlen := length_of_drop (a := [c]) hdrop ho
    rw [items_lit hc, runItems, run_bind_of (putAll_run _ _ _)] at hrun
    have htext := fmtLoop_text put lim (printfmt (guardHost put mem f cs.length) lim) (fun i => .mem (ap i)) h [c] o n i low s
      hdrop ho (by simpa using hc) hlow
    rw [List.length_singleton] at htext hlen
    rw [htext]
    exact ih (o + 1) n i low _ s' (by rw [← List.drop_drop, hdrop]; rfl) (by omega) (by omega) (by omega) hrun
  | last rest hd =>
    -- flags up to the end of the format: `reswitch` stops at the NUL, which is no conversion
    intro o n i low s s' hdrop ho hlow hn hrun
    rw [List.length_cons] at hn
    obtain ⟨n, rfl⟩ : ∃ m, n = m + rest.length + 1 := ⟨n - rest.length - 1, by omega⟩
    obtain ⟨htake, htail, hfs⟩ := takeWhile_flags hd
    rw [List.append_nil] at htake
    rw [← htake] at hfs
    rw [items_last hd, runItems, run_bind_of (putAll_run _ _ _)] at hrun
    have hlen := length_of_drop (a := chr '%' :: rest) (b := []) (by rw [hdrop, List.append_nil]) ho
    rw [List.length_cons, List.length_nil] at hlen
    have hdrop' : cs.drop (o + 1) = rest ++ [] := by
      rw [← List.drop_drop, hdrop, List.append_nil]
      rfl
    have hesc := fmtLoop_escape put ap (printfmt (guardHost put mem f cs.length) lim) (n + rest.length) i h hlim
      (by rw [hdrop, List.append_nil] : cs.drop o = chr '%' :: (rest ++ [])) hfs htail hlow s
    rw [if_neg (by decide), fmtLoop_text put _ _ _ h rest (o + 1) n _ o _ hdrop' (by omega)
      (fun c hc => (not_flag_percent (hfs c hc)).1) (by omega)] at hesc
    rw [hesc, fmtLoop_end put lim _ _ h (List.drop_eq_nil_of_le (by omega)) (by omega) (by omega) (by omega)]
    refine ⟨o, ?_⟩
    rw [Option.toList_none, List.append_nil] at hrun
    cases hrun
    rfl
  | escape rest d rest' hd ih =>
    intro o n i low s s' hdrop ho hlow hn hrun
    rw [List.length_cons] at hn
    obtain ⟨htake, htail, hfs⟩ := takeWhile_flags hd
    rw [items_escape hd] at hrun
    generalize rest.takeWhile isFlag = fs at htake hfs hrun
    have hsplit : rest.length = fs.length + (rest'.length + 1) := by rw [htake, List.length_append, List.length_cons]
    have hdrop' : cs.drop o = chr '%' :: (fs ++ d :: rest') := by rw [hdrop, htake]
    have hlen := length_of_drop (a := chr '%' :: fs) (b := d :: rest') hdrop' ho
    rw [List.length_cons, List.length_cons] at hlen
    have hbehind : cs.drop (o + 1) = fs ++ d :: rest' := by
      rw [← List.drop_drop, hdrop']
      rfl
    have hrest : cs.drop (o + 1 + fs.length + 1) = rest' := by
      rw [← List.drop_drop, ← List.drop_drop, hbehind, List.drop_left]
      rfl
    unfold escape at hrun
    by_cases hconv : d ∈ conversions
    · obtain ⟨n, rfl⟩ : ∃ m, n = m + 1 := ⟨n - 1, by omega⟩
      rw [if_pos hconv, runItems] at hrun
      obtain ⟨j, s₁, hc, hrun⟩ := run_bind_some hrun
      have hesc := fmtLoop_escape put ap (printfmt (guardHost put mem f cs.length) lim) n i h hlim hdrop' hfs htail hlow s
      rw [List.headD_cons, if_pos hconv, run_bind_of (convert_guard hc)] at hesc
      rw [hesc]
      exact ih (o + 1 + fs.length + 1) n j _ s₁ s' hrest (by omega) (by split <;> omega) (by omega) hrun
    · obtain ⟨n, rfl⟩ : ∃ m, n = m + (fs ++ [d]).length + 1 := ⟨n - (fs ++ [d]).length - 1, by
        rw [List.length_append, List.length_singleton]
        omega⟩
      rw [List.length_append, List.length_singleton] at hn
      rw [if_neg hconv, runItems, run_bind_of (putAll_run _ _ _)] at hrun
      have hd' : d ≠ chr '%' := by
        rintro rfl
        exact hconv (by decide)
      have hesc := fmtLoop_escape put ap (printfmt (guardHost put mem f cs.length) lim) (n + (fs ++ [d]).length) i h hlim hdrop'
        hfs htail hlow s
      rw [List.headD_cons, if_neg hconv, fmtLoop_text put _ _ _ h (fs ++ [d]) (o + 1) n _ o _
        (by rw [hbehind, List.append_assoc]; rfl) (by omega) (fun c hc => by
          rcases List.mem_append.1 hc with hc | hc
          · exact (not_flag_percent (hfs c hc)).1
          · rw [List.mem_singleton.1 hc]
            exact hd') (by omega)] at hesc
      rw [hesc, List.length_append, List.length_singleton, ← Nat.add_assoc]
      exact ih (o + 1 + fs.length + 1) n _ o _ s' hrest (by omega) (by omega) (by omega) hrun

/-- A run of the items is a run of `vprintfmt`. -/
theorem vprintfmt_runs (h : IsFormat mem f cs) (hlim : cs.length < lim) {s s' : σ}
    (hrun : (runItems (memHost put mem) lim ap (items cs) 0).run s = some ((), s')) :
    ∃ low, (vprintfmt (guardHost put mem f cs.length) lim f ap).run (s, 0) = some ((), s', low) := by
  obtain ⟨low, hloop⟩ := fmtLoop_items h hlim cs 0 lim 0 0 s s' rfl (Nat.zero_le _) le_rfl hlim hrun
  rw [BitVec.add_zero] at hloop
  exact ⟨low, hloop⟩

/-- Every format is handled: with arguments of the right types `vprintfmt` returns, has read the format neither behind its
NUL nor before the last `%` that it had read, and has printed what the items say. -/
theorem vprintfmt_handles (put : Word → σ → σ) (h : IsFormat mem f cs) (hargs : RightArgs mem ap (items cs) 0) :
    ∃ N, ∀ lim, N ≤ lim → ∀ s, ∃ s' low, (vprintfmt (guardHost put mem f cs.length) lim f ap).run (s, 0) = some ((), s', low) ∧
      (runItems (memHost put mem) lim ap (items cs) 0).run s = some ((), s') := by
  obtain ⟨N, hN⟩ := runItems_returns put (items cs) 0 (items_conv cs) hargs
  refine ⟨max N (cs.length + 1), fun lim hlim s => ?_⟩
  obtain ⟨_, s', hrun, -⟩ := hN lim (by omega) s
  obtain ⟨low, hv⟩ := vprintfmt_runs h (by omega) hrun
  exact ⟨s', low, hv, hrun⟩

theorem vprintfmt_handles_unknown : ∃ N, ∀ lim, N ≤ lim → ∃ low,
    (vprintfmt (guardHost (fun c (w : List Word) => w ++ [c]) (withStrings [(0x1000#32, strLit "%5z")]) 0x1000#32 3) lim
      0x1000#32 (fun _ => 0#32)).run ([], 0) = some ((), [0x25#32, 0x35#32, 0x7a#32], low) := by
  have hitems : items (strLit "%5z") = [.bad [chr '5'] (some (chr 'z'))] := by
    have hesc := items_escape (c := [chr '5', chr 'z']) (r := []) (d := chr 'z') (by decide)
    rw [items] at hesc
    exact hesc
  have hfmt : IsFormat (withStrings [(0x1000#32, strLit "%5z")]) 0x1000#32 (strLit "%5z") := ⟨by decide, by decide⟩
  have hargs : RightArgs (withStrings [(0x1000#32, strLit "%5z")]) (fun _ => 0#32) (items (strLit "%5z")) 0 := by
    rw [hitems]
    trivial
  obtain ⟨N, hN⟩ := vprintfmt_handles (fun c (w : List Word) => w ++ [c]) hfmt hargs
  refine ⟨N, fun lim hlim => ?_⟩
  obtain ⟨s', low, hrun, hspec⟩ := hN lim hlim []
  rw [hitems] at hspec
  cases hspec
  exact ⟨low, hrun⟩

end Jos
