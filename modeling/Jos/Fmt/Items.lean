/-
A format as a list of items: plain characters, conversions, and escapes that are no conversions. What `vprintfmt` does
with each of them, and that it comes to an end.
-/
import Jos.Fmt.Hosts

namespace Jos

open Lib

/-! ## Items -/

def isDigit (c : Byte) : Bool := 0x30 ≤ c.toNat ∧ c.toNat ≤ 0x39

/-- The characters after which an escape goes on. -/
def isFlag (c : Byte) : Bool := isDigit c || c ∈ strLit "-*.#l"

/-- `bad` is an escape of flags and a character that is no conversion, or of flags up to the end of the format. -/
inductive Item where
  | lit (c : Byte)
  | conv (flags : List Byte) (c : Byte)
  | bad (flags : List Byte) (c : Option Byte)

/-- The item that an escape with these flags and this next character is. -/
def escape (flags : List Byte) (c : Byte) : Item := if c ∈ conversions then .conv flags c else .bad flags (some c)

def items : List Byte → List Item
  | [] => []
  | c :: cs =>
    if c = chr '%' then
      match _ : cs.dropWhile isFlag with
      | [] => [.bad cs none]
      | d :: rest => escape (cs.takeWhile isFlag) d :: items rest
    else .lit c :: items cs
termination_by cs => cs.length
decreasing_by
  · have := (List.dropWhile_sublist (l := cs) isFlag).length_le
    simp_all
    omega
  · simp

theorem items_lit {c : Byte} {cs : List Byte} (h : c ≠ chr '%') : items (c :: cs) = .lit c :: items cs := by
  rw [items, if_neg h]

theorem items_last {cs : List Byte} (h : cs.dropWhile isFlag = []) : items (chr '%' :: cs) = [.bad cs none] := by
  rw [items, if_pos rfl]
  split
  · rfl
  · simp_all

theorem items_escape {c r : List Byte} {d : Byte} (h : c.dropWhile isFlag = d :: r) :
    items (chr '%' :: c) = escape (c.takeWhile isFlag) d :: items r := by
  rw [items, if_pos rfl]
  split <;> simp_all

theorem items_induction {P : List Byte → Prop} (nil : P []) (lit : ∀ c cs, c ≠ chr '%' → P cs → P (c :: cs))
    (last : ∀ cs, cs.dropWhile isFlag = [] → P (chr '%' :: cs))
    (escape : ∀ cs d rest, cs.dropWhile isFlag = d :: rest → P rest → P (chr '%' :: cs)) (cs : List Byte) : P cs := by
  induction h : cs.length using Nat.strong_induction_on generalizing cs with
  | _ n ih =>
    cases cs with
    | nil => exact nil
    | cons c cs =>
      rw [List.length_cons] at h
      by_cases hc : c = chr '%'
      · subst hc
        cases hd : cs.dropWhile isFlag with
        | nil => exact last cs hd
        | cons d rest =>
          have hle := (List.dropWhile_sublist (l := cs) isFlag).length_le
          rw [hd, List.length_cons] at hle
          exact escape cs d rest hd (ih rest.length (by omega) rest rfl)
      · exact lit c cs hc (ih cs.length (by omega) cs rfl)

/-! ## What an item does -/

variable {σ : Type}

/-- The effect of a flag other than a number. -/
def Flags.set (ap : Nat → Word) (c : Byte) (fl : Flags) (i : Nat) : Flags × Nat :=
  if c = chr '-' then ({ fl with padc := chr '-' }, i)
  else if c = chr '0' then ({ fl with padc := chr '0' }, i)
  else if c = chr '*' then (fl.process (ap i), i + 1)
  else if c = chr '.' then (if fl.width.toInt < 0 then { fl with width := 0#32 } else fl, i)
  else if c = chr '#' then ({ fl with altflag := true }, i)
  else ({ fl with lflag := fl.lflag + 1#32 }, i)

/-- The flags of an escape and the place of the next argument; `v` is the number being read. -/
def Flags.scan (ap : Nat → Word) : Option Word → Flags → Nat → List Byte → Flags × Nat
  | none, fl, i, [] => (fl, i)
  | some v, fl, i, [] => (fl.process v, i)
  | none, fl, i, c :: cs =>
    if isDigit c = true ∧ c ≠ chr '0' then scan ap (some (0#32 * 10#32 + charInt c - charInt (chr '0'))) fl i cs
    else scan ap none (fl.set ap c i).1 (fl.set ap c i).2 cs
  | some v, fl, i, c :: cs =>
    if isDigit c = true then scan ap (some (v * 10#32 + charInt c - charInt (chr '0'))) fl i cs
    else scan ap none ((fl.process v).set ap c i).1 ((fl.process v).set ap c i).2 cs

/-- The words that a conversion takes. -/
def takes (fl : Flags) (c : Byte) : Nat :=
  if c ∈ strLit "cesp" then 1 else if c ∈ strLit "dux" then (if 2 ≤ fl.lflag.toInt then 2 else 1) else 0

def putAll (h : Host σ) : List Byte → Prog σ Unit
  | [] => pure ()
  | c :: cs => do
    h.put (c.setWidth 32)
    putAll h cs

/-- The items one after the other. An escape that is no conversion is printed as it stands. -/
def runItems (h : Host σ) (lim : Nat) (ap : Nat → Word) : List Item → Nat → Prog σ Unit
  | [], _ => pure ()
  | .lit c :: is, i => do
    putAll h [c]
    runItems h lim ap is i
  | .conv fs c :: is, i => do
    let i ← convert h lim (printfmt h lim) (fun i => .mem (ap i)) (Flags.scan ap none {} i fs).2 (Flags.scan ap none {} i fs).1 c
    runItems h lim ap is i
  | .bad fs c :: is, i => do
    putAll h (chr '%' :: fs ++ c.toList)
    runItems h lim ap is (Flags.scan ap none {} i fs).2

/-! ## The items come to an end -/

/-- The host that only prints, over this memory. -/
def memHost (put : Word → σ → σ) (mem : Bytes) : Host σ where
  putch := put
  fetch _ := failure
  load a := pure (mem a)

/-- A string that ends. -/
def StringAt (mem : Bytes) (a : Word) : Prop := ∃ k : Nat, mem (a + BitVec.ofNat 32 k) = 0#8

/-- The arguments of the `%s` among the items are strings, or null. -/
def RightArgs (mem : Bytes) (ap : Nat → Word) : List Item → Nat → Prop
  | [], _ => True
  | .lit _ :: is, i => RightArgs mem ap is i
  | .conv fs c :: is, i =>
    let s := Flags.scan ap none {} i fs
    (c = chr 's' → ap s.2 = 0#32 ∨ StringAt mem (ap s.2)) ∧ RightArgs mem ap is (s.2 + takes s.1 c)
  | .bad fs _ :: is, i => RightArgs mem ap is (Flags.scan ap none {} i fs).2

def Ptr.byte (mem : Bytes) : Ptr → Nat → Byte
  | .mem a, k => mem (a + BitVec.ofNat 32 k)
  | .lit s i, k => s.getD (i + k) 0#8

variable {put : Word → σ → σ} {mem : Bytes} {ap : Nat → Word} {lim : Nat}

theorem byte_next (p : Ptr) (k : Nat) : p.next.byte mem k = p.byte mem (k + 1) := by
  cases p with
  | mem a =>
    show mem (a + 1#32 + BitVec.ofNat 32 k) = mem (a + BitVec.ofNat 32 (k + 1))
    rw [BitVec.add_assoc, Nat.add_comm, BitVec.ofNat_add]
  | lit s i =>
    show s.getD (i + 1 + k) 0#8 = s.getD (i + (k + 1)) 0#8
    rw [Nat.add_assoc, Nat.add_comm 1 k]

theorem put_returns (c : Word) : Yields ((memHost put mem).put c) fun _ => True := Yields.update

theorem load_returns (p : Ptr) : Yields ((memHost put mem).loadAt p) fun c => c = p.byte mem 0 := by
  cases p with
  | mem a =>
    refine Yields.pure ?_
    show mem a = mem (a + 0#32)
    rw [BitVec.add_zero]
  | lit s i => exact Yields.pure rfl

theorem pad_returns (c : Word) : ∀ n, Yields (pad (memHost put mem) c n) fun _ => True
  | 0 => Yields.pure trivial
  | n + 1 => (put_returns c).bind fun _ _ => pad_returns c n

theorem printnum_returns (base : Base) (padc : Word) (num : Nat) (width : Word) :
    Yields (printnum (memHost put mem) num base width padc) fun _ => True := by
  induction num using Nat.strong_induction_on generalizing width with
  | _ num ih =>
    rw [printnum_eq]
    refine Yields.bind (Yields.ite (fun hge => ?_) fun _ => pad_returns _ _) fun _ _ => put_returns _
    have hbase := base.2
    exact ih _ (Nat.div_lt_self (by omega) hbase) _

theorem number_returns (fl : Flags) (num : BitVec 64) (base : Base) :
    Yields (number (memHost put mem) fl num base) fun _ => True := printnum_returns _ _ _ _

/-- `k` is the distance to the end of the string. -/
theorem strnlen_returns : ∀ {lim k : Nat} {p : Ptr} (size n : Word), p.byte mem k = 0#8 → k < lim →
    Yields (strnlen (memHost put mem) lim p size n) fun _ => True
  | 0, _, _, _, _, _, hk => absurd hk (Nat.not_lt_zero _)
  | lim + 1, k, p, size, n, hp, hk => by
    unfold strnlen
    refine Yields.ite (fun _ => Yields.pure trivial) fun _ => (load_returns p).bind fun c hc => ?_
    refine Yields.ite (fun _ => Yields.pure trivial) fun hne => ?_
    cases k with
    | zero => exact absurd (hc.trans hp) hne
    | succ k => exact strnlen_returns _ _ ((byte_next p k).trans hp) (by omega)

theorem putLoop_returns (alt : Bool) : ∀ {lim k : Nat} {p : Ptr} (precision width : Word), p.byte mem k = 0#8 → k < lim →
    Yields (putLoop (memHost put mem) alt lim p precision width) fun _ => True
  | 0, _, _, _, _, _, hk => absurd hk (Nat.not_lt_zero _)
  | lim + 1, k, p, precision, width, hp, hk => by
    unfold putLoop
    refine (load_returns p).bind fun c hc => Yields.ite (fun _ => Yields.pure trivial) fun hne => ?_
    refine Yields.bind (Yields.ite (fun _ => put_returns _) fun _ => put_returns _) fun _ _ => ?_
    cases k with
    | zero => exact absurd (Or.inl (hc.trans hp)) hne
    | succ k => exact putLoop_returns alt _ _ ((byte_next p k).trans hp) (by omega)

theorem putString_returns {k : Nat} {p : Ptr} (fl : Flags) (hp : p.byte mem k = 0#8) (hk : k < lim) :
    Yields (putString (memHost put mem) lim fl p) fun _ => True := by
  unfold putString
  refine Yields.bind (P := fun _ => True) (Yields.ite (fun _ => ?_) fun _ => Yields.pure trivial) fun _ _ =>
    (putLoop_returns _ _ _ hp hk).bind fun _ _ => pad_returns _ _
  exact (strnlen_returns _ _ hp hk).bind fun _ _ => (pad_returns _ _).bind fun _ _ => Yields.pure trivial

theorem getint_returns (i : Nat) (l : Word) :
    Yields (getint (σ := σ) (fun i => .mem (ap i)) i l) fun r => r.2 = i + if 2 ≤ l.toInt then 2 else 1 := by
  refine Yields.bind (P := fun _ => True) (Yields.pure trivial) fun _ _ => Yields.ite (fun hl => ?_) fun hl => ?_
  · exact Yields.bind (P := fun _ => True) (Yields.pure trivial) fun _ _ => Yields.pure (by rw [if_pos hl])
  · exact Yields.pure (by rw [if_neg hl])

theorem getuint_returns (i : Nat) (l : Word) :
    Yields (getuint (σ := σ) (fun i => .mem (ap i)) i l) fun r => r.2 = i + if 2 ≤ l.toInt then 2 else 1 := by
  refine Yields.bind (P := fun _ => True) (Yields.pure trivial) fun _ _ => Yields.ite (fun hl => ?_) fun hl => ?_
  · exact Yields.bind (P := fun _ => True) (Yields.pure trivial) fun _ _ => Yields.pure (by rw [if_pos hl])
  · exact Yields.pure (by rw [if_neg hl])

/-- The plain characters of a constant format. -/
theorem litLoop_returns {s : List Byte} {args : VaList} {pf : List Byte → VaList → Prog σ Unit} {n j i : Nat}
    (hc : s.getD j 0#8 ≠ 0#8) (hp : s.getD j 0#8 ≠ chr '%')
    (h : Yields (fmtLoop (memHost put mem) (litFormat σ s) lim pf args n (j + 1) i) fun _ => True) :
    Yields (fmtLoop (memHost put mem) (litFormat σ s) lim pf args (n + 1) j i) fun _ => True := by
  unfold fmtLoop
  refine Yields.bind (P := fun c => c = s.getD j 0#8) (Yields.pure rfl) ?_
  rintro _ rfl
  rw [if_neg hc, if_pos hp]
  exact (put_returns _).bind fun _ _ => h

/-- A conversion at the end of a constant format. -/
theorem litLoop_conv_returns (lim : Nat) {s : List Byte} {args : VaList} {pf : List Byte → VaList → Prog σ Unit} {n j i : Nat}
    (hp : s.getD j 0#8 = chr '%') (hconv : s.getD (j + 1) 0#8 ∈ conversions) (hend : s.getD (j + 2) 0#8 = 0#8)
    (h : Yields (convert (memHost put mem) (lim + 1) pf args i {} (s.getD (j + 1) 0#8)) fun _ => True) :
    Yields (fmtLoop (memHost put mem) (litFormat σ s) (lim + 1) pf args (n + 2) j i) fun _ => True := by
  have hflag : ∀ c ∈ conversions, c ≠ chr '-' ∧ c ≠ chr '0' ∧ ¬ (0x31 ≤ c.toNat ∧ c.toNat ≤ 0x39) ∧ c ≠ chr '*' ∧ c ≠ chr '.' ∧
      c ≠ chr '#' ∧ c ≠ chr 'l' := by decide
  unfold fmtLoop
  refine Yields.bind (P := fun c => c = s.getD j 0#8) (Yields.pure rfl) ?_
  rintro _ rfl
  rw [hp, if_neg (by decide), if_neg (not_not_intro rfl)]
  refine Yields.bind (P := fun r => r = (s.getD (j + 1) 0#8, j + 2, {}, i)) ?_ ?_
  · unfold reswitch
    refine Yields.bind (P := fun c => c = s.getD (j + 1) 0#8) (Yields.pure rfl) ?_
    rintro _ rfl
    obtain ⟨h₁, h₂, h₃, h₄, h₅, h₆, h₇⟩ := hflag _ hconv
    rw [if_neg h₁, if_neg h₂, if_neg h₃, if_neg h₄, if_neg h₅, if_neg h₆, if_neg h₇]
    exact Yields.pure rfl
  · rintro _ rfl
    dsimp only
    rw [if_pos hconv]
    refine h.bind fun _ _ => ?_
    unfold fmtLoop
    refine Yields.bind (P := fun c => c = s.getD (j + 2) 0#8) (Yields.pure rfl) ?_
    rintro _ rfl
    rw [if_pos hend]
    exact Yields.pure trivial

theorem convert_d_returns (ap : Nat → Word) (pf : List Byte → VaList → Prog σ Unit) (i : Nat) (fl : Flags) :
    Yields (convert (memHost put mem) lim pf (fun i => .mem (ap i)) i fl (chr 'd')) fun j => j = i + takes fl (chr 'd') := by
  refine (getint_returns i fl.lflag).bind fun r hr => ?_
  refine Yields.bind (Yields.ite (fun _ => (put_returns _).bind fun _ _ => number_returns _ _ _) fun _ =>
    number_returns _ _ _) fun _ _ => Yields.pure hr

theorem convert_s_returns (pf : List Byte → VaList → Prog σ Unit) {args : VaList} {k i : Nat} (fl : Flags)
    (hp : (match args i with
      | .mem a => if a = 0#32 then Ptr.lit (strLit "(null)") 0 else .mem a
      | .lit s k => .lit s k).byte mem k = 0#8) (hk : k < lim) :
    Yields (convert (memHost put mem) lim pf args i fl (chr 's')) fun j => j = i + 1 :=
  (putString_returns fl hp hk).bind fun _ _ => Yields.pure rfl

/-- The formats of `%e`. -/
theorem printfmt_error_returns (err : Word) (hlim : 20 ≤ lim) :
    Yields (printfmt (memHost put mem) lim (strLit "error %d") fun _ => .mem err) fun _ => True := by
  obtain ⟨m, rfl⟩ : ∃ m, lim = m + 1 + 7 := ⟨lim - 8, by omega⟩
  unfold printfmt
  refine litLoop_returns (by decide) (by decide) (litLoop_returns (by decide) (by decide) (litLoop_returns (by decide)
    (by decide) (litLoop_returns (by decide) (by decide) (litLoop_returns (by decide) (by decide) (litLoop_returns (by decide)
    (by decide) ?_)))))
  refine litLoop_conv_returns _ (by decide) (by decide) (by decide) ?_
  exact Yields.weaken (convert_d_returns (fun _ => err) _ _ _) fun _ _ => trivial

theorem printfmt_string_returns (s : List Byte) (hs : s.length ≤ 30) (hlim : 40 ≤ lim) :
    Yields (printfmt (memHost put mem) lim (strLit "%s") fun _ => .lit s 0) fun _ => True := by
  obtain ⟨m, rfl⟩ : ∃ m, lim = m + 2 := ⟨lim - 2, by omega⟩
  unfold printfmt
  refine litLoop_conv_returns (m + 1) (by decide) (by decide) (by decide) ?_
  refine Yields.weaken (convert_s_returns (k := s.length) _ _ ?_ (by omega)) fun _ _ => trivial
  exact List.getD_eq_default _ _ (by omega)

theorem errorString_le (k : Nat) : (errorString.getD k []).length ≤ 30 := by
  have hall : ∀ s ∈ errorString, s.length ≤ 30 := by decide
  by_cases hk : k < errorString.length
  · rw [List.getD_eq_getElem _ _ hk]
    exact hall _ (List.getElem_mem hk)
  · rw [List.getD_eq_default _ _ (by omega)]
    exact Nat.zero_le _

theorem conversions_cases : ∀ c ∈ conversions, c = chr 's' ∨ c = chr 'c' ∨ c = chr 'e' ∨ c = chr 'd' ∨ c = chr 'u' ∨
    c = chr 'p' ∨ c = chr 'x' ∨ c = chr 'o' ∨ c = chr '%' := by decide

/-- A conversion returns, when the bound on the loops is over the length of the string it prints. -/
theorem convert_returns (put : Word → σ → σ) (ap : Nat → Word) (i : Nat) (fl : Flags) {c : Byte} (hc : c ∈ conversions)
    (hs : c = chr 's' → ap i = 0#32 ∨ StringAt mem (ap i)) : ∃ N, ∀ lim, N ≤ lim →
      Yields (convert (memHost put mem) lim (printfmt (memHost put mem) lim) (fun i => .mem (ap i)) i fl c)
        fun j => j = i + takes fl c := by
  by_cases hstr : c = chr 's'
  · subst hstr
    by_cases hnull : ap i = 0#32
    · refine ⟨40, fun lim hlim => convert_s_returns (k := 6) _ _ ?_ (by omega)⟩
      simp only [hnull, if_true]
      exact (by decide : (strLit "(null)").getD (0 + 6) 0#8 = 0#8)
    · obtain ⟨k, hk⟩ := (hs rfl).resolve_left hnull
      refine ⟨k + 1, fun lim hlim => convert_s_returns (k := k) _ _ ?_ hlim⟩
      simp only [if_neg hnull]
      exact hk
  · refine ⟨40, fun lim hlim => ?_⟩
    rcases (conversions_cases c hc).resolve_left hstr with rfl | rfl | rfl | rfl | rfl | rfl | rfl | rfl
    · exact Yields.bind (P := fun _ => True) (Yields.pure trivial) fun _ _ => (put_returns _).bind fun _ _ => Yields.pure rfl
    · refine Yields.bind (P := fun _ => True) (Yields.pure trivial) fun _ _ => Yields.bind (Yields.ite (fun _ =>
        printfmt_error_returns _ (by omega)) fun _ => printfmt_string_returns _ (errorString_le _) hlim) fun _ _ =>
          Yields.pure rfl
    · exact convert_d_returns ap _ _ _
    · exact (getuint_returns i fl.lflag).bind fun r hr => (number_returns _ _ _).bind fun _ _ => Yields.pure hr
    · exact (put_returns _).bind fun _ _ => (put_returns _).bind fun _ _ => Yields.bind (P := fun _ => True)
        (Yields.pure trivial) fun _ _ => (number_returns _ _ _).bind fun _ _ => Yields.pure rfl
    · exact (getuint_returns i fl.lflag).bind fun r hr => (number_returns _ _ _).bind fun _ _ => Yields.pure hr
    · exact (put_returns _).bind fun _ _ => (put_returns _).bind fun _ _ => (put_returns _).bind fun _ _ => Yields.pure rfl
    · exact (put_returns _).bind fun _ _ => Yields.pure rfl

theorem putAll_returns : ∀ cs, Yields (putAll (memHost put mem) cs) fun _ => True
  | [] => Yields.pure trivial
  | _ :: cs => (put_returns _).bind fun _ _ => putAll_returns cs

theorem runItems_returns (put : Word → σ → σ) (is : List Item) (i : Nat) (hconv : ∀ fs c, Item.conv fs c ∈ is → c ∈ conversions)
    (hargs : RightArgs mem ap is i) :
    ∃ N, ∀ lim, N ≤ lim → Yields (runItems (memHost put mem) lim ap is i) fun _ => True := by
  induction is generalizing i with
  | nil => exact ⟨0, fun _ _ => Yields.pure trivial⟩
  | cons item is ih =>
    have ih := fun i => ih i fun fs c hc => hconv fs c (List.mem_cons_of_mem _ hc)
    cases item with
    | lit c =>
      obtain ⟨N, hN⟩ := ih i hargs
      exact ⟨N, fun lim hlim => (putAll_returns _).bind fun _ _ => hN lim hlim⟩
    | conv fs c =>
      obtain ⟨hs, hargs⟩ := hargs
      obtain ⟨N, hN⟩ := ih _ hargs
      obtain ⟨M, hM⟩ := convert_returns put ap _ (Flags.scan ap none {} i fs).1 (hconv fs c (List.mem_cons_self ..)) hs
      refine ⟨max M N, fun lim hlim => (hM lim (by omega)).bind ?_⟩
      rintro _ rfl
      exact hN lim (by omega)
    | bad fs c =>
      obtain ⟨N, hN⟩ := ih _ hargs
      exact ⟨N, fun lim hlim => (putAll_returns _).bind fun _ _ => hN lim hlim⟩

theorem items_conv (cs : List Byte) : ∀ fs c, Item.conv fs c ∈ items cs → c ∈ conversions := by
  induction cs using items_induction with
  | nil => simp [items]
  | lit c cs hc ih => simpa [items_lit hc] using ih
  | last cs hd => simp [items_last hd]
  | escape cs d rest hd ih =>
    intro fs c h
    rw [items_escape hd] at h
    rcases List.mem_cons.1 h with h | h
    · unfold escape at h
      split at h
      · cases h
        assumption
      · cases h
    · exact ih fs c h

end Jos
