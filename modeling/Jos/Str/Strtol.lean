/-
`strtol` of lib/string.c, on what `snprintf` prints.
-/
import Jos.Fmt.Numbers
import Jos.Str.Strings

namespace Jos

open Lib

/-! ## The code -/

/-- `gobble initial whitespace`. -/
def skipBlanks (mem : Bytes) : Nat → Word → Option Word
  | 0, _ => none
  | lim + 1, s => if mem s = chr ' ' ∨ mem s = 0x09#8 then skipBlanks mem lim (s + 1#32) else some s

/-- `dig`, for a character that is a digit in some base. -/
def strtolDig (c : Byte) : Option Word :=
  if 0x30 ≤ c.toInt ∧ c.toInt ≤ 0x39 then some (charInt c - charInt (chr '0'))
  else if 0x61 ≤ c.toInt ∧ c.toInt ≤ 0x7A then some (charInt c - charInt (chr 'a') + 10#32)
  else if 0x41 ≤ c.toInt ∧ c.toInt ≤ 0x5A then some (charInt c - charInt (chr 'A') + 10#32)
  else none

/-- The loop over the digits. -/
def strtolDigits (mem : Bytes) (base : Word) : Nat → Word → Word → Option (Word × Word)
  | 0, _, _ => none
  | lim + 1, s, val =>
    match strtolDig (mem s) with
    | none => some (val, s)
    | some dig => if dig.toInt ≥ base.toInt then some (val, s) else strtolDigits mem base lim (s + 1#32) (val * base + dig)

/-- `plus/minus sign`: the place behind it, and `neg`. -/
def strtolSign (mem : Bytes) (s : Word) : Word × Bool :=
  if mem s = chr '+' then (s + 1#32, false)
  else if mem s = chr '-' then (s + 1#32, true)
  else (s, false)

/-- `hex or octal base prefix`: the place behind it, and `base`. -/
def strtolBase (mem : Bytes) (s base : Word) : Word × Word :=
  if (base = 0#32 ∨ base = 16#32) ∧ mem s = chr '0' ∧ mem (s + 1#32) = chr 'x' then (s + 2#32, 16#32)
  else if base = 0#32 ∧ mem s = chr '0' then (s + 1#32, 8#32)
  else if base = 0#32 then (s, 10#32)
  else (s, base)

/-- `strtol`: its value, and `*endptr`. -/
def strtol (lim : Nat) (mem : Bytes) (s base : Word) : Option (Word × Word) := do
  let s ← skipBlanks mem lim s
  let (s, neg) := strtolSign mem s
  let (s, base) := strtolBase mem s base
  let (val, s) ← strtolDigits mem base lim s 0#32
  return (if neg then -val else val, s)

/-- `snprintf`; `args` are the arguments behind the format. -/
def snprintf (lim : Nat) (mem : Bytes) (buf n fmt : Word) (args : Nat → Word) : Option (Word × SprintBuf) :=
  vsnprintf lim mem buf n fmt args

/-! ## Numerals are read back -/

variable {mem : Bytes} {s base : Word} {c : Byte} {cs : List Byte} {b n lim : Nat}

theorem strAt_mem_nil (h : StrAt mem (.mem s) []) : mem s = 0#8 := by
  have hend : mem (s + 0#32) = 0#8 := h.head_nil
  rwa [BitVec.add_zero] at hend

theorem strAt_mem_cons (h : StrAt mem (.mem s) (c :: cs)) : mem s = c ∧ StrAt mem (.mem (s + 1#32)) cs := by
  have hc : mem (s + 0#32) = c := h.head
  rw [BitVec.add_zero] at hc
  exact ⟨hc, h.next⟩

theorem strtolDig_digit : ∀ d < 16, strtolDig (digitChar d) = some (BitVec.ofNat 32 d) := by decide

theorem digitChar_plain : ∀ d < 16, ¬ (digitChar d = chr ' ' ∨ digitChar d = 0x09#8) ∧ digitChar d ≠ chr '+' ∧
    digitChar d ≠ chr '-' ∧
    digitChar d ≠ chr 'x' ∧ digitChar d ≠ 0#8 := by decide

theorem strtolDigits_run (hb : b ≤ 16) : ∀ (ds : List Nat) (lim : Nat) (s : Word) (v : Nat), (∀ d ∈ ds, d < b) →
    StrAt mem (.mem s) (ds.map digitChar) → ds.length < lim →
    strtolDigits mem (BitVec.ofNat 32 b) lim s (BitVec.ofNat 32 v) =
      some (BitVec.ofNat 32 (ds.foldl (fun v d => v * b + d) v), s + BitVec.ofNat 32 ds.length)
  | [], lim + 1, s, v, _, h, _ => by
    have hdig : strtolDig 0#8 = none := by decide
    rw [strtolDigits, strAt_mem_nil h, hdig]
    show _ = some (_, s + 0#32)
    rw [BitVec.add_zero]
    rfl
  | d :: ds, lim + 1, s, v, hd, h, hlim => by
    obtain ⟨hc, hnext⟩ := strAt_mem_cons h
    have hlt := hd d (List.mem_cons_self ..)
    have hint : ∀ k ≤ 16, (BitVec.ofNat 32 k).toInt = k := by decide
    have hsmall : ¬ (BitVec.ofNat 32 d).toInt ≥ (BitVec.ofNat 32 b).toInt := by
      rw [hint d (by omega), hint b hb]
      omega
    have hval : BitVec.ofNat 32 v * BitVec.ofNat 32 b + BitVec.ofNat 32 d = BitVec.ofNat 32 (v * b + d) := by
      rw [BitVec.ofNat_add, BitVec.ofNat_mul]
    rw [List.length_cons] at hlim ⊢
    rw [strtolDigits, hc, strtolDig_digit d (by omega)]
    dsimp only
    rw [if_neg hsmall, hval, strtolDigits_run hb ds lim (s + 1#32) _
      (fun d hd' => hd d (List.mem_cons_of_mem _ hd')) hnext (by omega),
      List.foldl_cons, BitVec.add_assoc, Nat.add_comm ds.length, BitVec.ofNat_add]

/-- A numeral and its end. -/
theorem strtolDigits_numeral (hb : 2 ≤ b) (hb' : b ≤ 16) (h : StrAt mem (.mem s) (numeralText b n))
    (hlim : (numeralText b n).length < lim) :
    strtolDigits mem (BitVec.ofNat 32 b) lim s 0#32 = some (BitVec.ofNat 32 n, s + BitVec.ofNat 32 (numeralText b n).length) := by
  rw [length_numeralText] at hlim ⊢
  have hrun := strtolDigits_run hb' (numeral b n) lim s 0 (fun d hd => numeral_lt hb hd) h hlim
  rw [foldl_numeral hb] at hrun
  exact hrun

theorem numeralText_digits (hb : 2 ≤ b) (hb' : b ≤ 16) (n : Nat) : ∀ c ∈ numeralText b n, ∃ d < 16, c = digitChar d := by
  intro c hc
  obtain ⟨d, hd, rfl⟩ := List.mem_map.1 hc
  exact ⟨d, (numeral_lt hb hd).trans_le hb', rfl⟩

theorem numeralText_cons (hb : 2 ≤ b) (hb' : b ≤ 16) (n : Nat) : ∃ d < 16, ∃ cs, numeralText b n = digitChar d :: cs := by
  cases hnum : numeralText b n with
  | nil =>
    have hpos := numeral_length_pos b n
    rw [← length_numeralText, hnum] at hpos
    exact absurd hpos (Nat.lt_irrefl 0)
  | cons c cs =>
    obtain ⟨d, hd, rfl⟩ := numeralText_digits hb hb' n c (hnum ▸ List.mem_cons_self ..)
    exact ⟨d, hd, cs, rfl⟩

/-- A number in which no blanks come first. -/
theorem strtol_eq {s₁ s₂ base' val e : Word} {neg : Bool} (hblank : ¬ (mem s = chr ' ' ∨ mem s = 0x09#8)) (hlim : 0 < lim)
    (hsign : strtolSign mem s = (s₁, neg)) (hbase : strtolBase mem s₁ base = (s₂, base'))
    (hdigits : strtolDigits mem base' lim s₂ 0#32 = some (val, e)) :
    strtol lim mem s base = some (if neg then -val else val, e) := by
  obtain ⟨lim, rfl⟩ : ∃ k, lim = k + 1 := ⟨lim - 1, by omega⟩
  unfold strtol
  rw [show skipBlanks mem (lim + 1) s = some s from if_neg hblank]
  dsimp only [Option.bind_eq_bind, Option.bind_some]
  rw [hsign]
  dsimp only
  rw [hbase]
  dsimp only
  rw [hdigits]
  rfl

/-- A numeral without a sign. -/
theorem strtol_numeral (hb : 2 ≤ b) (hb' : b ≤ 16) (h : StrAt mem (.mem s) (numeralText b n))
    (hlim : (numeralText b n).length < lim) :
    strtol lim mem s (BitVec.ofNat 32 b) = some (BitVec.ofNat 32 n, s + BitVec.ofNat 32 (numeralText b n).length) := by
  obtain ⟨d, hd, cs, hcs⟩ := numeralText_cons hb hb' n
  have hdigits := numeralText_digits hb hb' n
  have hrun := strtolDigits_numeral hb hb' h hlim
  rw [hcs] at h hdigits
  obtain ⟨hc, hnext⟩ := strAt_mem_cons h
  obtain ⟨hblank, hplus, hminus, -, -⟩ := digitChar_plain d hd
  -- the second character is a digit or the NUL
  have hx : mem (s + 1#32) ≠ chr 'x' := by
    cases cs with
    | nil =>
      rw [strAt_mem_nil hnext]
      decide
    | cons e cs =>
      obtain ⟨d', hd', rfl⟩ := hdigits e (List.mem_cons_of_mem _ (List.mem_cons_self ..))
      rw [(strAt_mem_cons hnext).1]
      exact (digitChar_plain d' hd').2.2.2.1
  have hbase : BitVec.ofNat 32 b ≠ 0#32 := by bv_omega
  have hsign : strtolSign mem s = (s, false) := by
    unfold strtolSign
    rw [hc, if_neg hplus, if_neg hminus]
  have hstep : strtolBase mem s (BitVec.ofNat 32 b) = (s, BitVec.ofNat 32 b) := by
    unfold strtolBase
    rw [if_neg (fun hp => hx hp.2.2), if_neg (fun hp => hbase hp.1), if_neg hbase]
  exact strtol_eq (hc ▸ hblank) (by omega) hsign hstep hrun

theorem strtol_minus (h : StrAt mem (.mem s) (chr '-' :: numeralText 10 n)) (hlim : (numeralText 10 n).length + 1 < lim) :
    strtol lim mem s 10#32 = some (-BitVec.ofNat 32 n, s + BitVec.ofNat 32 ((numeralText 10 n).length + 1)) := by
  obtain ⟨hc, hnext⟩ := strAt_mem_cons h
  have hrun := strtolDigits_numeral (by decide) (by decide) hnext (Nat.lt_of_succ_lt hlim)
  have hsign : strtolSign mem s = (s + 1#32, true) := by
    unfold strtolSign
    rw [hc]
    rfl
  rw [BitVec.add_assoc] at hrun
  rw [Nat.add_comm, BitVec.ofNat_add]
  exact strtol_eq (by rw [hc]; decide) (by omega) hsign rfl hrun

theorem strtol_prefixed (hbase : base = 0#32 ∨ base = 16#32) (h : StrAt mem (.mem s) (chr '0' :: chr 'x' :: numeralText 16 n))
    (hlim : (numeralText 16 n).length + 2 < lim) :
    strtol lim mem s base = some (BitVec.ofNat 32 n, s + BitVec.ofNat 32 ((numeralText 16 n).length + 2)) := by
  obtain ⟨hc, hnext⟩ := strAt_mem_cons h
  obtain ⟨hx, hnext⟩ := strAt_mem_cons hnext
  rw [BitVec.add_assoc] at hnext
  have hrun := strtolDigits_numeral (by decide) (by decide) hnext (by omega : _ < lim)
  have hsign : strtolSign mem s = (s, false) := by
    unfold strtolSign
    rw [hc]
    rfl
  rw [BitVec.add_assoc] at hrun
  rw [Nat.add_comm, BitVec.ofNat_add]
  exact strtol_eq (by rw [hc]; decide) (by omega) hsign (if_pos ⟨hbase, hc, hx⟩) hrun

/-! ## What `snprintf` prints -/

/-- The formats of integers. -/
inductive IntFormat where
  | num (c : NumConv)
  | p

def IntFormat.char : IntFormat → Byte
  | .num c => c.char
  | .p => chr 'p'

/-- The text of an argument. -/
def IntFormat.text : IntFormat → Word → List Byte
  | .num c, v => signText (c.value v) ++ numeralText c.base.1 (c.value v).natAbs
  | .p, v => chr '0' :: chr 'x' :: numeralText 16 v.toNat

/-- The bases in which `strtol` should read it. -/
def IntFormat.bases : IntFormat → List Word
  | .num .d => [10#32]
  | .num .u => [10#32]
  | .num .x => [16#32]
  | .p => [0#32, 16#32]

variable {hidden : Word → Bool} {f : Word} {ap : Nat → Word} {c : IntFormat} {v : Word}

/-- The flags of an escape without any let nothing be padded. -/
theorem numberText_plain (base : Base) {v : Int} (hv : v.natAbs < 2 ^ 32) :
    numberText {} base v = signText v ++ numeralText base.1 v.natAbs := by
  have hlen := numeral_length_word base hv
  have hturns : turns (-1#32 - BitVec.ofNat 32 (numeral base.1 v.natAbs).length) = 0 := by
    unfold turns
    rw [BitVec.toInt_eq_toNat_cond]
    split <;> bv_omega
  unfold numberText
  rw [hturns, List.replicate_zero, List.append_nil]

/-- A format of one conversion. -/
theorem emitted_conv {ch : Byte} {i : Nat} {w : List Word} (hch : ch ∈ conversions) (hflag : isFlag ch = false)
    (hf : IsFormat mem f [chr '%', ch]) (hvis : ∀ o ≤ 2, hidden (f + BitVec.ofNat 32 o) = false) (hlim : 2 ≤ lim)
    (hrun : (convert (listHost mem hidden) lim (printfmt (listHost mem hidden) lim)
      (fun i => .mem (ap i)) 0 {} ch).run [] = some (i, w)) :
    emitted mem hidden lim f ap = some w := by
  obtain ⟨lim, rfl⟩ : ∃ k, lim = k + 2 := ⟨lim - 2, by omega⟩
  have hget : ∀ o ≤ 2, ∀ w, ((memFormat (listHost mem hidden)).get (f + BitVec.ofNat 32 o)).run w =
      some ([chr '%', ch].getD o 0#8, w) := by
    intro o ho w
    show (if hidden (f + BitVec.ofNat 32 o) then
      failure else pure (mem (f + BitVec.ofNat 32 o)) : Prog (List Word) Byte).run w = _
    rw [hvis o ho, hf.2 o ho]
    rfl
  have h0 : ((memFormat (listHost mem hidden)).get f).run [] = some (chr '%', []) := by
    have := hget 0 (by omega) []
    rw [BitVec.add_zero] at this
    exact this
  have h2 : ((memFormat (listHost mem hidden)).get (f + 1#32 + 1#32)).run w = some (0#8, w) := by
    rw [BitVec.add_assoc]
    exact hget 2 le_rfl w
  have hescape : (reswitch (memFormat (listHost mem hidden)) (fun i => .mem (ap i)) (lim + 2) (f + 1#32) {} 0).run [] =
      some ((ch, f + 1#32 + 1#32, {}, 0), []) := reswitch_end _ (hget 1 (by omega) []) hflag
  have hloop : (fmtLoop (listHost mem hidden) (memFormat (listHost mem hidden)) (lim + 2)
      (printfmt (listHost mem hidden) (lim + 2)) (fun i => .mem (ap i)) (lim + 2) f 0).run [] = some ((), w) := by
    rw [fmtLoop, run_bind_of h0, if_neg (by decide), if_neg (not_not_intro rfl)]
    show (reswitch _ _ _ (f + 1#32) _ _ >>= _).run [] = _
    rw [run_bind_of hescape]
    dsimp only
    rw [if_pos hch, run_bind_of hrun, fmtLoop, run_bind_of h2]
    rfl
  unfold emitted vprintfmt
  rw [hloop]
  rfl

theorem putChars_list (hidden : Word → Bool) : ∀ (cs : List Byte) (w : List Word),
    putChars (listHost mem hidden).putch cs w = w ++ cs.map charInt
  | [], w => (List.append_nil w).symm
  | c :: cs, w => by
    show putChars (listHost mem hidden).putch cs (w ++ [charInt c]) = _
    rw [putChars_list hidden cs, List.append_assoc]
    rfl

theorem emitted_int (hf : IsFormat mem f [chr '%', c.char]) (hvis : ∀ o ≤ 2, hidden (f + BitVec.ofNat 32 o) = false)
    (hlim : 2 ≤ lim) :
    emitted mem hidden lim f ap = some ((c.text (ap 0)).map charInt) := by
  have hconv : c.char ∈ conversions ∧ isFlag c.char = false := by
    cases c with
    | num c => cases c <;> decide
    | p => decide
  refine emitted_conv (i := 1) hconv.1 hconv.2 hf hvis hlim ?_
  cases c with
  | num c =>
    show (convert (listHost mem hidden) lim _ (fun i => .mem (ap i)) 0 {} c.char).run [] = _
    rw [convert_number_run _ _ rfl, putChars_list, numberText_plain _ (value_natAbs_lt c _)]
    rfl
  | p =>
    have hnum : ((ap 0).setWidth 64).toNat = (ap 0).toNat := BitVec.toNat_setWidth_of_le (by decide)
    have hput : ∀ (ch : Byte) (w : List Word), ((listHost mem hidden).put (charInt ch)).run w = some ((), w ++ [charInt ch]) :=
      fun _ _ => rfl
    have hplain := numberText_plain hexadecimal (v := (ap 0).toNat) (by rw [Int.natAbs_natCast]; exact (ap 0).isLt)
    have htext : (number (listHost mem hidden) {} ((ap 0).setWidth 64) hexadecimal).run
      ([charInt (chr '0')] ++ [charInt (chr 'x')]) =
        some ((), (chr '0' :: chr 'x' :: numeralText 16 (ap 0).toNat).map charInt) := by
      have hsign : signText ((ap 0).toNat : Int) = [] := if_neg (by omega)
      unfold numberText at hplain
      rw [hsign, Int.natAbs_natCast, List.nil_append, List.nil_append] at hplain
      unfold number
      rw [printnum_run, hnum, putChars_list]
      dsimp only at hplain ⊢
      rw [hplain, List.map_cons, List.map_cons]
      rfl
    show ((listHost mem hidden).put (charInt (chr '0')) >>= _).run [] = _
    rw [run_bind_of (hput _ _), run_bind_of (hput _ _)]
    show (number (listHost mem hidden) {} ((ap 0).setWidth 64) hexadecimal >>= fun _ => pure (0 + 1)).run _ = _
    rw [List.nil_append, run_bind_of htext]
    rfl

/-- The characters of the text are themselves as ints, and none is a NUL. -/
theorem text_char (c : IntFormat) (v : Word) : ∀ ch ∈ c.text v, (charInt ch).setWidth 8 = ch ∧ ch ≠ 0#8 := by
  have hback : ∀ ch : Byte, (charInt ch).setWidth 8 = ch := fun ch => by
    unfold charInt
    ext i hi
    simp [BitVec.getElem_signExtend, hi, Nat.lt_trans hi (by decide : 8 < 32)]
  have hdigits : ∀ {b n : Nat}, 2 ≤ b → b ≤ 16 → ∀ ch ∈ numeralText b n, ch ≠ 0#8 := by
    intro b n hb hb' ch hch
    obtain ⟨d, hd, rfl⟩ := numeralText_digits hb hb' n ch hch
    exact (digitChar_plain d hd).2.2.2.2
  refine fun ch hch => ⟨hback ch, ?_⟩
  cases c with
  | p =>
    rcases List.mem_cons.1 hch with rfl | hch
    · decide
    rcases List.mem_cons.1 hch with rfl | hch
    · decide
    · exact hdigits (by decide) (by decide) ch hch
  | num c =>
    have hbase : c.base.1 ≤ 16 := by cases c <;> decide
    rcases List.mem_append.1 hch with hch | hch
    · unfold signText at hch
      split at hch
      · rw [List.mem_singleton.1 hch]
        decide
      · exact absurd hch List.not_mem_nil
    · exact hdigits c.base.2 hbase ch hch

theorem length_text_le (c : IntFormat) (v : Word) : (c.text v).length ≤ 34 := by
  have hlen : ∀ (base : Base) {n : Nat}, n < 2 ^ 32 → (numeralText base.1 n).length ≤ 32 := fun base n hn => by
    rw [length_numeralText]
    exact numeral_length_word base hn
  cases c with
  | p => exact Nat.succ_le_succ (Nat.succ_le_succ (hlen hexadecimal v.isLt))
  | num c =>
    have hsign : (signText (c.value v)).length ≤ 1 := by
      unfold signText
      split <;> simp
    have := hlen c.base (value_natAbs_lt c v)
    show (_ ++ _ : List Byte).length ≤ 34
    rw [List.length_append]
    omega

/-- `strtol` reads the text of a number. -/
theorem strtol_text {buf : Word} (c : IntFormat) (v : Word) (hbase : base ∈ c.bases) (h : StrAt mem (.mem buf) (c.text v))
    (hlim : (c.text v).length < lim) : strtol lim mem buf base = some (v, buf + BitVec.ofNat 32 (c.text v).length) := by
  have hself : BitVec.ofNat 32 v.toNat = v := by rw [BitVec.ofNat_toNat, BitVec.setWidth_eq]
  have hunsigned : ∀ b, signText (v.toNat : Int) ++ numeralText b (v.toNat : Int).natAbs = numeralText b v.toNat := fun b => by
    rw [show signText (v.toNat : Int) = [] from if_neg (by omega), Int.natAbs_natCast]
    rfl
  match c with
  | .p =>
    have hrun := strtol_prefixed (by simpa [IntFormat.bases] using hbase) h hlim
    rw [hself] at hrun
    exact hrun
  | .num .u =>
    obtain rfl : base = 10#32 := List.mem_singleton.1 hbase
    have htext : (IntFormat.num .u).text v = numeralText 10 v.toNat := hunsigned 10
    rw [htext] at h hlim ⊢
    have hrun := strtol_numeral (by decide) (by decide) h hlim
    rw [hself] at hrun
    exact hrun
  | .num .x =>
    obtain rfl : base = 16#32 := List.mem_singleton.1 hbase
    have htext : (IntFormat.num .x).text v = numeralText 16 v.toNat := hunsigned 16
    rw [htext] at h hlim ⊢
    have hrun := strtol_numeral (by decide) (by decide) h hlim
    rw [hself] at hrun
    exact hrun
  | .num .d =>
    obtain rfl : base = 10#32 := List.mem_singleton.1 hbase
    have htext : (IntFormat.num .d).text v = signText v.toInt ++ numeralText 10 v.toInt.natAbs := rfl
    have hv := BitVec.toInt_eq_toNat_cond v
    have hlt := v.isLt
    rw [htext] at h hlim ⊢
    by_cases hneg : v.toInt < 0
    · have hsign : signText v.toInt = [chr '-'] := if_pos hneg
      -- the absolute value, also of the most negative number, is `-v` as a word
      have hval : -BitVec.ofNat 32 v.toInt.natAbs = v := by
        split at hv <;> bv_omega
      rw [hsign] at h hlim ⊢
      have hrun := strtol_minus h hlim
      rw [hval] at hrun
      exact hrun
    · have hsign : signText v.toInt = [] := if_neg hneg
      have hval : v.toInt.natAbs = v.toNat := by split at hv <;> omega
      rw [hsign, hval, List.nil_append] at h hlim ⊢
      have hrun := strtol_numeral (by decide) (by decide) h hlim
      rw [hself] at hrun
      exact hrun

/-- What `snprintf` prints of an integer is read back by `strtol`, in each base that fits the conversion, up to the end of
the text. -/
theorem strtol_snprintf {buf n : Word} (c : IntFormat) (v : Word) (hbase : base ∈ c.bases) (hf : IsFormat mem f [chr '%', c.char])
    (hbuf : buf ≠ 0#32) (hend : buf.toNat + n.toNat ≤ 2 ^ 32) (hroom : (c.text v).length < n.toInt)
    (hvis : ∀ o ≤ 2, inBuf buf n (f + BitVec.ofNat 32 o) = false) (hlim : 35 ≤ lim) :
    ∃ r b, snprintf lim mem buf n f (fun _ => v) = some (r, b) ∧ r.toInt = (c.text v).length ∧ StrAt b.mem (.mem buf) (c.text v) ∧
      strtol lim b.mem buf base = some (v, buf + r) := by
  have hlen := length_text_le c v
  have hw : ((c.text v).map charInt).length = (c.text v).length := List.length_map ..
  have hint := BitVec.toInt_eq_toNat_cond n
  have hout : emitted mem (inBuf buf n) lim f (fun _ => v) = some ((c.text v).map charInt) := emitted_int hf hvis (by omega)
  obtain ⟨b, hb, hrun⟩ := vsnprintf_buffer hbuf (by omega) hend hout
  obtain ⟨htext, hnul, -⟩ := hb.terminated
  have hroom' : (c.text v).length < n.toNat := by
    have := n.isLt
    split at hint <;> omega
  rw [hw] at htext hnul
  rw [Nat.min_eq_left (by omega)] at htext hnul
  have hstr : StrAt (Function.update b.mem b.buf 0#8) (.mem buf) (c.text v) := by
    refine ⟨fun h0 => (text_char c v _ h0).2 rfl, fun j hj => ?_⟩
    show Function.update b.mem b.buf 0#8 (buf + BitVec.ofNat 32 j) = _
    by_cases hjl : j = (c.text v).length
    · rw [hjl, hnul, List.getD_eq_default _ _ le_rfl]
    · have hlt : j < (c.text v).length := by omega
      rw [htext j hlt, List.getD_eq_getElem _ _ (by omega), List.getElem_map, List.getD_eq_getElem _ _ hlt]
      exact (text_char c v _ (List.getElem_mem _)).1
  have hcount : b.cnt = BitVec.ofNat 32 (c.text v).length := by rw [hb.cnt, hw]
  refine ⟨b.cnt, _, hrun, by rw [hcount, toInt_length (by omega)], hstr, ?_⟩
  rw [hcount]
  exact strtol_text c v hbase hstr (by omega)

theorem strtol_snprintf_min : ∃ r b,
    snprintf 40 (withStrings [(0x1000#32, strLit "%d")]) 0x2000#32 12#32 0x1000#32 (fun _ => 0x80000000#32) = some (r, b) ∧
      strtol 40 b.mem 0x2000#32 10#32 = some (0x80000000#32, 0x2000#32 + r) := by
  have hf : IsFormat (withStrings [(0x1000#32, strLit "%d")]) 0x1000#32 [chr '%', chr 'd'] := ⟨by decide, by decide⟩
  obtain ⟨r, b, hrun, -, -, hback⟩ := strtol_snprintf (.num .d) 0x80000000#32 (List.mem_singleton.2 rfl) hf
    (by decide : (0x2000#32 : Word) ≠ 0#32) (by decide : (0x2000#32 : Word).toNat + (12#32 : Word).toNat ≤ 2 ^ 32)
      (by decide +kernel)
    (by decide) (by decide : 35 ≤ 40)
  exact ⟨r, b, hrun, hback⟩

end Jos
