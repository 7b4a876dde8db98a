/-
What `%d`, `%u` and `%x` print with a width and a flag, and the fields that are asked for.
-/
import Jos.Lib.Numeral
import Jos.Fmt.Escapes
import Jos.Fmt.Sinks

namespace Jos

open Lib

variable {σ : Type}

/-! ## `printnum` -/

def numeralText (b n : Nat) : List Byte := (numeral b n).map digitChar

/-- Characters that are handed to `putch`. -/
def putChars (put : Word → σ → σ) (cs : List Byte) (s : σ) : σ := cs.foldl (fun s c => put (charInt c) s) s

theorem putChars_append (put : Word → σ → σ) (a b : List Byte) (s : σ) :
    putChars put (a ++ b) s = putChars put b (putChars put a s) :=
  List.foldl_append

theorem pad_run (h : Host σ) (c : Byte) : ∀ (k : Nat) (s : σ),
    (pad h (charInt c) k).run s = some ((), putChars h.putch (List.replicate k c) s)
  | 0, _ => rfl
  | k + 1, s => by
    have hput : (h.put (charInt c)).run s = some ((), h.putch (charInt c) s) := rfl
    unfold pad
    rw [run_bind_of hput, pad_run h c k]
    rfl

/-- The pads come first, and there are as many as the width has more than the numeral. -/
theorem printnum_run (h : Host σ) (base : Base) (c : Byte) (num : Nat) : ∀ (width : Word) (s : σ),
    (printnum h num base width (charInt c)).run s =
      some ((), putChars h.putch (List.replicate (turns (width - BitVec.ofNat 32 (numeral base.1 num).length)) c ++
        numeralText base.1 num) s) := by
  have hput : ∀ (d : Byte) (s : σ), (h.put (charInt d)).run s = some ((), putChars h.putch [d] s) := fun _ _ => rfl
  induction num using numeral_induction base.2 with
  | lt num hlt =>
    intro width s
    rw [printnum_eq, if_neg (by omega), run_bind_of (pad_run h c _ s), hput, ← putChars_append, Nat.mod_eq_of_lt hlt]
    unfold numeralText
    rw [numeral_of_lt hlt]
    rfl
  | ge num hge ih =>
    intro width s
    rw [printnum_eq, if_pos hge, run_bind_of (ih (width - 1#32) s), hput, ← putChars_append]
    unfold numeralText
    rw [numeral_of_ge base.2 hge, List.length_append, List.length_singleton, List.map_append, List.append_assoc]
    have hwidth : ∀ k : Nat, width - 1#32 - BitVec.ofNat 32 k = width - BitVec.ofNat 32 (k + 1) := fun k => by bv_omega
    rw [hwidth]
    rfl

/-! ## Conversions -/

inductive NumConv where
  | d | u | x

def NumConv.char : NumConv → Byte
  | .d => chr 'd'
  | .u => chr 'u'
  | .x => chr 'x'

def NumConv.base : NumConv → Base
  | .d => decimal
  | .u => decimal
  | .x => hexadecimal

/-- The argument as the integer that the conversion prints. -/
def NumConv.value : NumConv → Word → Int
  | .d, a => a.toInt
  | .u, a => a.toNat
  | .x, a => a.toNat

def signText (v : Int) : List Byte := if v < 0 then [chr '-'] else []

/-- What is printed with these flags. -/
def numberText (fl : Flags) (base : Base) (v : Int) : List Byte :=
  signText v ++ List.replicate (turns (fl.width - BitVec.ofNat 32 (numeral base.1 v.natAbs).length)) fl.padc ++
    numeralText base.1 v.natAbs

variable {ap : Nat → Word} {i lim : Nat} {fl : Flags}

theorem natAbs_signExtend (a : Word) : (a.signExtend 64).toInt = a.toInt := BitVec.toInt_signExtend_of_le (by decide)

/-- The number that is printed behind the sign. -/
theorem toNat_neg_signExtend {a : Word} (h : a.toInt < 0) : (-(a.signExtend 64)).toNat = a.toInt.natAbs := by
  have hs := natAbs_signExtend a
  have ha := BitVec.toInt_eq_toNat_cond a
  have hx := BitVec.toInt_eq_toNat_cond (a.signExtend 64)
  have := a.isLt
  have := (a.signExtend 64).isLt
  rw [BitVec.toNat_neg]
  split at ha <;> split at hx <;> omega

theorem toNat_signExtend {a : Word} (h : ¬ a.toInt < 0) : (a.signExtend 64).toNat = a.toInt.natAbs := by
  have hs := natAbs_signExtend a
  have hx := BitVec.toInt_eq_toNat_cond (a.signExtend 64)
  have := (a.signExtend 64).isLt
  split at hx <;> omega

/-- A numeric conversion takes a word and prints its sign, the pads and the numeral. -/
theorem convert_number_run (h : Host σ) (pf : List Byte → VaList → Prog σ Unit) (hl : fl.lflag = 0#32) (s : σ) : ∀ c : NumConv,
    (convert h lim pf (fun i => .mem (ap i)) i fl c.char).run s =
      some (i + 1, putChars h.putch (numberText fl c.base (c.value (ap i))) s) := by
  have hword : ((Ptr.mem (ap i)).word : Prog σ Word).run s = some (ap i, s) := rfl
  have hu : (getuint (fun i => .mem (ap i)) i fl.lflag : Prog σ (BitVec 64 × Nat)).run s =
      some (((ap i).setWidth 64, i + 1), s) := by
    rw [hl]
    rfl
  have hd : (getint (fun i => .mem (ap i)) i fl.lflag : Prog σ (BitVec 64 × Nat)).run s =
      some (((ap i).signExtend 64, i + 1), s) := by
    rw [hl]
    rfl
  -- `u` and `x` differ in the base only
  have hunsigned : ∀ base : Base, (number h fl ((ap i).setWidth 64) base).run s =
      some ((), putChars h.putch (numberText fl base (ap i).toNat) s) := by
    intro base
    have hnum : ((ap i).setWidth 64).toNat = (ap i).toNat := BitVec.toNat_setWidth_of_le (by decide)
    have hsign : signText (ap i).toNat = [] := if_neg (by omega)
    unfold number numberText
    rw [printnum_run, hnum, hsign, Int.natAbs_natCast]
    rfl
  intro c
  cases c with
  | d =>
    show (getint (fun i => .mem (ap i)) i fl.lflag >>= _).run s = _
    rw [run_bind_of hd]
    dsimp only
    rw [natAbs_signExtend]
    unfold numberText signText NumConv.value
    -- the sign of a negative number is printed first, and the width is that of the digits alone
    by_cases hneg : (ap i).toInt < 0
    · have hput : (h.put (charInt (chr '-'))).run s = some ((), putChars h.putch [chr '-'] s) := rfl
      rw [if_pos hneg, if_pos hneg, bind_assoc, run_bind_of hput]
      unfold number
      rw [run_bind_of (printnum_run ..), toNat_neg_signExtend hneg, ← putChars_append, List.append_assoc]
      rfl
    · rw [if_neg hneg, if_neg hneg]
      unfold number
      rw [run_bind_of (printnum_run ..), toNat_signExtend hneg]
      rfl
  | u =>
    show (getuint (fun i => .mem (ap i)) i fl.lflag >>= _).run s = _
    rw [run_bind_of hu]
    dsimp only
    rw [run_bind_of (hunsigned _)]
    rfl
  | x =>
    show (getuint (fun i => .mem (ap i)) i fl.lflag >>= _).run s = _
    rw [run_bind_of hu]
    dsimp only
    rw [run_bind_of (hunsigned _)]
    rfl

/-! ## Fields -/

/-- No flag, `0` and `-`. -/
inductive Justify where
  | spaces | zeros | left
  deriving DecidableEq

def Justify.flag : Justify → List Byte
  | .spaces => []
  | .zeros => [chr '0']
  | .left => [chr '-']

/-- A width in the format, or an argument. A 0 in the format would be a flag, so that the width 0 is not written there. -/
inductive FieldWidth where
  | given (W : Nat)
  | star

def FieldWidth.text : FieldWidth → List Byte
  | .given W => if W = 0 then [] else numeralText 10 W
  | .star => [chr '*']

/-- The width, and the place of the number, for arguments from `i` on. -/
def FieldWidth.value (ap : Nat → Word) (i : Nat) : FieldWidth → Int
  | .given W => W
  | .star => (ap i).toInt

def FieldWidth.skip (i : Nat) : FieldWidth → Nat
  | .given _ => i
  | .star => i + 1

/-- A number in a field of `W` characters. -/
def numberField (j : Justify) (W b : Nat) (v : Int) : List Byte :=
  let sign := signText v
  let digits := numeralText b v.natAbs
  let fill := W - (sign.length + digits.length)
  match j with
  | .spaces => List.replicate fill (chr ' ') ++ sign ++ digits
  | .zeros => sign ++ List.replicate fill (chr '0') ++ digits
  | .left => sign ++ digits ++ List.replicate fill (chr ' ')

/-- `padc`. -/
def Justify.padc : Justify → Byte
  | .spaces => chr ' '
  | .zeros => chr '0'
  | .left => chr '-'

variable {j : Justify} {W b : Nat} {v : Int}

theorem length_numeralText (b n : Nat) : (numeralText b n).length = (numeral b n).length := List.length_map ..

/-- A field is as wide as it should be, and wider only for the number. -/
theorem length_numberField (j : Justify) (W b : Nat) (v : Int) :
    (numberField j W b v).length = max W ((signText v).length + (numeralText b v.natAbs).length) := by
  unfold numberField
  cases j <;> simp only [List.length_append, List.length_replicate] <;> omega

theorem digitChar_number : ∀ d < 10, isDigit (digitChar d) = true ∧
    charInt (digitChar d) = BitVec.ofNat 32 d + charInt (chr '0') := by
  decide

theorem digitChar_zero : ∀ d < 10, d ≠ 0 → digitChar d ≠ chr '0' := by decide

/-- A number in an escape is read as its value. -/
theorem scan_number (ap : Nat → Word) (fl : Flags) (i : Nat) : ∀ (ds : List Nat) (v : Nat), (∀ d ∈ ds, d < 10) →
    Flags.scan ap (some (BitVec.ofNat 32 v)) fl i (ds.map digitChar) =
      (fl.process (BitVec.ofNat 32 (ds.foldl (fun v d => v * 10 + d) v)), i)
  | [], _, _ => rfl
  | d :: ds, v, h => by
    obtain ⟨hdig, hval⟩ := digitChar_number d (h d (List.mem_cons_self ..))
    have hacc : BitVec.ofNat 32 v * 10#32 + charInt (digitChar d) - charInt (chr '0') = BitVec.ofNat 32 (v * 10 + d) := by
      rw [hval, ← BitVec.add_assoc, BitVec.add_sub_cancel, BitVec.ofNat_add, BitVec.ofNat_mul]
    rw [List.map_cons, Flags.scan, if_pos hdig, hacc, scan_number ap fl i ds _ fun d hd => h d (List.mem_cons_of_mem _ hd)]
    rfl

/-- The flags that an escape ends with. -/
def fieldFlags (j : Justify) (w : FieldWidth) (ap : Nat → Word) (i : Nat) : Flags :=
  { padc := j.padc, width := if w.text = [] then -1#32 else BitVec.ofInt 32 (w.value ap i) }

theorem scan_justify (ap : Nat → Word) (i : Nat) (j : Justify) (cs : List Byte) :
    Flags.scan ap none {} i (j.flag ++ cs) = Flags.scan ap none { padc := j.padc } i cs := by
  cases j <;> rfl

theorem scan_width (ap : Nat → Word) (i : Nat) (c : Byte) (w : FieldWidth) : Flags.scan ap none { padc := c } i w.text =
    ({ padc := c, width := if w.text = [] then -1#32 else BitVec.ofInt 32 (w.value ap i) }, w.skip i) := by
  cases w with
  | star =>
    show ((({ padc := c } : Flags).process (ap i)), i + 1) = ({ padc := c, width := BitVec.ofInt 32 (ap i).toInt }, i + 1)
    rw [BitVec.ofInt_toInt]
    rfl
  | given W =>
    have htext : (FieldWidth.given W).text = if W = 0 then [] else numeralText 10 W := rfl
    rw [htext]
    by_cases hW : W = 0
    · rw [if_pos hW]
      rfl
    · obtain ⟨d, ds, hnum, hd⟩ := numeral_head (b := 10) (by decide) (Nat.pos_of_ne_zero hW)
      have hlt : ∀ d ∈ numeral 10 W, d < 10 := fun d hd => numeral_lt (by decide) hd
      have hread := scan_number ap { padc := c } i (numeral 10 W) 0 hlt
      rw [foldl_numeral (by decide)] at hread
      have hd10 := hlt d (by rw [hnum]; exact List.mem_cons_self ..)
      have hdig := (digitChar_number d hd10).1
      have hstart : Flags.scan ap none { padc := c } i (numeralText 10 W) =
          Flags.scan ap (some 0#32) { padc := c } i (numeralText 10 W) := by
        unfold numeralText
        rw [hnum, List.map_cons, Flags.scan, Flags.scan, if_pos ⟨hdig, digitChar_zero d hd10 hd⟩, if_pos hdig]
      have hne : numeralText 10 W ≠ [] := by
        unfold numeralText
        rw [hnum]
        exact List.cons_ne_nil _ _
      rw [if_neg hW, if_neg hne, hstart]
      exact hread

theorem scan_field (ap : Nat → Word) (i : Nat) (j : Justify) (w : FieldWidth) :
    Flags.scan ap none {} i (j.flag ++ w.text) = (fieldFlags j w ap i, w.skip i) := by
  rw [scan_justify, scan_width]
  rfl

/-- The pads are what `k` has more than `d`, unless that does not fit into an int. -/
theorem turns_sub (k : Nat) {d : Nat} (hd : d < 2 ^ 31) :
    turns (BitVec.ofNat 32 k - BitVec.ofNat 32 d) = k - d ∧ k - d < 2 ^ 31 ∨
      turns (BitVec.ofNat 32 k - BitVec.ofNat 32 d) + 1 < k - d ∧ 2 ^ 31 ≤ k - d := by
  unfold turns
  rw [BitVec.toInt_eq_toNat_cond]
  split <;> bv_omega

/-- There are as many pads as the width has more than the numeral. -/
theorem turns_field (j : Justify) {w : FieldWidth} (hw : 0 ≤ w.value ap i) {d : Nat} (hd : 0 < d) (hd' : d < 2 ^ 31) :
    turns ((fieldFlags j w ap i).width - BitVec.ofNat 32 d) = (w.value ap i).toNat - d ∧ (w.value ap i).toNat - d < 2 ^ 31 ∨
      turns ((fieldFlags j w ap i).width - BitVec.ofNat 32 d) + 1 < (w.value ap i).toNat - d ∧
        2 ^ 31 ≤ (w.value ap i).toNat - d := by
  unfold fieldFlags
  dsimp only
  by_cases hnone : w.text = []
  · have hzero : (w.value ap i).toNat = 0 := by
      cases w with
      | star => cases hnone
      | given W =>
        by_cases hW : W = 0
        · rw [hW]
          rfl
        · have htext : numeralText 10 W = [] := (if_neg hW).symm.trans hnone
          have hpos := numeral_length_pos 10 W
          rw [← length_numeralText, htext] at hpos
          exact absurd hpos (Nat.lt_irrefl 0)
    have hturns : turns (-1#32 - BitVec.ofNat 32 d) = 0 := by
      unfold turns
      rw [BitVec.toInt_eq_toNat_cond]
      split <;> bv_omega
    rw [if_pos hnone, hzero, hturns, Nat.zero_sub]
    exact Or.inl ⟨rfl, by decide⟩
  · obtain ⟨k, hk⟩ : ∃ k : Nat, w.value ap i = k := ⟨_, (Int.toNat_of_nonneg hw).symm⟩
    rw [if_neg hnone, hk, Int.toNat_natCast, BitVec.ofInt_natCast]
    exact turns_sub k hd'

theorem value_natAbs_lt (c : NumConv) (a : Word) : (c.value a).natAbs < 2 ^ 32 := by
  have := a.isLt
  have ha := BitVec.toInt_eq_toNat_cond a
  cases c <;> unfold NumConv.value <;> dsimp only
  · split at ha <;> omega
  · omega
  · omega

theorem numeral_length_word (base : Base) {n : Nat} (hn : n < 2 ^ 32) : (numeral base.1 n).length ≤ 32 :=
  numeral_length_le base.2 (by decide) (hn.trans_le (Nat.pow_le_pow_left base.2 32))

theorem digitChar_ne_dash : ∀ d < 16, digitChar d ≠ chr '-' := by decide

theorem numeralText_head (base : Base) (hb : base.1 ≤ 16) (n : Nat) : ∃ c cs, numeralText base.1 n = c :: cs ∧ c ≠ chr '-' := by
  unfold numeralText
  have hpos := numeral_length_pos base.1 n
  cases hnum : numeral base.1 n with
  | nil =>
    rw [hnum] at hpos
    exact absurd hpos (Nat.lt_irrefl 0)
  | cons d ds =>
    have hd : d < base.1 := numeral_lt base.2 (hnum ▸ List.mem_cons_self ..)
    exact ⟨_, _, rfl, digitChar_ne_dash d (by omega)⟩

/-- The text is the field, unless there are pads, and they come behind a sign, should come behind the number or are too many
to be counted. -/
theorem numberText_iff (base : Base) (hb : base.1 ≤ 16) (j : Justify) (W : Nat) (v : Int) {k : Nat}
    (hk : k = W - (numeral base.1 v.natAbs).length ∧ W - (numeral base.1 v.natAbs).length < 2 ^ 31 ∨
      k + 1 < W - (numeral base.1 v.natAbs).length ∧ 2 ^ 31 ≤ W - (numeral base.1 v.natAbs).length) :
    signText v ++ List.replicate k j.padc ++ numeralText base.1 v.natAbs = numberField j W base.1 v ↔
      W ≤ (numeral base.1 v.natAbs).length ∨ j ≠ .left ∧ 0 ≤ v ∧ W - (numeral base.1 v.natAbs).length < 2 ^ 31 := by
  have hlen := length_numeralText base.1 v.natAbs
  have hsign : (signText v).length ≤ 1 := by
    unfold signText
    split <;> simp
  have hwide : signText v ++ List.replicate k j.padc ++ numeralText base.1 v.natAbs = numberField j W base.1 v →
      (signText v).length + k + (numeral base.1 v.natAbs).length =
        max W ((signText v).length + (numeral base.1 v.natAbs).length) := by
    intro he
    have hcount := congrArg List.length he
    rw [length_numberField, List.length_append, List.length_append, List.length_replicate, hlen] at hcount
    exact hcount
  rcases hk with ⟨rfl, hfew⟩ | ⟨hk, hmany⟩
  · by_cases hfits : W ≤ (numeral base.1 v.natAbs).length
    · refine iff_of_true ?_ (Or.inl hfits)
      have hfill : W - ((signText v).length + (numeralText base.1 v.natAbs).length) = 0 := by omega
      unfold numberField
      dsimp only
      rw [Nat.sub_eq_zero_of_le hfits, hfill]
      cases j <;> simp
    by_cases hv : v < 0
    · -- the minus sign is not counted
      have hone : (signText v).length = 1 := by
        unfold signText
        rw [if_pos hv]
        rfl
      refine iff_of_false (fun he => ?_) (by omega)
      have := hwide he
      omega
    · have hnone : signText v = [] := if_neg hv
      unfold numberField
      dsimp only
      rw [hnone, List.length_nil, Nat.zero_add, hlen]
      cases j with
      | spaces => exact iff_of_true (by simp [Justify.padc]) (Or.inr ⟨by decide, by omega, hfew⟩)
      | zeros => exact iff_of_true (by simp [Justify.padc]) (Or.inr ⟨by decide, by omega, hfew⟩)
      | left =>
        -- the pads are dashes, in front
        refine iff_of_false (fun he => ?_) (by simpa using hfits)
        obtain ⟨c, cs, hc, hne⟩ := numeralText_head base hb v.natAbs
        obtain ⟨k, hk⟩ : ∃ k, W - (numeral base.1 v.natAbs).length = k + 1 := ⟨W - (numeral base.1 v.natAbs).length - 1, by omega⟩
        rw [hc, hk, List.replicate_succ] at he
        exact hne (List.cons.inj he).1.symm
  · -- the width has overflowed, and some pads are missing
    refine iff_of_false (fun he => ?_) (by omega)
    have := hwide he
    omega

theorem flag_text (j : Justify) (w : FieldWidth) : ∀ c ∈ j.flag ++ w.text, isFlag c = true := by
  intro c hc
  rcases List.mem_append.1 hc with hc | hc
  · cases j with
    | spaces => exact absurd hc List.not_mem_nil
    | zeros => exact List.mem_singleton.1 hc ▸ by decide
    | left => exact List.mem_singleton.1 hc ▸ by decide
  · cases w with
    | star => exact List.mem_singleton.1 hc ▸ by decide
    | given W =>
      by_cases hW : W = 0
      · rw [show (FieldWidth.given W).text = [] from if_pos hW] at hc
        exact absurd hc List.not_mem_nil
      · rw [show (FieldWidth.given W).text = numeralText 10 W from if_neg hW] at hc
        obtain ⟨d, hd, rfl⟩ := List.mem_map.1 hc
        have hdig := (digitChar_number d (numeral_lt (by decide) hd)).1
        unfold isFlag
        rw [hdig]
        rfl

/-- The conversion at `o`, in any format and at any place of the arguments: a text is printed, and the loop goes on behind
the conversion and its arguments. The text is the field that is asked for exactly when there are no pads, or the number has
no sign and is not to be padded on the right, and an int can count the pads. -/
theorem number_field_iff {mem : Bytes} {f : Word} {cs rest : List Byte} {o : Nat} (c : NumConv) (j : Justify) (w : FieldWidth)
    (ap : Nat → Word) (i : Nat) (h : IsFormat mem f cs) (hdrop : cs.drop o = chr '%' :: (j.flag ++ w.text ++ c.char :: rest))
    (hw : 0 ≤ w.value ap i) :
    let v := c.value (ap (w.skip i))
    ∃ text : List Byte,
      (∀ (put : Word → σ → σ) (pf : List Byte → VaList → Prog (σ × Nat) Unit) (lim n low : Nat) (s : σ), cs.length < lim →
        low ≤ o →
        (fmtLoop (guardHost put mem f cs.length) (memFormat (guardHost put mem f cs.length)) lim pf (fun i => .mem (ap i)) (n + 1)
          (f + BitVec.ofNat 32 o) i).run (s, low) =
        (fmtLoop (guardHost put mem f cs.length) (memFormat (guardHost put mem f cs.length)) lim pf (fun i => .mem (ap i)) n
          (f + BitVec.ofNat 32 (o + 1 + (j.flag ++ w.text).length + 1)) (w.skip i + 1)).run (putChars put text s, o)) ∧
      (text = numberField j (w.value ap i).toNat c.base.1 v ↔
        (w.value ap i).toNat ≤ (numeralText c.base.1 v.natAbs).length ∨
          j ≠ .left ∧ 0 ≤ v ∧ (w.value ap i).toNat - (numeralText c.base.1 v.natAbs).length < 2 ^ 31) := by
  intro v
  have hlen : (numeral c.base.1 v.natAbs).length ≤ 32 := numeral_length_word c.base (value_natAbs_lt c _)
  have hpads := turns_field j hw (numeral_length_pos c.base.1 v.natAbs) (by omega)
  have hbase : c.base.1 ≤ 16 := by cases c <;> decide
  refine ⟨numberText (fieldFlags j w ap i) c.base v, fun put pf lim n low s hlim hlow => ?_, ?_⟩
  · have hconv : c.char ∈ conversions ∧ c.char ≠ chr '%' ∧ isFlag c.char = false := by cases c <;> decide
    have hesc := fmtLoop_escape put ap pf n i h hlim hdrop (flag_text j w) hconv.2.2 hlow s
    rw [List.headD_cons, if_pos hconv.1, if_neg hconv.2.1, scan_field] at hesc
    dsimp only at hesc
    rw [run_bind_of (convert_number_run _ pf rfl (s, o) c)] at hesc
    have hpair : ∀ (text : List Byte) (s : σ),
        putChars (guardHost put mem f cs.length).putch text (s, o) = (putChars put text s, o) := by
      intro text
      induction text with
      | nil => exact fun s => rfl
      | cons ch text ih => exact fun s => ih _
    rw [hesc, hpair]
  · unfold numberText
    rw [length_numeralText]
    exact numberText_iff c.base hbase j _ v hpads

theorem number_field_iff_five :
    (fmtLoop (guardHost (fun c (w : List Word) => w ++ [c]) (withStrings [(0x1000#32, strLit "%05d")]) 0x1000#32 4)
        (memFormat (guardHost (fun c (w : List Word) => w ++ [c]) (withStrings [(0x1000#32, strLit "%05d")]) 0x1000#32 4)) 10
        (fun _ _ => failure) (fun _ => .mem 42#32) 2 (0x1000#32 + 0#32) 0).run ([], 0) =
      (fmtLoop (guardHost (fun c (w : List Word) => w ++ [c]) (withStrings [(0x1000#32, strLit "%05d")]) 0x1000#32 4)
        (memFormat (guardHost (fun c (w : List Word) => w ++ [c]) (withStrings [(0x1000#32, strLit "%05d")]) 0x1000#32 4)) 10
        (fun _ _ => failure) (fun _ => .mem 42#32) 1 (0x1000#32 + 4#32) 1).run
          (putChars (fun c w => w ++ [c]) (numberField .zeros 5 10 42) [], 0) := by
  have h : IsFormat (withStrings [(0x1000#32, strLit "%05d")]) 0x1000#32 (strLit "%05d") := ⟨by decide, by decide⟩
  obtain ⟨text, hturn, hiff⟩ := number_field_iff (σ := List Word) (o := 0) .d .zeros (.given 5) (fun _ => 42#32) 0 h
    (by decide +kernel : (strLit "%05d").drop 0 =
      chr '%' :: (Justify.zeros.flag ++ (FieldWidth.given 5).text ++ NumConv.d.char :: []))
    (by decide)
  rw [hiff.2 (Or.inr ⟨by decide, by decide, by decide⟩)] at hturn
  exact hturn _ _ 10 1 0 [] (by decide) le_rfl

/-- The minus sign comes before the pads and makes the field too wide, and a number that should be padded on the right has
dashes before it. -/
theorem number_field_wide :
    emitted (withStrings [(0x1000#32, strLit "%5d")]) (fun _ => false) 10 0x1000#32 (fun _ => -5#32) =
      some ((strLit "-    5").map charInt) ∧ numberField .spaces 5 10 (-5) = strLit "   -5" ∧
    emitted (withStrings [(0x1000#32, strLit "%-5d")]) (fun _ => false) 10 0x1000#32 (fun _ => 5#32) =
      some ((strLit "----5").map charInt) ∧ numberField .left 5 10 5 = strLit "5    " := by
  decide +kernel

end Jos
