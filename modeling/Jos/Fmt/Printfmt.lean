/-
lib/printfmt.c: `vprintfmt` and the functions it calls. What it prints goes to a `putch`, and it reads the format and the
strings among its arguments; the program is the same for every way of doing these.
-/
import Jos.Mmu.Word
import Jos.Lib.Bytes
import Jos.Lib.Simulate

namespace Jos

open Lib

abbrev Byte := BitVec 8

instance lawfulByte : LawfulBEq Byte := inferInstance

def chr (c : Char) : Byte := BitVec.ofNat 8 c.toNat

/-- A `char` as an `int`. -/
def charInt (c : Byte) : Word := c.signExtend 32

/-- A constant string of the program. -/
def strLit (s : String) : List Byte := s.toList.map chr

/-! ## What `vprintfmt` works on -/

/-- A pointer to a string: an address, or a place in one of the program's constant strings. -/
inductive Ptr where
  | mem (a : Word)
  | lit (s : List Byte) (i : Nat)

def Ptr.next : Ptr → Ptr
  | .mem a => .mem (a + 1#32)
  | .lit s i => .lit s (i + 1)

/-- The words and pointers after the format. -/
abbrev VaList := Nat → Ptr

def Ptr.word {σ : Type} : Ptr → Prog σ Word
  | .mem a => pure a
  | .lit _ _ => failure

/-- Where the output goes and how bytes are read: those of a format in memory, and those of a string argument. -/
structure Host (σ : Type) where
  putch : Word → σ → σ
  fetch : Word → Prog σ Byte
  load : Word → Prog σ Byte

/-- How a format is walked. -/
structure Format (σ π : Type) where
  get : π → Prog σ Byte
  next : π → π
  prev : π → π

variable {σ π : Type}

def Host.put (h : Host σ) (ch : Word) : Prog σ Unit := Prog.update (h.putch ch)

def Host.loadAt (h : Host σ) : Ptr → Prog σ Byte
  | .mem a => h.load a
  | .lit s i => pure (s.getD i 0#8)

def memFormat (h : Host σ) : Format σ Word := ⟨h.fetch, (· + 1#32), (· - 1#32)⟩

def litFormat (σ : Type) (s : List Byte) : Format σ Nat := ⟨fun i => pure (s.getD i 0#8), (· + 1), (· - 1)⟩

/-! ## Numbers -/

abbrev Base := { b : Nat // 2 ≤ b }

def decimal : Base := ⟨10, by decide⟩
def hexadecimal : Base := ⟨16, by decide⟩

/-- `"0123456789abcdef"[k]`. -/
def digitChar (k : Nat) : Byte := (strLit "0123456789abcdef").getD k 0#8

/-- `for (; n > 0; n--) putch(c, putdat)`. -/
def pad (h : Host σ) (c : Word) : Nat → Prog σ Unit
  | 0 => pure ()
  | n + 1 => do
    h.put c
    pad h c n

/-- The turns of a loop that counts a positive `width` down. -/
def turns (width : Word) : Nat := width.toInt.toNat

def printnum (h : Host σ) (num : Nat) (base : Base) (width padc : Word) : Prog σ Unit := do
  (if _ : base.1 ≤ num then
    printnum h (num / base.1) base (width - 1#32) padc
  else
    pad h padc (turns (width - 1#32)))
  h.put (charInt (digitChar (num % base.1)))
termination_by num
decreasing_by exact Nat.div_lt_self (Nat.lt_of_lt_of_le (Nat.lt_of_lt_of_le Nat.two_pos base.2) ‹base.1 ≤ num›) base.2

theorem printnum_eq (h : Host σ) (num : Nat) (base : Base) (width padc : Word) :
    printnum h num base width padc =
      ((if base.1 ≤ num then printnum h (num / base.1) base (width - 1#32) padc else pad h padc (turns (width - 1#32))) >>=
        fun _ => h.put (charInt (digitChar (num % base.1)))) := by
  rw [printnum]
  by_cases hge : base.1 ≤ num
  · rw [dif_pos hge, if_pos hge]
  · rw [dif_neg hge, if_neg hge]

/-- The flags of an escape. -/
structure Flags where
  padc : Byte := chr ' '
  width : Word := -1#32
  precision : Word := -1#32
  lflag : Word := 0#32
  altflag : Bool := false

/-- `process_precision`. -/
def Flags.process (fl : Flags) (precision : Word) : Flags :=
  if fl.width.toInt < 0 then { fl with width := precision, precision := -1#32 } else { fl with precision }

/-- The value of the argument at `i`, and the place of the next. -/
def getuint (args : VaList) (i : Nat) (lflag : Word) : Prog σ (BitVec 64 × Nat) := do
  let lo ← (args i).word
  if 2 ≤ lflag.toInt then
    let hi ← (args (i + 1)).word
    return (hi ++ lo, i + 2)
  else return (lo.setWidth 64, i + 1)

def getint (args : VaList) (i : Nat) (lflag : Word) : Prog σ (BitVec 64 × Nat) := do
  let lo ← (args i).word
  if 2 ≤ lflag.toInt then
    let hi ← (args (i + 1)).word
    return (hi ++ lo, i + 2)
  else return (lo.signExtend 64, i + 1)

/-! ## Strings

The loops over strings and formats have a number of turns that they may take. -/

/-- `strnlen`. -/
def strnlen (h : Host σ) : Nat → Ptr → Word → Word → Prog σ Word
  | 0, _, _, _ => failure
  | lim + 1, s, size, n => do
    if size = 0#32 then
      return n
    let c ← h.loadAt s
    if c = 0#8 then
      return n
    strnlen h lim s.next (size - 1#32) (n + 1#32)

/-- The middle loop of `%s`; it returns the width that is left. -/
def putLoop (h : Host σ) (altflag : Bool) : Nat → Ptr → Word → Word → Prog σ Word
  | 0, _, _, _ => failure
  | lim + 1, p, precision, width => do
    let ch ← h.loadAt p
    let counted := 0 ≤ precision.toInt
    let precision := if counted then precision - 1#32 else precision
    if ch = 0#8 ∨ counted ∧ precision.toInt < 0 then
      return width
    (if altflag = true ∧ ((charInt ch).toInt < 0x20 ∨ 0x7e < (charInt ch).toInt) then
      h.put (charInt (chr '?'))
    else
      h.put (charInt ch))
    putLoop h altflag lim p.next precision (width - 1#32)

def putString (h : Host σ) (lim : Nat) (fl : Flags) (p : Ptr) : Prog σ Unit := do
  let width ←
    (if 0 < fl.width.toInt ∧ fl.padc ≠ chr '-' then do
      let len ← strnlen h lim p fl.precision 0#32
      pad h (charInt fl.padc) (turns (fl.width - len))
      pure (if 0 < (fl.width - len).toInt then 0#32 else fl.width - len)
    else pure fl.width)
  let width ← putLoop h fl.altflag lim p fl.precision width
  pad h (charInt (chr ' ')) (turns width)

/-- `error_string`; its first entry is null. -/
def errorString : List (List Byte) :=
  [[], strLit "unspecified error", strLit "bad environment", strLit "invalid parameter", strLit "out of memory",
    strLit "out of environments", strLit "segmentation fault", strLit "env is not recving",
    strLit "unexpected end of file"]

def maxError : Int := 9

/-! ## The escapes -/

/-- `width` and `precision` have their digits read by this loop; `ch` is the digit before `fmt`. -/
def digits (F : Format σ π) : Nat → Byte → π → Word → Prog σ (Word × π)
  | 0, _, _, _ => failure
  | lim + 1, ch, fmt, precision => do
    let precision := precision * 10#32 + charInt ch - charInt (chr '0')
    let ch ← F.get fmt
    if (charInt ch).toInt < 0x30 ∨ 0x39 < (charInt ch).toInt then
      return (precision, fmt)
    digits F lim ch (F.next fmt) precision

/-- From `reswitch` to a character that is no flag. -/
def reswitch (F : Format σ π) (args : VaList) : Nat → π → Flags → Nat → Prog σ (Byte × π × Flags × Nat)
  | 0, _, _, _ => failure
  | lim + 1, fmt, fl, i => do
    let ch ← F.get fmt
    let fmt := F.next fmt
    if ch = chr '-' then
      reswitch F args lim fmt { fl with padc := chr '-' } i
    else if ch = chr '0' then
      reswitch F args lim fmt { fl with padc := chr '0' } i
    else if 0x31 ≤ ch.toNat ∧ ch.toNat ≤ 0x39 then do
      let (precision, fmt) ← digits F lim ch fmt 0#32
      reswitch F args lim fmt (fl.process precision) i
    else if ch = chr '*' then do
      let precision ← (args i).word
      reswitch F args lim fmt (fl.process precision) (i + 1)
    else if ch = chr '.' then
      reswitch F args lim fmt (if fl.width.toInt < 0 then { fl with width := 0#32 } else fl) i
    else if ch = chr '#' then
      reswitch F args lim fmt { fl with altflag := true } i
    else if ch = chr 'l' then
      reswitch F args lim fmt { fl with lflag := fl.lflag + 1#32 } i
    else
      return (ch, fmt, fl, i)

/-- The letters with a case of their own, other than the flags. -/
def conversions : List Byte := strLit "cesdupxo%"

/-- `number`. -/
def number (h : Host σ) (fl : Flags) (num : BitVec 64) (base : Base) : Prog σ Unit :=
  printnum h num.toNat base fl.width (charInt fl.padc)

/-- The case of `ch`, one of `conversions`; it returns the place of the next argument. -/
def convert (h : Host σ) (lim : Nat) (printfmt : List Byte → VaList → Prog σ Unit) (args : VaList) (i : Nat) (fl : Flags)
    (ch : Byte) : Prog σ Nat := do
  if ch = chr 'c' then do
    h.put (← (args i).word)
    return i + 1
  else if ch = chr 'e' then do
    let err ← (args i).word
    let err := if err.toInt < 0 then -err else err
    -- the index into `error_string` is scaled by 4, modulo 2^32
    (if maxError ≤ err.toInt ∨ errorString.getD (err.toNat % 2 ^ 30) [] = [] then
      printfmt (strLit "error %d") fun _ => .mem err
    else
      printfmt (strLit "%s") fun _ => .lit (errorString.getD (err.toNat % 2 ^ 30) []) 0)
    return i + 1
  else if ch = chr 's' then do
    let p := match args i with
      | .mem a => if a = 0#32 then Ptr.lit (strLit "(null)") 0 else .mem a
      | .lit s k => .lit s k
    putString h lim fl p
    return i + 1
  else if ch = chr 'd' then do
    let (num, i) ← getint args i fl.lflag
    (if num.toInt < 0 then do
      h.put (charInt (chr '-'))
      number h fl (-num) decimal
    else
      number h fl num decimal)
    return i
  else if ch = chr 'u' then do
    let (num, i) ← getuint args i fl.lflag
    number h fl num decimal
    return i
  else if ch = chr 'o' then do
    h.put (charInt (chr 'X'))
    h.put (charInt (chr 'X'))
    h.put (charInt (chr 'X'))
    return i
  else if ch = chr 'p' then do
    h.put (charInt (chr '0'))
    h.put (charInt (chr 'x'))
    let p ← (args i).word
    number h fl (p.setWidth 64) hexadecimal
    return i + 1
  else if ch = chr 'x' then do
    let (num, i) ← getuint args i fl.lflag
    number h fl num hexadecimal
    return i
  else do
    h.put (charInt (chr '%'))
    return i

/-- `for (fmt--; fmt[-1] != '%'; fmt--)`. -/
def rewind (F : Format σ π) : Nat → π → Prog σ π
  | 0, _ => failure
  | lim + 1, fmt => do
    let ch ← F.get (F.prev fmt)
    if ch = chr '%' then
      return fmt
    rewind F lim (F.prev fmt)

/-- The outer loop. -/
def fmtLoop (h : Host σ) (F : Format σ π) (lim : Nat) (printfmt : List Byte → VaList → Prog σ Unit) (args : VaList) :
    Nat → π → Nat → Prog σ Unit
  | 0, _, _ => failure
  | n + 1, fmt, i => do
    let ch ← F.get fmt
    let fmt := F.next fmt
    if ch = 0#8 then
      return ()
    else if ch ≠ chr '%' then do
      h.put (ch.setWidth 32)
      fmtLoop h F lim printfmt args n fmt i
    else do
      let (ch, fmt, fl, i) ← reswitch F args lim fmt {} i
      if ch ∈ conversions then do
        let i ← convert h lim printfmt args i fl ch
        fmtLoop h F lim printfmt args n fmt i
      else do
        h.put (charInt (chr '%'))
        let fmt ← rewind F lim (F.prev fmt)
        fmtLoop h F lim printfmt args n fmt i

/-- `printfmt` with one of the formats of `%e`, which have no `%e` of their own. -/
def printfmt (h : Host σ) (lim : Nat) (fmt : List Byte) (args : VaList) : Prog σ Unit :=
  fmtLoop h (litFormat σ fmt) lim (fun _ _ => failure) args lim 0 0

/-- `vprintfmt`, with a bound on the turns of each of its loops. -/
def vprintfmt (h : Host σ) (lim : Nat) (fmt : Word) (ap : Nat → Word) : Prog σ Unit :=
  fmtLoop h (memFormat h) lim (printfmt h lim) (fun i => .mem (ap i)) lim fmt 0

/-- Memory that holds these strings, and NULs elsewhere. -/
def withStrings (ss : List (Word × List Byte)) : Bytes := fun a =>
  match ss.find? fun s => (a - s.1).toNat < s.2.length with
  | some s => s.2.getD (a - s.1).toNat 0#8
  | none => 0#8

end Jos
