/-
The console input buffer of kern/console.c: `cons_intr` stores what a device delivers, and `cons_getc` polls the devices
and takes one character out. The buffer is a queue as long as no more characters wait than it can hold.
-/
import Jos.Lib.Ring
import Jos.Fmt.Printfmt

namespace Jos

open Lib

/-! ## The code -/

/-- `CONSBUFSIZE`. -/
def consbufsize : Nat := 512

/-- `cons`. -/
structure Cons where
  buf : Nat → Byte := fun _ => 0#8
  rpos : Word := 0#32
  wpos : Word := 0#32

/-- What `cons_intr` does with a character. -/
def Cons.put (s : Cons) (c : Word) : Cons :=
  let s := { s with buf := Function.update s.buf s.wpos.toNat (c.setWidth 8), wpos := s.wpos + 1#32 }
  if s.wpos = 512#32 then { s with wpos := 0#32 } else s

/-- `while ((c = (*proc)()) != -1)`; a device that is called has a state. -/
def consIntr {δ : Type} (proc : δ → Word × δ) : Nat → δ → Cons → Option (δ × Cons)
  | 0, _, _ => none
  | lim + 1, d, s =>
    let (c, d) := proc d
    if c = -1#32 then some (d, s)
    else if c = 0#32 then consIntr proc lim d s
    else consIntr proc lim d (s.put c)

/-- `serial_proc_data`; the receiver holds the bytes that have arrived. -/
def serialProcData : List Byte → Word × List Byte
  | [] => (-1#32, [])
  | b :: bs => (b.setWidth 32, bs)

def serialIntr (serialExists : Bool) (lim : Nat) (rx : List Byte) (s : Cons) : Option (List Byte × Cons) :=
  if serialExists then consIntr serialProcData lim rx s else some (rx, s)

/-- `kbd_intr`, for a keyboard with this `kbd_proc_data`. -/
def kbdIntr {δ : Type} (kbdProcData : δ → Word × δ) (lim : Nat) (d : δ) (s : Cons) : Option (δ × Cons) :=
  consIntr kbdProcData lim d s

/-- The rest of `cons_getc`, behind the polls. -/
def Cons.take (s : Cons) : Word × Cons :=
  if s.rpos ≠ s.wpos then
    let c := (s.buf s.rpos.toNat).setWidth 32
    let s := { s with rpos := s.rpos + 1#32 }
    (c, if s.rpos = 512#32 then { s with rpos := 0#32 } else s)
  else (0#32, s)

/-- The devices that are polled. -/
structure ConsDevices (δ : Type) where
  serialExists : Bool
  rx : List Byte
  kbd : δ

def consGetc {δ : Type} (kbdProcData : δ → Word × δ) (lim : Nat) (dev : ConsDevices δ) (s : Cons) :
    Option (Word × ConsDevices δ × Cons) := do
  let (rx, s) ← serialIntr dev.serialExists lim dev.rx s
  let (kbd, s) ← kbdIntr kbdProcData lim dev.kbd s
  let (c, s) := s.take
  return (c, { dev with rx, kbd }, s)

/-! ## The queue -/

variable {δ : Type} {proc : δ → Word × δ} {d d' : δ} {cs : List Byte} {c : Byte} {s : Cons} {q : List Byte} {lim : Nat}

/-- From the state `d` the device delivers these characters, and has no more. -/
inductive DeviceGives (proc : δ → Word × δ) : δ → List Byte → δ → Prop
  | none {d d' : δ} (h : proc d = (-1#32, d')) : DeviceGives proc d [] d'
  | char {d d₁ d' : δ} {c : Byte} {cs : List Byte} (h : proc d = (c.setWidth 32, d₁)) (ht : DeviceGives proc d₁ cs d') :
    DeviceGives proc d (c :: cs) d'

/-- The characters that are kept. -/
def kept (cs : List Byte) : List Byte := cs.filter (· ≠ 0#8)

/-- The buffer holds the queue `q`, in which there is no NUL. -/
structure Cons.Holds (s : Cons) (q : List Byte) : Prop where
  rpos : s.rpos.toNat < consbufsize
  wpos : s.wpos.toNat < consbufsize
  contents : Ring.contents consbufsize s.buf s.rpos.toNat s.wpos.toNat = q
  nonzero : 0#8 ∉ q

theorem serial_delivers : ∀ bs, DeviceGives serialProcData bs bs []
  | [] => .none rfl
  | _ :: bs => .char rfl (serial_delivers bs)

theorem toNat_next {i : Word} (h : i.toNat < consbufsize) :
    (if i + 1#32 = 512#32 then 0#32 else i + 1#32).toNat = Ring.next consbufsize i.toNat := by
  unfold Ring.next
  unfold consbufsize at *
  split <;> split <;> bv_omega

theorem Cons.Holds.put (h : s.Holds q) (hq : q.length + 1 < consbufsize) (hc : c ≠ 0#8) :
    (s.put (c.setWidth 32)).Holds (q ++ [c]) := by
  have hsize : Ring.size consbufsize s.rpos.toNat s.wpos.toNat = q.length := by rw [← h.contents, Ring.length_contents]
  have hput : s.put (c.setWidth 32) =
      { s with
        buf := Function.update s.buf s.wpos.toNat c
        wpos := if s.wpos + 1#32 = 512#32 then 0#32 else s.wpos + 1#32 } := by
    unfold Cons.put
    rw [BitVec.setWidth_setWidth_of_le c (by decide), BitVec.setWidth_eq]
    dsimp only
    split <;> rfl
  rw [hput]
  refine ⟨h.rpos, ?_, ?_, ?_⟩
  · exact (toNat_next h.wpos).symm ▸ Ring.next_lt h.wpos
  · dsimp only
    rw [toNat_next h.wpos, Ring.contents_push h.rpos h.wpos (by omega), h.contents]
  · rw [List.mem_append, List.mem_singleton]
    exact not_or.2 ⟨h.nonzero, hc.symm⟩

theorem setWidth_eq_zero : c.setWidth 32 = 0#32 ↔ c = 0#8 := by
  constructor
  · intro h
    bv_omega
  · rintro rfl
    rfl

/-- A call of `cons_intr` appends the characters that are kept. -/
theorem Cons.Holds.intr (hd : DeviceGives proc d cs d') : ∀ {lim : Nat} {s : Cons} {q : List Byte}, s.Holds q → cs.length < lim →
    (q ++ kept cs).length < consbufsize → ∃ s', consIntr proc lim d s = some (d', s') ∧ s'.Holds (q ++ kept cs) := by
  induction hd with
  | none h =>
    intro lim s q hs hlim _
    obtain ⟨lim, rfl⟩ : ∃ k, lim = k + 1 := ⟨lim - 1, by omega⟩
    refine ⟨s, ?_, by simpa [kept] using hs⟩
    unfold consIntr
    rw [h]
    rfl
  | @char d d₁ d' c cs h ht ih =>
    intro lim s q hs hlim hq
    obtain ⟨lim, rfl⟩ : ∃ k, lim = k + 1 := ⟨lim - 1, by omega⟩
    have hne : c.setWidth 32 ≠ -1#32 := by bv_omega
    unfold consIntr
    rw [h]
    dsimp only
    rw [if_neg hne]
    by_cases hc : c = 0#8
    · -- a NUL is not stored
      have hkept : kept (c :: cs) = kept cs := by
        unfold kept
        rw [List.filter_cons_of_neg (by simpa using hc)]
      rw [if_pos (setWidth_eq_zero.2 hc)]
      rw [hkept] at hq ⊢
      exact ih hs (Nat.lt_of_succ_lt_succ hlim) hq
    · have hkept : q ++ kept (c :: cs) = (q ++ [c]) ++ kept cs := by
        unfold kept
        rw [List.filter_cons_of_pos (by simpa using hc), List.append_assoc]
        rfl
      rw [if_neg fun h => hc (setWidth_eq_zero.1 h)]
      rw [hkept] at hq ⊢
      refine ih (hs.put ?_ hc) (Nat.lt_of_succ_lt_succ hlim) hq
      simp only [List.length_append, List.length_singleton] at hq
      omega

theorem Cons.Holds.empty_iff (h : s.Holds q) : q = [] ↔ s.rpos = s.wpos := by
  rw [← h.contents, Ring.contents_eq_nil h.rpos, BitVec.toNat_inj]

theorem Cons.Holds.take_nil (h : s.Holds []) : s.take = (0#32, s) := if_neg (not_not_intro (h.empty_iff.1 rfl))

theorem Cons.Holds.take_cons (h : s.Holds (c :: q)) : s.take.1 = c.setWidth 32 ∧ s.take.2.Holds q := by
  have hne : s.rpos ≠ s.wpos := fun h' => List.cons_ne_nil _ _ (h.empty_iff.2 h')
  have hpop := Ring.contents_pop s.buf h.rpos h.wpos fun h' => hne (BitVec.toNat_inj.1 h')
  rw [h.contents] at hpop
  obtain ⟨rfl, rfl⟩ := List.cons.inj hpop
  have htake : s.take = ((s.buf s.rpos.toNat).setWidth 32,
      { s with rpos := if s.rpos + 1#32 = 512#32 then 0#32 else s.rpos + 1#32 }) := by
    unfold Cons.take
    rw [if_pos hne]
    dsimp only
    split <;> rfl
  rw [htake]
  refine ⟨rfl, ?_, h.wpos, ?_, fun h' => h.nonzero (List.mem_cons_of_mem _ h')⟩
  · exact (toNat_next h.rpos).symm ▸ Ring.next_lt h.rpos
  · dsimp only
    rw [toNat_next h.rpos]

/-! ## Runs -/

/-- A device, and the characters that it delivers from its present state. -/
structure Feed where
  δ : Type
  proc : δ → Word × δ
  d : δ
  cs : List Byte
  rest : δ
  delivers : DeviceGives proc d cs rest

/-- A call of `cons_intr` with a device, and one of `cons_getc`, which polls the serial port and the keyboard. -/
inductive ConsEvent where
  | intr (f : Feed)
  | getc (rx : List Byte) (kbd : Feed)

/-- The characters that an event adds to the queue. -/
def ConsEvent.arrived (serialExists : Bool) : ConsEvent → List Byte
  | .intr f => kept f.cs
  | .getc rx kbd => (if serialExists then kept rx else []) ++ kept kbd.cs

/-- The state after an event, and what `cons_getc` returned. -/
def ConsEvent.step (serialExists : Bool) (lim : Nat) (s : Cons) : ConsEvent → Option (Cons × List Word)
  | .intr f => (consIntr f.proc lim f.d s).map fun r => (r.2, [])
  | .getc rx kbd => (consGetc kbd.proc lim ⟨serialExists, rx, kbd.d⟩ s).map fun r => (r.2.2, [r.1])

def consRun (serialExists : Bool) (lim : Nat) : Cons → List ConsEvent → Option (Cons × List Word)
  | s, [] => some (s, [])
  | s, e :: es => do
    let (s, out) ← e.step serialExists lim s
    let (s, out') ← consRun serialExists lim s es
    return (s, out ++ out')

/-- The queue after an event. -/
def ConsEvent.after (serialExists : Bool) (q : List Byte) (e : ConsEvent) : List Byte :=
  match e with
  | .intr _ => q ++ e.arrived serialExists
  | .getc _ _ => (q ++ e.arrived serialExists).tail

/-- Never do more than `CONSBUFSIZE - 1` characters wait. -/
def FitsCons (serialExists : Bool) : List Byte → List ConsEvent → Prop
  | _, [] => True
  | q, e :: es => (q ++ e.arrived serialExists).length < consbufsize ∧ FitsCons serialExists (e.after serialExists q) es

/-- The number of turns that suffices for the loops of an event. -/
def ConsEvent.turns : ConsEvent → Nat
  | .intr f => f.cs.length + 1
  | .getc rx kbd => max (rx.length + 1) (kbd.cs.length + 1)

/-- What `cons_getc` returns for these characters. -/
def chars (cs : List Byte) : List Word := cs.map (·.setWidth 32)

variable {ex : Bool} {e : ConsEvent} {es : List ConsEvent} {rx : List Byte} {kbd : Feed}

theorem Cons.Holds.serial (h : s.Holds q) (ex : Bool) (rx : List Byte) (hlim : rx.length < lim)
    (hq : (q ++ if ex then kept rx else []).length < consbufsize) :
    ∃ rx' s', serialIntr ex lim rx s = some (rx', s') ∧ s'.Holds (q ++ if ex then kept rx else []) := by
  cases ex with
  | false => exact ⟨rx, s, rfl, by simpa using h⟩
  | true =>
    obtain ⟨s', hrun, hs'⟩ := h.intr (serial_delivers rx) hlim hq
    exact ⟨[], s', hrun, hs'⟩

/-- `cons_getc` takes the first character out, behind which those of the polls are; it returns 0 when there is none. -/
theorem Cons.Holds.getc (h : s.Holds q) (hq : (q ++ (ConsEvent.getc rx kbd).arrived ex).length < consbufsize)
    (hlim : (ConsEvent.getc rx kbd).turns ≤ lim) : ∃ s' c, (ConsEvent.getc rx kbd).step ex lim s = some (s', chars [c]) ∧
      s'.Holds ((ConsEvent.getc rx kbd).after ex q) ∧
      [c].filter (· ≠ 0#8) ++ (ConsEvent.getc rx kbd).after ex q = q ++ (ConsEvent.getc rx kbd).arrived ex ∧
      (c = 0#8 → q ++ (ConsEvent.getc rx kbd).arrived ex = []) := by
  have hlim : max (rx.length + 1) (kbd.cs.length + 1) ≤ lim := hlim
  change (q ++ ((if ex then kept rx else []) ++ kept kbd.cs)).length < _ at hq
  rw [← List.append_assoc] at hq
  obtain ⟨rx', s₁, hrx, h₁⟩ := h.serial ex rx (by omega : rx.length < lim) (lt_of_le_of_lt (by simp) hq)
  obtain ⟨s₂, hkbd, h₂⟩ := h₁.intr kbd.delivers (by omega : kbd.cs.length < lim) hq
  have hrun : (ConsEvent.getc rx kbd).step ex lim s = some (s₂.take.2, [s₂.take.1]) := by
    show (consGetc kbd.proc lim ⟨ex, rx, kbd.d⟩ s).map _ = _
    unfold consGetc kbdIntr
    rw [hrx]
    simp only [Option.bind_eq_bind, Option.bind_some]
    rw [hkbd]
    rfl
  rw [List.append_assoc] at h₂
  have hafter : (ConsEvent.getc rx kbd).after ex q = (q ++ (ConsEvent.getc rx kbd).arrived ex).tail := rfl
  rw [hafter]
  change s₂.Holds (q ++ (ConsEvent.getc rx kbd).arrived ex) at h₂
  generalize q ++ (ConsEvent.getc rx kbd).arrived ex = q₂ at *
  cases q₂ with
  | nil =>
    rw [h₂.take_nil] at hrun
    exact ⟨s₂, 0#8, hrun, h₂, rfl, fun _ => rfl⟩
  | cons c q₂ =>
    obtain ⟨hc, hq₂⟩ := h₂.take_cons
    have hne : c ≠ 0#8 := fun h' => h₂.nonzero (by rw [h']; exact List.mem_cons_self ..)
    refine ⟨s₂.take.2, c, by rw [hrun, hc]; rfl, hq₂, ?_, fun h' => absurd h' hne⟩
    rw [List.filter_cons_of_pos (by simpa using hne)]
    rfl

/-- What an event returns is what it takes out of the queue. -/
theorem Cons.Holds.step (h : s.Holds q) (hq : (q ++ e.arrived ex).length < consbufsize) (hlim : e.turns ≤ lim) :
    ∃ s' out, e.step ex lim s = some (s', chars out) ∧ s'.Holds (e.after ex q) ∧
      out.filter (· ≠ 0#8) ++ e.after ex q = q ++ e.arrived ex := by
  cases e with
  | intr f =>
    obtain ⟨s', hrun, hs'⟩ := h.intr f.delivers hlim hq
    refine ⟨s', [], ?_, hs', rfl⟩
    show (consIntr f.proc lim f.d s).map _ = _
    rw [hrun]
    rfl
  | getc rx kbd =>
    obtain ⟨s', c, hrun, hs', hout, -⟩ := h.getc hq hlim
    exact ⟨s', [c], hrun, hs', hout⟩

/-- A run returns the characters that arrive, in order, and those behind them wait. -/
theorem Cons.Holds.run (hlim : ∀ e ∈ es, e.turns ≤ lim) (h : s.Holds q) (hfit : FitsCons ex q es) :
    ∃ s' out, consRun ex lim s es = some (s', chars out) ∧ s'.Holds (es.foldl (fun q e => e.after ex q) q) ∧
      out.filter (· ≠ 0#8) ++ es.foldl (fun q e => e.after ex q) q = q ++ es.flatMap (·.arrived ex) := by
  induction es generalizing s q with
  | nil => exact ⟨s, [], rfl, h, by simp⟩
  | cons e es ih =>
    obtain ⟨hq, hfit⟩ := hfit
    obtain ⟨s₁, out, hstep, h₁, hout⟩ := h.step hq (hlim e (List.mem_cons_self ..))
    obtain ⟨s', out', hrun, h', hout'⟩ := ih (fun e he => hlim e (List.mem_cons_of_mem _ he)) h₁ hfit
    refine ⟨s', out ++ out', ?_, h', ?_⟩
    · unfold consRun
      rw [hstep]
      simp only [Option.bind_eq_bind, Option.bind_some]
      rw [hrun]
      simp [chars]
    · rw [List.filter_append, List.append_assoc, List.foldl_cons, hout', ← List.append_assoc, hout, List.append_assoc,
        List.flatMap_cons]

theorem fits_append {es' : List ConsEvent} :
    FitsCons ex q (es ++ es') ↔ FitsCons ex q es ∧ FitsCons ex (es.foldl (fun q e => e.after ex q) q) es' := by
  induction es generalizing q with
  | nil => exact (and_iff_right trivial).symm
  | cons e es ih =>
    rw [List.cons_append, FitsCons, FitsCons, ih, and_assoc]
    rfl

/-- The buffer is a queue. In a run in which never more than `CONSBUFSIZE - 1` characters wait, the indices stay in the
buffer, the characters returned and the ones that wait are the ones that were delivered, in order, and a call returns 0
only when all of them have been returned. -/
theorem cons_fifo (ex : Bool) (es : List ConsEvent) (hfit : FitsCons ex [] es) : ∃ N, ∀ lim, N ≤ lim → ∃ s out,
    consRun ex lim {} es = some (s, chars out) ∧ s.rpos.toNat < consbufsize ∧ s.wpos.toNat < consbufsize ∧
    out.filter (· ≠ 0#8) ++ Ring.contents consbufsize s.buf s.rpos.toNat s.wpos.toNat = es.flatMap (·.arrived ex) ∧
    ∀ pre rx kbd post, es = pre ++ ConsEvent.getc rx kbd :: post → ∃ s₀ out₀ s₁ c, consRun ex lim {} pre = some (s₀, chars out₀) ∧
      (ConsEvent.getc rx kbd).step ex lim s₀ = some (s₁, chars [c]) ∧
      (c = 0#8 → out₀.filter (· ≠ 0#8) = (pre ++ [ConsEvent.getc rx kbd]).flatMap (·.arrived ex)) := by
  obtain ⟨N, hN⟩ : ∃ N, ∀ e ∈ es, e.turns ≤ N := by
    refine ⟨(es.map (·.turns)).sum, fun e he => List.single_le_sum (fun _ _ => Nat.zero_le _) _ (List.mem_map_of_mem he)⟩
  have hempty : ({} : Cons).Holds [] := ⟨by decide, by decide, rfl, List.not_mem_nil⟩
  refine ⟨N, fun lim hlim => ?_⟩
  have hturns : ∀ e ∈ es, e.turns ≤ lim := fun e he => (hN e he).trans hlim
  obtain ⟨s, out, hrun, hs, hout⟩ := hempty.run hturns hfit
  refine ⟨s, out, hrun, hs.rpos, hs.wpos, by rw [hs.contents, hout, List.nil_append], ?_⟩
  rintro pre rx kbd post rfl
  obtain ⟨hpre, hlast⟩ := fits_append.1 hfit
  obtain ⟨s₀, out₀, hrun₀, h₀, hout₀⟩ := hempty.run (fun e he => hturns e (List.mem_append_left _ he)) hpre
  obtain ⟨s₁, c, hstep, -, -, hzero⟩ := h₀.getc hlast.1 (hturns _ (List.mem_append_right _ (List.mem_cons_self ..)))
  refine ⟨s₀, out₀, s₁, c, hrun₀, hstep, fun hc => ?_⟩
  obtain ⟨hnil, harrived⟩ := List.append_eq_nil_iff.1 (hzero hc)
  rw [hnil, List.append_nil, List.nil_append] at hout₀
  rw [hout₀, List.flatMap_append, List.flatMap_singleton, harrived, List.append_nil]

/-- The keyboard of a run, with two characters of which one is NUL. -/
def twoKeys : Feed := ⟨List Byte, serialProcData, [0#8, 0x61#8], [0#8, 0x61#8], [], serial_delivers _⟩

theorem cons_fifo_two : ∃ N, ∀ lim, N ≤ lim → ∃ s out,
    consRun true lim {} [.intr twoKeys, .getc [0x62#8] twoKeys] = some (s, chars out) ∧
    out.filter (· ≠ 0#8) ++ Ring.contents consbufsize s.buf s.rpos.toNat s.wpos.toNat = [0x61#8, 0x62#8, 0x61#8] := by
  obtain ⟨N, hN⟩ := cons_fifo true [.intr twoKeys, .getc [0x62#8] twoKeys] ⟨by decide, by decide, trivial⟩
  refine ⟨N, fun lim hlim => ?_⟩
  obtain ⟨s, out, hrun, -, -, hout, -⟩ := hN lim hlim
  exact ⟨s, out, hrun, hout⟩

end Jos
