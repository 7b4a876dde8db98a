/-
The text screen of kern/console.c, and a typewriter. The screen is a window on the sheet of paper in the typewriter, which
holds its last 25 rows.
-/
import Jos.Lib.Halves
import Jos.Str.Memmove

namespace Jos

open Lib

/-! ## The code -/

/-- `CRT_COLS`. -/
def crtCols : Nat := 80

/-- `CRT_SIZE`. -/
def crtSize : Nat := 25 * crtCols

/-- `crt_buf`, as `cga_init` sets it: the buffer of the monochrome adapter if there is no other. -/
def crtBuf (mono : Bool) : Word := kernbase + if mono then 0xB0000#32 else 0xB8000#32

/-- Memory, `crt_pos`, the cursor in the registers 14 and 15 of the 6845, and the cells that have been written. -/
structure Crt where
  mem : Bytes
  pos : BitVec 16
  cursorHigh : BitVec 8 := 0#8
  cursorLow : BitVec 8 := 0#8
  written : List Nat := []

/-- `crt_buf[i] = v`. -/
def Crt.store (mono : Bool) (s : Crt) (i : Nat) (v : BitVec 16) : Crt :=
  { s with mem := s.mem.setHalf (crtBuf mono) i v, written := i :: s.written }

/-- `if no attribute given, then use black on white`. -/
def withAttribute (c : Word) : Word := if c &&& ~~~0xFF#32 = 0#32 then c ||| 0x0700#32 else c

/-- `for (i = CRT_SIZE - CRT_COLS; i < CRT_SIZE; i++)`, for the number of turns and the index. -/
def Crt.blanks (mono : Bool) : Nat → Nat → Crt → Crt
  | 0, _, s => s
  | k + 1, i, s => (s.store mono i (0x0700#16 ||| 0x20#16)).blanks mono k (i + 1)

/-- `if (crt_pos >= CRT_SIZE)`. -/
def Crt.scroll (mono : Bool) (s : Crt) : Crt :=
  if s.pos ≥ 2000#16 then
    let cpu := (memmoveAsm (crtBuf mono) (crtBuf mono + 2#32 * 80#32) ((2000#32 - 80#32) * 2#32)
      ⟨s.mem, false, 0#32, 0#32, 0#32⟩).2
    let s := { s with mem := cpu.mem, written := List.range (crtSize - crtCols) ++ s.written }
    let s := s.blanks mono crtCols (crtSize - crtCols)
    { s with pos := s.pos - 80#16 }
  else s

/-- The end of `cga_putc`: the position goes to the 6845. -/
def Crt.blink (s : Crt) : Crt := { s with cursorHigh := (s.pos >>> 8).setWidth 8, cursorLow := s.pos.setWidth 8 }

theorem withAttribute_char (c : Word) : withAttribute c &&& 0xFF#32 = c &&& 0xFF#32 := by
  unfold withAttribute
  split
  · rw [BitVec.and_or_distrib_right, show 0x0700#32 &&& 0xFF#32 = 0#32 from rfl, BitVec.or_zero]
  · rfl

/-- `cga_putc`. Where it calls `cons_putc`, only the screen is followed. -/
def cgaPutc (mono : Bool) (c : Word) (s : Crt) : Crt :=
  let ch := withAttribute c &&& 0xFF#32
  let s :=
    if ch = 0x08#32 then
      if s.pos > 0#16 then
        let s := { s with pos := s.pos - 1#16 }
        s.store mono s.pos.toNat ((withAttribute c &&& ~~~0xFF#32 ||| 0x20#32).setWidth 16)
      else s
    else if ch = 0x0A#32 then
      let s := { s with pos := s.pos + 80#16 }
      { s with pos := s.pos - s.pos % 80#16 }
    else if ch = 0x0D#32 then { s with pos := s.pos - s.pos % 80#16 }
    else if ch = 0x09#32 then
      let consPutc := cgaPutc mono 0x20#32
      consPutc (consPutc (consPutc (consPutc (consPutc s))))
    else
      let s := s.store mono s.pos.toNat ((withAttribute c).setWidth 16)
      { s with pos := s.pos + 1#16 }
  (s.scroll mono).blink
termination_by if c &&& 0xFF#32 = 0x09#32 then 1 else 0
decreasing_by all_goals
  rename_i h
  rw [if_pos ((withAttribute_char c).symm.trans h)]
  decide

/-! ## The typewriter -/

/-- A typewriter for rows of 80 cells: the paper, the place of the carriage, and the number of rows that have come into view. -/
structure Typewriter where
  sheet : Nat → BitVec 16
  carriage : Nat
  rows : Nat

def blankCell : BitVec 16 := 0x0720#16

/-- What a character prints. -/
def glyph (c : Word) : BitVec 16 := (withAttribute c).setWidth 16

/-- What is left of a cell. -/
def erased (c : Word) : BitVec 16 := (withAttribute c &&& ~~~0xFF#32 ||| 0x20#32).setWidth 16

namespace Typewriter

/-- The first cell of the last 25 rows. -/
def top (t : Typewriter) : Nat := (t.rows - 25) * crtCols

/-- Paper comes in up to the row of the carriage. -/
def feed (t : Typewriter) : Typewriter := { t with rows := max t.rows (t.carriage / crtCols + 1) }

def strike (v : BitVec 16) (t : Typewriter) : Typewriter :=
  { t with sheet := Function.update t.sheet t.carriage v, carriage := t.carriage + 1 }.feed

def back (v : BitVec 16) (t : Typewriter) : Typewriter :=
  if t.top < t.carriage then { t with sheet := Function.update t.sheet (t.carriage - 1) v, carriage := t.carriage - 1 } else t

def newline (t : Typewriter) : Typewriter := { t with carriage := (t.carriage / crtCols + 1) * crtCols }.feed

def carriageReturn (t : Typewriter) : Typewriter := { t with carriage := t.carriage / crtCols * crtCols }

def type (t : Typewriter) (c : Word) : Typewriter :=
  let ch := c &&& 0xFF#32
  if ch = 0x08#32 then t.back (erased c)
  else if ch = 0x0A#32 then t.newline
  else if ch = 0x0D#32 then t.carriageReturn
  else if ch = 0x09#32 then (strike (glyph 0x20#32))^[5] t
  else t.strike (glyph c)

end Typewriter

/-- A typewriter with what is on the screen. -/
def Crt.typewriter (mono : Bool) (s : Crt) : Typewriter where
  sheet i := if i < crtSize then s.mem.half (crtBuf mono) i else blankCell
  carriage := s.pos.toNat
  rows := 25

/-! ## The window -/

/-- The screen shows the last rows of the paper, the position is below `lim`, and of the memory `m₀` only cells of the
screen have changed. -/
structure ScreenOf (mono : Bool) (m₀ : Bytes) (lim : Nat) (s : Crt) (t : Typewriter) : Prop where
  rows : 25 ≤ t.rows
  cells : ∀ i < crtSize, s.mem.half (crtBuf mono) i = t.sheet (t.top + i)
  carriage : t.carriage = t.top + s.pos.toNat
  pos : s.pos.toNat < lim
  below : ∀ i, t.rows * crtCols ≤ i → t.sheet i = blankCell
  written : ∀ i ∈ s.written, i < crtSize
  frame : ∀ b, ¬ ((crtBuf mono).toNat ≤ b.toNat ∧ b.toNat < (crtBuf mono).toNat + 2 * crtSize) → s.mem b = m₀ b

variable {mono : Bool} {m₀ : Bytes} {lim : Nat} {s : Crt} {t : Typewriter} {c : Word} {v : BitVec 16} {i j k : Nat}

theorem crtBuf_halves (mono : Bool) : Halves (crtBuf mono) crtSize := by
  cases mono <;> unfold Halves <;> decide

theorem window_typewriter (hpos : s.pos.toNat < crtSize) (hw : s.written = []) :
    ScreenOf mono s.mem crtSize s (s.typewriter mono) where
  rows := le_rfl
  cells i hi := by
    have htop : (s.typewriter mono).top = 0 := Nat.zero_mul crtCols
    rw [htop, Nat.zero_add]
    exact (if_pos hi).symm
  carriage := (Nat.zero_add _).symm
  pos := hpos
  below _ hi := if_neg (Nat.not_lt.2 hi)
  written := by simp [hw]
  frame _ _ := rfl

theorem ScreenOf.widen (h : ScreenOf mono m₀ lim s t) (hk : lim ≤ k) : ScreenOf mono m₀ k s t :=
  ⟨h.1, h.2, h.3, h.4.trans_le hk, h.5, h.6, h.7⟩

theorem ScreenOf.blink (h : ScreenOf mono m₀ lim s t) : ScreenOf mono m₀ lim s.blink t := ⟨h.1, h.2, h.3, h.4, h.5, h.6, h.7⟩

/-! ## Scrolling -/

@[simp] theorem pos_blanks : ∀ (k i : Nat) (s : Crt), (s.blanks mono k i).pos = s.pos
  | 0, _, _ => rfl
  | k + 1, i, s => pos_blanks k (i + 1) (s.store mono i (0x0700#16 ||| 0x20#16))

theorem half_blanks (hj : j < crtSize) : ∀ (k i : Nat) (s : Crt), i + k ≤ crtSize →
    (s.blanks mono k i).mem.half (crtBuf mono) j = if i ≤ j ∧ j < i + k then blankCell else s.mem.half (crtBuf mono) j
  | 0, i, s, _ => (if_neg (by omega)).symm
  | k + 1, i, s, hk => by
    unfold Crt.blanks
    rw [half_blanks hj k (i + 1) _ (by omega)]
    by_cases hij : j = i
    · rw [if_neg (by omega), if_pos (by omega), hij]
      exact half_setHalf
    · have hset : (s.store mono i (0x0700#16 ||| 0x20#16)).mem.half (crtBuf mono) j = s.mem.half (crtBuf mono) j :=
        half_setHalf_ne (crtBuf_halves mono) (by omega) hj hij
      rw [hset]
      exact if_congr (by omega) rfl rfl

theorem frame_blanks {b : Word} (hb : ¬ ((crtBuf mono).toNat ≤ b.toNat ∧ b.toNat < (crtBuf mono).toNat + 2 * crtSize)) :
    ∀ (k i : Nat) (s : Crt), i + k ≤ crtSize → (s.blanks mono k i).mem b = s.mem b
  | 0, _, _, _ => rfl
  | k + 1, i, s, hk => (frame_blanks hb k (i + 1) _ (by omega)).trans (setHalf_other (crtBuf_halves mono) (by omega) hb)

theorem written_blanks : ∀ (k i : Nat) (s : Crt), i + k ≤ crtSize → (∀ j ∈ s.written, j < crtSize) →
    ∀ j ∈ (s.blanks mono k i).written, j < crtSize
  | 0, _, _, _, h => h
  | k + 1, i, s, hk, h => written_blanks k (i + 1) _ (by omega) (List.forall_mem_cons.2 ⟨by omega, h⟩)

theorem ScreenOf.feed_eq (h : ScreenOf mono m₀ crtSize s t) : t.feed = t := by
  have hrow : t.carriage / crtCols + 1 ≤ t.rows := by
    have := h.carriage
    have := h.pos
    have := h.rows
    unfold Typewriter.top crtSize crtCols at *
    omega
  unfold Typewriter.feed
  rw [max_eq_left hrow]

/-- `memmove` brings the rows up, and the last one is blanked. -/
theorem scroll_eq (mono : Bool) (hpos : s.pos = 2000#16) :
    ∃ m, Copied s.mem (crtBuf mono) (halfAt (crtBuf mono) crtCols) 0 (2 * (crtSize - crtCols)) m ∧
      s.scroll mono =
        { Crt.blanks mono crtCols (crtSize - crtCols)
          { s with mem := m, written := List.range (crtSize - crtCols) ++ s.written } with
          pos := s.pos - 80#16 } := by
  refine ⟨_, (memmoveAsm_copied (n := 3840#32) (by cases mono <;> decide) (by cases mono <;> decide)
    ⟨s.mem, false, 0#32, 0#32, 0#32⟩).1, ?_⟩
  unfold Crt.scroll
  rw [if_pos (show s.pos ≥ 2000#16 by rw [hpos]; decide)]
  dsimp only
  rw [pos_blanks]
  rfl

/-- When the carriage has left the last row, the screen goes one row down the paper. -/
theorem ScreenOf.scroll (h : ScreenOf mono m₀ (crtSize + 1) s t) : ScreenOf mono m₀ crtSize (s.scroll mono) t.feed := by
  by_cases hp : s.pos.toNat < crtSize
  · have hw : ScreenOf mono m₀ crtSize s t := ⟨h.1, h.2, h.3, hp, h.5, h.6, h.7⟩
    have hs : s.scroll mono = s := if_neg (by unfold crtSize crtCols at hp; bv_omega)
    rw [hw.feed_eq, hs]
    exact hw
  · -- the cursor is one place behind the screen
    have hpos : s.pos = 2000#16 := by
      have := h.pos
      unfold crtSize crtCols at *
      bv_omega
    have hrows := h.rows
    have hcar : t.carriage = t.rows * crtCols := by
      rw [h.carriage, hpos]
      unfold Typewriter.top crtCols
      show (t.rows - 25) * 80 + 2000 = _
      omega
    have hfeed : t.feed = { t with rows := t.rows + 1 } := by
      unfold Typewriter.feed
      rw [hcar, Nat.mul_div_cancel _ (by decide), max_eq_right (Nat.le_succ _)]
    have htop : t.feed.top = t.top + crtCols := by
      rw [hfeed]
      unfold Typewriter.top crtCols
      dsimp only
      omega
    obtain ⟨m, hcopy, hs⟩ := scroll_eq mono hpos
    rw [hs]
    have hhalves : Halves (crtBuf mono) (crtSize - crtCols + crtCols) := crtBuf_halves mono
    refine ⟨?_, fun i hi => ?_, ?_, ?_, fun i hi => ?_, ?_, fun b hb => ?_⟩
    · rw [hfeed]
      exact Nat.le_succ_of_le hrows
    · dsimp only
      rw [half_blanks hi _ _ _ (by decide), htop]
      -- each row but the last is the one below it, and the last is blank on both sides
      by_cases hlow : i < crtSize - crtCols
      · rw [if_neg (by omega), hfeed, half_copied hhalves hcopy hlow, h.cells _ (by omega), Nat.add_assoc, Nat.add_comm crtCols]
      · rw [if_pos (by unfold crtSize crtCols at *; omega), hfeed]
        refine (h.below _ ?_).symm
        unfold Typewriter.top crtSize crtCols at *
        omega
    · rw [htop, hfeed, hcar]
      dsimp only
      rw [hpos]
      unfold Typewriter.top crtCols
      show _ = (t.rows - 25) * 80 + 80 + 1920
      omega
    · dsimp only
      rw [hpos]
      decide
    · rw [hfeed] at hi ⊢
      exact h.below i ((Nat.mul_le_mul_right _ (Nat.le_succ _)).trans hi)
    · refine written_blanks _ _ _ le_rfl fun j hj => ?_
      rcases List.mem_append.1 hj with hj | hj
      · exact (List.mem_range.1 hj).trans (by decide)
      · exact h.written j hj
    · dsimp only
      rw [frame_blanks hb _ _ _ (by decide), ← h.frame b hb]
      refine hcopy.frame ?_
      have := crtBuf_halves mono
      unfold Halves at this
      unfold crtSize crtCols at *
      bv_omega

/-- A position on the screen stays. -/
theorem ScreenOf.settle (h : ScreenOf mono m₀ crtSize s t) : ScreenOf mono m₀ crtSize (s.scroll mono) t := by
  have hscroll := (h.widen (Nat.le_succ _)).scroll
  rw [h.feed_eq] at hscroll
  exact hscroll

/-! ## Characters -/

/-- A cell is printed over. -/
theorem ScreenOf.store (h : ScreenOf mono m₀ lim s t) (hi : i < crtSize) (v : BitVec 16) :
    ScreenOf mono m₀ lim (s.store mono i v) { t with sheet := Function.update t.sheet (t.top + i) v } where
  rows := h.rows
  cells j hj := by
    show (s.mem.setHalf (crtBuf mono) i v).half (crtBuf mono) j = Function.update t.sheet (t.top + i) v (t.top + j)
    by_cases hij : j = i
    · rw [hij, half_setHalf, Function.update_self]
    · rw [half_setHalf_ne (crtBuf_halves mono) hi hj hij, Function.update_of_ne (by omega), h.cells j hj]
  carriage := h.carriage
  pos := h.pos
  below j hj := by
    have hrows := h.rows
    have hne : j ≠ t.top + i := by
      dsimp only at hj
      unfold Typewriter.top crtSize crtCols at *
      omega
    exact (Function.update_of_ne hne ..).trans (h.below j hj)
  written := List.forall_mem_cons.2 ⟨hi, h.written⟩
  frame b hb := (setHalf_other (crtBuf_halves mono) hi hb).trans (h.frame b hb)

/-- The carriage is moved. -/
theorem ScreenOf.move (h : ScreenOf mono m₀ lim s t) (pos : BitVec 16) {x : Nat} (hx : x = t.top + pos.toNat)
    (hlim : pos.toNat < k) :
    ScreenOf mono m₀ k { s with pos := pos } { t with carriage := x } :=
  ⟨h.rows, h.cells, hx, hlim, h.below, h.written, h.frame⟩

/-- A row begins at the position that is left. -/
theorem row_start (t : Typewriter) (p : BitVec 16) : (t.top + p.toNat) / crtCols * crtCols = t.top + (p - p % 80#16).toNat := by
  have hmod : (p % 80#16).toNat = p.toNat % 80 := BitVec.toNat_umod
  unfold Typewriter.top crtCols
  rw [BitVec.toNat_sub_of_le (BitVec.le_def.2 (hmod ▸ Nat.mod_le _ _)), hmod]
  omega

theorem window_strike (h : ScreenOf mono m₀ crtSize s t) (v : BitVec 16) :
    ScreenOf mono m₀ crtSize (({ s.store mono s.pos.toNat v with pos := s.pos + 1#16 } : Crt).scroll mono) (t.strike v) := by
  have hpos := h.pos
  have hprint := (h.store hpos v).move (s.pos + 1#16) (x := t.carriage + 1) (k := crtSize + 1)
    (by have := h.carriage; unfold Typewriter.top crtSize crtCols at *; dsimp only; bv_omega)
    (by unfold crtSize crtCols at *; bv_omega)
  rw [← h.carriage] at hprint
  exact hprint.scroll

theorem window_back (h : ScreenOf mono m₀ crtSize s t) (v : BitVec 16) :
    ScreenOf mono m₀ crtSize
      ((if s.pos > 0#16 then ({ s with pos := s.pos - 1#16 } : Crt).store mono (s.pos - 1#16).toNat v else s).scroll mono)
      (t.back v) := by
  have hpos := h.pos
  have hcar := h.carriage
  unfold Typewriter.back
  by_cases hp : s.pos > 0#16
  · have hx : t.carriage - 1 = t.top + (s.pos - 1#16).toNat := by bv_omega
    have hlt : (s.pos - 1#16).toNat < crtSize := by bv_omega
    have hback := (h.move _ hx hlt).store hlt v
    rw [if_pos hp, if_pos (by bv_omega)]
    refine ScreenOf.settle ?_
    rw [hx] at hback ⊢
    exact hback
  · rw [if_neg hp, if_neg (by bv_omega)]
    exact h.settle

theorem window_newline (h : ScreenOf mono m₀ crtSize s t) :
    ScreenOf mono m₀ crtSize (({ s with pos := s.pos + 80#16 - (s.pos + 80#16) % 80#16 } : Crt).scroll mono) t.newline := by
  have hpos := h.pos
  have hrow := row_start t (s.pos + 80#16)
  have hmove := h.move (s.pos + 80#16 - (s.pos + 80#16) % 80#16) (x := (t.carriage / crtCols + 1) * crtCols) (k := crtSize + 1)
    (by
      rw [← hrow, h.carriage]
      unfold crtSize crtCols at *
      bv_omega)
    (by
      unfold Typewriter.top crtSize crtCols at *
      bv_omega)
  exact hmove.scroll

theorem window_return (h : ScreenOf mono m₀ crtSize s t) :
    ScreenOf mono m₀ crtSize (({ s with pos := s.pos - s.pos % 80#16 } : Crt).scroll mono) t.carriageReturn := by
  have hpos := h.pos
  have hrow := row_start t s.pos
  have hmove := h.move (s.pos - s.pos % 80#16) (x := t.carriage / crtCols * crtCols) (k := crtSize)
    (by rw [h.carriage, hrow])
    (by
      unfold Typewriter.top crtSize crtCols at *
      omega)
  exact hmove.settle

/-- Every character but the tab. -/
theorem window_plain (h : ScreenOf mono m₀ crtSize s t) (hc : c &&& 0xFF#32 ≠ 0x09#32) :
    ScreenOf mono m₀ crtSize (cgaPutc mono c s) (t.type c) := by
  rw [cgaPutc]
  unfold Typewriter.type
  dsimp only
  rw [withAttribute_char]
  refine ScreenOf.blink ?_
  split
  · exact window_back h _
  split
  · exact window_newline h
  split
  · exact window_return h
  · exact window_strike h _

theorem window_putc (h : ScreenOf mono m₀ crtSize s t) (c : Word) : ScreenOf mono m₀ crtSize (cgaPutc mono c s) (t.type c) := by
  by_cases hc : c &&& 0xFF#32 = 0x09#32
  · -- five blanks
    have hblank : ∀ {s t}, ScreenOf mono m₀ crtSize s t →
        ScreenOf mono m₀ crtSize (cgaPutc mono 0x20#32 s) (t.strike (glyph 0x20#32)) :=
      fun h => window_plain h (by decide)
    have h5 := hblank (hblank (hblank (hblank (hblank h))))
    rw [cgaPutc]
    unfold Typewriter.type
    dsimp only
    rw [withAttribute_char, hc]
    exact h5.settle.blink
  · exact window_plain h hc

theorem window_putcs (h : ScreenOf mono m₀ crtSize s t) :
    ∀ cs : List Word, ScreenOf mono m₀ crtSize (cs.foldl (fun s c => cgaPutc mono c s) s) (cs.foldl Typewriter.type t) := by
  intro cs
  induction cs generalizing s t with
  | nil => exact h
  | cons c cs ih => exact ih (window_putc h c)

theorem blink_cursor (s : Crt) : s.blink.cursorHigh ++ s.blink.cursorLow = s.blink.pos := by
  unfold Crt.blink
  ext i hi
  rw [BitVec.getElem_append]
  split
  · simp [BitVec.getLsbD_eq_getElem hi]
  · simp [show 8 + (i - 8) = i by omega, BitVec.getLsbD_eq_getElem hi]

theorem putc_cursor (mono : Bool) (c : Word) (s : Crt) :
    (cgaPutc mono c s).cursorHigh ++ (cgaPutc mono c s).cursorLow = (cgaPutc mono c s).pos := by
  rw [cgaPutc]
  exact blink_cursor _

theorem putcs_cursor (mono : Bool) (s : Crt) {cs : List Word} (hcs : cs ≠ []) :
    let s' := cs.foldl (fun s c => cgaPutc mono c s) s
    s'.cursorHigh ++ s'.cursorLow = s'.pos := by
  obtain ⟨cs, c, rfl⟩ := List.eq_nil_or_concat cs |>.resolve_left hcs
  rw [List.concat_eq_append, List.foldl_append]
  exact putc_cursor mono c _

/-- The screen shows the last 25 rows of a typewriter that was given the same characters, and the cursor is at its carriage.
No cell outside of the screen is written, and nothing else in memory changes. -/
theorem screen_window (mono : Bool) (mem : Bytes) (pos : BitVec 16) (hi lo : BitVec 8) (cs : List Word)
    (hpos : pos.toNat < crtSize) :
    let s₀ : Crt := ⟨mem, pos, hi, lo, []⟩
    let s := cs.foldl (fun s c => cgaPutc mono c s) s₀
    let t := cs.foldl Typewriter.type (s₀.typewriter mono)
    (∀ i ∈ s.written, i < crtSize) ∧ s.pos.toNat < crtSize ∧
    (∀ i < crtSize, s.mem.half (crtBuf mono) i = t.sheet ((t.rows - 25) * crtCols + i)) ∧
    t.carriage = (t.rows - 25) * crtCols + s.pos.toNat ∧ (cs ≠ [] → s.cursorHigh ++ s.cursorLow = s.pos) ∧
    ∀ b, ¬ ((crtBuf mono).toNat ≤ b.toNat ∧ b.toNat < (crtBuf mono).toNat + 2 * crtSize) → s.mem b = mem b := by
  intro s₀ s t
  have h₀ : ScreenOf mono mem crtSize s₀ (s₀.typewriter mono) := window_typewriter (s := s₀) hpos rfl
  have h : ScreenOf mono mem crtSize s t := window_putcs h₀ cs
  exact ⟨h.written, h.pos, h.cells, h.carriage, putcs_cursor mono s₀, h.frame⟩

theorem screen_window_tab :
    let s₀ : Crt := ⟨fun _ => 0#8, 1995#16, 0#8, 0#8, []⟩
    let s := [0x09#32, 0x61#32].foldl (fun s c => cgaPutc false c s) s₀
    s.pos.toNat < crtSize ∧ s.cursorHigh ++ s.cursorLow = s.pos := by
  intro s₀ s
  obtain ⟨-, hpos, -, -, hcursor, -⟩ := screen_window false (fun _ => 0#8) 1995#16 0#8 0#8 [0x09#32, 0x61#32] (by decide)
  exact ⟨hpos, hcursor (List.cons_ne_nil _ _)⟩

end Jos
