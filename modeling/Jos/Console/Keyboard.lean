/-
The keyboard of kern/console.c: `kbd_proc_data` turns the bytes of the controller into characters. The word `shift` keeps what
it must remember between two bytes; after whole keys it says which modifiers are down and which locks are on.
-/
import Jos.Console.Input

namespace Jos

/-! ## The code -/

namespace Kbd

def shift : Word := 1#32
def ctl : Word := 2#32
def alt : Word := 4#32
def capslock : Word := 8#32
def numlock : Word := 16#32
def scrolllock : Word := 32#32
def e0esc : Word := 64#32

end Kbd

/-- `shiftcode`. -/
def shiftcode (d : Byte) : Word :=
  if d = 0x1D#8 ∨ d = 0x9D#8 then Kbd.ctl
  else if d = 0x2A#8 ∨ d = 0x36#8 then Kbd.shift
  else if d = 0x38#8 ∨ d = 0xB8#8 then Kbd.alt
  else 0#32

/-- `togglecode`. -/
def togglecode (d : Byte) : Word :=
  if d = 0x3A#8 then Kbd.capslock
  else if d = 0x45#8 then Kbd.numlock
  else if d = 0x46#8 then Kbd.scrolllock
  else 0#32

/-- A map: the first entries, and those that are given by index. -/
def keymap (row : List Char) (rest : List (Byte × Byte)) (d : Byte) : Byte :=
  (rest.lookup d).getD (BitVec.ofNat 8 (row.getD d.toNat '\x00').toNat)

/-- The entries of the three maps for the keys behind `0xE0`; the index of `KEY_HOME` differs. -/
def farKeys (home : Byte) (enter : List (Byte × Byte)) (div : Byte) : List (Byte × Byte) :=
  (home, 0xE0#8) :: enter ++ [(0xB5#8, div), (0xC8#8, 0xE2#8), (0xC9#8, 0xE6#8), (0xCB#8, 0xE4#8), (0xCD#8, 0xE5#8),
    (0xCF#8, 0xE1#8), (0xD0#8, 0xE3#8), (0xD1#8, 0xE7#8), (0xD2#8, 0xE8#8), (0xD3#8, 0xE9#8)]

def normalmap : Byte → Byte :=
  keymap
    ['\x00', '\x1b', '1', '2', '3', '4', '5', '6', '7', '8', '9', '0', '-', '=', '\x08', '\t',
      'q', 'w', 'e', 'r', 't', 'y', 'u', 'i', 'o', 'p', '[', ']', '\n', '\x00', 'a', 's',
      'd', 'f', 'g', 'h', 'j', 'k', 'l', ';', '\x27', '\x60', '\x00', '\x5c', 'z', 'x', 'c', 'v',
      'b', 'n', 'm', ',', '.', '/', '\x00', '*', '\x00', ' ', '\x00', '\x00', '\x00', '\x00', '\x00', '\x00',
      '\x00', '\x00', '\x00', '\x00', '\x00', '\x00', '\x00', '7', '8', '9', '-', '4', '5', '6', '+', '1',
      '2', '3', '0', '.']
    (farKeys 0xC7#8 [(0x9C#8, 0x0A#8)] 0x2F#8)

def shiftmap : Byte → Byte :=
  keymap
    ['\x00', '\x1b', '!', '@', '#', '$', '%', '^', '&', '*', '(', ')', '_', '+', '\x08', '\t',
      'Q', 'W', 'E', 'R', 'T', 'Y', 'U', 'I', 'O', 'P', '\x7b', '\x7d', '\n', '\x00', 'A', 'S',
      'D', 'F', 'G', 'H', 'J', 'K', 'L', ':', '\x22', '~', '\x00', '|', 'Z', 'X', 'C', 'V',
      'B', 'N', 'M', '<', '>', '?', '\x00', '*', '\x00', ' ', '\x00', '\x00', '\x00', '\x00', '\x00', '\x00',
      '\x00', '\x00', '\x00', '\x00', '\x00', '\x00', '\x00', '7', '8', '9', '-', '4', '5', '6', '+', '1',
      '2', '3', '0', '.']
    (farKeys 0xC7#8 [(0x9C#8, 0x0A#8)] 0x2F#8)

/-- The control character `C(x)`. -/
def ctlChar (x : Char) : Char := Char.ofNat (x.toNat - '@'.toNat)

def ctlmap : Byte → Byte :=
  keymap
    (List.replicate 16 '\x00' ++
      ['Q', 'W', 'E', 'R', 'T', 'Y', 'U', 'I', 'O', 'P'].map ctlChar ++ ['\x00', '\x00', '\r', '\x00'] ++
      ['A', 'S', 'D', 'F', 'G', 'H', 'J', 'K', 'L'].map ctlChar ++ List.replicate 4 '\x00' ++
      ['\x5c', 'Z', 'X', 'C', 'V', 'B', 'N', 'M'].map ctlChar)
    ((0x35#8, 0x2F#8 - 0x40#8) :: farKeys 0x97#8 [] (0x2F#8 - 0x40#8))

/-- `charcode`, at the index `shift & (CTL | SHIFT)`. -/
def charcode (i : Word) : Byte → Byte :=
  if i = 0#32 then normalmap else if i = 1#32 then shiftmap else ctlmap

/-- `KEY_DEL`. -/
def keyDel : Byte := 0xE9#8

/-- The keyboard: the bytes that wait in the controller, the static `shift`, and whether the machine was told to reboot. -/
structure Keyboard where
  data : List Byte
  shift : Word := 0#32
  rebooted : Bool := false

/-- What `CAPSLOCK` makes of a character. -/
def swapCase (c : Byte) : Byte :=
  if 0x61#8 ≤ c ∧ c ≤ 0x7A#8 then c - 32#8
  else if 0x41#8 ≤ c ∧ c ≤ 0x5A#8 then c + 32#8
  else c

def kbdProcData (k : Keyboard) : Word × Keyboard :=
  match k.data with
  | [] => (-1#32, k)
  | data :: rest =>
    let k := { k with data := rest }
    if data = 0xE0#8 then
      (0#32, { k with shift := k.shift ||| Kbd.e0esc })
    else if data &&& 0x80#8 ≠ 0#8 then
      -- key released
      let data := if k.shift &&& Kbd.e0esc ≠ 0#32 then data else data &&& 0x7F#8
      (0#32, { k with shift := k.shift &&& ~~~(shiftcode data ||| Kbd.e0esc) })
    else
      let (data, shift) := if k.shift &&& Kbd.e0esc ≠ 0#32 then (data ||| 0x80#8, k.shift &&& ~~~Kbd.e0esc) else (data, k.shift)
      let shift := (shift ||| shiftcode data) ^^^ togglecode data
      let c := charcode (shift &&& (Kbd.ctl ||| Kbd.shift)) data
      let c := if shift &&& Kbd.capslock ≠ 0#32 then swapCase c else c
      let reboot : Bool := ~~~shift &&& (Kbd.ctl ||| Kbd.alt) = 0#32 ∧ c = keyDel
      (c.setWidth 32, { k with shift, rebooted := k.rebooted || reboot })

/-! ## Keys -/

/-- A key: its scan code, sent behind `0xE0` if `far`. With the code `0x60` its release would be that byte. -/
structure Key where
  code : BitVec 7
  far : Bool
  code_ne : code ≠ 0x60#7

/-- The index of a key in the tables. -/
def Key.index (k : Key) : Byte := BitVec.ofBool k.far ++ k.code

inductive KeyEvent where
  | press (k : Key)
  | release (k : Key)

/-- The bytes that the keyboard sends. -/
def KeyEvent.bytes : KeyEvent → List Byte
  | .press k => (if k.far then [0xE0#8] else []) ++ [0#1 ++ k.code]
  | .release k => (if k.far then [0xE0#8] else []) ++ [1#1 ++ k.code]

/-- A modifier, by the indices of its keys, is down when the last event on one of them was a press. -/
def down (keys : List Byte) (es : List KeyEvent) : Bool :=
  match es.reverse.find? (fun e => match e with | .press k | .release k => keys.contains k.index) with
  | some (.press _) => true
  | _ => false

/-- A lock is on when its key was pressed an odd number of times. -/
def locked (key : Byte) (es : List KeyEvent) : Bool :=
  es.countP (fun e => match e with | .press k => k.index == key | .release _ => false) % 2 == 1

/-- The modifiers and locks after a history of events. -/
structure Modifiers where
  shift : Bool
  ctl : Bool
  alt : Bool
  caps : Bool
  num : Bool
  scroll : Bool

def modifiers (es : List KeyEvent) : Modifiers where
  shift := down [0x2A#8, 0x36#8] es
  ctl := down [0x1D#8, 0x9D#8] es
  alt := down [0x38#8, 0xB8#8] es
  caps := locked 0x3A#8 es
  num := locked 0x45#8 es
  scroll := locked 0x46#8 es

/-- The character of a key. -/
def Modifiers.char (m : Modifiers) (d : Byte) : Byte :=
  let c := if m.ctl then ctlmap d else if m.shift then shiftmap d else normalmap d
  if m.caps then swapCase c else c

/-- The characters that events give after a history; a key may have none. -/
def typed : List KeyEvent → List KeyEvent → List Byte
  | _, [] => []
  | es, .press k :: rest => kept [(modifiers (es ++ [.press k])).char k.index] ++ typed (es ++ [.press k]) rest
  | es, .release k :: rest => typed (es ++ [.release k]) rest

/-- Ctrl-Alt-Del comes among the events. -/
def rebooting : List KeyEvent → List KeyEvent → Bool
  | _, [] => false
  | es, .press k :: rest =>
    let m := modifiers (es ++ [.press k])
    (m.ctl && m.alt && m.char k.index == keyDel) || rebooting (es ++ [.press k]) rest
  | es, .release k :: rest => rebooting (es ++ [.release k]) rest

/-! ## The word -/

def bit (b : Bool) (w : Word) : Word := if b then w else 0#32

/-- The word that keeps the modifiers. -/
def Modifiers.word (m : Modifiers) : Word :=
  bit m.shift Kbd.shift ||| bit m.ctl Kbd.ctl ||| bit m.alt Kbd.alt ||| bit m.caps Kbd.capslock ||| bit m.num Kbd.numlock |||
    bit m.scroll Kbd.scrolllock

theorem shiftcode_bits : ∀ d : Byte, shiftcode d = bit ([0x2A#8, 0x36#8].contains d) Kbd.shift |||
    bit ([0x1D#8, 0x9D#8].contains d) Kbd.ctl ||| bit ([0x38#8, 0xB8#8].contains d) Kbd.alt := by
  decide +kernel

theorem togglecode_bits : ∀ d : Byte, togglecode d = bit (d == 0x3A#8) Kbd.capslock ||| bit (d == 0x45#8) Kbd.numlock |||
    bit (d == 0x46#8) Kbd.scrolllock := by
  decide +kernel

/-- One bit of the word, where the key of a modifier or of a lock is pressed. -/
theorem word_press : ∀ s c a l n r s' c' a' l' n' r' : Bool,
    ((Modifiers.mk s c a l n r).word ||| (bit s' Kbd.shift ||| bit c' Kbd.ctl ||| bit a' Kbd.alt)) ^^^
        (bit l' Kbd.capslock ||| bit n' Kbd.numlock ||| bit r' Kbd.scrolllock) =
      (Modifiers.mk (s' || s) (c' || c) (a' || a) (l' ^^ l) (n' ^^ n) (r' ^^ r)).word := by
  decide +kernel

theorem word_release : ∀ s c a l n r s' c' a' : Bool,
    (Modifiers.mk s c a l n r).word &&& ~~~(bit s' Kbd.shift ||| bit c' Kbd.ctl ||| bit a' Kbd.alt ||| Kbd.e0esc) =
      (Modifiers.mk (!s' && s) (!c' && c) (!a' && a) l n r).word ∧
    ((Modifiers.mk s c a l n r).word ||| Kbd.e0esc) &&&
        ~~~(bit s' Kbd.shift ||| bit c' Kbd.ctl ||| bit a' Kbd.alt ||| Kbd.e0esc) =
      (Modifiers.mk (!s' && s) (!c' && c) (!a' && a) l n r).word := by
  decide +kernel

/-- The byte `0xE0` leaves its mark beside the modifiers. -/
theorem word_esc : ∀ s c a l n r : Bool, (Modifiers.mk s c a l n r).word &&& Kbd.e0esc = 0#32 ∧
    ((Modifiers.mk s c a l n r).word ||| Kbd.e0esc) &&& Kbd.e0esc ≠ 0#32 ∧
    ((Modifiers.mk s c a l n r).word ||| Kbd.e0esc) &&& ~~~Kbd.e0esc = (Modifiers.mk s c a l n r).word := by
  decide +kernel

theorem word_tests : ∀ s c a l n r : Bool,
    (Modifiers.mk s c a l n r).word &&& (Kbd.ctl ||| Kbd.shift) = bit s Kbd.shift ||| bit c Kbd.ctl ∧
    ((Modifiers.mk s c a l n r).word &&& Kbd.capslock ≠ 0#32 ↔ l = true) ∧
    (~~~(Modifiers.mk s c a l n r).word &&& (Kbd.ctl ||| Kbd.alt) = 0#32 ↔ c = true ∧ a = true) := by
  decide +kernel

/-! ## The history -/

variable {es rest : List KeyEvent} {k : Key} {keys : List Byte} {key : Byte} {m : Modifiers} {bs : List Byte} {w v : Word}
    {b : Bool}

theorem down_press (keys : List Byte) (es : List KeyEvent) (k : Key) :
    down keys (es ++ [.press k]) = (keys.contains k.index || down keys es) := by
  unfold down
  rw [List.reverse_append, List.reverse_singleton, List.singleton_append, List.find?_cons]
  dsimp only
  cases keys.contains k.index with
  | true => rfl
  | false => rfl

theorem down_release (keys : List Byte) (es : List KeyEvent) (k : Key) :
    down keys (es ++ [.release k]) = (!keys.contains k.index && down keys es) := by
  unfold down
  rw [List.reverse_append, List.reverse_singleton, List.singleton_append, List.find?_cons]
  dsimp only
  cases keys.contains k.index with
  | true => rfl
  | false => rfl

theorem locked_press (key : Byte) (es : List KeyEvent) (k : Key) :
    locked key (es ++ [.press k]) = ((k.index == key) ^^ locked key es) := by
  unfold locked
  rw [List.countP_append, List.countP_singleton]
  generalize List.countP _ es = n
  by_cases hk : k.index = key
  · rcases Nat.mod_two_eq_zero_or_one n with h | h
    · simp [hk, h, Nat.add_mod]
    · simp [hk, h, Nat.add_mod]
  · simp [beq_eq_false_iff_ne.2 hk]

theorem locked_release (key : Byte) (es : List KeyEvent) (k : Key) : locked key (es ++ [.release k]) = locked key es := by
  unfold locked
  rw [List.countP_append, List.countP_singleton]
  simp

/-- What a press makes of the word, and a release, behind `0xE0` or not. -/
theorem modifiers_press (es : List KeyEvent) (k : Key) :
    ((modifiers es).word ||| shiftcode k.index) ^^^ togglecode k.index = (modifiers (es ++ [.press k])).word := by
  unfold modifiers
  rw [shiftcode_bits, togglecode_bits, word_press, down_press, down_press, down_press, locked_press, locked_press, locked_press]

theorem modifiers_release (es : List KeyEvent) (k : Key) :
    (modifiers es).word &&& ~~~(shiftcode k.index ||| Kbd.e0esc) = (modifiers (es ++ [.release k])).word ∧
    ((modifiers es).word ||| Kbd.e0esc) &&& ~~~(shiftcode k.index ||| Kbd.e0esc) = (modifiers (es ++ [.release k])).word := by
  unfold modifiers
  rw [shiftcode_bits, down_release, down_release, down_release, locked_release, locked_release, locked_release]
  exact word_release ..

/-! ## One byte -/

theorem pressed_byte : ∀ c : BitVec 7, (0#1 ++ c : Byte) ≠ 0xE0#8 ∧ (0#1 ++ c : Byte) &&& 0x80#8 = 0#8 ∧
    (0#1 ++ c : Byte) ||| 0x80#8 = 1#1 ++ c := by
  decide +kernel

theorem released_byte : ∀ c : BitVec 7, c ≠ 0x60#7 → (1#1 ++ c : Byte) ≠ 0xE0#8 ∧ (1#1 ++ c : Byte) &&& 0x80#8 ≠ 0#8 ∧
    (1#1 ++ c : Byte) &&& 0x7F#8 = 0#1 ++ c := by
  decide +kernel

theorem charcode_word (m : Modifiers) (d : Byte) : charcode (m.word &&& (Kbd.ctl ||| Kbd.shift)) d =
    if m.ctl then ctlmap d else if m.shift then shiftmap d else normalmap d := by
  obtain ⟨s, c, a, l, n, r⟩ := m
  rw [(word_tests ..).1]
  cases s <;> cases c <;> rfl

/-- The character at an index, with the word `u`. -/
def charAt (u : Word) (i : Byte) : Byte :=
  let c := charcode (u &&& (Kbd.ctl ||| Kbd.shift)) i
  if u &&& Kbd.capslock ≠ 0#32 then swapCase c else c

/-- A byte that is a press, once the byte before it is taken into account. -/
theorem kbd_pressed {u : Word} {i p : Byte} (hE : p ≠ 0xE0#8) (h80 : p &&& 0x80#8 = 0#8)
    (hpair : (if w &&& Kbd.e0esc ≠ 0#32 then (p ||| 0x80#8, w &&& ~~~Kbd.e0esc) else (p, w)) = (i, v))
    (hu : (v ||| shiftcode i) ^^^ togglecode i = u) :
    kbdProcData ⟨p :: bs, w, b⟩ = ((charAt u i).setWidth 32,
      ⟨bs, u, b || decide (~~~u &&& (Kbd.ctl ||| Kbd.alt) = 0#32 ∧ charAt u i = keyDel)⟩) := by
  unfold kbdProcData
  dsimp only
  rw [if_neg hE, if_neg (not_not.2 h80), hpair]
  dsimp only
  rw [hu]
  rfl

/-- The same, where the word keeps modifiers. -/
theorem kbd_press {i p : Byte} (hE : p ≠ 0xE0#8) (h80 : p &&& 0x80#8 = 0#8)
    (hpair : (if w &&& Kbd.e0esc ≠ 0#32 then (p ||| 0x80#8, w &&& ~~~Kbd.e0esc) else (p, w)) = (i, v))
    (hm : (v ||| shiftcode i) ^^^ togglecode i = m.word) :
    kbdProcData ⟨p :: bs, w, b⟩ =
      ((m.char i).setWidth 32, ⟨bs, m.word, b || (m.ctl && m.alt && m.char i == keyDel)⟩) := by
  have hchar : charAt m.word i = m.char i := by
    unfold charAt
    rw [charcode_word]
    exact if_congr (word_tests ..).2.1 rfl rfl
  have hboot : (decide (~~~m.word &&& (Kbd.ctl ||| Kbd.alt) = 0#32 ∧ m.char i = keyDel)) =
      (m.ctl && m.alt && m.char i == keyDel) := by
    rw [Bool.decide_and, decide_eq_decide.2 (word_tests ..).2.2, Bool.decide_and, Bool.decide_eq_true, Bool.decide_eq_true]
    rfl
  rw [kbd_pressed hE h80 hpair hm, hchar, hboot]

theorem kbd_release {i p : Byte} (hE : p ≠ 0xE0#8) (h80 : p &&& 0x80#8 ≠ 0#8)
    (hi : (if w &&& Kbd.e0esc ≠ 0#32 then p else p &&& 0x7F#8) = i) (hm : w &&& ~~~(shiftcode i ||| Kbd.e0esc) = v) :
    kbdProcData ⟨p :: bs, w, b⟩ = (0#32, ⟨bs, v, b⟩) := by
  unfold kbdProcData
  dsimp only
  rw [if_neg hE, if_pos h80, hi, hm]

theorem kbd_esc : kbdProcData ⟨0xE0#8 :: bs, w, b⟩ = (0#32, ⟨bs, w ||| Kbd.e0esc, b⟩) := rfl

/-! ## Runs -/

theorem kept_cons (c : Byte) (cs : List Byte) : kept (c :: cs) = kept [c] ++ kept cs :=
  List.filter_append [c] cs

/-- The bytes of a pressed key give its character, and those before it none. -/
theorem press_delivers (es : List KeyEvent) (k : Key) (bs : List Byte) (b : Bool) {cs : List Byte} {s : Keyboard}
    (ht : DeviceGives kbdProcData ⟨bs, (modifiers (es ++ [.press k])).word,
      b || ((modifiers (es ++ [.press k])).ctl && (modifiers (es ++ [.press k])).alt &&
        (modifiers (es ++ [.press k])).char k.index == keyDel)⟩ cs s) :
    ∃ cs', DeviceGives kbdProcData ⟨(KeyEvent.press k).bytes ++ bs, (modifiers es).word, b⟩ cs' s ∧
      kept cs' = kept [(modifiers (es ++ [.press k])).char k.index] ++ kept cs := by
  obtain ⟨hE, h80, hset⟩ := pressed_byte k.code
  obtain ⟨hno, hmark, hclear⟩ := word_esc (modifiers es).shift (modifiers es).ctl (modifiers es).alt (modifiers es).caps
    (modifiers es).num (modifiers es).scroll
  have hm := modifiers_press es k
  obtain ⟨code, far, hne⟩ := k
  cases far with
  | false =>
    exact ⟨_ :: cs, .char (kbd_press hE h80 (if_neg (not_not.2 hno)) hm) ht, kept_cons _ cs⟩
  | true =>
    have hpair : (if ((modifiers es).word ||| Kbd.e0esc) &&& Kbd.e0esc ≠ 0#32
        then ((0#1 ++ code : Byte) ||| 0x80#8, ((modifiers es).word ||| Kbd.e0esc) &&& ~~~Kbd.e0esc)
        else ((0#1 ++ code : Byte), (modifiers es).word ||| Kbd.e0esc)) = (1#1 ++ code, (modifiers es).word) := by
      rw [if_pos hmark, hset, hclear]
    exact ⟨0#8 :: _ :: cs, .char kbd_esc (.char (kbd_press hE h80 hpair hm) ht), kept_cons _ cs⟩

/-- A released key gives nothing. -/
theorem release_delivers (es : List KeyEvent) (k : Key) (bs : List Byte) (b : Bool) {cs : List Byte} {s : Keyboard}
    (ht : DeviceGives kbdProcData ⟨bs, (modifiers (es ++ [.release k])).word, b⟩ cs s) :
    ∃ cs', DeviceGives kbdProcData ⟨(KeyEvent.release k).bytes ++ bs, (modifiers es).word, b⟩ cs' s ∧ kept cs' = kept cs := by
  obtain ⟨hE, h80, hclear⟩ := released_byte k.code k.code_ne
  obtain ⟨hno, hmark, -⟩ := word_esc (modifiers es).shift (modifiers es).ctl (modifiers es).alt (modifiers es).caps
    (modifiers es).num (modifiers es).scroll
  have hm := modifiers_release es k
  obtain ⟨code, far, hne⟩ := k
  cases far with
  | false =>
    exact ⟨0#8 :: cs, .char (kbd_release hE h80 ((if_neg (not_not.2 hno)).trans hclear) hm.1) ht, rfl⟩
  | true =>
    exact ⟨0#8 :: 0#8 :: cs, .char kbd_esc (.char (kbd_release hE h80 (if_pos hmark) hm.2) ht), rfl⟩

theorem keys_deliver (rest : List KeyEvent) : ∀ (es : List KeyEvent) (b : Bool),
    ∃ cs, DeviceGives kbdProcData ⟨rest.flatMap KeyEvent.bytes, (modifiers es).word, b⟩ cs
      ⟨[], (modifiers (es ++ rest)).word, b || rebooting es rest⟩ ∧ kept cs = typed es rest := by
  induction rest with
  | nil =>
    intro es b
    refine ⟨[], .none ?_, rfl⟩
    rw [List.append_nil, rebooting, Bool.or_false]
    rfl
  | cons e rest ih =>
    intro es b
    rw [List.flatMap_cons, List.append_cons]
    cases e with
    | press k =>
      rw [rebooting, ← Bool.or_assoc, typed]
      obtain ⟨cs, hd, hcs⟩ := ih (es ++ [.press k]) (b || ((modifiers (es ++ [.press k])).ctl &&
        (modifiers (es ++ [.press k])).alt && (modifiers (es ++ [.press k])).char k.index == keyDel))
      obtain ⟨cs', hd', hcs'⟩ := press_delivers es k _ b hd
      exact ⟨cs', hd', hcs'.trans (congrArg _ hcs)⟩
    | release k =>
      rw [rebooting, typed]
      obtain ⟨cs, hd, hcs⟩ := ih (es ++ [.release k]) b
      obtain ⟨cs', hd', hcs'⟩ := release_delivers es k _ b hd
      exact ⟨cs', hd', hcs'.trans hcs⟩

/-! ## Interrupts -/

/-- Interrupts: each finds more bytes in the controller, and `kbd_intr` takes all of them. -/
inductive KbdIntrs : Keyboard → List (List Byte) → List Byte → Keyboard → Prop
  | nil (k : Keyboard) : KbdIntrs k [] [] k
  | intr {k k₁ k' : Keyboard} {bs : List Byte} {bss : List (List Byte)} {cs cs' : List Byte}
    (h : DeviceGives kbdProcData { k with data := k.data ++ bs } cs k₁) (ht : KbdIntrs k₁ bss cs' k') :
    KbdIntrs k (bs :: bss) (cs ++ cs') k'

theorem char_ne_neg (c : Byte) : c.setWidth 32 ≠ -1#32 := by
  intro h
  have htop := congrArg (BitVec.getLsbD · 31) h
  simp at htop

/-- What one byte does, whatever waits behind it. -/
theorem kbd_byte (p : Byte) (w : Word) (b : Bool) :
    ∃ (c : Byte) (v : Word) (b' : Bool), ∀ bs, kbdProcData ⟨p :: bs, w, b⟩ = (c.setWidth 32, ⟨bs, v, b'⟩) := by
  by_cases hE : p = 0xE0#8
  · subst hE
    exact ⟨0#8, _, b, fun bs => kbd_esc⟩
  · by_cases h80 : p &&& 0x80#8 = 0#8
    · exact ⟨_, _, _, fun bs => kbd_pressed hE h80 rfl rfl⟩
    · exact ⟨0#8, _, b, fun bs => kbd_release hE h80 rfl rfl⟩

/-- The bytes may come in two parts. -/
theorem kbd_split {s : Keyboard} {cs : List Byte} : ∀ (bs : List Byte) {w : Word} {b : Bool} {bs' : List Byte},
    DeviceGives kbdProcData ⟨bs ++ bs', w, b⟩ cs s →
    ∃ cs₁ cs₂ v b', cs = cs₁ ++ cs₂ ∧ DeviceGives kbdProcData ⟨bs, w, b⟩ cs₁ ⟨[], v, b'⟩ ∧
      DeviceGives kbdProcData ⟨bs', v, b'⟩ cs₂ s := by
  intro bs
  induction bs generalizing cs with
  | nil => exact fun h => ⟨[], cs, _, _, rfl, .none rfl, h⟩
  | cons p bs ih =>
    intro w b bs' h
    obtain ⟨c, v, b', hbyte⟩ := kbd_byte p w b
    cases h with
    | none h =>
      rw [List.cons_append, hbyte] at h
      exact absurd (Prod.ext_iff.1 h).1 (char_ne_neg c)
    | char h ht =>
      rw [List.cons_append, hbyte] at h
      obtain ⟨hc, rfl⟩ := Prod.ext_iff.1 h
      obtain ⟨cs₁, cs₂, v', b'', rfl, h₁, h₂⟩ := ih ht
      exact ⟨_ :: cs₁, cs₂, v', b'', rfl, .char ((hbyte bs).trans (congrArg (·, _) hc)) h₁, h₂⟩

/-- They may come in any number of parts. -/
theorem kbd_intrs {v : Word} {b' : Bool} : ∀ (bss : List (List Byte)) {cs : List Byte} {w : Word} {b : Bool},
    DeviceGives kbdProcData ⟨bss.flatten, w, b⟩ cs ⟨[], v, b'⟩ → KbdIntrs ⟨[], w, b⟩ bss cs ⟨[], v, b'⟩ := by
  intro bss
  induction bss with
  | nil =>
    intro cs w b h
    cases h with
    | none h =>
      have hk : (⟨[], w, b⟩ : Keyboard) = ⟨[], v, b'⟩ := (Prod.ext_iff.1 h).2
      rw [hk]
      exact .nil _
    | char h => exact absurd (Prod.ext_iff.1 h).1.symm (char_ne_neg _)
  | cons bs bss ih =>
    intro cs w b h
    obtain ⟨cs₁, cs₂, v', b'', rfl, h₁, h₂⟩ := kbd_split bs h
    exact .intr h₁ (ih h₂)

/-- Whatever keys are pressed and released, and however the interrupts divide their bytes, `kbd_proc_data` gives the characters
that the history of each key press asks for, in order, ends with the word of the whole history, and reboots just at
Ctrl-Alt-Del. -/
theorem kbd_types (es : List KeyEvent) (bss : List (List Byte)) (hbytes : bss.flatten = es.flatMap KeyEvent.bytes) :
    ∃ cs, KbdIntrs { data := [] } bss cs { data := [], shift := (modifiers es).word, rebooted := rebooting [] es } ∧
      kept cs = typed [] es := by
  obtain ⟨cs, hd, hcs⟩ := keys_deliver es [] false
  rw [List.nil_append, Bool.false_or, ← hbytes] at hd
  exact ⟨cs, kbd_intrs bss hd, hcs⟩

/-- The right Ctrl key with the bytes of its press in two interrupts, then `C`. -/
theorem kbd_types_ctl :
    ∃ cs, KbdIntrs { data := [] } [[0xE0#8], [0x1D#8, 0x2E#8]] cs { data := [], shift := Kbd.ctl, rebooted := false } ∧
      kept cs = [0x03#8] := by
  obtain ⟨cs, hrun, hcs⟩ := kbd_types [.press ⟨0x1D#7, true, by decide⟩, .press ⟨0x2E#7, false, by decide⟩]
    [[0xE0#8], [0x1D#8, 0x2E#8]] rfl
  exact ⟨cs, hrun, hcs⟩

end Jos
