/-
`readline` of lib/readline.c: a line editor, except that the DEL key on an empty line goes on to the branch that stores
characters.
-/
import Jos.Fmt.Printfmt

namespace Jos

/-! ## The code -/

def buflen : Int := 1024

/-- What goes to the console. -/
inductive Echo where
  | prompt (s : List Byte)
  | readError (c : Int)
  | cputchar (c : Int)

/-- `buf`, with the memory around it, and `i`. -/
structure LineBuf where
  buf : Int → Byte
  i : Int := 0
  out : List Echo := []

def LineBuf.echo (echoing : Bool) (c : Int) (s : LineBuf) : LineBuf :=
  if echoing then { s with out := s.out ++ [.cputchar c] } else s

/-- The loop; `getchar` returns the given values in turn. The result is the buffer, or a null pointer after an error. -/
def readlineLoop (echoing : Bool) : List Int → LineBuf → Option (Bool × LineBuf)
  | [], _ => none
  | c :: cs, s =>
    if c < 0 then
      some (false, { s with out := s.out ++ [.readError c] })
    else if (c = 0x08 ∨ c = 0x7f) ∧ 0 < s.i then
      let s := s.echo echoing 0x08
      readlineLoop echoing cs { s with i := s.i - 1 }
    else if 0x20 ≤ c ∧ s.i < buflen - 1 then
      let s := s.echo echoing c
      readlineLoop echoing cs { s with buf := Function.update s.buf s.i (BitVec.ofInt 8 c), i := s.i + 1 }
    else if c = 0x0a ∨ c = 0x0d then
      let s := s.echo echoing 0x0a
      some (true, { s with buf := Function.update s.buf s.i 0#8 })
    else readlineLoop echoing cs s

def readline (echoing : Bool) (prompt : Option (List Byte)) (cs : List Int) (buf : Int → Byte) : Option (Bool × LineBuf) :=
  readlineLoop echoing cs { buf, out := (prompt.map Echo.prompt).toList }

/-! ## The line editor -/

def backspace : Byte := 0x08#8
def del : Byte := 0x7f#8

def isErase (c : Byte) : Prop := c = backspace ∨ c = del

instance : DecidablePred isErase := fun _ => inferInstanceAs (Decidable (_ ∨ _))

/-- What a key does to the line. -/
def edit (line : List Byte) (c : Byte) : List Byte :=
  if isErase c then line.dropLast
  else if 0x20 ≤ c.toNat ∧ line.length < 1023 then line ++ [c]
  else line

/-- The memory at `buf` holds this string. -/
def TextAt (buf : Int → Byte) (line : List Byte) : Prop :=
  0#8 ∉ line ∧ (∀ j < line.length, buf j = line.getD j 0#8) ∧ buf line.length = 0#8

/-- The number of characters on the line, where DEL counts as one when it finds none to take away. -/
def count (n : Nat) (c : Byte) : Nat :=
  if isErase c ∧ 0 < n then n - 1 else if 0x20 ≤ c.toNat ∧ n < 1023 then n + 1 else n

def counts (keys : List Byte) : Nat := keys.foldl count 0

/-- A DEL that came to an empty line has not been taken away since. -/
def DelStays (keys : List Byte) : Prop :=
  ∃ pre post, keys = pre ++ del :: post ∧ counts pre = 0 ∧ ∀ p, p <+: post → 0 < counts (pre ++ del :: p)

/-! ## The buffer and the line -/

/-- What a key does to the line in the buffer. -/
def storeKey (line : List Byte) (c : Byte) : List Byte :=
  if isErase c ∧ line ≠ [] then line.dropLast
  else if 0x20 ≤ c.toNat ∧ line.length < 1023 then line ++ [c]
  else line

variable {s : LineBuf} {line keys : List Byte} {c : Byte} {echoing : Bool} {buf buf' : Int → Byte}

/-- The buffer holds the line; the memory outside of it is as it was. -/
structure LineBuf.Holds (buf : Int → Byte) (s : LineBuf) (line : List Byte) : Prop where
  i : s.i = line.length
  le : line.length ≤ 1023
  text : ∀ j < line.length, s.buf j = line.getD j 0#8
  nonzero : 0#8 ∉ line
  outside : ∀ j, j < 0 ∨ buflen ≤ j → s.buf j = buf j

theorem LineBuf.Holds.echo (h : LineBuf.Holds buf s line) (echoing : Bool) (c : Int) :
    LineBuf.Holds buf (s.echo echoing c) line := by
  unfold LineBuf.echo
  split
  · exact ⟨h.i, h.le, h.text, h.nonzero, h.outside⟩
  · exact h

theorem LineBuf.Holds.erase (h : LineBuf.Holds buf s line) (hne : line ≠ []) :
    LineBuf.Holds buf { s with i := s.i - 1 } line.dropLast := by
  have hpos : 0 < line.length := List.length_pos_iff.2 hne
  have hlen : line.dropLast.length = line.length - 1 := List.length_dropLast
  have hle := h.le
  refine ⟨?_, by omega, fun j hj => ?_, fun h0 => h.nonzero (List.mem_of_mem_dropLast h0), h.outside⟩
  · show s.i - 1 = _
    rw [h.i, hlen]
    omega
  · rw [h.text j (by omega), List.getD_eq_getElem _ _ hj, List.getD_eq_getElem _ _ (by omega), List.getElem_dropLast]

theorem LineBuf.Holds.append (h : LineBuf.Holds buf s line) (hlt : line.length < 1023) (hc : c ≠ 0#8) :
    LineBuf.Holds buf { s with buf := Function.update s.buf s.i c, i := s.i + 1 } (line ++ [c]) := by
  have hlen : (line ++ [c]).length = line.length + 1 := by simp
  refine ⟨?_, by omega, fun j hj => ?_, ?_, fun j hj => ?_⟩
  · show s.i + 1 = _
    rw [h.i, hlen]
    omega
  · show Function.update s.buf s.i c j = _
    by_cases hj' : j < line.length
    · rw [Function.update_of_ne (by rw [h.i]; omega), h.text j hj', List.getD_append _ _ _ _ hj']
    · have hj : j = line.length := by omega
      rw [hj, ← h.i, Function.update_self, List.getD_append_right _ _ _ _ le_rfl, Nat.sub_self]
      rfl
  · rw [List.mem_append, List.mem_singleton]
    exact not_or.2 ⟨h.nonzero, hc.symm⟩
  · show Function.update s.buf s.i c j = _
    have hi := h.i
    unfold buflen at hj
    rw [Function.update_of_ne (by omega), h.outside j (by unfold buflen; omega)]

theorem isErase_iff : isErase c ↔ (c.toNat : Int) = 0x08 ∨ (c.toNat : Int) = 0x7f := by
  unfold isErase backspace del
  rw [← BitVec.toNat_inj, ← BitVec.toNat_inj]
  simp only [BitVec.toNat_ofNat]
  omega

/-- The keys of a line: any characters but the two that end it. -/
def IsKey (c : Byte) : Prop := c ≠ 0x0a#8 ∧ c ≠ 0x0d#8

instance : DecidablePred IsKey := fun _ => inferInstanceAs (Decidable (_ ∧ _))

theorem LineBuf.Holds.key (h : LineBuf.Holds buf s line) (hc : IsKey c) (echoing : Bool) (cs : List Int) :
    ∃ s', readlineLoop echoing (c.toNat :: cs) s = readlineLoop echoing cs s' ∧ LineBuf.Holds buf s' (storeKey line c) := by
  have hi := h.i
  have hle := h.le
  have herases : (((c.toNat : Int) = 0x08 ∨ (c.toNat : Int) = 0x7f) ∧ 0 < s.i) ↔ isErase c ∧ line ≠ [] := by
    rw [isErase_iff, ← List.length_pos_iff]
    omega
  rw [readlineLoop, storeKey, if_neg (by omega)]
  by_cases herase : isErase c ∧ line ≠ []
  · rw [if_pos (herases.2 herase), if_pos herase]
    exact ⟨_, rfl, (h.echo echoing 0x08).erase herase.2⟩
  have hroom : (0x20 ≤ (c.toNat : Int) ∧ s.i < buflen - 1) ↔ 0x20 ≤ c.toNat ∧ line.length < 1023 := by
    unfold buflen
    omega
  rw [if_neg fun h' => herase (herases.1 h'), if_neg herase]
  by_cases hput : 0x20 ≤ c.toNat ∧ line.length < 1023
  · rw [if_pos (hroom.2 hput), if_pos hput]
    have hput' := (h.echo echoing c.toNat).append hput.2 (c := c) fun h0 => by simp [h0] at hput
    refine ⟨_, rfl, ?_⟩
    rwa [show BitVec.ofInt 8 (c.toNat : Int) = c by simp]
  · have hend : ¬ ((c.toNat : Int) = 0x0a ∨ (c.toNat : Int) = 0x0d) := by
      rintro (h' | h')
      · exact hc.1 (BitVec.eq_of_toNat_eq (Int.ofNat_inj.1 h'))
      · exact hc.2 (BitVec.eq_of_toNat_eq (Int.ofNat_inj.1 h'))
    rw [if_neg fun h' => hput (hroom.1 h'), if_neg hput, if_neg hend]
    exact ⟨s, rfl, h⟩

theorem LineBuf.Holds.foldl (hkeys : ∀ c ∈ keys, IsKey c) (h : LineBuf.Holds buf s line) (echoing : Bool) (cs : List Int) :
    ∃ s', readlineLoop echoing (keys.map (fun c => (c.toNat : Int)) ++ cs) s = readlineLoop echoing cs s' ∧
      LineBuf.Holds buf s' (keys.foldl storeKey line) := by
  induction keys generalizing s line with
  | nil => exact ⟨s, rfl, h⟩
  | cons c keys ih =>
    obtain ⟨s₁, hrun, h₁⟩ := h.key (hkeys c (List.mem_cons_self ..)) echoing (keys.map (fun c => (c.toNat : Int)) ++ cs)
    obtain ⟨s', hrun', h'⟩ := ih (fun c hc => hkeys c (List.mem_cons_of_mem _ hc)) h₁
    exact ⟨s', hrun.trans hrun', h'⟩

/-- The return key ends the string. -/
theorem LineBuf.Holds.enter (h : LineBuf.Holds buf s line) {c : Byte} (hc : ¬ IsKey c) (echoing : Bool) (cs : List Int) :
    ∃ s', readlineLoop echoing (c.toNat :: cs) s = some (true, s') ∧ TextAt s'.buf line ∧
      ∀ j, j < 0 ∨ buflen ≤ j → s'.buf j = buf j := by
  have hcase : c = 0x0a#8 ∨ c = 0x0d#8 := by
    unfold IsKey at hc
    tauto
  have hi := h.i
  have hle := h.le
  have hrun : readlineLoop echoing (c.toNat :: cs) s =
      some (true, { (s.echo echoing 0x0a) with
        buf := Function.update (s.echo echoing 0x0a).buf (s.echo echoing 0x0a).i 0#8 }) := by
    unfold readlineLoop
    rcases hcase with rfl | rfl
    · rfl
    · rfl
  have hecho := h.echo echoing 0x0a
  refine ⟨_, hrun, ⟨h.nonzero, fun j hj => ?_, ?_⟩, fun j hj => ?_⟩
  · show Function.update _ _ _ _ = _
    rw [Function.update_of_ne (by rw [hecho.i]; omega)]
    exact hecho.text j hj
  · show Function.update _ _ _ _ = _
    rw [← hecho.i, Function.update_self]
  · show Function.update _ _ _ _ = _
    rw [Function.update_of_ne (by rw [hecho.i]; unfold buflen at hj; omega)]
    exact hecho.outside j hj

theorem TextAt.unique {l l' : List Byte} (h : TextAt buf l) (h' : TextAt buf l') : l = l' := by
  have hlen : ∀ {l l' : List Byte}, TextAt buf l → TextAt buf l' → ¬ l.length < l'.length := by
    intro l l' h h' hlt
    have hz := h'.2.1 l.length hlt
    rw [h.2.2, List.getD_eq_getElem _ _ hlt] at hz
    exact h'.1 (hz ▸ List.getElem_mem hlt)
  have heq : l.length = l'.length := le_antisymm (not_lt.1 (hlen h' h)) (not_lt.1 (hlen h h'))
  refine List.ext_getElem heq fun j h₁ h₂ => ?_
  have hj := h.2.1 j h₁
  rw [h'.2.1 j h₂, List.getD_eq_getElem _ _ h₂, List.getD_eq_getElem _ _ h₁] at hj
  exact hj.symm

/-! ## The line and the editor -/

theorem counts_append (c : Byte) : counts (keys ++ [c]) = count (counts keys) c := by
  unfold counts
  rw [List.foldl_append]
  rfl

theorem store_length (line : List Byte) (c : Byte) : (storeKey line c).length = count line.length c := by
  unfold storeKey count
  simp only [List.length_pos_iff]
  split_ifs
  · exact List.length_dropLast
  · simp
  · rfl

theorem stored_length (keys : List Byte) : (keys.foldl storeKey []).length = counts keys := by
  induction keys using List.reverseRecOn with
  | nil => rfl
  | append_singleton keys c ih => rw [List.foldl_append, List.foldl_cons, List.foldl_nil, store_length, ih, counts_append]

theorem counts_le (keys : List Byte) : counts keys ≤ 1023 := by
  induction keys using List.reverseRecOn with
  | nil => exact Nat.zero_le _
  | append_singleton keys c ih =>
    rw [counts_append]
    unfold count
    split_ifs <;> omega

/-- A DEL stays behind the next key when that does not take the last character away, or when it is itself a DEL on an empty
line. -/
theorem delStays_append (c : Byte) :
    DelStays (keys ++ [c]) ↔ DelStays keys ∧ 0 < counts (keys ++ [c]) ∨ c = del ∧ counts keys = 0 := by
  constructor
  · rintro ⟨pre, post, heq, hzero, hpos⟩
    rcases List.eq_nil_or_concat post with rfl | ⟨post, d, rfl⟩
    · obtain ⟨rfl, h⟩ := List.append_inj' heq rfl
      exact Or.inr ⟨List.singleton_inj.1 h, hzero⟩
    · rw [List.concat_eq_append] at heq hpos
      have heq' : keys ++ [c] = (pre ++ del :: post) ++ [d] := by rw [heq, List.append_assoc]; rfl
      obtain ⟨rfl, h⟩ := List.append_inj' heq' rfl
      refine Or.inl ⟨⟨pre, post, rfl, hzero, fun p hp => hpos p (hp.trans (List.prefix_append ..))⟩, ?_⟩
      rw [heq]
      exact hpos _ (List.prefix_refl _)
  · rintro (⟨⟨pre, post, rfl, hzero, hpos⟩, hlast⟩ | ⟨rfl, hzero⟩)
    · refine ⟨pre, post ++ [c], by simp, hzero, fun p hp => ?_⟩
      rcases List.prefix_concat_iff.1 hp with rfl | hp
      · simpa using hlast
      · exact hpos p hp
    · refine ⟨keys, [], rfl, hzero, fun p hp => ?_⟩
      rw [List.prefix_nil.1 hp, counts_append, hzero]
      decide

theorem del_not_edit {line : List Byte} (h : del ∉ line) (c : Byte) : del ∉ edit line c := by
  unfold edit
  split_ifs with herase hput
  · exact fun hd => h (List.mem_of_mem_dropLast hd)
  · rw [List.mem_append, List.mem_singleton]
    exact not_or.2 ⟨h, fun hd => herase (Or.inr hd.symm)⟩
  · exact h

/-- The line in the buffer, and the line of the editor. -/
inductive Compare (keys line edited : List Byte) : Prop where
  | same (eq : line = edited) (no : ¬ DelStays keys)
  | stray (head : line.head? = some del) (length : edited.length = line.length ∨ edited.length + 1 = line.length)
    (yes : DelStays keys)

/-- A key, when both lines are the same. -/
theorem Compare.key_same (hc : ¬ DelStays keys) (hlen : line.length = counts keys) (c : Byte) :
    Compare (keys ++ [c]) (storeKey line c) (edit line c) := by
  by_cases hstray : c = del ∧ line = []
  · obtain ⟨rfl, rfl⟩ := hstray
    exact .stray rfl (Or.inr rfl) ((delStays_append del).2 (Or.inr ⟨rfl, hlen.symm⟩))
  · refine .same ?_ fun h => ?_
    · unfold storeKey edit
      by_cases herase : isErase c
      · by_cases hnil : line = []
        · -- only DEL can go on to the branch that stores, and it is not DEL
          have hback : c = backspace := herase.resolve_right fun hd => hstray ⟨hd, hnil⟩
          rw [hback, hnil]
          rfl
        · rw [if_pos ⟨herase, hnil⟩, if_pos herase]
      · rw [if_neg fun h => herase h.1, if_neg herase]
    · rcases (delStays_append c).1 h with ⟨h, -⟩ | ⟨hd, hzero⟩
      · exact hc h
      · exact hstray ⟨hd, List.length_eq_zero_iff.1 (hlen.trans hzero)⟩

/-- A key, when the line in the buffer begins with a DEL. -/
theorem Compare.key_stray {edited : List Byte} (head : line.head? = some del)
    (hlength : edited.length = line.length ∨ edited.length + 1 = line.length) (hyes : DelStays keys)
    (hlen : line.length = counts keys) (hle : line.length ≤ 1023) (c : Byte) :
    Compare (keys ++ [c]) (storeKey line c) (edit edited c) := by
  have hne : line ≠ [] := by
    rintro rfl
    cases head
  have hpos := List.length_pos_iff.2 hne
  have hcount : counts (keys ++ [c]) = (storeKey line c).length := by rw [counts_append, store_length, hlen]
  have hstays : DelStays (keys ++ [c]) ↔ 0 < (storeKey line c).length := by
    rw [delStays_append, hcount]
    constructor
    · rintro (⟨-, h⟩ | ⟨-, h⟩) <;> omega
    · exact fun h => Or.inl ⟨hyes, h⟩
  unfold storeKey edit at *
  by_cases herase : isErase c
  · rw [if_pos ⟨herase, hne⟩] at *
    rw [if_pos herase]
    obtain ⟨x, xs, rfl⟩ := List.exists_cons_of_ne_nil hne
    cases xs with
    | nil =>
      -- the DEL itself is taken away, and nothing is left of the other line
      have hnil : edited.dropLast = [] := by
        rw [← List.length_eq_zero_iff, List.length_dropLast]
        simp only [List.length_singleton] at hlength
        omega
      rw [hnil]
      exact .same rfl fun h => absurd (hstays.1 h) (lt_irrefl _)
    | cons y ys =>
      refine .stray ?_ ?_ (hstays.2 (by simp))
      · simpa using head
      · simp only [List.length_dropLast, List.length_cons] at hlength ⊢
        omega
  · rw [if_neg fun h => herase h.1] at *
    rw [if_neg herase]
    by_cases hchar : 0x20 ≤ c.toNat
    · have hput : ∀ l : List Byte, (if 0x20 ≤ c.toNat ∧ l.length < 1023 then l ++ [c] else l).length =
          if l.length < 1023 then l.length + 1 else l.length := by
        intro l
        by_cases hl : l.length < 1023
        · rw [if_pos ⟨hchar, hl⟩, if_pos hl, List.length_append, List.length_singleton]
        · rw [if_neg fun h => hl h.2, if_neg hl]
      refine .stray ?_ ?_ (hstays.2 ?_)
      · split_ifs
        · rw [List.head?_append_of_ne_nil _ hne]
          exact head
        · exact head
      · -- a full line in the buffer lets the editor's line catch up
        rw [hput, hput]
        split_ifs <;> omega
      · rw [hput]
        split_ifs <;> omega
    · rw [if_neg fun h => hchar h.1] at *
      rw [if_neg fun h => hchar h.1]
      exact .stray head hlength (hstays.2 hpos)

theorem compare (keys : List Byte) : Compare keys (keys.foldl storeKey []) (keys.foldl edit []) := by
  induction keys using List.reverseRecOn with
  | nil =>
    refine .same rfl ?_
    rintro ⟨pre, post, h, -⟩
    simp at h
  | append_singleton keys c ih =>
    have hlen := stored_length keys
    have hle := counts_le keys
    simp only [List.foldl_append, List.foldl_cons, List.foldl_nil]
    rcases ih with ⟨heq, hno⟩ | ⟨head, hlength, hyes⟩
    · rw [← heq]
      exact Compare.key_same hno hlen c
    · exact Compare.key_stray head hlength hyes hlen (by omega) c

theorem del_not_edited (keys : List Byte) : del ∉ keys.foldl edit [] := by
  induction keys using List.reverseRecOn with
  | nil => exact List.not_mem_nil
  | append_singleton keys c ih =>
    rw [List.foldl_append]
    exact del_not_edit ih c

theorem store_eq_edit_iff (keys : List Byte) : keys.foldl storeKey [] = keys.foldl edit [] ↔ ¬ DelStays keys := by
  rcases compare keys with ⟨heq, hno⟩ | ⟨head, -, hyes⟩
  · exact iff_of_true heq hno
  · refine iff_of_false (fun heq => ?_) (not_not_intro hyes)
    rw [heq] at head
    exact del_not_edited keys (List.mem_of_mem_head? head)

/-- `readline` returns what the editor makes of the keys, and writes inside `buf` only, exactly when no DEL that came to an
empty line is still there. -/
theorem readline_edits_iff (echoing : Bool) (prompt : Option (List Byte)) (buf : Int → Byte) (keys : List Byte)
    (enter : Byte) (rest : List Int) (hkeys : ∀ c ∈ keys, IsKey c) (henter : ¬ IsKey enter) :
    (∃ s, readline echoing prompt (keys.map (fun c => (c.toNat : Int)) ++ (enter.toNat : Int) :: rest) buf = some (true, s) ∧
      TextAt s.buf (keys.foldl edit []) ∧ ∀ j, j < 0 ∨ buflen ≤ j → s.buf j = buf j) ↔ ¬ DelStays keys := by
  have hempty : LineBuf.Holds buf { buf, out := (prompt.map Echo.prompt).toList } [] :=
    ⟨rfl, Nat.zero_le _, by simp, List.not_mem_nil, fun _ _ => rfl⟩
  obtain ⟨s₁, hrun₁, h₁⟩ := hempty.foldl hkeys echoing ((enter.toNat : Int) :: rest)
  obtain ⟨s, hrun, htext, hout⟩ := h₁.enter henter echoing rest
  have hread : readline echoing prompt (keys.map (fun c => (c.toNat : Int)) ++ (enter.toNat : Int) :: rest) buf =
      some (true, s) :=
    hrun₁.trans hrun
  rw [← store_eq_edit_iff]
  constructor
  · rintro ⟨s', hrun', htext', -⟩
    rw [hread] at hrun'
    cases hrun'
    exact htext.unique htext'
  · intro heq
    exact ⟨s, hread, heq ▸ htext, hout⟩

theorem readline_edits_iff_word : ∃ s, readline true none [0x61, 0x7f, 0x62, 0x0a] (fun _ => 0#8) = some (true, s) ∧
    TextAt s.buf [0x62#8] ∧ ∀ j, j < 0 ∨ buflen ≤ j → s.buf j = 0#8 := by
  refine (readline_edits_iff true none (fun _ => 0#8) [0x61#8, del, 0x62#8] 0x0a#8 [] (by decide) (by decide)).2 ?_
  rw [← store_eq_edit_iff]
  decide

/-- A single DEL is returned as a line of one character. -/
theorem readline_keeps_del : ¬ ∀ keys : List Byte, (∀ c ∈ keys, IsKey c) → ∃ s,
    readline true none (keys.map (fun c => (c.toNat : Int)) ++ [0x0a]) (fun _ => 0#8) = some (true, s) ∧
      TextAt s.buf (keys.foldl edit []) := by
  intro h
  obtain ⟨s, hrun, -, -, hend⟩ := h [del] (by decide)
  cases hrun
  exact absurd hend (by decide)

end Jos
