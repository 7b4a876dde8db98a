/-
`runcmd` of kern/monitor.c: the line is split into its words in place, and the command that the first one names is
called.
-/
import Jos.Str.Strings
import Jos.Fmt.Escapes

namespace Jos

open Lib

/-! ## The code -/

/-- `WHITESPACE`. -/
def whitespace : List Byte := strLit "\t\r\n "

def maxargs : Nat := 16

/-- The names in `commands`. -/
def commands : List (List Byte) := [strLit "help", strLit "kerninfo", strLit "backtrace"]

/-- The memory with the line, and the locals of `runcmd`. A null pointer is 0. -/
structure CmdState where
  mem : Bytes
  buf : Word
  argc : Nat := 0
  argv : Nat → Word

/-- `while (*buf && strchr(WHITESPACE, *buf)) *buf++ = 0`. -/
def gobble : Nat → CmdState → Option CmdState
  | 0, _ => none
  | lim + 1, s =>
    if s.mem s.buf = 0#8 then some s
    else do
      let r ← strchr s.mem (s.mem s.buf) (lim + 1) (.lit whitespace 0)
      if r.isSome then gobble lim { s with mem := Function.update s.mem s.buf 0#8, buf := s.buf + 1#32 }
      else return s

/-- `while (*buf && !strchr(WHITESPACE, *buf)) buf++`. -/
def scanPast : Nat → CmdState → Option CmdState
  | 0, _ => none
  | lim + 1, s =>
    if s.mem s.buf = 0#8 then some s
    else do
      let r ← strchr s.mem (s.mem s.buf) (lim + 1) (.lit whitespace 0)
      if r.isSome then return s
      else scanPast lim { s with buf := s.buf + 1#32 }

/-- The outer loop, up to `lim` times; `fuel` bounds the inner ones. The result is false after too many arguments. -/
def parseArgs (fuel : Nat) : Nat → CmdState → Option (Bool × CmdState)
  | 0, _ => none
  | lim + 1, s => do
    let s ← gobble fuel s
    if s.mem s.buf = 0#8 then return (true, s)
    else if s.argc = maxargs - 1 then return (false, s)
    else do
      let s ← scanPast fuel { s with argv := Function.update s.argv s.argc s.buf, argc := s.argc + 1 }
      parseArgs fuel lim s

/-- What the command line leads to. -/
inductive CmdResult where
  | tooMany
  | nothing
  | invoke (i : Nat)
  | unknown
  deriving DecidableEq

/-- `for (i = 0; i < NCOMMANDS; i++)`, from the command number `i` on. -/
def lookup (lim : Nat) (mem : Bytes) (arg : Word) : List (List Byte) → Nat → Option CmdResult
  | [], _ => some .unknown
  | name :: names, i => do
    let d ← strcmp mem lim (.mem arg) (.lit name 0)
    if d = 0 then return .invoke i
    else lookup lim mem arg names (i + 1)

def runcmd (lim : Nat) (mem : Bytes) (buf : Word) (argv : Nat → Word) : Option (CmdResult × CmdState) := do
  let (ok, s) ← parseArgs lim lim { mem, buf, argv := Function.update argv 0 0#32 }
  if ok then
    let s := { s with argv := Function.update s.argv s.argc 0#32 }
    if s.argc = 0 then return (.nothing, s)
    else do
      let r ← lookup lim s.mem (s.argv 0) commands 0
      return (r, s)
  else return (.tooMany, s)

/-! ## The words of a line -/

def isSpace (c : Byte) : Bool := c ∈ whitespace

/-- The maximal runs of other characters than whitespace. -/
def words (cs : List Byte) : List (List Byte) := (cs.splitOnP isSpace).filter (· ≠ [])

/-- The command that a line asks for. -/
def command : List (List Byte) → CmdResult
  | [] => .nothing
  | name :: _ => match commands.findIdx? (name = ·) with
    | some i => .invoke i
    | none => .unknown

theorem words_space {c : Byte} (h : isSpace c = true) (cs : List Byte) : words (c :: cs) = words cs := by
  unfold words
  rw [List.splitOnP_cons_eq_if_modifyHead, if_pos h]
  simp

/-- A word, and whitespace or the end of the line behind it. -/
theorem words_word {t rest : List Byte} (hne : t ≠ []) (ht : ∀ c ∈ t, isSpace c = false)
    (hrest : ∀ c r, rest = c :: r → isSpace c = true) : words (t ++ rest) = t :: words rest := by
  unfold words
  cases rest with
  | nil =>
    rw [List.append_nil, List.splitOnP_eq_singleton ht]
    simp [hne]
  | cons c r =>
    have hc := hrest c r rfl
    rw [List.splitOnP_append_cons_of_forall_mem ht c hc, List.filter_cons_of_pos (by simpa using hne)]
    exact congrArg _ (words_space hc r).symm

/-! ## The scan -/

/-- The memory when the whitespace before the offset `o` of the line has been overwritten. -/
def blanked (mem : Bytes) (f : Word) (o : Nat) : Bytes := fun a =>
  if (a - f).toNat < o ∧ isSpace (mem a) = true then 0#8 else mem a

variable {mem : Bytes} {f : Word} {cs t rest sp : List Byte} {argv : Nat → Word} {argc o lim : Nat} {c : Byte}

theorem blanked_zero : blanked mem f 0 = mem := by
  funext a
  exact if_neg fun h => absurd h.1 (Nat.not_lt_zero _)

/-- The line ahead has not been touched. -/
theorem blanked_ahead (h : IsFormat mem f cs) (ho : o ≤ cs.length) : blanked mem f o (f + BitVec.ofNat 32 o) = cs.getD o 0#8 := by
  have hlt := h.length_lt
  unfold blanked
  rw [toNat_offset f (by omega), if_neg fun h => absurd h.1 (lt_irrefl _), h.2 o ho]

theorem blanked_succ (h : IsFormat mem f cs) (ho : o < cs.length) : blanked mem f (o + 1) =
    if isSpace (cs.getD o 0#8) = true then Function.update (blanked mem f o) (f + BitVec.ofNat 32 o) 0#8
      else blanked mem f o := by
  have hlt := h.length_lt
  have hat : ∀ a, (a - f).toNat = o → a = f + BitVec.ofNat 32 o := fun a ha => by
    rw [← ha, BitVec.ofNat_toNat, BitVec.setWidth_eq, BitVec.add_comm, BitVec.sub_add_cancel]
  have hself : (f + BitVec.ofNat 32 o - f).toNat = o := toNat_offset f (by omega)
  funext a
  by_cases ha : a = f + BitVec.ofNat 32 o
  · subst ha
    by_cases hsp : isSpace (cs.getD o 0#8) = true
    · rw [if_pos hsp, Function.update_self]
      unfold blanked
      rw [hself, h.2 o ho.le, if_pos ⟨Nat.lt_succ_self o, hsp⟩]
    · rw [if_neg hsp, blanked_ahead h ho.le]
      unfold blanked
      rw [hself, h.2 o ho.le, if_neg fun h' => hsp h'.2]
  · have hne : (a - f).toNat ≠ o := fun h' => ha (hat a h')
    have hiff : (a - f).toNat < o + 1 ↔ (a - f).toNat < o := by omega
    have hsame : blanked mem f (o + 1) a = blanked mem f o a := by
      unfold blanked
      simp only [hiff]
    rw [hsame]
    split
    · rw [Function.update_of_ne ha]
    · rfl

/-- The state at the offset `o` of the line. -/
def cmdAt (mem : Bytes) (f : Word) (o argc : Nat) (argv : Nat → Word) : CmdState :=
  ⟨blanked mem f o, f + BitVec.ofNat 32 o, argc, argv⟩

theorem strchr_whitespace (hc : 6 ≤ lim) (mem : Bytes) (c : Byte) :
    ∃ r, strchr mem c lim (.lit whitespace 0) = some r ∧ (r.isSome = true ↔ isSpace c = true) := by
  obtain ⟨r, hrun, hr⟩ := strchr_isSome c (strAt_lit mem (by decide : 0#8 ∉ whitespace))
    (lt_of_lt_of_le (by decide) hc)
  exact ⟨r, hrun, by rw [hr]; simp [isSpace]⟩

theorem drop_succ (h : cs.drop o = c :: rest) : cs.drop (o + 1) = rest := by
  rw [← List.drop_drop, h]
  rfl

theorem cmdAt_succ (mem : Bytes) (f : Word) (o argc : Nat) (argv : Nat → Word) :
    cmdAt mem f (o + 1) argc argv = ⟨blanked mem f (o + 1), f + BitVec.ofNat 32 o + 1#32, argc, argv⟩ := by
  rw [at_succ]
  rfl

/-- A character of the line is not NUL, and it is the one that is read. -/
theorem read_ahead (h : IsFormat mem f cs) (hdrop : cs.drop o = c :: rest) (ho : o ≤ cs.length) :
    c ≠ 0#8 ∧ cs.getD o 0#8 = c ∧ o < cs.length ∧ blanked mem f o (f + BitVec.ofNat 32 o) = c := by
  have hlen := length_of_drop (a := [c]) hdrop ho
  have hc : cs.getD o 0#8 = c := getD_of_drop (a := [c]) hdrop 0
  simp only [List.length_singleton] at hlen
  refine ⟨?_, hc, by omega, (blanked_ahead h ho).trans hc⟩
  rintro rfl
  rw [List.getD_eq_getElem _ _ (by omega)] at hc
  exact h.1 (hc ▸ List.getElem_mem _)

theorem read_end (h : IsFormat mem f cs) (hdrop : cs.drop o = []) (ho : o ≤ cs.length) :
    blanked mem f o (f + BitVec.ofNat 32 o) = 0#8 := by
  rw [blanked_ahead h ho, List.getD_eq_default _ _ (List.drop_eq_nil_iff.1 hdrop)]

/-- A turn of the loop over whitespace; NUL is none. -/
theorem gobble_step (hlim : 6 ≤ lim + 1) (s : CmdState) : gobble (lim + 1) s =
    if isSpace (s.mem s.buf) = true then
      gobble lim { s with mem := Function.update s.mem s.buf 0#8, buf := s.buf + 1#32 }
    else some s := by
  obtain ⟨x, hrun, hx⟩ := strchr_whitespace hlim s.mem (s.mem s.buf)
  rw [gobble]
  by_cases hnul : s.mem s.buf = 0#8
  · rw [if_pos hnul, if_neg (by rw [hnul]; decide)]
  · rw [if_neg hnul, hrun]
    simp only [Option.bind_eq_bind, Option.bind_some]
    by_cases hsp : isSpace (s.mem s.buf) = true
    · rw [if_pos (hx.2 hsp), if_pos hsp]
    · rw [if_neg fun h => hsp (hx.1 h), if_neg hsp]
      rfl

/-- A turn of the loop over a word. -/
theorem scanPast_step (hlim : 6 ≤ lim + 1) (s : CmdState) : scanPast (lim + 1) s =
    if s.mem s.buf ≠ 0#8 ∧ isSpace (s.mem s.buf) = false then scanPast lim { s with buf := s.buf + 1#32 } else some s := by
  obtain ⟨x, hrun, hx⟩ := strchr_whitespace hlim s.mem (s.mem s.buf)
  rw [scanPast]
  by_cases hnul : s.mem s.buf = 0#8
  · rw [if_pos hnul, if_neg fun h => h.1 hnul]
  · rw [if_neg hnul, hrun]
    simp only [Option.bind_eq_bind, Option.bind_some]
    by_cases hsp : isSpace (s.mem s.buf) = true
    · rw [if_pos (hx.2 hsp), if_neg fun h => by simp [hsp] at h]
      rfl
    · rw [if_neg fun h => hsp (hx.1 h), if_pos ⟨hnul, by simpa using hsp⟩]

theorem gobble_run (argc : Nat) (argv : Nat → Word) (h : IsFormat mem f cs) (hrest : ∀ c r, rest = c :: r → isSpace c = false) :
    ∀ (sp : List Byte) (o lim : Nat), cs.drop o = sp ++ rest → (∀ c ∈ sp, isSpace c = true) → o ≤ cs.length →
      sp.length + 6 ≤ lim → gobble lim (cmdAt mem f o argc argv) = some (cmdAt mem f (o + sp.length) argc argv)
  | [], o, lim + 1, hdrop, _, ho, hlim => by
    rw [gobble_step (by omega)]
    refine if_neg ?_
    show ¬ isSpace (blanked mem f o (f + BitVec.ofNat 32 o)) = true
    cases rest with
    | nil =>
      rw [read_end h hdrop ho]
      decide
    | cons c r =>
      rw [(read_ahead h hdrop ho).2.2.2, hrest c r rfl]
      simp
  | c :: sp, o, lim + 1, hdrop, hsp, ho, hlim => by
    rw [List.length_cons] at hlim
    obtain ⟨hne, hc, hlt, hread⟩ := read_ahead h hdrop ho
    have hspace := hsp c (List.mem_cons_self ..)
    have ih := gobble_run argc argv h hrest sp (o + 1) lim (drop_succ hdrop)
      (fun c hc => hsp c (List.mem_cons_of_mem _ hc)) hlt (by omega)
    rw [cmdAt_succ, blanked_succ h hlt, hc, if_pos hspace] at ih
    rw [gobble_step (by omega), show o + (c :: sp).length = o + 1 + sp.length by rw [List.length_cons]; omega, ← ih]
    refine if_pos ?_
    show isSpace (blanked mem f o (f + BitVec.ofNat 32 o)) = true
    rw [hread]
    exact hspace

theorem scanPast_run (argc : Nat) (argv : Nat → Word) (h : IsFormat mem f cs) (hrest : ∀ c r, rest = c :: r → isSpace c = true) :
    ∀ (t : List Byte) (o lim : Nat), cs.drop o = t ++ rest → (∀ c ∈ t, isSpace c = false) → o ≤ cs.length →
      t.length + 6 ≤ lim → scanPast lim (cmdAt mem f o argc argv) = some (cmdAt mem f (o + t.length) argc argv)
  | [], o, lim + 1, hdrop, _, ho, hlim => by
    rw [scanPast_step (by omega)]
    refine if_neg ?_
    show ¬ (blanked mem f o (f + BitVec.ofNat 32 o) ≠ 0#8 ∧ isSpace (blanked mem f o (f + BitVec.ofNat 32 o)) = false)
    cases rest with
    | nil =>
      rw [read_end h hdrop ho]
      exact fun h' => h'.1 rfl
    | cons c r =>
      rw [(read_ahead h hdrop ho).2.2.2, hrest c r rfl]
      simp
  | c :: t, o, lim + 1, hdrop, ht, ho, hlim => by
    rw [List.length_cons] at hlim
    obtain ⟨hne, hc, hlt, hread⟩ := read_ahead h hdrop ho
    have hword := ht c (List.mem_cons_self ..)
    have ih := scanPast_run argc argv h hrest t (o + 1) lim (drop_succ hdrop)
      (fun c hc => ht c (List.mem_cons_of_mem _ hc)) hlt (by omega)
    rw [cmdAt_succ, blanked_succ h hlt, hc, if_neg (by rw [hword]; simp)] at ih
    rw [scanPast_step (by omega), show o + (c :: t).length = o + 1 + t.length by rw [List.length_cons]; omega, ← ih]
    refine if_pos ?_
    show blanked mem f o (f + BitVec.ofNat 32 o) ≠ 0#8 ∧ isSpace (blanked mem f o (f + BitVec.ofNat 32 o)) = false
    rw [hread]
    exact ⟨hne, hword⟩

/-! ## The arguments -/

/-- The word `t` is at the offset `p` of the line, and whitespace or the end of the line behind it. -/
structure WordAt (cs : List Byte) (p : Nat) (t : List Byte) : Prop where
  le : p ≤ cs.length
  word : ∀ c ∈ t, isSpace c = false
  rest : ∃ rest, cs.drop p = t ++ rest ∧ ∀ c r, rest = c :: r → isSpace c = true

/-- The whitespace behind a word has become its terminating NUL. -/
theorem WordAt.terminated (h : IsFormat mem f cs) {p : Nat} (hw : WordAt cs p t) :
    IsFormat (blanked mem f cs.length) (f + BitVec.ofNat 32 p) t := by
  obtain ⟨hle, hword, rest, hdrop, hrest⟩ := hw
  have hlen := length_of_drop hdrop hle
  have hlt := h.length_lt
  have hread : ∀ j ≤ t.length, mem (f + BitVec.ofNat 32 (p + j)) = (t ++ rest).getD j 0#8 := fun j hj => by
    rw [h.2 _ (by omega), getD_of_drop hdrop]
  refine ⟨fun h0 => h.1 ?_, fun j hj => ?_⟩
  · have hmem : (0#8 : Byte) ∈ cs.drop p := hdrop ▸ List.mem_append_left _ h0
    exact List.mem_of_mem_drop hmem
  · rw [BitVec.add_assoc, ← BitVec.ofNat_add]
    unfold blanked
    rw [toNat_offset f (by omega), hread j hj]
    rcases Nat.lt_or_ge j t.length with hjt | hjt
    · have hget : (t ++ rest).getD j 0#8 = t.getD j 0#8 := List.getD_append _ _ _ _ hjt
      have hin : t.getD j 0#8 ∈ t := by
        rw [List.getD_eq_getElem _ _ hjt]
        exact List.getElem_mem _
      rw [hget, if_neg fun h' => Bool.false_ne_true ((hword _ hin).symm.trans h'.2)]
    · have hjt : j = t.length := le_antisymm hj hjt
      have hget : (t ++ rest).getD j 0#8 = rest.getD 0 0#8 := by
        rw [hjt, List.getD_append_right _ _ _ _ le_rfl, Nat.sub_self]
      rw [hget, List.getD_eq_default t _ (by omega)]
      cases rest with
      | nil =>
        split <;> rfl
      | cons c r =>
        rw [List.length_cons] at hlen
        exact if_pos ⟨by omega, hrest c r rfl⟩

/-- What the outer loop leaves, when the words `ws` are still to come. -/
structure Parsed (mem : Bytes) (f : Word) (cs : List Byte) (argc : Nat) (argv : Nat → Word) (ws : List (List Byte))
    (r : Bool × CmdState) : Prop where
  ok : r.1 = decide (argc + ws.length ≤ maxargs - 1)
  blank : ∃ o ≤ cs.length, r.2.mem = blanked mem f o
  high : ∀ j, maxargs ≤ j → r.2.argv j = argv j
  low : ∀ j < argc, r.2.argv j = argv j
  all : r.1 = true → r.2.mem = blanked mem f cs.length ∧ r.2.argc = argc + ws.length ∧
    ∀ j < ws.length, ∃ p, r.2.argv (argc + j) = f + BitVec.ofNat 32 p ∧ WordAt cs p (ws.getD j [])

/-- A list begins with characters for which `p` holds, up to one for which it does not. -/
theorem exists_span (p : Byte → Bool) (cs : List Byte) :
    ∃ a b, cs = a ++ b ∧ (∀ c ∈ a, p c = true) ∧ ∀ c r, b = c :: r → p c = false := by
  refine ⟨cs.takeWhile p, cs.dropWhile p, List.takeWhile_append_dropWhile.symm,
    fun c hc => List.all_eq_true.1 List.all_takeWhile c hc, fun c r h => ?_⟩
  have := List.head?_dropWhile_not p cs
  rw [h] at this
  simpa using this

theorem words_spaces {sp : List Byte} (h : ∀ c ∈ sp, isSpace c = true) (cs : List Byte) : words (sp ++ cs) = words cs := by
  induction sp with
  | nil => rfl
  | cons c sp ih =>
    rw [List.cons_append, words_space (h c (List.mem_cons_self ..)), ih fun c hc => h c (List.mem_cons_of_mem _ hc)]

/-- A character that is not whitespace begins a word. -/
theorem exists_word {r : List Byte} (h : isSpace c = false) : ∃ t rest, c :: r = t ++ rest ∧ t ≠ [] ∧
    (∀ c ∈ t, isSpace c = false) ∧
    ∀ c r, rest = c :: r → isSpace c = true := by
  obtain ⟨t, rest, hsplit, ht, hrest⟩ := exists_span (fun c => ! isSpace c) (c :: r)
  have hrest : ∀ c r, rest = c :: r → isSpace c = true := fun c r hr => by simpa using hrest c r hr
  refine ⟨t, rest, hsplit, ?_, fun c hc => by simpa using ht c hc, hrest⟩
  rintro rfl
  have := hrest c r hsplit.symm
  rw [h] at this
  cases this

/-- A word has been put before the others. -/
theorem Parsed.cons {p : Nat} {ws : List (List Byte)} {r : Bool × CmdState} (hargc : argc < maxargs) (hw : WordAt cs p t)
    (h : Parsed mem f cs (argc + 1) (Function.update argv argc (f + BitVec.ofNat 32 p)) ws r) :
    Parsed mem f cs argc argv (t :: ws) r := by
  refine ⟨?_, h.blank, fun j hj => ?_, fun j hj => ?_, fun hok => ?_⟩
  · rw [h.ok, List.length_cons, Nat.add_right_comm, Nat.add_assoc]
  · rw [h.high j hj, Function.update_of_ne (by omega)]
  · rw [h.low j (by omega), Function.update_of_ne (by omega)]
  · obtain ⟨hmem, hcount, hargs⟩ := h.all hok
    refine ⟨hmem, by rw [hcount, List.length_cons]; omega, fun j hj => ?_⟩
    cases j with
    | zero =>
      refine ⟨p, ?_, hw⟩
      rw [Nat.add_zero, h.low argc (Nat.lt_succ_self _), Function.update_self]
    | succ j =>
      obtain ⟨p, hp, hw⟩ := hargs j (by rw [List.length_cons] at hj; omega)
      exact ⟨p, by rw [← hp, Nat.add_assoc, Nat.add_comm 1], hw⟩

theorem parseArgs_run (h : IsFormat mem f cs) {fuel : Nat} (hfuel : cs.length + 6 ≤ fuel) (n : Nat) :
    ∀ (o argc lim : Nat) (argv : Nat → Word), cs.length - o < n → o ≤ cs.length → n ≤ lim → argc ≤ maxargs - 1 →
      ∃ r, parseArgs fuel lim (cmdAt mem f o argc argv) = some r ∧ Parsed mem f cs argc argv (words (cs.drop o)) r := by
  induction n with
  | zero => intro o argc lim argv hn; omega
  | succ n ih =>
    intro o argc lim argv hn ho hlim hargc
    obtain ⟨lim, rfl⟩ : ∃ k, lim = k + 1 := ⟨lim - 1, by omega⟩
    -- the whitespace at `o`, and what follows it
    obtain ⟨sp, r₁, hdrop, hsp, hr₁⟩ := exists_span isSpace (cs.drop o)
    have hlen := length_of_drop hdrop ho
    have hgobble := gobble_run argc argv h hr₁ sp o fuel hdrop hsp ho (by omega)
    have hdrop₁ : cs.drop (o + sp.length) = r₁ := by rw [← List.drop_drop, hdrop, List.drop_left]
    have hwords : words (cs.drop o) = words r₁ := by rw [hdrop, words_spaces hsp]
    rw [parseArgs, hgobble, hwords]
    simp only [Option.bind_eq_bind, Option.bind_some]
    have hread : (cmdAt mem f (o + sp.length) argc argv).mem (cmdAt mem f (o + sp.length) argc argv).buf =
        blanked mem f (o + sp.length) (f + BitVec.ofNat 32 (o + sp.length)) := rfl
    rw [hread]
    cases r₁ with
    | nil =>
      rw [if_pos (read_end h hdrop₁ (by omega))]
      rw [List.length_nil, Nat.add_zero] at hlen
      refine ⟨_, rfl, (decide_eq_true (by simpa [words] using hargc)).symm, ⟨_, by omega, rfl⟩, fun _ _ => rfl, fun _ _ => rfl,
        fun _ => ⟨?_, rfl, by simp [words]⟩⟩
      show blanked mem f (o + sp.length) = _
      rw [hlen]
    | cons c r =>
      obtain ⟨hne, -, hlt, hread'⟩ := read_ahead h hdrop₁ (by omega)
      rw [hread', if_neg hne]
      -- the word, and what follows it
      obtain ⟨t, r₂, hsplit, hne, ht, hr₂⟩ := exists_word (r := r) (hr₁ c r rfl)
      have hpos := List.length_pos_iff.2 hne
      rw [hsplit] at hdrop₁ hlen ⊢
      rw [words_word hne ht hr₂]
      rw [List.length_append] at hlen
      rw [show (cmdAt mem f (o + sp.length) argc argv).argc = argc from rfl]
      by_cases hmax : argc = maxargs - 1
      · rw [if_pos hmax]
        refine ⟨_, rfl, (decide_eq_false ?_).symm, ⟨o + sp.length, by omega, rfl⟩, fun _ _ => rfl, fun _ _ => rfl, by simp⟩
        rw [List.length_cons]
        omega
      · rw [if_neg hmax]
        have hscan := scanPast_run (argc + 1)
          (Function.update argv argc (f + BitVec.ofNat 32 (o + sp.length))) h hr₂ t (o + sp.length) fuel hdrop₁ ht
          (by omega) (by omega)
        have hdrop₂ : cs.drop (o + sp.length + t.length) = r₂ := by rw [← List.drop_drop, hdrop₁, List.drop_left]
        obtain ⟨res, hrun, hres⟩ := ih (o + sp.length + t.length) (argc + 1) lim
          (Function.update argv argc (f + BitVec.ofNat 32 (o + sp.length))) (by omega) (by omega) (by omega) (by omega)
        rw [hdrop₂] at hres
        refine ⟨res, ?_, hres.cons (by omega) ⟨by omega, ht, r₂, hdrop₁, hr₂⟩⟩
        rw [← hrun]
        show Option.bind (scanPast fuel (cmdAt mem f (o + sp.length) (argc + 1)
          (Function.update argv argc (f + BitVec.ofNat 32 (o + sp.length))))) _ = _
        rw [hscan]
        rfl

/-! ## The command -/

theorem lookup_run {a : Word} (h : IsFormat mem a t) (hlim : t.length < lim) :
    ∀ (names : List (List Byte)) (i : Nat), (∀ name ∈ names, 0#8 ∉ name) →
      lookup lim mem a names i = some (match names.findIdx? (t = ·) with
        | some k => .invoke (i + k)
        | none => .unknown)
  | [], i, _ => rfl
  | name :: names, i, hnames => by
    obtain ⟨d, hrun, hd⟩ := strcmp_eq_zero (p := .mem a) ⟨h.1, h.2⟩ (strAt_lit mem (hnames name (List.mem_cons_self ..))) hlim
    rw [lookup, hrun]
    simp only [Option.bind_eq_bind, Option.bind_some]
    rw [List.findIdx?_cons]
    by_cases heq : t = name
    · rw [if_pos (hd.2 heq), if_pos (by simpa using heq)]
      rfl
    · rw [if_neg fun h' => heq (hd.1 h'), if_neg (by simpa using heq),
        lookup_run h hlim names (i + 1) fun n hn => hnames n (List.mem_cons_of_mem _ hn)]
      cases names.findIdx? (t = ·) with
      | none => rfl
      | some k =>
        show some (CmdResult.invoke (i + 1 + k)) = some (CmdResult.invoke (i + (k + 1)))
        rw [Nat.add_assoc, Nat.add_comm 1]

theorem lookup_command {a : Word} (h : IsFormat mem a t) (hlim : t.length < lim) (ws : List (List Byte)) :
    lookup lim mem a commands 0 = some (command (t :: ws)) := by
  rw [lookup_run h hlim commands 0 (by decide)]
  simp only [Nat.zero_add]
  rfl

variable {s : CmdState}

/-- Once `argv[argc]` is null, each argument is a word of the line. -/
theorem Parsed.argument (h : IsFormat mem f cs) (hp : Parsed mem f cs 0 argv (words cs) (true, s)) {j : Nat}
    (hj : j < (words cs).length) :
    (∃ p ≤ cs.length, Function.update s.argv s.argc 0#32 j = f + BitVec.ofNat 32 p) ∧ ((words cs).getD j []).length ≤ cs.length ∧
      IsFormat s.mem (Function.update s.argv s.argc 0#32 j) ((words cs).getD j []) := by
  obtain ⟨hmem, hargc, hargs⟩ := hp.all rfl
  obtain ⟨p, hp, hw⟩ := hargs j hj
  obtain ⟨rest, hdrop, -⟩ := hw.rest
  have hlen := length_of_drop hdrop hw.le
  have hargc : s.argc = 0 + (words cs).length := hargc
  have hmem : s.mem = blanked mem f cs.length := hmem
  rw [Nat.zero_add] at hp
  rw [Function.update_of_ne (by omega), hmem]
  show (∃ q ≤ cs.length, s.argv j = f + BitVec.ofNat 32 q) ∧ _ ∧ IsFormat _ (s.argv j) _
  rw [show s.argv j = f + BitVec.ofNat 32 p from hp]
  exact ⟨⟨p, hw.le, rfl⟩, by omega, hw.terminated h⟩

/-- The command of the first argument is looked up. -/
theorem Parsed.lookup (h : IsFormat mem f cs) (hp : Parsed mem f cs 0 argv (words cs) (true, s)) (hlim : cs.length < lim) :
    (if s.argc = 0 then some (CmdResult.nothing, { s with argv := Function.update s.argv s.argc 0#32 })
      else (lookup lim s.mem (Function.update s.argv s.argc 0#32 0) commands 0).bind fun r =>
        some (r, { s with argv := Function.update s.argv s.argc 0#32 })) =
      some (command (words cs), { s with argv := Function.update s.argv s.argc 0#32 }) := by
  have hargc : s.argc = 0 + (words cs).length := (hp.all rfl).2.1
  have hfirst := fun hpos : 0 < (words cs).length => hp.argument h hpos
  cases hws : words cs with
  | nil =>
    rw [hws] at hargc
    rw [if_pos (show s.argc = 0 from hargc)]
    rfl
  | cons t ws =>
    rw [hws] at hargc hfirst
    obtain ⟨-, hle, hword⟩ := hfirst (Nat.succ_pos _)
    have hle : t.length ≤ cs.length := hle
    have hword : IsFormat s.mem (Function.update s.argv s.argc 0#32 0) t := hword
    rw [if_neg (by rw [hargc]; simp), lookup_command hword (by omega) ws]
    rfl

/-- The line is split into its words in place, when there are at most `MAXARGS - 1` of them, and the command that has the
name of the first word is called; nothing else in memory or behind `argv` changes. -/
theorem runcmd_splits (f : Word) (argv : Nat → Word) (h : IsFormat mem f cs) :
    ∃ N, ∀ lim, N ≤ lim → ∃ r s, runcmd lim mem f argv = some (r, s) ∧
      (∀ a, cs.length ≤ (a - f).toNat → s.mem a = mem a) ∧ (∀ j, maxargs ≤ j → s.argv j = argv j) ∧
      ((words cs).length ≤ maxargs - 1 → s.argc = (words cs).length ∧ s.argv s.argc = 0#32 ∧ r = command (words cs) ∧
        ∀ j < (words cs).length, (∃ p ≤ cs.length, s.argv j = f + BitVec.ofNat 32 p) ∧
          IsFormat s.mem (s.argv j) ((words cs).getD j [])) ∧
      (maxargs - 1 < (words cs).length → r = .tooMany) := by
  refine ⟨cs.length + 6, fun lim hlim => ?_⟩
  obtain ⟨⟨ok, s⟩, hrun, hres⟩ := parseArgs_run h hlim (cs.length + 1) 0 0 lim (Function.update argv 0 0#32) (by omega)
    (Nat.zero_le _) (by omega) (Nat.zero_le _)
  rw [List.drop_zero] at hres
  have hstart : cmdAt mem f 0 0 (Function.update argv 0 0#32) = { mem, buf := f, argv := Function.update argv 0 0#32 } := by
    unfold cmdAt
    rw [blanked_zero, BitVec.add_zero]
  rw [hstart] at hrun
  have houtside : ∀ a, cs.length ≤ (a - f).toNat → s.mem a = mem a := by
    obtain ⟨o, ho, hmem⟩ := hres.blank
    intro a ha
    rw [hmem]
    exact if_neg fun h' => by omega
  have hhigh : ∀ j, maxargs ≤ j → s.argv j = argv j := fun j hj => by
    rw [hres.high j hj, Function.update_of_ne (by unfold maxargs at hj; omega)]
  have hok : ok = decide (0 + (words cs).length ≤ maxargs - 1) := hres.ok
  unfold runcmd
  rw [hrun]
  simp only [Option.bind_eq_bind, Option.bind_some]
  cases ok with
  | true =>
    have hcount : (words cs).length ≤ maxargs - 1 := by
      have := of_decide_eq_true hok.symm
      omega
    have hargc : s.argc = 0 + (words cs).length := (hres.all rfl).2.1
    have hbehind : ∀ j, maxargs ≤ j → Function.update s.argv s.argc 0#32 j = argv j := fun j hj => by
      have hne : j ≠ s.argc := by
        unfold maxargs at *
        omega
      exact (Function.update_of_ne hne _ _).trans (hhigh j hj)
    rw [if_pos rfl]
    refine ⟨_, _, hres.lookup h (by omega), houtside, hbehind, fun _ =>
      ⟨hargc.trans (Nat.zero_add _), Function.update_self .., rfl,
      fun j hj => ?_⟩, fun h' => absurd hcount (not_le.2 h')⟩
    obtain ⟨hp, -, hword⟩ := hres.argument h hj
    exact ⟨hp, hword⟩
  | false =>
    have hcount : ¬ (words cs).length ≤ maxargs - 1 := fun h' => of_decide_eq_false hok.symm (by omega)
    exact ⟨.tooMany, s, rfl, houtside, hhigh, fun h' => absurd h' hcount, fun _ => rfl⟩

theorem runcmd_splits_help : ∃ N, ∀ lim, N ≤ lim → ∃ r s,
    runcmd lim (withStrings [(0x1000#32, strLit " help me\n")]) 0x1000#32 (fun _ => 0#32) = some (r, s) ∧ r = .invoke 0 ∧
      s.argc = 2 ∧ IsFormat s.mem (s.argv 1) (strLit "me") := by
  have hline : IsFormat (withStrings [(0x1000#32, strLit " help me\n")]) 0x1000#32 (strLit " help me\n") := by
    constructor <;> decide
  have hwords : words (strLit " help me\n") = [strLit "help", strLit "me"] := by decide
  obtain ⟨N, hN⟩ := runcmd_splits 0x1000#32 (fun _ => 0#32) hline
  refine ⟨N, fun lim hlim => ?_⟩
  obtain ⟨r, s, hrun, -, -, hfew, -⟩ := hN lim hlim
  rw [hwords] at hfew
  obtain ⟨hargc, -, hr, hargs⟩ := hfew (by decide)
  exact ⟨r, s, hrun, by rw [hr]; decide, hargc, (hargs 1 (by decide)).2⟩

end Jos
