/-
The callers of `vprintfmt`: `vsnprintf` of lib/printfmt.c, and `vcprintf` of kern/printf.c and of lib/printf.c. Each hands
it a `putch` of its own, and counts in it.
-/
import Jos.Fmt.Hosts

namespace Jos

open Lib

/-! ## An unbounded sink -/

/-- The host that keeps all output; the bytes of `hidden` cannot be read. -/
def listHost (mem : Bytes) (hidden : Word → Bool) : Host (List Word) where
  putch ch w := w ++ [ch]
  fetch a := if hidden a then failure else pure (mem a)
  load a := if hidden a then failure else pure (mem a)

/-- What `vprintfmt` emits, when it reads none of the `hidden` bytes. -/
def emitted (mem : Bytes) (hidden : Word → Bool) (lim : Nat) (fmt : Word) (ap : Nat → Word) : Option (List Word) :=
  ((vprintfmt (listHost mem hidden) lim fmt ap).run []).map (·.2)

/-! ## `vsnprintf` -/

/-- `struct sprintbuf`, with the memory that it writes to. `out` is all that was handed to `sprintputch`. -/
structure SprintBuf where
  buf : Word
  ebuf : Word
  cnt : Word := 0#32
  mem : Bytes
  out : List Word := []

def SprintBuf.sprintputch (ch : Word) (b : SprintBuf) : SprintBuf :=
  let b := { b with cnt := b.cnt + 1#32, out := b.out ++ [ch] }
  if b.buf.toNat < b.ebuf.toNat then
    { b with mem := Function.update b.mem b.buf (ch.setWidth 8), buf := b.buf + 1#32 }
  else b

def SprintBuf.host : Host SprintBuf where
  putch := sprintputch
  fetch a := fun b => some (b.mem a, b)
  load a := fun b => some (b.mem a, b)

/-- `vsnprintf`: its value, and the buffer it used. -/
def vsnprintf (lim : Nat) (mem : Bytes) (buf n fmt : Word) (ap : Nat → Word) : Option (Word × SprintBuf) :=
  let b : SprintBuf := { buf, ebuf := buf + n - 1#32, mem }
  -- `-E_INVAL`
  if buf = 0#32 ∨ n.toInt < 1 then some (-3#32, b)
  else do
    let (_, b) ← (vprintfmt SprintBuf.host lim fmt ap).run b
    some (b.cnt, { b with mem := Function.update b.mem b.buf 0#8 })

/-! ## `vcprintf` -/

/-- The kernel's sink: what went to `cputchar`, and the counter of `vcprintf`. -/
structure KernSink where
  console : List Word := []
  cnt : Word := 0#32

/-- `putch` of kern/printf.c. `*cnt++` moves the pointer, which is its own, and leaves what it points to. -/
def KernSink.putch (ch : Word) (s : KernSink) : KernSink := { s with console := s.console ++ [ch] }

def KernSink.host (mem : Bytes) : Host KernSink where
  putch := putch
  fetch a := pure (mem a)
  load a := pure (mem a)

def KernSink.vcprintf (lim : Nat) (mem : Bytes) (fmt : Word) (ap : Nat → Word) : Option (Word × KernSink) := do
  let (_, s) ← (vprintfmt (host mem) lim fmt ap).run {}
  some (s.cnt, s)

/-- `struct printbuf`, with the strings that went to `sys_cputs`. `out` is all that was handed to `putch`. -/
structure PrintBuf where
  idx : Nat := 0
  cnt : Word := 0#32
  buf : Nat → Byte := fun _ => 0#8
  calls : List (List Byte) := []
  out : List Word := []

/-- The bytes that wait in the buffer. -/
def PrintBuf.text (b : PrintBuf) : List Byte := (List.range b.idx).map b.buf

def PrintBuf.sysCputs (b : PrintBuf) : PrintBuf := { b with calls := b.calls ++ [b.text] }

/-- `putch` of lib/printf.c. -/
def PrintBuf.putch (ch : Word) (b : PrintBuf) : PrintBuf :=
  let b := { b with buf := Function.update b.buf b.idx (ch.setWidth 8), idx := b.idx + 1, out := b.out ++ [ch] }
  let b := if b.idx = 256 - 1 then { b.sysCputs with idx := 0 } else b
  { b with cnt := b.cnt + 1#32 }

def PrintBuf.host (mem : Bytes) : Host PrintBuf where
  putch := putch
  fetch a := pure (mem a)
  load a := pure (mem a)

def PrintBuf.vcprintf (lim : Nat) (mem : Bytes) (fmt : Word) (ap : Nat → Word) : Option (Word × PrintBuf) := do
  let (_, b) ← (vprintfmt (host mem) lim fmt ap).run {}
  some (b.cnt, b.sysCputs)

variable {mem : Bytes} {buf n fmt : Word} {ap : Nat → Word} {lim : Nat} {w : List Word} {hidden : Word → Bool}

theorem emitted_run (h : emitted mem hidden lim fmt ap = some w) :
    (vprintfmt (listHost mem hidden) lim fmt ap).run [] = some ((), w) := by
  obtain ⟨⟨u, w'⟩, hr, rfl⟩ := Option.map_eq_some_iff.1 h
  exact hr

/-- A host that reads the memory of the unbounded one, where that can be read, and follows its output takes its course. -/
theorem emitted_sim {σ : Type} {g : Host σ} {R : List Word → σ → Prop} (h : emitted mem hidden lim fmt ap = some w)
    (hput : ∀ c ⦃w s⦄, R w s → R (w ++ [c]) (g.putch c s))
    (hfetch : ∀ a ⦃w s⦄, R w s → hidden a = false → (g.fetch a).run s = some (mem a, s))
    (hload : ∀ a ⦃w s⦄, R w s → hidden a = false → (g.load a).run s = some (mem a, s)) {s : σ} (hs : R [] s) :
    ∃ s', (vprintfmt g lim fmt ap).run s = some ((), s') ∧ R w s' := by
  have hread : ∀ (m : Word → Prog σ Byte) (a : Word),
      (∀ ⦃w s⦄, R w s → hidden a = false → (m a).run s = some (mem a, s)) →
      Sim R (if hidden a then failure else pure (mem a)) (m a) := by
    intro m a hm w s hR b w' hw
    cases hh : hidden a with
    | true =>
      rw [hh] at hw
      cases hw
    | false =>
      rw [hh] at hw
      cases hw
      exact ⟨s, hm hR hh, hR⟩
  have H : HostSim R (listHost mem hidden) g := ⟨hput, fun a => hread g.load a (hload a)⟩
  exact vprintfmt_sim H (fun a => hread g.fetch a (hfetch a)) lim fmt ap hs (emitted_run h)

theorem emitted_plain (h : emitted mem hidden lim fmt ap = some w) : emitted mem (fun _ => false) lim fmt ap = some w := by
  obtain ⟨w', hr, rfl⟩ := emitted_sim (R := fun w w' => w = w') (g := listHost mem fun _ => false) h
    (fun c w w' hw => by rw [hw]; rfl) (fun a w w' _ _ => rfl) (fun a w w' _ _ => rfl) rfl
  unfold emitted
  rw [hr]
  rfl

/-! ## The bounded view -/

/-- `a` is a byte of the buffer. -/
def inBuf (buf n a : Word) : Bool := (a - buf).toNat < n.toNat

/-- After the output `w`: the buffer holds as much of it as fits, and no other byte has changed. -/
structure BufView (mem : Bytes) (buf n : Word) (w : List Word) (b : SprintBuf) : Prop where
  next : b.buf = buf + BitVec.ofNat 32 (min w.length (n.toNat - 1))
  last : b.ebuf = buf + n - 1#32
  cnt : b.cnt = BitVec.ofNat 32 w.length
  text : ∀ j < min w.length (n.toNat - 1), b.mem (buf + BitVec.ofNat 32 j) = (w.getD j 0#32).setWidth 8
  rest : ∀ a, min w.length (n.toNat - 1) ≤ (a - buf).toNat → b.mem a = mem a

theorem toInt_length {k : Nat} (hk : k < 2 ^ 31) : (BitVec.ofNat 32 k).toInt = k := by
  rw [BitVec.toInt_eq_toNat_cond, BitVec.toNat_ofNat, Nat.mod_eq_of_lt (by omega), if_pos (by omega)]

theorem BufView.put (hn : 1 ≤ n.toNat) (hend : buf.toNat + n.toNat ≤ 2 ^ 32) {b : SprintBuf} (h : BufView mem buf n w b)
    (c : Word) :
    BufView mem buf n (w ++ [c]) (SprintBuf.sprintputch c b) := by
  have hnlt : n.toNat < 2 ^ 32 := n.isLt
  have hcnt : b.cnt + 1#32 = BitVec.ofNat 32 (w ++ [c]).length := by
    rw [h.cnt, List.length_append, BitVec.ofNat_add]
    rfl
  have hebuf : b.ebuf.toNat = buf.toNat + (n.toNat - 1) := by
    rw [h.last]
    bv_omega
  have hbuf : b.buf.toNat = buf.toNat + min w.length (n.toNat - 1) := by
    have hk : (BitVec.ofNat 32 (min w.length (n.toNat - 1))).toNat = min w.length (n.toNat - 1) := by
      rw [BitVec.toNat_ofNat, Nat.mod_eq_of_lt (by omega)]
    rw [h.next, BitVec.toNat_add, hk, Nat.mod_eq_of_lt (by omega)]
  unfold SprintBuf.sprintputch
  dsimp only
  by_cases hroom : w.length < n.toNat - 1
  · -- the character goes to the place behind the text
    have hlen : min w.length (n.toNat - 1) = w.length := by omega
    have hlen' : min (w ++ [c]).length (n.toNat - 1) = w.length + 1 := by
      rw [List.length_append, List.length_singleton]
      omega
    rw [if_pos (by omega)]
    constructor
    · show b.buf + 1#32 = _
      rw [h.next, hlen, hlen', BitVec.add_assoc, BitVec.ofNat_add]
    · exact h.last
    · exact hcnt
    · intro j hj
      rw [hlen'] at hj
      show Function.update b.mem b.buf _ _ = _
      by_cases hjw : j = w.length
      · rw [hjw, h.next, hlen, Function.update_self, List.getD_append_right _ _ _ _ le_rfl, Nat.sub_self]
        rfl
      · have hne : buf + BitVec.ofNat 32 j ≠ b.buf := by
          intro he
          have := congrArg (fun x => (x - buf).toNat) he
          simp only [h.next, hlen, toNat_offset buf (show j < 2 ^ 32 by omega),
            toNat_offset buf (show w.length < 2 ^ 32 by omega)] at this
          exact hjw this
        rw [Function.update_of_ne hne, h.text j (by omega), List.getD_append _ _ _ _ (by omega)]
    · intro a ha
      rw [hlen'] at ha
      show Function.update b.mem b.buf _ _ = _
      have hne : a ≠ b.buf := by
        intro he
        rw [he, h.next, hlen, toNat_offset _ (by omega)] at ha
        omega
      rw [Function.update_of_ne hne, h.rest a (by omega)]
  · -- the buffer is full, and the character is counted only
    have hlen : min (w ++ [c]).length (n.toNat - 1) = min w.length (n.toNat - 1) := by
      rw [List.length_append]
      omega
    rw [if_neg (by omega)]
    constructor
    · rw [hlen]
      exact h.next
    · exact h.last
    · exact hcnt
    · intro j hj
      rw [hlen] at hj
      rw [List.getD_append _ _ _ _ (by omega)]
      exact h.text j hj
    · intro a ha
      rw [hlen] at ha
      exact h.rest a ha

theorem toNat_pos_of_toInt (hn : 1 ≤ n.toInt) : 1 ≤ n.toNat := by
  rw [BitVec.toInt_eq_toNat_cond] at hn
  split at hn <;> omega

/-- The run into a buffer that the formatting does not read. -/
theorem vsnprintf_buffer (hbuf : buf ≠ 0#32) (hn : 1 ≤ n.toInt) (hend : buf.toNat + n.toNat ≤ 2 ^ 32)
    (h : emitted mem (inBuf buf n) lim fmt ap = some w) :
    ∃ b, BufView mem buf n w b ∧
      vsnprintf lim mem buf n fmt ap = some (b.cnt, { b with mem := Function.update b.mem b.buf 0#8 }) := by
  have hn' := toNat_pos_of_toInt hn
  have hread : ∀ a ⦃w : List Word⦄ ⦃b : SprintBuf⦄, BufView mem buf n w b → inBuf buf n a = false → b.mem a = mem a := by
    intro a w b hb ha
    refine hb.rest a ?_
    have : ¬ (a - buf).toNat < n.toNat := by simpa [inBuf] using ha
    omega
  have hstart : BufView mem buf n [] { buf, ebuf := buf + n - 1#32, mem } := by
    constructor <;> simp
  obtain ⟨b, hr, hb⟩ := emitted_sim (g := SprintBuf.host) h (fun c _ _ hb => hb.put hn' hend c)
    (fun a _ b hb ha => by rw [← hread a hb ha]; rfl) (fun a _ b hb ha => by rw [← hread a hb ha]; rfl) hstart
  refine ⟨b, hb, ?_⟩
  unfold vsnprintf
  rw [if_neg (by rintro (h | h) <;> [exact hbuf h; omega]), hr]
  rfl

/-- The text with its NUL. -/
theorem BufView.terminated {b : SprintBuf} (hb : BufView mem buf n w b) :
    (∀ j < min w.length (n.toNat - 1), Function.update b.mem b.buf 0#8 (buf + BitVec.ofNat 32 j) = (w.getD j 0#32).setWidth 8) ∧
      Function.update b.mem b.buf 0#8 (buf + BitVec.ofNat 32 (min w.length (n.toNat - 1))) = 0#8 ∧
      ∀ a, min w.length (n.toNat - 1) < (a - buf).toNat → Function.update b.mem b.buf 0#8 a = mem a := by
  have hnlt : n.toNat < 2 ^ 32 := n.isLt
  refine ⟨fun j hj => ?_, ?_, fun a ha => ?_⟩
  · have hne : buf + BitVec.ofNat 32 j ≠ b.buf := by
      intro he
      have := congrArg (fun x => (x - buf).toNat) he
      simp only [hb.next] at this
      rw [toNat_offset _ (by omega), toNat_offset _ (by omega)] at this
      omega
    rw [Function.update_of_ne hne, hb.text j hj]
  · rw [← hb.next, Function.update_self]
  · have hne : a ≠ b.buf := by
      intro he
      rw [he, hb.next, toNat_offset _ (by omega)] at ha
      omega
    rw [Function.update_of_ne hne, hb.rest a (by omega)]

/-- `vsnprintf` into a buffer that the formatting does not read is a bounded view of the unbounded output. -/
theorem vsnprintf_view (hbuf : buf ≠ 0#32) (hn : 1 ≤ n.toInt) (hend : buf.toNat + n.toNat ≤ 2 ^ 32)
    (h : emitted mem (inBuf buf n) lim fmt ap = some w) (hw : w.length < 2 ^ 31) :
    emitted mem (fun _ => false) lim fmt ap = some w ∧
      ∃ r b, vsnprintf lim mem buf n fmt ap = some (r, b) ∧ r.toInt = w.length ∧
        (∀ j < min w.length (n.toNat - 1), b.mem (buf + BitVec.ofNat 32 j) = (w.getD j 0#32).setWidth 8) ∧
        b.mem (buf + BitVec.ofNat 32 (min w.length (n.toNat - 1))) = 0#8 ∧
        ∀ a, min w.length (n.toNat - 1) < (a - buf).toNat → b.mem a = mem a := by
  obtain ⟨b, hb, hrun⟩ := vsnprintf_buffer hbuf hn hend h
  exact ⟨emitted_plain h, b.cnt, _, hrun, by rw [hb.cnt, toInt_length hw], hb.terminated⟩

theorem vsnprintf_view_short : ∃ r b,
    vsnprintf 20 (withStrings [(0x1000#32, strLit "ab%s"), (0x2000#32, strLit "cd")]) 0x3000#32 4#32 0x1000#32
      (fun _ => 0x2000#32) = some (r, b) ∧ r.toInt = 4 ∧ b.mem 0x3002#32 = chr 'c' ∧ b.mem 0x3003#32 = 0#8 := by
  have hw : emitted (withStrings [(0x1000#32, strLit "ab%s"), (0x2000#32, strLit "cd")]) (inBuf 0x3000#32 4#32) 20 0x1000#32
      (fun _ => 0x2000#32) = some [0x61#32, 0x62#32, 0x63#32, 0x64#32] := by decide +kernel
  obtain ⟨-, r, b, hv, hr, htext, hnul, -⟩ := vsnprintf_view (by decide) (by decide) (by decide) hw (by decide)
  exact ⟨r, b, hv, hr, htext 2 (by decide), hnul⟩

/-- Both arguments are the buffer itself. -/
theorem vsnprintf_overlap :
    (emitted (withStrings [(0x1000#32, strLit "%s%s"), (0x3000#32, strLit "ab")]) (fun _ => false) 20 0x1000#32
      (fun _ => 0x3000#32)).map List.length = some 4 ∧
    (vsnprintf 20 (withStrings [(0x1000#32, strLit "%s%s"), (0x3000#32, strLit "ab")]) 0x3000#32 5#32 0x1000#32
      (fun _ => 0x3000#32)).map (·.1) = some 6#32 := by
  decide +kernel

/-! ## The counts -/

/-- The number of characters emitted, as each of the three reports it. `vsnprintf` may overwrite a string that it has
still to print, and is then counted against what its own run emits; where formatting reads no byte of the buffer, it returns
and reports the same number. -/
def SameCount (lim : Nat) (mem : Bytes) (fmt : Word) (ap : Nat → Word) (count : Nat) : Prop :=
  (∃ r s, KernSink.vcprintf lim mem fmt ap = some (r, s) ∧ s.console.length = count ∧ r.toInt = count) ∧
    (∃ r b, PrintBuf.vcprintf lim mem fmt ap = some (r, b) ∧ b.out.length = count ∧ r.toInt = count) ∧
    ∀ buf n, buf ≠ 0#32 → 1 ≤ n.toInt →
      (∀ r b, vsnprintf lim mem buf n fmt ap = some (r, b) → b.out.length < 2 ^ 31 → r.toInt = b.out.length) ∧
      (buf.toNat + n.toNat ≤ 2 ^ 32 → emitted mem (inBuf buf n) lim fmt ap ≠ none →
        ∃ r b, vsnprintf lim mem buf n fmt ap = some (r, b) ∧ r.toInt = count)

theorem kernel_count (h : emitted mem (fun _ => false) lim fmt ap = some w) :
    KernSink.vcprintf lim mem fmt ap = some (0#32, { console := w }) := by
  obtain ⟨s, hr, rfl⟩ := emitted_sim (R := fun w s => s = { console := w }) (g := KernSink.host mem) h
    (fun c _ _ hs => by rw [hs]; rfl) (fun _ _ _ _ _ => rfl) (fun _ _ _ _ _ => rfl) rfl
  unfold KernSink.vcprintf
  rw [hr]
  rfl

theorem user_count (h : emitted mem (fun _ => false) lim fmt ap = some w) :
    ∃ b, PrintBuf.vcprintf lim mem fmt ap = some (BitVec.ofNat 32 w.length, b) ∧ b.out = w := by
  have hput : ∀ (c : Word) (b : PrintBuf), (b.putch c).cnt = b.cnt + 1#32 ∧ (b.putch c).out = b.out ++ [c] := by
    intro c b
    unfold PrintBuf.putch
    dsimp only
    split <;> exact ⟨rfl, rfl⟩
  obtain ⟨b, hr, hcnt, hout⟩ := emitted_sim (R := fun w (b : PrintBuf) => b.cnt = BitVec.ofNat 32 w.length ∧ b.out = w)
    (g := PrintBuf.host mem) h
    (fun c w b ⟨hcnt, hout⟩ => by
      refine ⟨?_, ?_⟩
      · show (b.putch c).cnt = _
        rw [(hput c b).1, hcnt, List.length_append, BitVec.ofNat_add]
        rfl
      · show (b.putch c).out = _
        rw [(hput c b).2, hout])
    (fun _ _ _ _ _ => rfl) (fun _ _ _ _ _ => rfl) (s := {}) ⟨rfl, rfl⟩
  refine ⟨b.sysCputs, ?_, hout⟩
  unfold PrintBuf.vcprintf
  rw [hr, ← hcnt]
  rfl

/-- `vsnprintf` counts what it was handed, whatever it reads meanwhile. -/
theorem vsnprintf_count {r : Word} {b : SprintBuf} (hbuf : buf ≠ 0#32) (hn : 1 ≤ n.toInt)
    (h : vsnprintf lim mem buf n fmt ap = some (r, b)) : r = BitVec.ofNat 32 b.out.length := by
  have H : HostSim (Same fun b : SprintBuf => b.cnt = BitVec.ofNat 32 b.out.length) SprintBuf.host SprintBuf.host := by
    refine ⟨fun c s t ⟨hst, hs⟩ => ⟨by rw [hst], ?_⟩, fun a s t ⟨hst, hs⟩ x s' hx => ?_⟩
    · show (SprintBuf.sprintputch c s).cnt = BitVec.ofNat 32 (SprintBuf.sprintputch c s).out.length
      have hc : (SprintBuf.sprintputch c s).cnt = s.cnt + 1#32 ∧ (SprintBuf.sprintputch c s).out = s.out ++ [c] := by
        unfold SprintBuf.sprintputch
        dsimp only
        split <;> exact ⟨rfl, rfl⟩
      rw [hc.1, hc.2, hs, List.length_append, BitVec.ofNat_add]
      rfl
    · cases hx
      exact ⟨s, by rw [← hst]; rfl, rfl, hs⟩
  have hsim := vprintfmt_sim H (fun a => H.load a) lim fmt ap
  unfold vsnprintf at h
  rw [if_neg (by rintro (h | h) <;> [exact hbuf h; omega])] at h
  obtain ⟨⟨u, b'⟩, hb', he⟩ := Option.bind_eq_some_iff.1 h
  cases he
  exact hsim.keeps rfl hb'

/-- The kernel's `vcprintf` returns 0, so the three agree exactly when nothing is emitted. -/
theorem same_count_iff_nil (h : emitted mem (fun _ => false) lim fmt ap = some w) (hw : w.length < 2 ^ 31) :
    SameCount lim mem fmt ap w.length ↔ w = [] := by
  constructor
  · rintro ⟨⟨r, s, hk, -, hr⟩, -⟩
    rw [kernel_count h] at hk
    cases hk
    have hzero : (w.length : Int) = 0 := hr.symm
    exact List.length_eq_zero_iff.1 (by omega)
  · rintro rfl
    obtain ⟨b, hu, hout⟩ := user_count h
    refine ⟨⟨_, _, kernel_count h, rfl, rfl⟩, ⟨_, b, hu, by rw [hout], rfl⟩, fun buf n hbuf hn => ⟨fun r b hv hlen => ?_,
      fun hend hread => ?_⟩⟩
    · rw [vsnprintf_count hbuf hn hv, toInt_length hlen]
    · obtain ⟨w, hw'⟩ := Option.ne_none_iff_exists'.1 hread
      cases h.symm.trans (emitted_plain hw')
      obtain ⟨b, hb, hrun⟩ := vsnprintf_buffer hbuf hn hend hw'
      exact ⟨b.cnt, _, hrun, by rw [hb.cnt]; rfl⟩

/-- The kernel prints a character and reports none. -/
theorem kernel_reports_none :
    (emitted (withStrings [(0x1000#32, strLit "a")]) (fun _ => false) 20 0x1000#32 (fun _ => 0#32)).map List.length = some 1 ∧
    (KernSink.vcprintf 20 (withStrings [(0x1000#32, strLit "a")]) 0x1000#32 (fun _ => 0#32)).map (·.1) = some 0#32 := by
  decide +kernel

end Jos
